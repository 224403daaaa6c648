import TripleInference.Proofs.Ending
import TripleInference.Proofs.Fact.Coherence
import TripleInference.Store.Recording

/-!
What every store of facts promises. Reading leaves the facts as they are, writing changes one of
them, and a request that fails changes nothing. The graph of an engine over two such stores keeps
its raw facts and its deductions apart and is read as their union.
-/
namespace TripleInference

structure Lookup.Answered (l : Lookup) (facts : Set Triple) (ts : List Triple) : Prop where
  ascending : ts.Pairwise (compare · · = .lt)
  mem_iff : ∀ t, t ∈ ts ↔ t ∈ facts ∧ l.fits t = true

theorem Lookup.Answered.nodup {l : Lookup} {facts : Set Triple} {ts : List Triple}
    (answered : l.Answered facts ts) : ts.Nodup :=
  answered.ascending.imp fun less same => by simp [same] at less

theorem Lookup.Answered.nonempty_iff {facts : Set Triple} {t : Triple} {ts : List Triple}
    (answered : (Lookup.exactly t).Answered facts ts) : (!ts.isEmpty) = true ↔ t ∈ facts := by
  rw [Bool.not_eq_true', List.isEmpty_eq_false_iff_exists_mem]
  constructor
  · rintro ⟨u, found⟩
    obtain ⟨stored, same⟩ := (answered.mem_iff u).mp found
    rwa [Lookup.fits_exactly.mp same]
  · exact fun stored => ⟨t, (answered.mem_iff t).mpr ⟨stored, Lookup.fits_exactly.mpr rfl⟩⟩

theorem TripleSource.ends_contains {S : Type} [TripleSource S] {s : S} {t : Triple}
    {facts : Set Triple} {kept : S → Prop} {bad : StoreError → S → Prop}
    (asks : (TripleSource.contains t : Step StoreError S Bool) =
      do return !(← TripleSource.find (.exactly t)).isEmpty)
    (ends : (TripleSource.find (.exactly t)).Ends s
      (fun ts s' => (Lookup.exactly t).Answered facts ts ∧ kept s') bad) :
    (TripleSource.contains t).Ends s (fun known s' => (known = true ↔ t ∈ facts) ∧ kept s') bad := by
  rw [asks, Step.ends_bind]
  exact ends.imp fun ts s' ⟨answered, same⟩ => ⟨answered.nonempty_iff, same⟩

class LawfulSource (S : Type) [TripleSource S] where
  facts : S → Set Triple
  /-- The states a store of this kind can be in. -/
  sound : S → Prop
  /-- Whether requests may fail at all. -/
  fails : Prop
  find_ends : ∀ {s}, sound s → ∀ l, (TripleSource.find l).Ends s
    (fun ts s' => l.Answered (facts s) ts ∧ sound s' ∧ facts s' = facts s)
    (fun _ s' => fails ∧ sound s' ∧ facts s' = facts s)
  contains_ends : ∀ {s}, sound s → ∀ t, (TripleSource.contains t).Ends s
    (fun known s' => (known = true ↔ t ∈ facts s) ∧ sound s' ∧ facts s' = facts s)
    (fun _ s' => fails ∧ sound s' ∧ facts s' = facts s)

class LawfulSink (S : Type) [TripleSink S] extends LawfulSource S where
  add_ends : ∀ {s}, sound s → ∀ t, (TripleSink.add t).Ends s
    (fun added s' => (added = true ↔ t ∉ facts s) ∧ sound s' ∧ facts s' = {t} ∪ facts s)
    (fun _ s' => fails ∧ sound s' ∧ facts s' = facts s)
  delete_ends : ∀ {s}, sound s → ∀ t, (TripleSink.delete t).Ends s
    (fun deleted s' => (deleted = true ↔ t ∈ facts s) ∧ sound s' ∧ facts s' = facts s \ {t})
    (fun _ s' => fails ∧ sound s' ∧ facts s' = facts s)

class LawfulStore (S : Type) [TripleSink S] [EmptyCollection S] extends LawfulSink S where
  sound_empty : sound ∅
  facts_empty : facts ∅ = ∅

theorem FactIndex.Coherent.answered_find {x : FactIndex} (coherent : x.Coherent) (l : Lookup) :
    l.Answered x.facts (x.find l) :=
  ⟨Triple.ascending_pairwise_lt _, fun _ => coherent.mem_find⟩

instance : LawfulStore FactIndex where
  facts := FactIndex.facts
  sound := FactIndex.Coherent
  fails := False
  find_ends coherent l := ⟨coherent.answered_find l, coherent, rfl⟩
  contains_ends coherent _ := ⟨Iff.rfl, coherent, rfl⟩
  add_ends coherent t := ⟨FactIndex.insert_fst _ t, coherent.insert t, FactIndex.facts_insert _ t⟩
  delete_ends coherent t := ⟨FactIndex.erase_fst _ t, coherent.erase t, FactIndex.facts_erase _ t⟩
  sound_empty := FactIndex.coherent_empty
  facts_empty := FactIndex.facts_empty

namespace Recording

theorem ends_answer {α : Type} {request : Recording → α × Recording} {r : Recording}
    {good : α → Recording → Prop} {bad : StoreError → Recording → Prop} :
    (answer request).Ends r good bad ↔
      match r.failure with
      | some failure => bad failure r
      | none => good (request r).1 (request r).2 := by
  unfold Step.Ends Step.outcome answer
  cases r.failure <;> rfl

theorem find_ends {r : Recording} (coherent : r.facts.Coherent) (l : Lookup) :
    (TripleSource.find l).Ends r
      (fun ts r' => l.Answered r.facts.facts ts ∧ r'.facts.Coherent ∧ r'.facts.facts = r.facts.facts)
      (fun _ r' => True ∧ r'.facts.Coherent ∧ r'.facts.facts = r.facts.facts) := by
  apply ends_answer.mpr
  split
  · exact ⟨trivial, coherent, rfl⟩
  · exact ⟨coherent.answered_find l, coherent, rfl⟩

instance : LawfulStore Recording where
  facts r := r.facts.facts
  sound r := r.facts.Coherent
  fails := True
  find_ends := find_ends
  contains_ends coherent t := TripleSource.ends_contains rfl (find_ends coherent (.exactly t))
  add_ends {r} coherent t := by
    apply ends_answer.mpr
    split
    · exact ⟨trivial, coherent, rfl⟩
    · exact ⟨FactIndex.insert_fst _ t, coherent.insert t, FactIndex.facts_insert _ t⟩
  delete_ends {r} coherent t := by
    apply ends_answer.mpr
    split
    · exact ⟨trivial, coherent, rfl⟩
    · exact ⟨FactIndex.erase_fst _ t, coherent.erase t, FactIndex.facts_erase _ t⟩
  sound_empty := FactIndex.coherent_empty
  facts_empty := FactIndex.facts_empty

end Recording

namespace InferenceGraph

variable {R D : Type}

section
variable [TripleSource R] [LawfulSource R] [TripleSource D] [LawfulSource D]

def rawFacts (g : InferenceGraph R D) : Set Triple := g.raw.elim ∅ LawfulSource.facts

def deduced (g : InferenceGraph R D) : Set Triple := LawfulSource.facts g.deductions

def known (g : InferenceGraph R D) : Set Triple := g.rawFacts ∪ g.deduced

def Sound (g : InferenceGraph R D) : Prop :=
  (∀ raw ∈ g.raw, LawfulSource.sound raw) ∧ LawfulSource.sound g.deductions

def MayFail (R D : Type) [TripleSource R] [LawfulSource R] [TripleSource D] [LawfulSource D] :
    Prop := LawfulSource.fails R ∨ LawfulSource.fails D

structure Same (g h : InferenceGraph R D) : Prop where
  hasRaw : h.raw.isSome = g.raw.isSome
  rawFacts : h.rawFacts = g.rawFacts
  deduced : h.deduced = g.deduced
  sound : h.Sound

theorem Same.refl {g : InferenceGraph R D} (sound : g.Sound) : Same g g := ⟨rfl, rfl, rfl, sound⟩

theorem Same.trans {g h k : InferenceGraph R D} (first : Same g h) (second : Same h k) :
    Same g k :=
  ⟨second.hasRaw.trans first.hasRaw, second.rawFacts.trans first.rawFacts,
    second.deduced.trans first.deduced, second.sound⟩

theorem Same.known {g h : InferenceGraph R D} (same : Same g h) : h.known = g.known := by
  rw [InferenceGraph.known, same.rawFacts, same.deduced, InferenceGraph.known]

variable {g : InferenceGraph R D} {α : Type}

theorem onDeductions_ends {m : Step StoreError D α} {good : α → Prop} {fails : Prop}
    (sound : g.Sound)
    (ends : m.Ends g.deductions
      (fun a d => good a ∧ LawfulSource.sound d ∧ LawfulSource.facts d = g.deduced)
      (fun _ d => fails ∧ LawfulSource.sound d ∧ LawfulSource.facts d = g.deduced)) :
    (onDeductions m : Step StoreError (InferenceGraph R D) α).Ends g
      (fun a h => good a ∧ Same g h) (fun _ h => fails ∧ Same g h) := by
  rw [onDeductions, Step.ends_within]
  exact ends.mono (fun _ d ⟨goodA, soundD, kept⟩ => ⟨goodA, rfl, rfl, kept, sound.1, soundD⟩)
    (fun _ d ⟨failed, soundD, kept⟩ => ⟨failed, rfl, rfl, kept, sound.1, soundD⟩)

theorem onRaw_ends {m : Step StoreError R α} {good : R → α → Prop} {fails : Prop}
    (sound : g.Sound)
    (ends : ∀ raw, g.raw = some raw → m.Ends raw
      (fun a r => good raw a ∧ LawfulSource.sound r ∧ LawfulSource.facts r = LawfulSource.facts raw)
      (fun _ r => fails ∧ LawfulSource.sound r ∧ LawfulSource.facts r = LawfulSource.facts raw)) :
    (onRaw m : Step StoreError (InferenceGraph R D) (Option α)).Ends g
      (fun answer h => (∀ raw, g.raw = some raw → ∃ a, answer = some a ∧ good raw a) ∧
        (g.raw = none → answer = none) ∧ Same g h)
      (fun _ h => fails ∧ Same g h) := by
  unfold Step.Ends Step.outcome onRaw
  cases hasRaw : g.raw with
  | none =>
    refine ⟨?_, fun _ => rfl, Same.refl sound⟩
    rintro raw ⟨⟩
  | some raw =>
    have run := ends raw hasRaw
    unfold Step.Ends Step.outcome at run
    simp only [Step.outcome]
    have same : ∀ r, LawfulSource.sound r → LawfulSource.facts r = LawfulSource.facts raw →
        Same g { g with raw := some r } := by
      intro r soundR kept
      refine ⟨by simp [hasRaw], ?_, rfl, ?_, sound.2⟩
      · simpa [InferenceGraph.rawFacts, hasRaw] using kept
      · rintro r' ⟨⟩
        exact soundR
    rcases result : m raw with ⟨a | a, r⟩ <;> rw [result] at run
    · exact ⟨run.1, same r run.2.1 run.2.2⟩
    · refine ⟨?_, ?_, same r run.2.1 run.2.2⟩
      · rintro raw' ⟨⟩
        exact ⟨a, rfl, run.1⟩
      · rintro ⟨⟩

theorem find_ends (sound : g.Sound) (l : Lookup) :
    (find l).Ends g (fun ts h => l.Answered g.known ts ∧ Same g h)
      (fun _ h => MayFail R D ∧ Same g h) := by
  rw [find, Step.ends_bind]
  refine (onDeductions_ends sound (LawfulSource.find_ends sound.2 l)).mono ?_ ?_
  · intro below h ⟨belowAnswered, same⟩
    rw [Step.ends_bind]
    refine (onRaw_ends same.sound fun raw hasRaw =>
      LawfulSource.find_ends (same.sound.1 raw hasRaw) l).mono ?_ ?_
    · intro answer k ⟨whenRaw, whenNone, same'⟩
      cases hasRaw : h.raw with
      | none =>
        rw [whenNone hasRaw, Step.ends_pure]
        have noRaw : g.rawFacts = ∅ := by rw [← same.rawFacts, rawFacts, hasRaw]; rfl
        refine ⟨?_, same.trans same'⟩
        rwa [InferenceGraph.known, noRaw, Set.empty_union]
      | some raw =>
        obtain ⟨above, rfl, aboveAnswered⟩ := whenRaw raw hasRaw
        rw [Step.ends_pure]
        have rawFacts : g.rawFacts = LawfulSource.facts raw := by
          rw [← same.rawFacts, InferenceGraph.rawFacts, hasRaw]; rfl
        refine ⟨⟨Triple.ascending_pairwise_lt _, fun t => ?_⟩, same.trans same'⟩
        rw [Triple.mem_ascending, List.mem_append, belowAnswered.mem_iff, aboveAnswered.mem_iff,
          InferenceGraph.known, rawFacts, Set.mem_union, InferenceGraph.deduced]
        tauto
    · exact fun _ k ⟨failed, same'⟩ => ⟨Or.inl failed, same.trans same'⟩
  · exact fun _ h ⟨failed, same⟩ => ⟨Or.inr failed, same⟩

theorem contains_ends (sound : g.Sound) (t : Triple) :
    (contains t).Ends g (fun found h => (found = true ↔ t ∈ g.known) ∧ Same g h)
      (fun _ h => MayFail R D ∧ Same g h) := by
  rw [contains, Step.ends_bind]
  refine (onDeductions_ends sound (LawfulSource.contains_ends sound.2 t)).mono ?_ ?_
  · intro below h ⟨belowIff, same⟩
    split
    · rename_i yes
      exact ⟨iff_of_true rfl (Or.inr (belowIff.mp yes)), same⟩
    · rename_i no
      rw [Step.ends_bind]
      refine (onRaw_ends same.sound fun raw hasRaw =>
        LawfulSource.contains_ends (same.sound.1 raw hasRaw) t).mono ?_ ?_
      · intro answer k ⟨whenRaw, whenNone, same'⟩
        refine ⟨?_, same.trans same'⟩
        have notDeduced : t ∉ g.deduced := fun mem => no (belowIff.mpr mem)
        rw [InferenceGraph.known, ← same.rawFacts, Set.mem_union, or_iff_left notDeduced,
          InferenceGraph.rawFacts]
        cases hasRaw : h.raw with
        | none => simp [whenNone hasRaw]
        | some raw =>
          obtain ⟨found, rfl, foundIff⟩ := whenRaw raw hasRaw
          exact foundIff
      · exact fun _ k ⟨failed, same'⟩ => ⟨Or.inl failed, same.trans same'⟩
  · exact fun _ h ⟨failed, same⟩ => ⟨Or.inr failed, same⟩

end

section
variable [TripleSource R] [LawfulSource R] [TripleSink D] [LawfulSink D]
variable {g : InferenceGraph R D}

structure Deduces (more : Set Triple) (g h : InferenceGraph R D) : Prop where
  hasRaw : h.raw.isSome = g.raw.isSome
  rawFacts : h.rawFacts = g.rawFacts
  deduced : h.deduced = more ∪ g.deduced
  sound : h.Sound

theorem Deduces.known {more : Set Triple} {h : InferenceGraph R D} (deduces : Deduces more g h) :
    h.known = more ∪ g.known := by
  rw [InferenceGraph.known, deduces.rawFacts, deduces.deduced, InferenceGraph.known,
    Set.union_left_comm]

theorem add_ends (sound : g.Sound) (t : Triple) :
    (onDeductions (TripleSink.add t) : Step StoreError (InferenceGraph R D) Bool).Ends g
      (fun added h => (added = true ↔ t ∉ g.deduced) ∧ Deduces {t} g h)
      (fun _ h => MayFail R D ∧ Same g h) := by
  rw [onDeductions, Step.ends_within]
  refine (LawfulSink.add_ends sound.2 t).mono ?_ ?_
  · exact fun added d ⟨new, soundD, facts⟩ => ⟨new, rfl, rfl, facts, sound.1, soundD⟩
  · exact fun _ d ⟨failed, soundD, kept⟩ => ⟨Or.inr failed, rfl, rfl, kept, sound.1, soundD⟩

structure Drops (t : Triple) (g h : InferenceGraph R D) : Prop where
  rawFacts : h.rawFacts = g.rawFacts
  deduced : h.deduced = g.deduced \ {t}
  sound : h.Sound

theorem delete_ends (sound : g.Sound) (t : Triple) :
    (onDeductions (TripleSink.delete t) : Step StoreError (InferenceGraph R D) Bool).Ends g
      (fun deleted h => (deleted = true ↔ t ∈ g.deduced) ∧ Drops t g h)
      (fun _ h => MayFail R D ∧ Same g h) := by
  rw [onDeductions, Step.ends_within]
  refine (LawfulSink.delete_ends sound.2 t).mono ?_ ?_
  · exact fun deleted d ⟨stored, soundD, facts⟩ => ⟨stored, rfl, facts, sound.1, soundD⟩
  · exact fun _ d ⟨failed, soundD, kept⟩ => ⟨Or.inr failed, rfl, rfl, kept, sound.1, soundD⟩

end

section
variable [TripleSink R] [EmptyCollection R] [LawfulStore R] [TripleSource D] [LawfulSource D]
variable {g : InferenceGraph R D}

theorem assertRaw_ends (sound : g.Sound) (t : Triple) :
    (assertRaw t).Ends g
      (fun added h => (added = true ↔ t ∉ g.rawFacts) ∧ h.rawFacts = {t} ∪ g.rawFacts ∧
        h.deduced = g.deduced ∧ h.raw.isSome = true ∧ h.Sound)
      (fun _ h => MayFail R D ∧ h.rawFacts = g.rawFacts ∧ h.deduced = g.deduced ∧ h.Sound) := by
  have store : LawfulSource.sound (g.raw.getD ∅) ∧
      LawfulSource.facts (g.raw.getD ∅) = g.rawFacts := by
    cases hasRaw : g.raw with
    | none =>
      exact ⟨LawfulStore.sound_empty, by simpa [rawFacts, hasRaw] using LawfulStore.facts_empty⟩
    | some raw => exact ⟨sound.1 raw hasRaw, by simp [rawFacts, hasRaw]⟩
  have run := LawfulSink.add_ends store.1 t
  unfold Step.Ends Step.outcome at run ⊢
  simp only [assertRaw, Step.outcome]
  have soundWith : ∀ r : R, LawfulSource.sound r → Sound { g with raw := some r } := by
    intro r soundR
    refine ⟨?_, sound.2⟩
    rintro r' ⟨⟩
    exact soundR
  rw [store.2] at run
  rcases result : TripleSink.add t (g.raw.getD ∅) with ⟨a | a, r⟩ <;> rw [result] at run
  · exact ⟨Or.inl run.1, run.2.2, rfl, soundWith r run.2.1⟩
  · exact ⟨run.1, run.2.2, rfl, rfl, soundWith r run.2.1⟩

end

end InferenceGraph

instance MemoryGraph.decidableKnown (g : MemoryGraph) (t : Triple) : Decidable (t ∈ g.known) :=
  decidable_of_iff (g.raw.any (·.contains t) = true ∨ g.deductions.contains t = true) <| by
    rw [InferenceGraph.known, Set.mem_union, InferenceGraph.rawFacts]
    refine or_congr ?_ Iff.rfl
    cases g.raw with
    | none => exact iff_of_false nofun (Set.notMem_empty t)
    | some raw => exact Iff.rfl

/-! In memory a graph is as it was after reading, not only with the same facts. -/

theorem MemoryGraph.find_reads (g : MemoryGraph) (l : Lookup) :
    (InferenceGraph.find l).Ends g (fun _ h => h = g) fun _ _ => False := by
  obtain ⟨raw, deductions⟩ := g
  cases raw with
  | none => rfl
  | some raw => rfl

theorem MemoryGraph.contains_reads (g : MemoryGraph) (t : Triple) :
    (InferenceGraph.contains t).Ends g (fun _ h => h = g) fun _ _ => False := by
  obtain ⟨raw, deductions⟩ := g
  rw [InferenceGraph.contains, Step.ends_bind, InferenceGraph.onDeductions, Step.ends_within]
  change (if deductions.contains t then _ else _ : Step _ _ _).Ends _ _ _
  split
  · rfl
  · cases raw with
    | none => rfl
    | some raw => rfl

theorem MemoryGraph.withRaw_sound (ts : List Triple) :
    (MemoryGraph.withRaw ts).Sound ∧ (MemoryGraph.withRaw ts).rawFacts = {t | t ∈ ts} ∧
      (MemoryGraph.withRaw ts).deduced = ∅ := by
  refine ⟨⟨?_, LawfulStore.sound_empty⟩, FactIndex.ofList_facts ts, LawfulStore.facts_empty⟩
  rintro raw ⟨⟩
  exact FactIndex.ofList_coherent ts

theorem MemoryGraph.withoutRaw_sound :
    MemoryGraph.withoutRaw.Sound ∧ MemoryGraph.withoutRaw.rawFacts = ∅ ∧
      MemoryGraph.withoutRaw.deduced = ∅ :=
  ⟨⟨nofun, LawfulStore.sound_empty⟩, rfl, LawfulStore.facts_empty⟩

end TripleInference
