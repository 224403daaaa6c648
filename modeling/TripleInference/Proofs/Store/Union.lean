import Mathlib.Order.BooleanAlgebra.Set
import TripleInference.Proofs.Store.Contract

/-!
The union that a graph is read as. In memory it is what the history of the graph says: each store
holds what has been put into it and not taken out since. Over other stores it is exact as long as
they are, and when a lookup fails it is because one of them does.
-/
namespace TripleInference

structure LookupContract (S : Type) [TripleSource S] where
  facts : S → Set Triple
  /-- The states a source of this kind can be in. -/
  sound : S → Prop
  fails : Prop
  find_ends : ∀ {s}, sound s → ∀ l, (TripleSource.find l).Ends s
    (fun ts s' => l.Answered (facts s) ts ∧ sound s' ∧ facts s' = facts s)
    (fun _ s' => fails ∧ sound s' ∧ facts s' = facts s)

/-- A source whose lookups are right is right altogether if it finds out by a lookup whether it has
a fact. -/
@[reducible] def LookupContract.lawful {S : Type} [TripleSource S] (contract : LookupContract S)
    (asks : ∀ t, (TripleSource.contains t : Step StoreError S Bool) =
      do return !(← TripleSource.find (.exactly t)).isEmpty) : LawfulSource S where
  facts := contract.facts
  sound := contract.sound
  fails := contract.fails
  find_ends := contract.find_ends
  contains_ends sound t :=
    TripleSource.ends_contains (asks t) (contract.find_ends sound (.exactly t))

namespace InferenceGraph

variable {R D α : Type}

/-- One of the two stores has failed with `e` on its own part of a request. -/
def StoreFails (g : InferenceGraph R D) (below : Step StoreError D α) (above : Step StoreError R α)
    (e : StoreError) : Prop :=
  (∃ d, below.outcome g.deductions = (.error e, d)) ∨
    ∃ raw ∈ g.raw, ∃ r, above.outcome raw = (.error e, r)

theorem onDeductions_fails (m : Step StoreError D α) (g : InferenceGraph R D) :
    (onDeductions m : Step StoreError (InferenceGraph R D) α).Ends g
      (fun _ h => h.raw = g.raw) (fun e _ => ∃ d, m.outcome g.deductions = (.error e, d)) := by
  rw [onDeductions, Step.ends_within]
  exact Step.ends_self.mono (fun _ _ _ => rfl) fun _ d run => ⟨d, run⟩

theorem onRaw_fails (m : Step StoreError R α) (g : InferenceGraph R D) :
    (onRaw m : Step StoreError (InferenceGraph R D) (Option α)).Ends g
      (fun _ _ => True) (fun e _ => ∃ raw ∈ g.raw, ∃ r, m.outcome raw = (.error e, r)) := by
  unfold Step.Ends Step.outcome onRaw
  cases hasRaw : g.raw with
  | none => trivial
  | some raw =>
    rcases run : m.outcome raw with ⟨e | a, r⟩
    · simp only [Step.outcome] at run ⊢
      rw [run]
      exact ⟨raw, rfl, r, run⟩
    · simp only [Step.outcome] at run ⊢
      rw [run]
      trivial

section
variable [TripleSource R] [TripleSource D]

theorem find_fails (g : InferenceGraph R D) (l : Lookup) :
    (find l).Ends g (fun _ _ => True)
      (fun e _ => g.StoreFails (TripleSource.find l) (TripleSource.find l) e) := by
  rw [find, Step.ends_bind]
  refine (onDeductions_fails _ g).mono (fun _ h sameRaw => ?_) fun _ _ failed => Or.inl failed
  rw [Step.ends_bind]
  refine (onRaw_fails _ h).mono (fun answer _ _ => ?_) fun _ _ failed => Or.inr (sameRaw ▸ failed)
  cases answer <;> trivial

theorem contains_fails (g : InferenceGraph R D) (t : Triple) :
    (contains t).Ends g (fun _ _ => True)
      (fun e _ => g.StoreFails (TripleSource.contains t) (TripleSource.contains t) e) := by
  rw [contains, Step.ends_bind]
  refine (onDeductions_fails _ g).mono (fun below h sameRaw => ?_) fun _ _ failed => Or.inl failed
  split
  · trivial
  · rw [Step.ends_bind]
    exact (onRaw_fails _ h).mono (fun _ _ _ => trivial) fun _ _ failed => Or.inr (sameRaw ▸ failed)

end

theorem retractRaw_facts [TripleSource D] [LawfulSource D] {g : InferenceGraph FactIndex D}
    (sound : g.Sound) (t : Triple) :
    ((g.retractRaw t).1 = true ↔ t ∈ g.rawFacts) ∧
      (g.retractRaw t).2.rawFacts = g.rawFacts \ {t} ∧
      (g.retractRaw t).2.deduced = g.deduced ∧ (g.retractRaw t).2.Sound := by
  obtain ⟨raw, deductions⟩ := g
  cases raw with
  | none =>
    have noRaw : (⟨none, deductions⟩ : InferenceGraph FactIndex D).rawFacts = ∅ := rfl
    refine ⟨?_, ?_, rfl, sound⟩
    · simp [retractRaw, noRaw]
    · rw [noRaw, Set.empty_sdiff]
      rfl
  | some raw =>
    refine ⟨raw.erase_fst t, raw.facts_erase t, rfl, ?_, sound.2⟩
    rintro r ⟨⟩
    exact (sound.1 raw rfl).erase t

end InferenceGraph

namespace MemoryGraph

open InferenceGraph

/-- What the owner of a graph and the engine over it do to its facts. -/
inductive Edit where
  | assert (t : Triple)
  | retract (t : Triple)
  | deduce (t : Triple)
  | withdraw (t : Triple)

def Edit.on (g : MemoryGraph) : Edit → MemoryGraph
  | .assert t => ((assertRaw t).outcome g).2
  | .retract t => (g.retractRaw t).2
  | .deduce t => ((onDeductions (TripleSink.add t)).outcome g).2
  | .withdraw t => ((onDeductions (TripleSink.delete t)).outcome g).2

def Edit.onRaw (facts : Set Triple) : Edit → Set Triple
  | .assert t => {t} ∪ facts
  | .retract t => facts \ {t}
  | .deduce _ => facts
  | .withdraw _ => facts

def Edit.onDeduced (facts : Set Triple) : Edit → Set Triple
  | .assert _ => facts
  | .retract _ => facts
  | .deduce t => {t} ∪ facts
  | .withdraw t => facts \ {t}

def start : Option (List Triple) → MemoryGraph
  | none => withoutRaw
  | some ts => withRaw ts

structure Holds (raw deduced : Set Triple) (g : MemoryGraph) : Prop where
  sound : g.Sound
  rawFacts : g.rawFacts = raw
  deduced : g.deduced = deduced

theorem holds_start (given : Option (List Triple)) :
    Holds {t | t ∈ given.getD []} ∅ (start given) := by
  cases given with
  | none =>
    obtain ⟨sound, rawFacts, deduced⟩ := withoutRaw_sound
    exact ⟨sound, by simpa [start] using rawFacts, deduced⟩
  | some ts =>
    obtain ⟨sound, rawFacts, deduced⟩ := withRaw_sound ts
    exact ⟨sound, rawFacts, deduced⟩

theorem memory_never_fails : ¬ MayFail FactIndex FactIndex := fun failed =>
  failed.elim id id

theorem Holds.edit {raw deduced : Set Triple} {g : MemoryGraph} (holds : Holds raw deduced g)
    (edit : Edit) : Holds (edit.onRaw raw) (edit.onDeduced deduced) (edit.on g) := by
  obtain ⟨sound, rfl, rfl⟩ := holds
  cases edit with
  | assert t =>
    refine ((assertRaw_ends sound t).mono ?_ fun _ _ failed => ?_).final
    · exact fun _ h ⟨_, rawFacts, deduced, _, sound'⟩ => ⟨sound', rawFacts, deduced⟩
    · exact absurd failed.1 memory_never_fails
  | retract t =>
    obtain ⟨-, rawFacts, deduced, sound'⟩ := retractRaw_facts sound t
    exact ⟨sound', rawFacts, deduced⟩
  | deduce t =>
    refine ((add_ends sound t).mono ?_ fun _ _ failed => ?_).final
    · exact fun _ h ⟨_, deduces⟩ => ⟨deduces.sound, deduces.rawFacts, deduces.deduced⟩
    · exact absurd failed.1 memory_never_fails
  | withdraw t =>
    refine ((delete_ends sound t).mono ?_ fun _ _ failed => ?_).final
    · exact fun _ h ⟨_, drops⟩ => ⟨drops.sound, drops.rawFacts, drops.deduced⟩
    · exact absurd failed.1 memory_never_fails

theorem Holds.edits {raw deduced : Set Triple} {g : MemoryGraph} (holds : Holds raw deduced g)
    (edits : List Edit) :
    Holds (edits.foldl Edit.onRaw raw) (edits.foldl Edit.onDeduced deduced)
      (edits.foldl Edit.on g) := by
  induction edits generalizing raw deduced g with
  | nil => exact holds
  | cons edit edits ih => exact ih (holds.edit edit)

variable {raw deduced : Set Triple} {g : MemoryGraph}

theorem Holds.find (holds : Holds raw deduced g) (l : Lookup) :
    ∃ ts, (InferenceGraph.find l).outcome g = (.ok ts, g) ∧ l.Answered (raw ∪ deduced) ts := by
  have ends := (find_ends holds.sound l).and (find_reads g l)
  obtain ⟨ts, h, run, ⟨answered, -⟩, rfl⟩ := ends.result fun _ _ failed => failed.2
  rw [known, holds.rawFacts, holds.deduced] at answered
  exact ⟨ts, run, answered⟩

theorem Holds.contains (holds : Holds raw deduced g) (t : Triple) :
    ∃ found, (InferenceGraph.contains t).outcome g = (.ok found, g) ∧
      (found = true ↔ t ∈ raw ∪ deduced) := by
  have ends := (contains_ends holds.sound t).and (contains_reads g t)
  obtain ⟨found, h, run, ⟨found_iff, -⟩, rfl⟩ := ends.result fun _ _ failed => failed.2
  rw [known, holds.rawFacts, holds.deduced] at found_iff
  exact ⟨found, run, found_iff⟩

end MemoryGraph

namespace InferenceGraph

/-- However a graph in memory was edited, a lookup lists just the facts that fit, ascending, among
those that were put into either store and not taken out since, and membership is told alike; neither
fails or changes the graph. Over other stores both are as exact as the stores are, and they fail only
if a store does. A store whose lookups are exact is so in both respects if it finds out by a lookup
what it has. -/
theorem union_view_is_exact :
    (∀ (given : Option (List Triple)) (edits : List MemoryGraph.Edit),
      let g := edits.foldl MemoryGraph.Edit.on (MemoryGraph.start given)
      let known := edits.foldl MemoryGraph.Edit.onRaw {t | t ∈ given.getD []} ∪
        edits.foldl MemoryGraph.Edit.onDeduced ∅
      (∀ l, ∃ ts, (find l).outcome g = (.ok ts, g) ∧ l.Answered known ts) ∧
        ∀ t, ∃ found, (contains t).outcome g = (.ok found, g) ∧ (found = true ↔ t ∈ known)) ∧
    (∀ {R D : Type} [TripleSource R] [LawfulSource R] [TripleSource D] [LawfulSource D]
      (g : InferenceGraph R D), g.Sound →
      (∀ l, (find l).Ends g (fun ts h => l.Answered g.known ts ∧ Same g h)
        fun e h => g.StoreFails (TripleSource.find l) (TripleSource.find l) e ∧ Same g h) ∧
      ∀ t, (contains t).Ends g (fun found h => (found = true ↔ t ∈ g.known) ∧ Same g h)
        fun e h => g.StoreFails (TripleSource.contains t) (TripleSource.contains t) e ∧ Same g h) ∧
    ∀ {S : Type} [TripleSource S] (contract : LookupContract S),
      (∀ t, (TripleSource.contains t : Step StoreError S Bool) =
        do return !(← TripleSource.find (.exactly t)).isEmpty) →
      ∃ lawful : LawfulSource S, lawful.facts = contract.facts ∧ lawful.sound = contract.sound ∧
        lawful.fails = contract.fails := by
  refine ⟨fun given edits => ?_, fun g sound => ⟨fun l => ?_, fun t => ?_⟩,
    fun contract asks => ⟨contract.lawful asks, rfl, rfl, rfl⟩⟩
  · have holds := (MemoryGraph.holds_start given).edits edits
    exact ⟨holds.find, holds.contains⟩
  · exact ((find_ends sound l).and (find_fails g l)).mono (fun _ _ found => found.1)
      fun _ _ ⟨⟨_, same⟩, failed⟩ => ⟨failed, same⟩
  · exact ((contains_ends sound t).and (contains_fails g t)).mono (fun _ _ found => found.1)
      fun _ _ ⟨⟨_, same⟩, failed⟩ => ⟨failed, same⟩

theorem shared_fact_is_listed_once :
    let raw : Recording := .ofFacts (.ofList [⟨1, 2, 3⟩, ⟨4, 2, 5⟩])
    let g : InferenceGraph Recording FactIndex := ⟨some raw, .ofList [⟨1, 2, 3⟩, ⟨0, 2, 9⟩]⟩
    (g.Sound ∧ ∃ ts h, (find ⟨none, some 2, none⟩).outcome g = (.ok ts, h) ∧ ts.Nodup ∧
      ⟨1, 2, 3⟩ ∈ ts) ∧
    ∃ lawful : LawfulSource Recording, lawful.facts = fun r => r.facts.facts := by
  intro raw g
  have sound : g.Sound := by
    refine ⟨?_, FactIndex.ofList_coherent _⟩
    rintro r ⟨⟩
    exact FactIndex.ofList_coherent _
  obtain ⟨-, overLawful, overContract⟩ := union_view_is_exact
  refine ⟨⟨sound, ?_⟩, ?_⟩
  · have ends := (overLawful g sound).1 ⟨none, some 2, none⟩
    have never (e : StoreError) (h : InferenceGraph Recording FactIndex) :
        ¬ (g.StoreFails (TripleSource.find ⟨none, some 2, none⟩)
          (TripleSource.find ⟨none, some 2, none⟩) e ∧ Same g h) := by
      rintro ⟨⟨d, failed⟩ | ⟨r, ⟨⟩, r', failed⟩, -⟩
      · cases failed
      · cases failed
    obtain ⟨ts, h, run, answered, -⟩ := ends.result never
    refine ⟨ts, h, run, answered.nodup, (answered.mem_iff _).mpr ⟨Or.inl ?_, rfl⟩⟩
    change (⟨1, 2, 3⟩ : Triple) ∈ (FactIndex.ofList [⟨1, 2, 3⟩, ⟨4, 2, 5⟩]).facts
    rw [FactIndex.ofList_facts]
    exact List.mem_cons_self
  · obtain ⟨lawful, facts, -, -⟩ := overContract (S := Recording)
      ⟨fun r => r.facts.facts, fun r => r.facts.Coherent, True, Recording.find_ends⟩ fun _ => rfl
    exact ⟨lawful, facts⟩

end InferenceGraph
end TripleInference
