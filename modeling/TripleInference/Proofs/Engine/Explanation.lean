import TripleInference.Proofs.Engine.Accounting

/-!
Why the records of an engine can be trusted. They form a proof, line by line: each one applies a
rule to facts that are raw or that earlier records conclude. Records stay when facts are deleted,
and a fact that is deduced again is recorded again.
-/
namespace TripleInference
namespace Engine

section
variable {R D : Type} [TripleSource R] [LawfulSource R] [TripleSink D] [LawfulSink D]
  {c : CompiledRules} {e e' : Engine R D}

structure Blank (e : Engine R D) : Prop where
  recording : e.recording = true
  undeduced : e.graph.deduced = ∅
  unrecorded : e.records = []

omit [TripleSource R] [LawfulSource R] in
theorem Blank.congr (blank : Blank e) (recording : e'.recording = e.recording)
    (derivations : e'.derivations = e.derivations)
    (deduced : e'.graph.deduced ⊆ e.graph.deduced) : Blank e' where
  recording := recording.trans blank.recording
  undeduced := Set.subset_eq_empty deduced blank.undeduced
  unrecorded := (congrArg (·.records.toList) derivations).trans blank.unrecorded

theorem Blank.accounts (blank : Blank e) (sound : e.graph.Sound) (installed : e.compiled = some c) :
    Accounts c e where
  sound := sound
  installed := installed
  recording := blank.recording
  recorded u mem := absurd (blank.undeduced ▸ mem) (Set.notMem_empty u)
  proves := blank.unrecorded ▸ CompiledRules.proves_nil

def Accounted (e : Engine R D) : Prop := Blank e ∨ ∃ c, Accounts c e

theorem Accounted.accounts (accounted : Accounted e) (sound : e.graph.Sound)
    (installed : e.compiled = some c) : Accounts c e := by
  rcases accounted with blank | ⟨c', accounts⟩
  · exact blank.accounts sound installed
  · obtain rfl : c' = c := Option.some.inj (accounts.installed.symm.trans installed)
    exact accounts

theorem Accounted.accounts_of_runs (accounted : Accounted e) (sound : e.graph.Sound)
    {ignoreBackward : Bool} (runs : e.Runs ignoreBackward c) (journal : Journal) :
    Accounts c { e with compiled := some c, journal } := by
  rcases accounted with blank | ⟨c', accounts⟩
  · have blank' : Blank { e with compiled := some c, journal } :=
      blank.congr rfl rfl (Set.Subset.refl _)
    exact blank'.accounts sound rfl
  · rcases runs with installed | ⟨missing, -⟩
    · obtain rfl : c' = c := Option.some.inj (accounts.installed.symm.trans installed)
      exact accounts.congr sound rfl rfl rfl (Set.Subset.refl _) (Set.Subset.refl _)
    · exact absurd (missing.symm.trans accounts.installed) nofun

theorem delete_accounted (accounted : Accounted e) (sound : e.graph.Sound) (t : Triple) :
    (delete t).Ends e (fun _ => Accounted) (fun _ => Accounted) := by
  refine (delete_ends t sound).mono ?_ ?_
  · intro _ e' ended
    obtain ⟨g, deleted, drops, rfl⟩ := ended
    have deduced : g.deduced ⊆ e.graph.deduced := drops.deduced.subset.trans Set.sdiff_subset
    rcases accounted with blank | ⟨c, accounts⟩
    · exact Or.inl (blank.congr rfl rfl deduced)
    · exact Or.inr ⟨c, accounts.congr drops.sound accounts.installed rfl rfl
        drops.rawFacts.symm.subset deduced⟩
  · intro failure e' ended
    obtain ⟨-, g, same, rfl⟩ := ended
    rcases accounted with blank | ⟨c, accounts⟩
    · exact Or.inl (blank.congr rfl rfl same.deduced.subset)
    · exact Or.inr ⟨c, accounts.of_same same rfl rfl⟩

end

section
variable {R D : Type} [TripleSink R] [EmptyCollection R] [LawfulStore R] [TripleSink D]
  [LawfulSink D] {c : CompiledRules} {e : Engine R D}

theorem add_accounts (compiled : c.Compiled) (accounts : Accounts c e) (t : Triple) :
    (add t).Ends e (fun _ e' => Accounts c e') (fun _ e' => Accounts c e') := by
  apply add_kept compiled (kept_accounts c).toKeptByDeducing accounts.installed accounts.sound
  case stored =>
    intro g stores
    exact accounts.congr stores.sound accounts.installed rfl rfl
      (fun u mem => (stores.rawFacts u).mpr (Or.inl mem)) stores.deduced.subset
  case stopped =>
    intro g sound rawFacts deduced
    exact accounts.congr sound accounts.installed rfl rfl rawFacts.symm.subset deduced.subset

/-- Every request but a single step keeps the records a proof. A single step may work on a triple
that is not known, and what it deduces would then rest on nothing. -/
theorem Request.run_accounted (request : Request) (inOrder : e.InOrder) (accounted : Accounted e)
    (whole : ∀ t, request ≠ .applyOnce t) : Accounted (request.run.outcome e).2 := by
  have ends {α : Type} {m : Step Failure (Engine R D) α} {c : CompiledRules}
      (kept : m.Ends e (fun _ e' => Accounts c e') (fun _ e' => Accounts c e')) :
      m.Ends e (fun _ => Accounted) (fun _ => Accounted) :=
    kept.mono (fun _ _ accounts => Or.inr ⟨c, accounts⟩) fun _ _ accounts => Or.inr ⟨c, accounts⟩
  apply request.final_of Accounted
  case stay => exact fun _ => accounted
  case reset =>
    intro _
    rcases accounted with blank | ⟨c, accounts⟩
    · exact Or.inl (blank.congr rfl rfl (Set.Subset.refl _))
    · exact Or.inr ⟨c, (kept_accounts c).proceed .uninitialized false accounts⟩
  case init =>
    intro ignoreBackward c _ runs
    exact ends ((init_kept (inOrder.compiled_of_runs runs) (kept_accounts c) runs
      (accounted.accounts_of_runs inOrder.sound runs)).mono (fun _ _ accounts => accounts)
        fun _ _ failed => failed.1)
  case load =>
    intro c _ installed
    refine ends ((load_kept (inOrder.compiled installed) (kept_accounts c).toKeptByDeducing
      installed (accounted.accounts inOrder.sound installed)).imp ?_)
    rintro _ _ ⟨e₁, accounts, rfl⟩
    exact (kept_accounts c).proceed .ready e₁.axiomsDone accounts
  case add =>
    intro t c _ installed
    exact ends (add_accounts (inOrder.compiled installed)
      (accounted.accounts inOrder.sound installed) t)
  case delete => exact fun t _ => delete_accounted accounted inOrder.sound t
  case applyOnce => exact fun t c same => absurd same (whole t)

theorem after_accounted (inOrder : e.InOrder) (accounted : Accounted e) (requests : List Request)
    (whole : ∀ t, .applyOnce t ∉ requests) : Accounted (e.after requests) := by
  refine (after_keeps (fun e => e.InOrder ∧ Accounted e) ?_ ⟨inOrder, accounted⟩).2
  rintro request mem e ⟨inOrder, accounted⟩
  refine ⟨request.run_inOrder inOrder, request.run_accounted inOrder accounted ?_⟩
  rintro t rfl
  exact whole t mem

/-- The records of an engine that records from the start are a proof of all it deduces, whatever
calls and deletions there are: each of them applies an active rule, and under its bindings the body
is matched by facts that are raw or concluded by records before it. -/
theorem records_are_a_proof (inOrder : e.InOrder) (blank : Blank e) {requests : List Request}
    (whole : ∀ t, .applyOnce t ∉ requests) {earlier later : List Derivation} {d : Derivation}
    (split : (e.after requests).records = earlier ++ d :: later) :
    ∃ c, (e.after requests).compiled = some c ∧
      c.Explains (Provenance.backed (e.after requests).graph.rawFacts earlier) d := by
  rcases after_accounted inOrder (Or.inl blank) requests whole with blank' | ⟨c, accounts⟩
  · have none := blank'.unrecorded.symm.trans split
    simp at none
  · exact ⟨c, accounts.installed, accounts.proves earlier d later split⟩

end

theorem second_link_rests_on_the_first :
    ∃ (e : Engine FactIndex FactIndex) (c : CompiledRules) (first second : Derivation),
      e = (ofRules MemoryGraph.withoutRaw [.inclusion 1 2, .inclusion 2 3]
        ⟨true, false, true⟩).after [.call (.init true), .call (.add ⟨5, 1, 6⟩), .delete ⟨5, 2, 6⟩,
          .call (.add ⟨5, 1, 6⟩)] ∧
      e.records = [first, second, first] ∧ first.conclusion = ⟨5, 2, 6⟩ ∧
      second.trigger = some ⟨5, 2, 6⟩ ∧ e.compiled = some c ∧
      c.Explains (Provenance.backed e.graph.rawFacts [first]) second := by
  let made : Engine FactIndex FactIndex :=
    ofRules MemoryGraph.withoutRaw [.inclusion 1 2, .inclusion 2 3] ⟨true, false, true⟩
  let requests : List Request := [.call (.init true), .call (.add ⟨5, 1, 6⟩), .delete ⟨5, 2, 6⟩,
    .call (.add ⟨5, 1, 6⟩)]
  let first : Derivation := ⟨0, "<anonymous>", ⟨5, 2, 6⟩, some ⟨5, 1, 6⟩, [some 5, some 6]⟩
  let second : Derivation := ⟨1, "<anonymous>", ⟨5, 3, 6⟩, some ⟨5, 2, 6⟩, [some 5, some 6]⟩
  obtain ⟨sound, -, undeduced⟩ := MemoryGraph.withoutRaw_sound
  have inOrder : made.InOrder := (Reached.ofRules _ _ sound).inOrder
  have blank : Blank made := ⟨rfl, undeduced, rfl⟩
  have whole : ∀ t, .applyOnce t ∉ requests := by simp [requests]
  have records : (made.after requests).records = [first] ++ second :: [first] := by decide +kernel
  obtain ⟨c, installed, explains⟩ := records_are_a_proof inOrder blank whole records
  exact ⟨_, c, first, second, rfl, records, rfl, rfl, installed, explains⟩

end Engine
end TripleInference
