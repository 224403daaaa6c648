import TripleInference.Proofs.Engine.Interruption

/-!
Raw facts and deductions. Rules deduce only what is in neither store and an addition stores only
what is in neither, so what is in both was asserted by an axiom. Raw facts come by additions alone.
-/
namespace TripleInference
namespace Engine

section
variable {R D : Type} [TripleSource R] [LawfulSource R] [TripleSink D] [LawfulSink D]
  {c : CompiledRules} {e : Engine R D}

structure Apart (c : CompiledRules) (e : Engine R D) : Prop where
  sound : e.graph.Sound
  installed : e.compiled = some c
  shared : ∀ t ∈ e.graph.rawFacts, t ∈ e.graph.deduced → t ∈ c.axiomHeads

theorem Apart.congr {e' : Engine R D} (apart : Apart c e) (sound : e'.graph.Sound)
    (compiled : e'.compiled = e.compiled) (rawFacts : e'.graph.rawFacts = e.graph.rawFacts)
    (deduced : e'.graph.deduced ⊆ e.graph.deduced) : Apart c e' where
  sound := sound
  installed := compiled.trans apart.installed
  shared t raw old := apart.shared t (rawFacts ▸ raw) (deduced old)

theorem Apart.deduce (apart : Apart c e) {d : Derivation} {g : InferenceGraph R D}
    (deduces : InferenceGraph.Deduces {d.conclusion} e.graph g)
    (joins : d.conclusion ∈ e.graph.rawFacts → d.conclusion ∈ c.axiomHeads) :
    Apart c ({ e with graph := g }.recordDerivation d) := by
  have setup : ({ e with graph := g }.recordDerivation d).setup = e.setup :=
    setup_recordDerivation _ d
  refine ⟨?_, (compiled_of_setup setup).trans apart.installed, ?_⟩
  · rw [graph_recordDerivation]
    exact deduces.sound
  · intro t raw deduced
    rw [graph_recordDerivation, deduces.rawFacts] at raw
    rw [graph_recordDerivation, deduces.deduced] at deduced
    rcases deduced with rfl | old
    · exact joins raw
    · exact apart.shared t raw old

theorem apart_deducing (c : CompiledRules) (own : Set Triple) :
    KeptByDeducing c own (Apart c : Engine R D → Prop) where
  sound apart := apart.sound
  quiet apart quiet := apart.congr quiet.graph.sound (compiled_of_setup quiet.setup)
    quiet.graph.rawFacts quiet.graph.deduced.subset
  deduce apart _ unknown _ deduces :=
    apart.deduce deduces fun raw => absurd (Or.inl raw) unknown

theorem apart_asserting (c : CompiledRules) : KeptByAsserting c (Apart c : Engine R D → Prop) where
  toKeptByDeducing := apart_deducing c ∅
  assert apart untriggered _ explains deduces :=
    apart.deduce deduces fun _ => explains.axiomHead untriggered
  proceed _ _ apart := apart.congr apart.sound rfl rfl (Set.Subset.refl _)

def Separates (e : Engine R D) : Prop :=
  ∀ t ∈ e.graph.rawFacts, t ∈ e.graph.deduced → ∃ c, e.compiled = some c ∧ t ∈ c.axiomHeads

theorem Apart.separates (apart : Apart c e) : e.Separates :=
  fun t raw deduced => ⟨c, apart.installed, apart.shared t raw deduced⟩

theorem Separates.shared (separates : e.Separates) (installed : e.compiled = some c) :
    ∀ t ∈ e.graph.rawFacts, t ∈ e.graph.deduced → t ∈ c.axiomHeads := by
  intro t raw deduced
  obtain ⟨c', installed', axiomatic⟩ := separates t raw deduced
  obtain rfl : c' = c := Option.some.inj (installed'.symm.trans installed)
  exact axiomatic

theorem Separates.apart_of_runs (separates : e.Separates) (sound : e.graph.Sound)
    {ignoreBackward : Bool} (runs : e.Runs ignoreBackward c) (journal : Journal) :
    Apart c { e with compiled := some c, journal } := by
  refine ⟨sound, rfl, fun t raw deduced => ?_⟩
  rcases runs with installed | ⟨missing, -⟩
  · exact separates.shared installed t raw deduced
  · obtain ⟨c', installed, -⟩ := separates t raw deduced
    rw [missing] at installed
    cases installed

end

section
variable {R D : Type} [TripleSink R] [EmptyCollection R] [LawfulStore R] [TripleSink D]
  [LawfulSink D] {e : Engine R D}

theorem Request.run_separates (request : Request) (inOrder : e.InOrder) (separates : e.Separates) :
    (request.run.outcome e).2.Separates := by
  have apart {c : CompiledRules} (installed : e.compiled = some c) : Apart c e :=
    ⟨inOrder.sound, installed, separates.shared installed⟩
  have separated {c : CompiledRules} (e' : Engine R D) (apart : Apart c e') : e'.Separates :=
    apart.separates
  apply request.final_of Separates
  case stay => exact fun _ => separates
  case reset => exact fun _ => separates
  case init =>
    intro ignoreBackward c _ runs
    exact (init_kept (inOrder.compiled_of_runs runs) (apart_asserting c) runs
      (separates.apart_of_runs inOrder.sound runs)).mono (fun _ => separated)
        fun _ e' failed => separated e' failed.1
  case load =>
    intro c _ installed
    refine (load_kept (inOrder.compiled installed) (apart_deducing c ∅) installed
      (apart installed)).mono ?_ fun _ => separated
    rintro _ _ ⟨e₁, done, rfl⟩
    exact ((apart_asserting c).proceed .ready e₁.axiomsDone done).separates
  case add =>
    intro t c _ installed
    refine (add_kept (t := t) (inOrder.compiled installed) (apart_deducing c ∅) installed
      inOrder.sound ?_ ?_).mono (fun _ => separated) fun _ => separated
    · intro g stores
      refine ⟨stores.sound, installed, fun u raw deduced => ?_⟩
      rw [stores.deduced] at deduced
      rcases (stores.rawFacts u).mp raw with old | ⟨rfl, unknown⟩
      · exact separates.shared installed u old deduced
      · exact absurd (Or.inr deduced) unknown
    · intro g sound rawFacts deduced
      exact (apart installed).congr sound rfl rawFacts deduced.subset
  case delete =>
    intro t _
    refine (delete_ends t inOrder.sound).mono ?_ ?_
    · rintro _ _ ⟨g, deleted, drops, rfl⟩ u raw deduced
      change u ∈ g.rawFacts at raw
      change u ∈ g.deduced at deduced
      rw [drops.rawFacts] at raw
      rw [drops.deduced] at deduced
      exact separates u raw deduced.1
    · rintro _ _ ⟨-, g, same, rfl⟩ u raw deduced
      exact separates u (same.rawFacts ▸ raw) (same.deduced ▸ deduced)
  case applyOnce =>
    intro t c _ installed
    exact (applyOnce_kept (inOrder.compiled installed) (apart_deducing c {t}) installed
      (apart installed)).mono (fun _ => separated) fun _ => separated

theorem Separates.after (separates : e.Separates) (inOrder : e.InOrder) (requests : List Request) :
    (e.after requests).Separates := by
  refine (after_keeps (fun e => e.InOrder ∧ e.Separates) ?_ ⟨inOrder, separates⟩).2
  rintro request - e ⟨inOrder, separates⟩
  exact ⟨request.run_inOrder inOrder, request.run_separates inOrder separates⟩

end

/-- The raw fact that an addition brings when it has rules to run: one that is not known. -/
def Request.brings {R D : Type} [TripleSource R] [LawfulSource R] [TripleSource D] [LawfulSource D]
    (request : Request) (e : Engine R D) : Set Triple :=
  {t | request = .call (.add t) ∧ (∃ c, e.compiled = some c) ∧ t ∉ e.graph.known}

section
variable {e : Engine FactIndex FactIndex}

theorem Request.rawFacts_run (request : Request) (inOrder : e.InOrder) :
    (request.run.outcome e).2.graph.rawFacts = e.graph.rawFacts ∪ request.brings e := by
  have nothing (brings : ∀ t, t ∉ request.brings e) :
      e.graph.rawFacts = e.graph.rawFacts ∪ request.brings e := by
    rw [Set.eq_empty_iff_forall_notMem.mpr brings, Set.union_empty]
  have rulesMissing (missing : e.compiled = none) : ∀ t, t ∉ request.brings e := by
    rintro t ⟨-, ⟨c, installed⟩, -⟩
    rw [missing] at installed
    cases installed
  have otherwise (other : ∀ t, request ≠ .call (.add t)) : ∀ t, t ∉ request.brings e :=
    fun t brings => other t brings.1
  have never (failure : Failure) (e' : Engine FactIndex FactIndex)
      (aborted : Aborts FactIndex FactIndex failure e') :
      e'.graph.rawFacts = e.graph.rawFacts ∪ request.brings e :=
    absurd aborted (not_aborts failure e')
  apply request.final_of fun e' => e'.graph.rawFacts = e.graph.rawFacts ∪ request.brings e
  case stay => exact fun missing => nothing (rulesMissing missing)
  case reset => exact fun missing => nothing (rulesMissing missing)
  case init =>
    intro ignoreBackward c same runs
    refine (init_ends (inOrder.compiled_of_runs runs) runs inOrder.sound).mono ?_ never
    rintro _ e' ⟨g, worked, worked', advances, ⟨start, loads, -⟩, -⟩
    rw [loads.rawFacts, advances.rawFacts]
    exact nothing (otherwise (by simp [same]))
  case load =>
    intro c same installed
    refine (load_ends (inOrder.compiled installed) installed inOrder.sound).mono ?_ never
    rintro worked e' ⟨⟨start, loads, -⟩, -⟩
    rw [loads.rawFacts]
    exact nothing (otherwise (by simp [same]))
  case add =>
    intro t c same installed
    refine (add_ends (inOrder.compiled installed) t installed inOrder.sound).mono ?_ never
    rintro worked e' ⟨g, advances, stored, -⟩
    ext u
    rw [advances.rawFacts, stored, Set.mem_union, Request.brings, same]
    simp only [Set.mem_ofPred_eq, call.injEq, Call.add.injEq, installed]
    grind
  case delete =>
    intro t same
    refine (delete_ends t inOrder.sound).mono ?_ fun failure e' failed => never failure e' failed.1
    rintro _ _ ⟨g, deleted, drops, rfl⟩
    exact drops.rawFacts.trans (nothing (otherwise (by simp [same])))
  case applyOnce =>
    intro t c same installed
    refine (applyOnce_ends (inOrder.compiled installed) t installed inOrder.sound).mono ?_ never
    rintro new _ ⟨p, adds, rfl⟩
    exact adds.rawFacts.trans (nothing (otherwise (by simp [same])))

theorem mem_rawFacts_after (inOrder : e.InOrder) (requests : List Request) (t : Triple) :
    t ∈ (e.after requests).graph.rawFacts ↔ t ∈ e.graph.rawFacts ∨
      ∃ earlier later c, requests = earlier ++ .call (.add t) :: later ∧
        (e.after earlier).compiled = some c ∧ t ∉ (e.after earlier).graph.known := by
  induction requests generalizing e with
  | nil => simp [Engine.after]
  | cons request rest ih =>
    have step := ih (request.run_inOrder inOrder)
    have next : e.after (request :: rest) = (request.run.outcome e).2.after rest := rfl
    rw [next, step, request.rawFacts_run inOrder, Set.mem_union, or_assoc]
    refine or_congr_right ?_
    constructor
    · rintro (⟨rfl, ⟨c, installed⟩, unknown⟩ | ⟨earlier, later, c, rfl, installed, unknown⟩)
      · exact ⟨[], rest, c, rfl, installed, unknown⟩
      · exact ⟨request :: earlier, later, c, rfl, installed, unknown⟩
    · rintro ⟨earlier, later, c, split, installed, unknown⟩
      rcases List.cons_eq_append_iff.mp split with ⟨rfl, same⟩ | ⟨earlier, rfl, same⟩
      · obtain ⟨rfl, -⟩ := List.cons.inj same
        exact Or.inl ⟨rfl, ⟨c, installed⟩, unknown⟩
      · exact Or.inr ⟨earlier, later, c, same, installed, unknown⟩

/-- In memory, an engine that begins without deductions and is asked for whatever in whatever order
keeps raw and deduced facts apart but for heads of active axioms. Its raw facts are those it began
with and those that were added to its rules while they were not known. Rules that it has stay. -/
theorem raw_and_deduced_facts_stay_apart (inOrder : e.InOrder) (undeduced : e.graph.deduced = ∅)
    (requests : List Request) :
    (∀ t ∈ (e.after requests).graph.rawFacts, t ∈ (e.after requests).graph.deduced →
      ∃ c, (e.after requests).compiled = some c ∧ t ∈ c.axiomHeads) ∧
    (∀ t, t ∈ (e.after requests).graph.rawFacts ↔ t ∈ e.graph.rawFacts ∨
      ∃ earlier later c, requests = earlier ++ .call (.add t) :: later ∧
        (e.after earlier).compiled = some c ∧ t ∉ (e.after earlier).graph.known) ∧
    ∀ c, e.compiled = some c → ∀ done : List Request, (e.after done).compiled = some c := by
  have start : e.Separates := by
    intro t _ deduced
    rw [undeduced] at deduced
    exact absurd deduced (Set.notMem_empty t)
  exact ⟨start.after inOrder requests, mem_rawFacts_after inOrder requests,
    fun c installed => compiled_after installed⟩

theorem deleted_conclusion_becomes_raw :
    ∃ (c : CompiledRules) (e : Engine FactIndex FactIndex) (requests : List Request),
      CompiledRules.compile [.ofPatterns [] [⟨.constant 5, .constant 1, .constant 6⟩],
        .inclusion 1 2] true = .ok c ∧
      e = ofCompiled (MemoryGraph.withRaw [⟨5, 1, 6⟩]) c .standard ∧
      requests = [.call (.init true), .delete ⟨5, 2, 6⟩, .call (.add ⟨5, 2, 6⟩),
        .call (.init true)] ∧
      ⟨5, 1, 6⟩ ∈ (e.after requests).graph.rawFacts ∧
      ⟨5, 1, 6⟩ ∈ (e.after requests).graph.deduced ∧ ⟨5, 1, 6⟩ ∈ c.axiomHeads ∧
      ⟨5, 2, 6⟩ ∈ (e.after requests).graph.rawFacts ∧
      ⟨5, 2, 6⟩ ∉ (e.after requests).graph.deduced := by
  obtain ⟨c, compiles⟩ : ∃ c, CompiledRules.compile
      [.ofPatterns [] [⟨.constant 5, .constant 1, .constant 6⟩], .inclusion 1 2] true = .ok c :=
    ⟨_, rfl⟩
  let e : Engine FactIndex FactIndex :=
    ofCompiled (MemoryGraph.withRaw [⟨5, 1, 6⟩]) c .standard
  let earlier : List Request := [.call (.init true), .delete ⟨5, 2, 6⟩]
  let requests : List Request := earlier ++ [.call (.add ⟨5, 2, 6⟩), .call (.init true)]
  obtain ⟨sound, rawFacts, undeduced⟩ := MemoryGraph.withRaw_sound [⟨5, 1, 6⟩]
  have inOrder : e.InOrder := (Reached.install (.ofRules [] .standard sound) compiles).inOrder
  have ⟨asserted, unknown, notDeduced⟩ :
      (e.after requests).graph.deductions.contains ⟨5, 1, 6⟩ = true ∧
        ⟨5, 2, 6⟩ ∉ (e.after earlier).graph.known ∧
        (e.after requests).graph.deductions.contains ⟨5, 2, 6⟩ = false := by
    cases compiles
    decide +kernel
  obtain ⟨apart, mem_raw, kept⟩ := raw_and_deduced_facts_stay_apart inOrder undeduced requests
  have installed := kept c rfl
  have raw : ⟨5, 1, 6⟩ ∈ (e.after requests).graph.rawFacts :=
    (mem_raw _).mpr (Or.inl (rawFacts.superset List.mem_cons_self))
  obtain ⟨c', installed', axiomatic⟩ := apart _ raw asserted
  obtain rfl : c = c' := Option.some.inj ((installed requests).symm.trans installed')
  refine ⟨c, e, requests, compiles, rfl, rfl, raw, asserted, axiomatic, ?_, ?_⟩
  · exact (mem_raw _).mpr (Or.inr ⟨earlier, _, c, rfl, installed earlier, unknown⟩)
  · exact fun deduced => Bool.false_ne_true (notDeduced.symm.trans deduced)

end

end Engine
end TripleInference
