import TripleInference.Proofs.Engine.Deducing
import TripleInference.Proofs.Engine.History
import TripleInference.Proofs.Engine.Scripted

/-!
What becomes of a request when a store fails. It makes no further request of a store and hands the
failure on; what it has deduced by then stays, and has its reasons.
-/
namespace TripleInference

namespace CompiledRules

variable {c : CompiledRules} {facts : Set Triple} {d : Derivation}

theorem Explains.follows (explains : c.Explains facts d) {t : Triple}
    (triggered : d.trigger = some t) : c.Follows facts facts d.conclusion := by
  obtain ⟨r, active, -, concludes, body, trigger⟩ := explains
  rw [triggered] at trigger
  obtain ⟨known, p, clause, fits⟩ := trigger
  obtain ⟨subst, below⟩ := Valuation.exists_substitution (.ofValues d.bindings)
  refine ⟨(d.rule, r), active, subst, fun q mem => ?_, ⟨p, clause, t, known, fits.mono below⟩,
    concludes.mono below⟩
  obtain ⟨f, here, fits'⟩ := body q mem
  exact ⟨f, here, fits'.mono below⟩

theorem Explains.axiomHead (explains : c.Explains facts d) (untriggered : d.trigger = none) :
    d.conclusion ∈ c.axiomHeads := by
  obtain ⟨r, active, -, concludes, -, trigger⟩ := explains
  rw [untriggered] at trigger
  obtain ⟨isAxiom, noBindings⟩ := trigger
  rw [noBindings] at concludes
  exact ⟨(d.rule, r), active, isAxiom, concludes⟩

/-- Each fact of the list is one of `heads`, or follows from `facts` and the ones before it. -/
def Justifies (c : CompiledRules) (heads facts : Set Triple) (new : List Triple) : Prop :=
  ∀ earlier u later, new = earlier ++ u :: later →
    u ∈ heads ∨ c.Follows (facts ∪ {f | f ∈ earlier}) (facts ∪ {f | f ∈ earlier}) u

theorem justifies_nil {heads : Set Triple} : c.Justifies heads facts [] := by
  intro earlier u later split
  simp at split

theorem Justifies.concat {heads : Set Triple} {new : List Triple} {u : Triple}
    (justifies : c.Justifies heads facts new)
    (reason : u ∈ heads ∨ c.Follows (facts ∪ {f | f ∈ new}) (facts ∪ {f | f ∈ new}) u) :
    c.Justifies heads facts (new ++ [u]) :=
  forall_split_concat justifies reason

end CompiledRules

namespace Engine

section
variable {R D : Type}

theorem stage_recordDerivation (e : Engine R D) (d : Derivation) :
    (e.recordDerivation d).stage = e.stage :=
  part_recordDerivation stage (fun _ _ => rfl) e d

end

section
variable {R D : Type} [TripleSource R] [LawfulSource R] [TripleSink D] [LawfulSink D]

/-- What an engine has come to without losing anything: raw facts that are new are its `own`, and
deductions that are new have their reasons in the order they were made. -/
structure Builds (c : CompiledRules) (heads own : Set Triple) (e e' : Engine R D) : Prop where
  sound : e'.graph.Sound
  rawKept : e.graph.rawFacts ⊆ e'.graph.rawFacts
  rawNew : e'.graph.rawFacts ⊆ own ∪ e.graph.rawFacts
  deduced : ∃ new : List Triple, e'.graph.deduced = {u | u ∈ new} ∪ e.graph.deduced ∧
    c.Justifies heads (own ∪ e.graph.known) new
  firings : e.firings ≤ e'.firings

variable {c : CompiledRules} {heads own : Set Triple} {e e' : Engine R D}

theorem builds_same (same : InferenceGraph.Same e.graph e'.graph)
    (firings : e.firings ≤ e'.firings) : Builds c heads own e e' where
  sound := same.sound
  rawKept := same.rawFacts.symm.subset
  rawNew := same.rawFacts.subset.trans Set.subset_union_right
  deduced := ⟨[], by simp [same.deduced], CompiledRules.justifies_nil⟩
  firings := firings

theorem Builds.deduce (builds : Builds c heads own e e') {d : Derivation} {g : InferenceGraph R D}
    (reason : d.conclusion ∈ heads ∨
      c.Follows (own ∪ e'.graph.known) (own ∪ e'.graph.known) d.conclusion)
    (deduces : InferenceGraph.Deduces {d.conclusion} e'.graph g) :
    Builds c heads own e ({ e' with graph := g }.recordDerivation d) := by
  obtain ⟨new, deduced, justifies⟩ := builds.deduced
  have known : own ∪ e'.graph.known ⊆ own ∪ e.graph.known ∪ {f | f ∈ new} := by
    rw [InferenceGraph.known, deduced, InferenceGraph.known]
    intro f mem
    have old := @builds.rawNew f
    simp only [Set.mem_union] at mem old ⊢
    tauto
  constructor
  case sound =>
    rw [graph_recordDerivation]
    exact deduces.sound
  case rawKept =>
    rw [graph_recordDerivation, deduces.rawFacts]
    exact builds.rawKept
  case rawNew =>
    rw [graph_recordDerivation, deduces.rawFacts]
    exact builds.rawNew
  case deduced =>
    refine ⟨new ++ [d.conclusion], ?_, justifies.concat ?_⟩
    · rw [graph_recordDerivation, deduces.deduced, deduced]
      ext f
      simp [or_comm, or_assoc]
    · exact reason.imp_right fun follows => follows.mono known known
  case firings =>
    rw [firings_recordDerivation]
    exact builds.firings

theorem builds_kept (c : CompiledRules) (heads own : Set Triple) (e : Engine R D) :
    KeptByDeducing c own (Builds c heads own e) where
  sound builds := builds.sound
  quiet builds quiet :=
    { sound := quiet.graph.sound
      rawKept := quiet.graph.rawFacts ▸ builds.rawKept
      rawNew := quiet.graph.rawFacts ▸ builds.rawNew
      deduced := quiet.graph.deduced ▸ builds.deduced
      firings := builds.firings.trans quiet.firings }
  deduce builds triggered _ explains deduces :=
    builds.deduce (Or.inr (explains.follows triggered)) deduces

theorem builds_asserted (c : CompiledRules) (e : Engine R D) :
    KeptByAsserting c (Builds c c.axiomHeads ∅ e) where
  toKeptByDeducing := builds_kept c c.axiomHeads ∅ e
  assert builds untriggered _ explains deduces :=
    builds.deduce (Or.inl (explains.axiomHead untriggered)) deduces
  proceed _ _ builds := { builds with }

theorem KeptByDeducing.inStage {here : Engine R D → Prop} (kept : KeptByDeducing c own here)
    (stage : Phase × Bool) : KeptByDeducing c own fun e => here e ∧ e.stage = stage where
  sound before := kept.sound before.1
  quiet before quiet := ⟨kept.quiet before.1 quiet, quiet.stage.trans before.2⟩
  deduce before triggered unknown explains deduces :=
    ⟨kept.deduce before.1 triggered unknown explains deduces,
      (stage_recordDerivation _ _).trans before.2⟩

end

/-- The request has rules to run: installed ones, or, for an initialisation, such as it compiles. -/
def Request.Uses {R D : Type} (e : Engine R D) (c : CompiledRules) : Request → Prop
  | .call (.init ignoreBackward) => e.Runs ignoreBackward c
  | _ => e.compiled = some c

def Request.own : Request → Set Triple
  | .call (.add t) | .applyOnce t => {t}
  | _ => ∅

def Request.asserted (c : CompiledRules) : Request → Set Triple
  | .call (.init _) => c.axiomHeads
  | _ => ∅

def Request.failedStage {R D : Type} (e : Engine R D) : Request → Phase × Bool
  | .call (.init _) => (.uninitialized, false)
  | _ => e.stage

/-- What a failed request leaves: all the facts there were, new deductions that have their reasons,
and a stage to go on from. -/
structure Interrupted {R D : Type} [TripleSource R] [LawfulSource R] [TripleSink D] [LawfulSink D]
    (c : CompiledRules) (request : Request) (e e' : Engine R D) : Prop
    extends Builds c (request.asserted c) request.own e e' where
  stage : e'.stage = request.failedStage e

section
variable {R D : Type} [TripleSink R] [EmptyCollection R] [LawfulStore R] [TripleSink D]
  [LawfulSink D] {c : CompiledRules} {e : Engine R D}

theorem add_interrupted (compiled : c.Compiled) (installed : e.compiled = some c)
    (sound : e.graph.Sound) (t : Triple) :
    (add t).Ends e (fun _ _ => True)
      (fun _ e' => Interrupted c (.call (.add t)) e e') := by
  have kept : (add t).Ends e (fun _ e' => Builds c ∅ {t} e e' ∧ e'.stage = e.stage)
      (fun _ e' => Builds c ∅ {t} e e' ∧ e'.stage = e.stage) := by
    apply add_kept compiled ((builds_kept c ∅ {t} e).inStage e.stage) installed sound
    case stored =>
      intro g stores
      have start : Builds c ∅ {t} e { e with graph := g } :=
        { sound := stores.sound
          rawKept := fun u mem => (stores.rawFacts u).mpr (Or.inl mem)
          rawNew := fun u mem => ((stores.rawFacts u).mp mem).symm.imp_left And.left
          deduced := ⟨[], by simp [stores.deduced], CompiledRules.justifies_nil⟩
          firings := Nat.le_refl _ }
      exact ⟨start, rfl⟩
    case stopped =>
      intro g sound' rawFacts deduced
      exact ⟨⟨sound', rawFacts.symm.subset, rawFacts.subset.trans Set.subset_union_right,
        ⟨[], by simp [deduced], CompiledRules.justifies_nil⟩, Nat.le_refl _⟩, rfl⟩
  exact kept.mono (fun _ _ _ => trivial) fun failure e' ended => ⟨ended.1, ended.2⟩

theorem Request.answer_interrupted (request : Request) (inOrder : e.InOrder)
    (uses : request.Uses e c) :
    request.answer.Ends e (fun _ _ => True) (fun _ e' => Interrupted c request e e') := by
  have start : Builds c ∅ ∅ e e := builds_same (.refl inOrder.sound) (Nat.le_refl _)
  cases request with
  | call call =>
    cases call with
    | init ignoreBackward =>
      rw [Request.answer, Step.ends_bind]
      refine (init_kept (inOrder.compiled_of_runs uses) (builds_asserted c e) uses
        fun journal => builds_same (.refl inOrder.sound) (Nat.le_refl _)).mono
          (fun _ _ _ => trivial) ?_
      exact fun failure e' ended => ⟨ended.1, ended.2⟩
    | load =>
      refine (load_kept (inOrder.compiled uses) ((builds_kept c ∅ ∅ e).inStage e.stage) uses
        ⟨start, rfl⟩).mono (fun _ _ _ => trivial) ?_
      exact fun failure e' ended => ⟨ended.1, ended.2⟩
    | add t => exact add_interrupted (inOrder.compiled uses) uses inOrder.sound t
  | delete t =>
    rw [Request.answer, Step.ends_bind]
    refine (delete_ends t inOrder.sound).mono (fun _ _ _ => trivial) ?_
    rintro failure _ ⟨-, g, same, rfl⟩
    exact ⟨builds_same same (Nat.le_refl _), rfl⟩
  | applyOnce t =>
    have own : Builds c ∅ {t} e e := builds_same (.refl inOrder.sound) (Nat.le_refl _)
    refine (applyOnce_kept (inOrder.compiled uses) ((builds_kept c ∅ {t} e).inStage e.stage) uses
      ⟨own, rfl⟩).mono (fun _ _ _ => trivial) ?_
    exact fun failure e' ended => ⟨ended.1, ended.2⟩

omit [LawfulStore R] [LawfulSink D] in
theorem Request.scripted_answer (request : Request) :
    Step.Scripted Failure.store (request.answer : Step Failure (Engine R D) (List Triple)) := by
  cases request with
  | call call =>
    cases call with
    | init ignoreBackward =>
      exact (scripted_init ignoreBackward).bind fun _ => Step.scripted_pure []
    | load => exact scripted_load
    | add t => exact scripted_add t
  | delete t => exact (scripted_delete t).bind fun _ => Step.scripted_pure []
  | applyOnce t => exact scripted_applyOnce t

/-- A request is a script of requests to the stores, whatever they hold. It ends in the failure of a
store exactly if one of these has failed, which then was the last one; all that was known is still
known, what is new has its reasons, and only an initialisation that fails undoes its stage. -/
theorem failing_store_ends_the_request (inOrder : e.InOrder) (request : Request)
    (uses : request.Uses e c) :
    ∃ script : Script Failure.store (Engine R D) (List Triple),
      (∀ graph, request.answer.outcome { e with graph } = script.run graph) ∧
      (∀ error, (∃ call ∈ script.calls e.graph, call.failure = some error) ↔
        (request.answer.outcome e).1 = .error (.store error)) ∧
      ∀ call ∈ script.calls e.graph, ∀ error, call.failure = some error →
        (∃ before, script.calls e.graph = before ++ [call] ∧
          ∀ other ∈ before, other.failure = none) ∧
        Interrupted c request e (request.answer.outcome e).2 := by
  obtain ⟨script, runs⟩ := request.scripted_answer e
  have ended := script.run_ended e.graph
  rw [← runs e.graph] at ended
  change Script.Ended _ _ (request.answer.outcome e).1 at ended
  have failed_iff := ended.failed_iff fun _ _ => Failure.store.inj
  refine ⟨script, runs, failed_iff, fun call mem error failed => ?_⟩
  refine ⟨ended.last_of_failed mem failed, ?_⟩
  have result := (failed_iff error).mp ⟨call, mem, failed⟩
  have left := request.answer_interrupted inOrder uses
  rw [Step.Ends] at left
  rcases outcome : request.answer.outcome e with ⟨failure | worked, e'⟩
  · rwa [outcome] at left
  · rw [outcome] at result
    cases result

end

theorem initialisation_stops_at_a_dead_store :
    ∃ (c : CompiledRules) (e e' : Engine Recording Recording)
      (script : Script Failure.store (Engine Recording Recording) (List Triple))
      (before : List StoreCall) (last : StoreCall),
      CompiledRules.compile [.ofPatterns [] [⟨.constant 5, .constant 1, .constant 6⟩],
        .inclusion 1 2] true = .ok c ∧
      e = ofCompiled ⟨some (Recording.failWith ∅ (some (.unavailable "down"))), ∅⟩ c .standard ∧
      script.run e.graph = (.error (.store (.unavailable "down")), e') ∧
      script.calls e.graph = before ++ [last] ∧ last.failure = some (.unavailable "down") ∧
      ⟨5, 1, 6⟩ ∈ e'.graph.deduced ∧ Interrupted c (.call (.init true)) e e' := by
  obtain ⟨c, compiles⟩ : ∃ c, CompiledRules.compile
      [.ofPatterns [] [⟨.constant 5, .constant 1, .constant 6⟩], .inclusion 1 2] true = .ok c :=
    ⟨_, rfl⟩
  let e : Engine Recording Recording :=
    ofCompiled ⟨some (Recording.failWith ∅ (some (.unavailable "down"))), ∅⟩ c .standard
  let request : Request := .call (.init true)
  have sound : e.graph.Sound := by
    refine ⟨?_, FactIndex.coherent_empty⟩
    rintro raw ⟨⟩
    exact FactIndex.coherent_empty
  have inOrder : e.InOrder := (Reached.install (.ofRules [] .standard sound) compiles).inOrder
  have ⟨failed, asserted⟩ : (request.answer.outcome e).1 = .error (.store (.unavailable "down")) ∧
      (request.answer.outcome e).2.graph.deductions.facts.contains ⟨5, 1, 6⟩ = true := by
    cases compiles
    decide +kernel
  obtain ⟨script, runs, failed_iff, stops⟩ :=
    failing_store_ends_the_request (c := c) inOrder request (Or.inl rfl)
  obtain ⟨last, mem, lastFailed⟩ := (failed_iff _).mpr failed
  obtain ⟨⟨before, calls, -⟩, interrupted⟩ := stops last mem _ lastFailed
  exact ⟨c, e, (request.answer.outcome e).2, script, before, last, compiles, rfl,
    (runs e.graph).symm.trans (Prod.ext failed rfl), calls, lastFailed, asserted, interrupted⟩

end Engine
end TripleInference
