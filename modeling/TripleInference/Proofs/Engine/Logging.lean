import TripleInference.Proofs.Engine.Mirroring
import TripleInference.Proofs.Engine.Operation

/-!
What an engine logs does not change what it does. Two engines that are alike but for their logs, and
for what they are told to log, do the same in lockstep, whatever their stores do: they send these
the same requests in the same order, and even fail together.
-/
namespace TripleInference

namespace Engine

variable {R D : Type}

structure Alike (e e' : Engine R D) : Prop where
  graph : e'.graph = e.graph
  rules : e'.rules = e.rules
  compiled : e'.compiled = e.compiled
  ignoreBackward : e'.settings.ignoreBackward = e.settings.ignoreBackward
  phase : e'.phase = e.phase
  firings : e'.firings = e.firings
  axiomFirings : e'.axiomFirings = e.axiomFirings
  axiomsDone : e'.axiomsDone = e.axiomsDone

theorem Alike.refl (e : Engine R D) : e.Alike e := ⟨rfl, rfl, rfl, rfl, rfl, rfl, rfl, rfl⟩

theorem alike_ofRules (graph : InferenceGraph R D) (rules : List Rule)
    {settings settings' : EngineSettings}
    (same : settings'.ignoreBackward = settings.ignoreBackward) :
    (ofRules graph rules settings).Alike (ofRules graph rules settings') :=
  ⟨rfl, rfl, rfl, same, rfl, rfl, rfl, rfl⟩

variable {e e' : Engine R D}

theorem Alike.derivation (alike : e.Alike e') (d d' : Derivation) :
    (e.recordDerivation d).Alike (e'.recordDerivation d') := by
  unfold Engine.recordDerivation
  split <;> split
  · exact { alike with }
  · exact { alike with }
  · exact { alike with }
  · exact alike

theorem ensureCompiled_alike (ignoreBackward : Bool) :
    (ensureCompiled ignoreBackward : Step Failure (Engine R D) Unit).Respects Alike := by
  intro e e' alike
  simp only [ensureCompiled, Step.outcome, alike.compiled, alike.rules]
  cases e.compiled with
  | some c => exact .ends rfl alike
  | none =>
    cases CompiledRules.compile e.rules ignoreBackward with
    | ok c => exact .ends rfl { alike with compiled := rfl }
    | error failure => exact .fails alike

theorem mirroring_alike : Mirroring .refl (Alike (R := R) (D := D)) where
  graph_eq alike := alike.graph
  axiomFirings_eq alike := by rw [alike.axiomFirings, alike.firings]
  required := requireCompiled_lockstep Alike.compiled
  graph alike _ := { alike with graph := rfl }
  journal alike _ _ := { alike with }
  derivation alike _ _ := alike.derivation _ _
  firing alike := { alike with firings := congrArg (· + 1) alike.firings }
  noting alike _ := { alike with axiomFirings := rfl }
  phase alike _ := { alike with phase := rfl }
  axiomsDone alike _ := { alike with axiomsDone := rfl }

theorem init_alike [TripleSource R] [TripleSink D] (ignoreBackward : Bool) :
    (init ignoreBackward : Step Failure (Engine R D) Unit).Respects Alike :=
  init_lockstep mirroring_alike (ensureCompiled_alike ignoreBackward)

theorem initAsConfigured_alike [TripleSource R] [TripleSink D] :
    (initAsConfigured : Step Failure (Engine R D) Unit).Respects Alike := by
  apply Step.lockstep_get.bind
  intro e e' alike
  rw [alike.ignoreBackward]
  exact init_alike _

section
variable {R D : Type} [TripleSink R] [EmptyCollection R] [TripleSink D]

theorem Operation.perform_alike (operation : Operation R D) :
    operation.perform.Respects Alike := by
  cases operation with
  | request asked =>
    cases asked with
    | call call =>
      cases call with
      | init ignoreBackward =>
        exact (init_alike ignoreBackward).bind_eq fun _ => Step.lockstep_pure rfl
      | load => exact load_lockstep mirroring_alike
      | add t => exact add_lockstep mirroring_alike t
    | delete t =>
      exact (Engine.delete_lockstep mirroring_alike t).bind_eq fun _ => Step.lockstep_pure rfl
    | applyOnce t => exact Engine.applyOnce_lockstep mirroring_alike t
  | initAsConfigured => exact initAsConfigured_alike.bind_eq fun _ => Step.lockstep_pure rfl
  | install compiled =>
    refine (Step.lockstep_modify fun e e' alike => ?_).bind_eq fun _ => Step.lockstep_pure rfl
    exact { alike with compiled := rfl }
  | record recording =>
    refine (Step.lockstep_modify fun e e' alike => ?_).bind_eq fun _ => Step.lockstep_pure rfl
    exact { alike with }
  | edit change =>
    refine (Step.lockstep_modify fun e e' alike => ?_).bind_eq fun _ => Step.lockstep_pure rfl
    exact { alike with graph := congrArg change alike.graph }

/-- The operation changes what is logged from then on, and nothing else. -/
def Operation.switchesLog : Operation R D → Bool
  | .record _ => true
  | _ => false

/-- What there is to be seen of an operation besides the logs. -/
structure Observation (R D : Type) where
  answer : Except Failure (List Triple)
  graph : InferenceGraph R D
  firings : Nat
  axiomFirings : Option Nat
  phase : Phase
  axiomsDone : Bool

def Event.observed (x : Event R D) : Observation R D :=
  ⟨x.answer, x.after.graph, x.after.firings, x.after.axiomFirings, x.after.phase,
    x.after.axiomsDone⟩

def observations (e : Engine R D) (operations : List (Operation R D)) : List (Observation R D) :=
  ((e.history operations).filter fun x => !x.operation.switchesLog).map Event.observed

theorem observations_without_switches {e e' : Engine R D} (alike : e.Alike e')
    (operations : List (Operation R D)) :
    e.observations operations =
      e'.observations (operations.filter fun operation => !operation.switchesLog) := by
  induction operations generalizing e e' with
  | nil => rfl
  | cons operation rest ih =>
    cases switches : operation.switchesLog with
    | true =>
      -- the other engine waits while this one switches its log
      have same : (Event.mk operation e).after.Alike e' := by
        cases operation with
        | record recording => exact { alike with }
        | _ => cases switches
      rw [List.filter_cons_of_neg (by simp [switches]), ← ih same, observations, history,
        List.filter_cons_of_neg (by simp [switches])]
      rfl
    | false =>
      have together := operation.perform_alike e e' alike
      have seen : (Event.mk operation e).observed = (Event.mk operation e').observed := by
        have states := together.states
        simp only [Event.observed, Observation.mk.injEq]
        exact ⟨together.results, states.graph.symm, states.firings.symm, states.axiomFirings.symm,
          states.phase.symm, states.axiomsDone.symm⟩
      rw [List.filter_cons_of_pos (by simp [switches]), observations, observations, history,
        history, List.filter_cons_of_pos (by simp [switches]),
        List.filter_cons_of_pos (by simp [switches]), List.map_cons, List.map_cons, seen]
      exact congrArg (_ :: ·) (ih together.states)

/-- Of two engines that are alike but for their logs, and two scripts that are the same but for
switching the log, one cannot tell which is which by what they answer, by their graphs, stores
included, or by their status. -/
theorem logging_changes_no_observation {e e' : Engine R D} (alike : e.Alike e')
    {operations operations' : List (Operation R D)}
    (same : (operations.filter fun operation => !operation.switchesLog) =
      operations'.filter fun operation => !operation.switchesLog) :
    e.observations operations = e'.observations operations' :=
  calc e.observations operations
    _ = e'.observations (operations.filter fun operation => !operation.switchesLog) :=
      observations_without_switches alike operations
    _ = e'.observations (operations'.filter fun operation => !operation.switchesLog) := by rw [same]
    _ = e'.observations operations' :=
      (observations_without_switches (.refl e') operations').symm

end

def twoFacts (between : List (Operation FactIndex FactIndex)) :
    List (Operation FactIndex FactIndex) :=
  .request (.call (.init true)) :: .request (.call (.add ⟨5, 1, 6⟩)) :: between ++
    [.request (.call (.add ⟨5, 1, 7⟩))]

def loggingAs (recordDerivations trace : Bool) : Engine FactIndex FactIndex :=
  ofRules MemoryGraph.withoutRaw [.inclusion 1 2] ⟨recordDerivations, trace, true⟩

theorem half_recorded_run_looks_like_a_silent_one :
    (loggingAs true true).observations (twoFacts [.record false]) =
        (loggingAs false false).observations (twoFacts []) ∧
      ((loggingAs true true).performed (twoFacts [.record false])).derivations.size = 1 ∧
      ((loggingAs false false).performed (twoFacts [])).derivations.size = 0 := by
  have alike : (loggingAs true true).Alike (loggingAs false false) := alike_ofRules _ _ rfl
  refine ⟨logging_changes_no_observation alike ?_, ?_, ?_⟩
  · rfl
  · decide +kernel
  · decide +kernel

end Engine
end TripleInference
