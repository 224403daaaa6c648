import TripleInference.Proofs.Engine.Closure

/-!
What engines come to by requests in any order, failed ones included, and by what their owners do to
them in between.
-/
namespace TripleInference
namespace Engine

inductive Request where
  | call (c : Call)
  | delete (t : Triple)
  | applyOnce (t : Triple)
deriving DecidableEq, Repr

section
variable {R D : Type} [TripleSink R] [EmptyCollection R] [TripleSink D]

def Request.run : Request → Step Failure (Engine R D) Unit
  | .call c => c.run
  | .delete t => Engine.delete t
  | .applyOnce t => discard (Engine.applyOnce t)

def Request.answer : Request → Step Failure (Engine R D) (List Triple)
  | .call (.init ignoreBackward) => do init ignoreBackward; return []
  | .call .load => load
  | .call (.add t) => add t
  | .delete t => do Engine.delete t; return []
  | .applyOnce t => Engine.applyOnce t

/-- The state after some requests. Each begins with the state that the one before it left, whether
that one failed or not. -/
def after (e : Engine R D) (requests : List Request) : Engine R D :=
  requests.foldl (fun e request => (request.run.outcome e).2) e

theorem after_keeps (here : Engine R D → Prop) {requests : List Request}
    (kept : ∀ request ∈ requests, ∀ e, here e → here (request.run.outcome e).2) {e : Engine R D}
    (start : here e) : here (e.after requests) := by
  induction requests generalizing e with
  | nil => exact start
  | cons request rest ih =>
    refine ih (fun later mem => kept later (List.mem_cons_of_mem _ mem)) ?_
    exact kept request List.mem_cons_self e start

/-- Whether rules are installed, and whether missing ones compile, decides what a request begins
with. -/
theorem Request.final_of (here : Engine R D → Prop) {e : Engine R D} (request : Request)
    (stay : e.compiled = none → here e)
    (reset : e.compiled = none → here { e with phase := .uninitialized, axiomsDone := false })
    (init : ∀ ignoreBackward c, request = .call (.init ignoreBackward) →
      e.Runs ignoreBackward c → (Engine.init ignoreBackward).Ends e (fun _ => here) (fun _ => here))
    (load : ∀ c, request = .call .load → e.compiled = some c →
      Engine.load.Ends e (fun _ => here) (fun _ => here))
    (add : ∀ t c, request = .call (.add t) → e.compiled = some c →
      (Engine.add t).Ends e (fun _ => here) (fun _ => here))
    (delete : ∀ t, request = .delete t →
      (Engine.delete t).Ends e (fun _ => here) (fun _ => here))
    (applyOnce : ∀ t c, request = .applyOnce t → e.compiled = some c →
      (Engine.applyOnce t).Ends e (fun _ => here) (fun _ => here)) :
    here (request.run.outcome e).2 := by
  apply Step.Ends.final
  cases request with
  | delete t => exact delete t rfl
  | applyOnce t =>
    rw [Request.run, Step.ends_discard]
    cases installed : e.compiled with
    | none => exact (requireCompiled_fails installed).mpr (stay installed)
    | some c => exact applyOnce t c rfl installed
  | call c =>
    cases c with
    | load =>
      rw [Request.run, Call.run, Step.ends_discard]
      cases installed : e.compiled with
      | none => exact (requireCompiled_fails installed).mpr (stay installed)
      | some c => exact load c rfl installed
    | add t =>
      rw [Request.run, Call.run, Step.ends_discard]
      cases installed : e.compiled with
      | none => exact (requireCompiled_fails installed).mpr (stay installed)
      | some c => exact add t c rfl installed
    | init ignoreBackward =>
      rw [Request.run, Call.run]
      cases installed : e.compiled with
      | some c => exact init ignoreBackward c rfl (Or.inl installed)
      | none =>
        -- missing rules are compiled first, and a fault there puts the phase back
        cases compiles : CompiledRules.compile e.rules ignoreBackward with
        | ok c => exact init ignoreBackward c rfl (Or.inr ⟨installed, compiles⟩)
        | error failure =>
          rw [Engine.init, Step.ends_onFailure, bootstrap, Step.ends_bind]
          exact (ensureCompiled_fails installed compiles).mpr (reset installed)

end

section
variable {R D : Type} [TripleSource R] [LawfulSource R] [TripleSource D] [LawfulSource D]

structure InOrder (e : Engine R D) : Prop where
  sound : e.graph.Sound
  installed : ∀ c, e.compiled = some c →
    ∃ rules ignoreBackward, CompiledRules.compile rules ignoreBackward = .ok c

theorem InOrder.compiled {e : Engine R D} (inOrder : e.InOrder) {c : CompiledRules}
    (installed : e.compiled = some c) : c.Compiled := by
  obtain ⟨rules, ignoreBackward, compiles⟩ := inOrder.installed c installed
  exact CompiledRules.compiled_of_compile compiles

theorem InOrder.compiled_of_runs {e : Engine R D} (inOrder : e.InOrder) {ignoreBackward : Bool}
    {c : CompiledRules} (runs : e.Runs ignoreBackward c) : c.Compiled := by
  rcases runs with installed | ⟨-, compiles⟩
  · exact inOrder.compiled installed
  · exact CompiledRules.compiled_of_compile compiles

end

section
variable {R D : Type} [TripleSink R] [EmptyCollection R] [LawfulStore R] [TripleSink D]
  [LawfulSink D] {e : Engine R D}

theorem Request.run_sound (request : Request) (inOrder : e.InOrder) :
    (request.run.outcome e).2.graph.Sound := by
  have aborts : ∀ failure (e' : Engine R D), Aborts R D failure e' → e'.graph.Sound :=
    fun _ _ aborted => aborted.2.2
  apply request.final_of fun e' => e'.graph.Sound
  case stay => exact fun _ => inOrder.sound
  case reset => exact fun _ => inOrder.sound
  case init =>
    intro ignoreBackward c _ runs
    refine (init_ends (inOrder.compiled_of_runs runs) runs inOrder.sound).mono ?_ aborts
    intro _ e' ended
    obtain ⟨g, worked, worked', -, ⟨start, loads, -⟩, -⟩ := ended
    exact loads.sound
  case load =>
    intro c _ installed
    refine (load_ends (inOrder.compiled installed) installed inOrder.sound).mono ?_ aborts
    intro worked e' ended
    obtain ⟨⟨start, loads, -⟩, -⟩ := ended
    exact loads.sound
  case add =>
    intro t c _ installed
    refine (add_ends (inOrder.compiled installed) t installed inOrder.sound).mono ?_ aborts
    intro worked e' ended
    obtain ⟨g, advances, -⟩ := ended
    exact advances.sound
  case delete =>
    intro t _
    refine (delete_ends t inOrder.sound).mono ?_ fun _ _ failed => aborts _ _ failed.1
    intro _ e' ended
    obtain ⟨g, deleted, drops, rfl⟩ := ended
    exact drops.sound
  case applyOnce =>
    intro t c _ installed
    refine (applyOnce_ends (inOrder.compiled installed) t installed inOrder.sound).mono ?_ aborts
    intro new e' ended
    obtain ⟨p, adds, rfl⟩ := ended
    exact adds.sound

omit [LawfulStore R] [LawfulSink D] in
theorem Request.run_setup (request : Request) (e : Engine R D) :
    (request.run.outcome e).2.setup = e.setup ∨
      ∃ ignoreBackward c, e.compiled = none ∧
        CompiledRules.compile e.rules ignoreBackward = .ok c ∧
        (request.run.outcome e).2.setup = (e.setCompiled c).setup := by
  have kept := keptByCalls_setup e
  have anyGraph {α : Type} (m : Step StoreError (InferenceGraph R D) α) :
      (onGraph m).Preserves fun e' => e'.setup = e.setup := onGraph_preserves (fun _ same => same) m
  cases request with
  | delete t => exact Or.inl (delete_preserves kept.toKeptByNotes (anyGraph _) e rfl)
  | applyOnce t => exact Or.inl ((applyOnce_preserves kept.passes t).discard e rfl)
  | call c =>
    cases c with
    | load => exact Or.inl ((load_preserves kept).discard e rfl)
    | add t => exact Or.inl ((add_preserves kept.passes t (anyGraph _)).discard e rfl)
    | init ignoreBackward => exact (init_setup ignoreBackward e).imp_right fun new => ⟨_, new⟩

omit [LawfulStore R] [LawfulSink D] in
theorem compiled_after {c : CompiledRules} (installed : e.compiled = some c)
    (requests : List Request) : (e.after requests).compiled = some c := by
  refine after_keeps (·.compiled = some c) (fun request _ e installed => ?_) installed
  rcases request.run_setup e with same | ⟨ignoreBackward, c', missing, -⟩
  · exact (compiled_of_setup same).trans installed
  · rw [missing] at installed
    cases installed

theorem Request.run_inOrder (request : Request) (inOrder : e.InOrder) :
    (request.run.outcome e).2.InOrder := by
  refine ⟨request.run_sound inOrder, fun c installed => ?_⟩
  rcases request.run_setup e with same | ⟨ignoreBackward, c', missing, compiles, same⟩
  · exact inOrder.installed c (compiled_of_setup same ▸ installed)
  · obtain rfl : c' = c := Option.some.inj ((compiled_of_setup same).symm.trans installed)
    exact ⟨e.rules, ignoreBackward, compiles⟩

/-- The states that engines can be in. They are made over a sound graph, and come to be what they
are by requests, failed ones included, and by their owners, who may put another graph in place,
install other rules and switch the recording of derivations. -/
inductive Reached : Engine R D → Prop where
  | ofRules {graph : InferenceGraph R D} (rules : List Rule) (settings : EngineSettings) :
    graph.Sound → Reached (ofRules graph rules settings)
  | request {e : Engine R D} (request : Request) :
    Reached e → Reached (request.run.outcome e).2
  | edit {e : Engine R D} {graph : InferenceGraph R D} :
    Reached e → graph.Sound → Reached { e with graph }
  | install {e : Engine R D} {rules : List Rule} {ignoreBackward : Bool} {c : CompiledRules} :
    Reached e → CompiledRules.compile rules ignoreBackward = .ok c → Reached (e.setCompiled c)
  | record {e : Engine R D} (recording : Bool) : Reached e → Reached (e.setRecording recording)

theorem Reached.inOrder {e : Engine R D} (reached : e.Reached) : e.InOrder := by
  induction reached with
  | ofRules rules settings sound => exact ⟨sound, nofun⟩
  | request request _ ih => exact request.run_inOrder ih
  | edit _ sound ih => exact ⟨sound, ih.installed⟩
  | install _ compiles ih =>
    refine ⟨ih.sound, fun c installed => ?_⟩
    obtain rfl := Option.some.inj installed
    exact ⟨_, _, compiles⟩
  | record recording _ ih => exact ⟨ih.sound, ih.installed⟩

theorem Reached.after {e : Engine R D} (reached : e.Reached) (requests : List Request) :
    (e.after requests).Reached :=
  after_keeps Reached (fun request _ _ => .request request) reached

end

end Engine
end TripleInference
