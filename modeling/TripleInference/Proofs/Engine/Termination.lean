import TripleInference.Proofs.Engine.Calls

/-!
Nothing an engine does goes on forever. An agenda is worked off within its budget, a match runs out
of nodes to be delivered to, and no call of an engine in memory fails for want of either.
-/
namespace TripleInference

namespace Pass

variable {c : CompiledRules}

theorem settle_within_budget (compiled : c.Compiled) {p : Pass FactIndex FactIndex}
    (sound : p.engine.graph.Sound) :
    ∃ worked e', worked.length ≤ budget c p ∧ ∀ limit, budget c p ≤ limit →
      ∃ agenda, (settle c limit).outcome p = (.ok worked, ⟨e', agenda⟩) ∧ agenda.pending = [] := by
  obtain ⟨worked, p', run, new, settles⟩ :=
    (settle_ends compiled (budget c p) sound).result not_aborts
  have done : p'.agenda.pending = [] := settles.finished (Nat.le_refl _)
  have stable := (settle_ends_of_done (budget c p)).good_of_outcome run done
  refine ⟨worked, p'.engine, settles.length_worked_le, fun limit enough => ?_⟩
  obtain ⟨_, ⟨e', agenda⟩, run', rfl, rfl, pending⟩ := (stable limit enough).result
    fun _ _ failed => failed
  exact ⟨agenda, run', pending⟩

end Pass

namespace Engine

variable {c : CompiledRules} {e : Engine FactIndex FactIndex}

theorem init_returns {ignoreBackward : Bool} (compiled : c.Compiled)
    (runs : e.Runs ignoreBackward c) (sound : e.graph.Sound) :
    ∃ e', (init ignoreBackward).outcome e = (.ok ⟨⟩, e') := by
  obtain ⟨_, e', run, -⟩ := (init_ends compiled runs sound).result not_aborts
  exact ⟨e', run⟩

theorem load_returns (compiled : c.Compiled) (installed : e.compiled = some c)
    (sound : e.graph.Sound) : ∃ worked e', load.outcome e = (.ok worked, e') := by
  obtain ⟨worked, e', run, -⟩ := (load_ends compiled installed sound).result not_aborts
  exact ⟨worked, e', run⟩

theorem add_returns (compiled : c.Compiled) (installed : e.compiled = some c)
    (sound : e.graph.Sound) (t : Triple) : ∃ worked e', (add t).outcome e = (.ok worked, e') := by
  obtain ⟨worked, e', run, -⟩ := (add_ends compiled t installed sound).result not_aborts
  exact ⟨worked, e', run⟩

/-- Work on an agenda ends within the budget and a delivery within the network, so that neither
limit cuts anything short, and every call returns. -/
theorem propagation_terminates {rules : List Rule} {ignoreBackward : Bool} {c : CompiledRules}
    (compiles : CompiledRules.compile rules ignoreBackward = .ok c) :
    (∀ p : Pass FactIndex FactIndex, p.engine.graph.Sound →
      ∃ worked e', worked.length ≤ Pass.budget c p ∧
        (∀ limit, Pass.budget c p ≤ limit → ∃ agenda,
          (Pass.settle c limit).outcome p = (.ok worked, ⟨e', agenda⟩) ∧ agenda.pending = []) ∧
        ∃ agenda, (Pass.settleAll c).outcome p = (.ok worked, ⟨e', agenda⟩) ∧
          agenda.pending = []) ∧
    (∀ (G : Type) [TripleSource G] (hops : Nat) (pos : NodeId) (b : Bindings), 0 < hops →
      c.network.size ≤ hops + pos →
      (Descent.deliver c hops pos b : Step Failure (Descent G) Unit) = Descent.enter c pos b) ∧
    ∀ e : Engine FactIndex FactIndex, e.graph.Sound →
      (∀ first, e.Runs first c → ∃ e', (init first).outcome e = (.ok ⟨⟩, e')) ∧
      (e.compiled = some c →
        (∃ worked e', load.outcome e = (.ok worked, e')) ∧
        ∀ t, ∃ worked e', (add t).outcome e = (.ok worked, e')) := by
  have compiled := CompiledRules.compiled_of_compile compiles
  refine ⟨fun p sound => ?_, fun G _ hops pos b positive enough => ?_, fun e sound => ?_⟩
  · obtain ⟨worked, e', within, stable⟩ := Pass.settle_within_budget compiled sound
    refine ⟨worked, e', within, stable, ?_⟩
    rw [Pass.settleAll, Step.outcome_bind, Step.outcome_get]
    exact stable _ (Pass.budget_le c p)
  · exact Descent.deliver_eq compiled positive enough (Nat.succ_pos _) (by omega) b
  · exact ⟨fun first runs => init_returns compiled runs sound, fun installed =>
      ⟨load_returns compiled installed sound, add_returns compiled installed sound⟩⟩

theorem cycle_terminates :
    ∃ c, CompiledRules.compile [.transitive 5] true = .ok c ∧
      ∃ worked e' agenda, (Pass.settleAll c).outcome
          ⟨ofRules (MemoryGraph.withRaw [⟨1, 5, 2⟩, ⟨2, 5, 1⟩]) [.transitive 5] .standard,
            (∅ : Agenda).enqueueAll [⟨1, 5, 2⟩, ⟨2, 5, 1⟩]⟩ = (.ok worked, ⟨e', agenda⟩) ∧
        agenda.pending = [] := by
  obtain ⟨c, compiles⟩ : ∃ c, CompiledRules.compile [.transitive 5] true = .ok c := ⟨_, rfl⟩
  obtain ⟨worked, e', -, -, agenda, run, done⟩ := (propagation_terminates compiles).1
    ⟨ofRules (MemoryGraph.withRaw [⟨1, 5, 2⟩, ⟨2, 5, 1⟩]) [.transitive 5] .standard,
      (∅ : Agenda).enqueueAll [⟨1, 5, 2⟩, ⟨2, 5, 1⟩]⟩ (MemoryGraph.withRaw_sound _).1
  exact ⟨c, compiles, worked, e', agenda, run, done⟩

end Engine
end TripleInference
