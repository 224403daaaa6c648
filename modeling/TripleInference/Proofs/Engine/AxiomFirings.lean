import TripleInference.Proofs.Engine.Counting
import TripleInference.Proofs.Engine.Operation

/-!
The firings that an engine keeps from its first axiom pass. An axiom counts as one firing when it is
asserted, and what follows from the axioms counts as anything else does. The number that is kept is
the total by the end of the pass, with whatever fired before the pass began.
-/
namespace TripleInference

namespace Engine

section
variable {R D : Type}

theorem ensureCompiled_installs (ignoreBackward : Bool) (e : Engine R D) :
    (ensureCompiled ignoreBackward).Ends e (fun _ e' => ∃ c, e'.compiled = some c)
      fun _ _ => True := by
  unfold Step.Ends Step.outcome ensureCompiled
  cases installed : e.compiled with
  | some c => exact ⟨c, installed⟩
  | none => cases CompiledRules.compile e.rules ignoreBackward with
    | ok c => exact ⟨c, rfl⟩
    | error failure => trivial

variable [TripleSource R] [TripleSink D]

/-- An axiom pass: its axioms are asserted, and what follows from them is worked off. -/
structure PassesAxioms (c : CompiledRules) (begun : Engine R D) (asserted settled : Pass R D)
    (done : Engine R D) : Prop where
  installed : begun.compiled = some c
  asserts : (c.activeAxioms.forM fun (id, r) => assertAxiom id r).outcome ⟨begun, ∅⟩ =
    (.ok ⟨⟩, asserted)
  settles : ∃ worked, (Pass.settleAll c).outcome asserted = (.ok worked, settled)
  leaves : done = { settled.engine with axiomsDone := true, phase := .axiomsProcessed }
  firings_asserted : asserted.engine.firings = begun.firings + c.activeAxioms.length
  firings_le : asserted.engine.firings ≤ settled.engine.firings

theorem assertAxioms_passes {c : CompiledRules} {begun : Engine R D}
    (installed : begun.compiled = some c) :
    assertAxioms.Ends begun (fun _ done => ∃ asserted settled,
      PassesAxioms c begun asserted settled done) fun _ _ => True := by
  rw [assertAxioms_ends_iff installed]
  refine (Step.ends_self.and (forM_assertAxiom_counts _ ⟨begun, ∅⟩)).mono ?_ fun _ _ _ => trivial
  rintro _ asserted ⟨asserts, counted⟩
  have counts := keptByAllPasses_firings (R := R) (D := D) asserted.engine.firings
  refine (Step.ends_self.and ((Pass.settleAll_preserves (counts.over c)).ends
    (Nat.le_refl _))).mono ?_ fun _ _ _ => trivial
  rintro worked settled ⟨settles, more⟩
  exact ⟨asserted, settled, installed, asserts, ⟨worked, settles⟩, rfl, counted, more⟩

theorem axiomPass_passes {ignoreBackward : Bool} {e begun done : Engine R D}
    (pass : axiomPass ignoreBackward e = some (begun, done)) :
    ∃ c asserted settled, PassesAxioms c begun asserted settled done := by
  unfold axiomPass at pass
  split at pass
  · contradiction
  · rename_i begun' compiles
    obtain ⟨c, installed⟩ := (ensureCompiled_installs ignoreBackward e).good_of_outcome compiles
    split at pass
    · contradiction
    · rename_i done' asserts
      obtain ⟨rfl, rfl⟩ := Prod.mk.inj (Option.some.inj pass)
      exact ⟨c, (assertAxioms_passes installed).good_of_outcome asserts⟩

end

section
variable {R D : Type} [TripleSink R] [EmptyCollection R] [TripleSink D]

theorem axiomFirings_performed (e : Engine R D) (operations : List (Operation R D)) :
    (e.performed operations).axiomFirings =
      e.axiomFirings.or (((e.history operations).findSome? Event.axiomPass).map (·.2.firings)) := by
  induction operations generalizing e with
  | nil => exact Option.or_none.symm
  | cons operation rest ih =>
    rw [performed, ih, Event.axiomFirings_after, history, List.findSome?_cons, Option.or_assoc]
    cases Event.axiomPass ⟨operation, e⟩ <;> rfl

/-- Over every run of an engine from when it was made, failed operations included, no axiom firings
are noted before an axiom pass is got past. From then on their number stays the same: one for each
active axiom, those of what follows from them, and all that fired before the pass began. It is the
count of the pass alone exactly if nothing had. -/
theorem axiom_firings_are_the_total_after_the_first_pass {e : Engine R D} (made : e.Made)
    (operations : List (Operation R D)) :
    ((e.history operations).findSome? Event.axiomPass = none →
      (e.performed operations).axiomFirings = none) ∧
    ∀ begun done, (e.history operations).findSome? Event.axiomPass = some (begun, done) →
      ∃ c asserted settled own, PassesAxioms c begun asserted settled done ∧
        own = c.activeAxioms.length + (settled.engine.firings - asserted.engine.firings) ∧
        (∀ later, (e.performed (operations ++ later)).axiomFirings = some (begun.firings + own)) ∧
        ((e.performed operations).axiomFirings = some own ↔ begun.firings = 0) := by
  have unnoted : e.axiomFirings = none := by cases made <;> rfl
  have noted := axiomFirings_performed e
  simp only [unnoted, Option.none_or] at noted
  refine ⟨fun none => by rw [noted, none]; rfl, fun begun done first => ?_⟩
  obtain ⟨x, mem, pass⟩ := List.exists_of_findSome?_eq_some first
  obtain ⟨ignoreBackward, -, pass⟩ := Option.bind_eq_some_iff.mp pass
  obtain ⟨c, asserted, settled, passes⟩ := axiomPass_passes pass
  have counted : done.firings = begun.firings +
      (c.activeAxioms.length + (settled.engine.firings - asserted.engine.firings)) := by
    have total : done.firings = settled.engine.firings := by rw [passes.leaves]
    have started := passes.firings_asserted
    have more := passes.firings_le
    omega
  refine ⟨c, asserted, settled, _, passes, rfl, fun later => ?_, ?_⟩
  · rw [noted, history_append, List.findSome?_append, first, ← counted]
    rfl
  · rw [noted, first, Option.map_some, Option.some_inj, counted]
    omega

end

theorem axiom_and_conclusion_are_two_firings :
    ∃ begun done c asserted settled own,
      ((ofRules MemoryGraph.withoutRaw
        [.unconditional [⟨.constant 5, .constant 1, .constant 6⟩], .inclusion 1 2]
        .standard).history [.request (.call (.init true))]).findSome? Event.axiomPass =
          some (begun, done) ∧
      PassesAxioms c begun asserted settled done ∧ own = 2 ∧ begun.firings = 0 := by
  let e : Engine FactIndex FactIndex := ofRules MemoryGraph.withoutRaw
    [.unconditional [⟨.constant 5, .constant 1, .constant 6⟩], .inclusion 1 2] .standard
  have made : e.Made := .ofRules _ _ _
  have two : (e.performed [.request (.call (.init true))]).axiomFirings = some 2 := by
    decide +kernel
  have none : ((e.history [.request (.call (.init true))]).findSome? Event.axiomPass).map
      (·.1.firings) = some 0 := by decide +kernel
  obtain ⟨⟨begun, done⟩, first, nothing⟩ := Option.map_eq_some_iff.mp none
  obtain ⟨c, asserted, settled, own, passes, -, -, alone⟩ :=
    (axiom_firings_are_the_total_after_the_first_pass made _).2 begun done first
  have same := (alone.mpr nothing).symm.trans two
  exact ⟨begun, done, c, asserted, settled, own, first, passes, Option.some.inj same, nothing⟩

def preinstalled (c : CompiledRules) : Engine FactIndex FactIndex :=
  ofCompiled MemoryGraph.withoutRaw c .standard

def addThenInit : List (Operation FactIndex FactIndex) :=
  [.request (.call (.add ⟨5, 1, 6⟩)), .request (.call (.init true))]

theorem addition_before_the_axiom_pass_is_counted :
    ∃ c begun done, CompiledRules.compile [.inclusion 1 2] true = .ok c ∧
      ((preinstalled c).history addThenInit).findSome? Event.axiomPass = some (begun, done) ∧
      done.firings - begun.firings = 0 ∧
      ((preinstalled c).performed addThenInit).axiomFirings = some 1 := by
  obtain ⟨c, compiles⟩ : ∃ c, CompiledRules.compile [.inclusion 1 2] true = .ok c := ⟨_, rfl⟩
  have ran : (((preinstalled c).history addThenInit).findSome? Event.axiomPass).map
      (fun pass => pass.2.firings - pass.1.firings) = some 0 ∧
      ((preinstalled c).performed addThenInit).axiomFirings = some 1 := by
    obtain ⟨-, rfl⟩ := CompiledRules.compile_eq_ok.mp compiles
    decide +kernel
  obtain ⟨own, noted⟩ := ran
  obtain ⟨⟨begun, done⟩, first, nothing⟩ := Option.map_eq_some_iff.mp own
  exact ⟨c, begun, done, compiles, first, nothing, noted⟩

end Engine
end TripleInference
