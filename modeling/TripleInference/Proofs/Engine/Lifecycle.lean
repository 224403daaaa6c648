import TripleInference.Proofs.Engine.Operation

/-!
The life of an engine, over whole runs of operations of which any may fail, for whatever reason. The
phase that an engine is in, whether it traces and whether it has noted firings are read off what
happened; compiled rules stay.
-/
namespace TripleInference

/-- Something with `start` has happened, and nothing with `stop` since. -/
def Since {α : Type} (start stop : α → Prop) (events : List α) : Prop :=
  ∃ earlier x later, events = earlier ++ x :: later ∧ start x ∧ ∀ y ∈ later, ¬ stop y

section
variable {α : Type} {start stop : α → Prop}

theorem not_since_nil : ¬ Since start stop [] := by
  rintro ⟨earlier, x, later, nothing, -⟩
  exact List.append_ne_nil_of_right_ne_nil earlier (List.cons_ne_nil x later) nothing.symm

theorem since_concat {events : List α} {x : α} :
    Since start stop (events ++ [x]) ↔ start x ∨ Since start stop events ∧ ¬ stop x := by
  constructor
  · rintro ⟨earlier, y, later, split, starts, calm⟩
    rcases List.eq_nil_or_concat later with rfl | ⟨later, z, rfl⟩
    · obtain ⟨-, same⟩ := List.append_inj' split rfl
      obtain rfl := List.singleton_inj.mp same
      exact Or.inl starts
    · rw [List.concat_eq_append, ← List.cons_append, ← List.append_assoc] at split
      obtain ⟨rfl, same⟩ := List.append_inj' split rfl
      obtain rfl := List.singleton_inj.mp same
      rw [List.concat_eq_append, List.forall_mem_append] at calm
      exact Or.inr ⟨⟨earlier, y, later, rfl, starts, calm.1⟩, calm.2 x List.mem_cons_self⟩
  · rintro (starts | ⟨⟨earlier, y, later, rfl, starts, calm⟩, quiet⟩)
    · exact ⟨events, x, [], rfl, starts, List.forall_mem_nil _⟩
    · refine ⟨earlier, y, later ++ [x], by rw [List.append_assoc, List.cons_append], starts, ?_⟩
      exact List.forall_mem_append.mpr ⟨calm, List.forall_mem_singleton.mpr quiet⟩

end

namespace Engine

variable {R D : Type} [TripleSink R] [EmptyCollection R] [TripleSink D]

structure Lifecycle (e : Engine R D) (events : List (Event R D)) : Prop where
  phase_ne : e.phase ≠ .axiomsProcessed
  /-- The phase is left again by a failing initialisation only. -/
  ready_iff : e.phase = .ready ↔
    Since (fun x => (x.Initialises ∨ x.Loads) ∧ x.Succeeds)
      (fun x => x.Initialises ∧ x.Fails) events
  axiomsDone_iff : e.axiomsDone = true ↔
    Since (fun x => x.Initialises ∧ x.Succeeds) (fun x => x.Initialises) events
  isSome_axiomFirings_iff : e.axiomFirings.isSome = true ↔ ∃ x ∈ events, x.axiomPass.isSome = true

theorem Lifecycle.concat {x : Event R D} {events : List (Event R D)}
    (cycle : Lifecycle x.before events) : Lifecycle x.after (events ++ [x]) := by
  have noted : x.after.axiomFirings.isSome = true ↔
      ∃ y ∈ events ++ [x], y.axiomPass.isSome = true := by
    rw [x.axiomFirings_after, Option.isSome_or, Option.isSome_map, Bool.or_eq_true,
      cycle.isSome_axiomFirings_iff]
    simp only [List.mem_append, List.mem_singleton, or_and_right, exists_or, exists_eq_left]
  -- an operation moves the stage in one of three ways, or not at all
  rcases x.stage_after with ⟨init, succeeds, stage⟩ | ⟨init, fails, stage⟩ |
    ⟨noInit, loads, succeeds, stage⟩ | ⟨noInit, idle, stage⟩
  · obtain ⟨phase, done⟩ := Prod.mk.inj stage
    constructor
    case phase_ne => simp [phase]
    case ready_iff => simp [phase, since_concat, init, succeeds]
    case axiomsDone_iff => simp [done, since_concat, init, succeeds]
    case isSome_axiomFirings_iff => exact noted
  · have noSuccess : ¬ x.Succeeds := fun succeeds => succeeds.not_fails fails
    obtain ⟨phase, done⟩ := Prod.mk.inj stage
    constructor
    case phase_ne => simp [phase]
    case ready_iff => simp [phase, since_concat, init, fails, noSuccess]
    case axiomsDone_iff => simp [done, since_concat, init, noSuccess]
    case isSome_axiomFirings_iff => exact noted
  · obtain ⟨phase, done⟩ := Prod.mk.inj stage
    constructor
    case phase_ne => simp [phase]
    case ready_iff => simp [phase, since_concat, loads, succeeds]
    case axiomsDone_iff => simp [done, since_concat, cycle.axiomsDone_iff, noInit]
    case isSome_axiomFirings_iff => exact noted
  · obtain ⟨phase, done⟩ := Prod.mk.inj stage
    constructor
    case phase_ne => exact phase ▸ cycle.phase_ne
    case ready_iff => simp [phase, since_concat, cycle.ready_iff, noInit, idle]
    case axiomsDone_iff => simp [done, since_concat, cycle.axiomsDone_iff, noInit]
    case isSome_axiomFirings_iff => exact noted

theorem Made.lifecycle {e : Engine R D} (made : e.Made) (operations : List (Operation R D)) :
    Lifecycle (e.performed operations) (e.history operations) := by
  induction operations using List.reverseRecOn with
  | nil =>
    -- either way of making an engine leaves its status blank
    have blank : e.stage = (.uninitialized, false) ∧ e.axiomFirings = none := by
      cases made <;> exact ⟨rfl, rfl⟩
    obtain ⟨stage, unnoted⟩ := blank
    obtain ⟨phase, done⟩ := Prod.mk.inj stage
    constructor
    case phase_ne => simp [performed, phase]
    case ready_iff => simp [performed, history, phase, not_since_nil]
    case axiomsDone_iff => simp [performed, history, done, not_since_nil]
    case isSome_axiomFirings_iff => simp [performed, history, unnoted]
  | append_singleton operations operation ih =>
    rw [performed_concat, history_concat]
    exact ih.concat

theorem compiled_performed {c : CompiledRules} {e : Engine R D} (installed : e.compiled = some c)
    {operations : List (Operation R D)} (noInstall : ∀ c', .install c' ∉ operations) :
    (e.performed operations).compiled = some c := by
  induction operations generalizing e with
  | nil => exact installed
  | cons operation rest ih =>
    have first : ∀ c', operation ≠ .install c' := by
      rintro c' rfl
      exact noInstall c' List.mem_cons_self
    have stays := Event.compiled_after (x := ⟨operation, e⟩) installed first
    exact ih stays fun c' mem => noInstall c' (List.mem_cons_of_mem _ mem)

/-- Over every run of an engine from when it was made, failed operations included, its status is
the account of what happened that a `Lifecycle` gives; and once rules are compiled, only an owner
who installs others replaces them, whatever initialisations follow. -/
theorem status_is_the_account_of_the_run {e : Engine R D} (made : e.Made)
    (operations : List (Operation R D)) :
    Lifecycle (e.performed operations) (e.history operations) ∧
      ∀ c, (e.performed operations).compiled = some c → ∀ later, (∀ c', .install c' ∉ later) →
        (e.performed (operations ++ later)).compiled = some c := by
  refine ⟨made.lifecycle operations, fun c installed later noInstall => ?_⟩
  rw [performed_append]
  exact compiled_performed installed noInstall

def unfit : Engine FactIndex FactIndex :=
  ofRules MemoryGraph.withoutRaw [.unconditional [⟨.var 0, .constant 2, .constant 3⟩]] .standard

def mending (c : CompiledRules) : List (Operation FactIndex FactIndex) :=
  [.request (.call (.init true)), .install c, .request (.call .load)]

theorem mended_engine_is_ready_without_tracing :
    ∃ c, CompiledRules.compile [] true = .ok c ∧ (unfit.performed (mending c)).phase = .ready ∧
      (unfit.performed (mending c)).axiomsDone = false ∧
      Lifecycle (unfit.performed (mending c)) (unfit.history (mending c)) := by
  refine ⟨_, rfl, by decide +kernel, by decide +kernel, ?_⟩
  exact (status_is_the_account_of_the_run (.ofRules _ _ _) _).1

end Engine
end TripleInference
