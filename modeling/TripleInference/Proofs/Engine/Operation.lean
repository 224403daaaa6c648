import TripleInference.Proofs.Engine.Deducing
import TripleInference.Proofs.Engine.History

/-!
Whole runs of an engine: one operation after the other, failed ones included, and what each of them
does to the stage that the engine is in and to the firings noted by its first axiom pass.
-/
namespace TripleInference
namespace Engine

inductive Operation (R D : Type) where
  | request (asked : Request)
  | initAsConfigured
  | install (compiled : CompiledRules)
  | record (recording : Bool)
  /-- Works on the graph behind the engine's back. -/
  | edit (change : InferenceGraph R D → InferenceGraph R D)

structure Event (R D : Type) where
  operation : Operation R D
  before : Engine R D

inductive Made {R D : Type} : Engine R D → Prop where
  | ofRules (graph : InferenceGraph R D) (rules : List Rule) (settings : EngineSettings) :
    Made (ofRules graph rules settings)
  | ofCompiled (graph : InferenceGraph R D) (compiled : CompiledRules) (settings : EngineSettings) :
    Made (ofCompiled graph compiled settings)

namespace Event

variable {R D : Type}

def initFlag (x : Event R D) : Option Bool :=
  match x.operation with
  | .request (.call (.init ignoreBackward)) => some ignoreBackward
  | .initAsConfigured => some x.before.settings.ignoreBackward
  | _ => none

def Initialises (x : Event R D) : Prop := ∃ ignoreBackward, x.initFlag = some ignoreBackward

def Loads (x : Event R D) : Prop := x.operation = .request (.call .load)

end Event

/-- The axiom pass of an initialisation that gets past it: the engine that the pass begins with and
the one that it leaves. -/
def axiomPass {R D : Type} [TripleSource R] [TripleSink D] (ignoreBackward : Bool)
    (e : Engine R D) : Option (Engine R D × Engine R D) :=
  match (ensureCompiled ignoreBackward).outcome e with
  | (.error _, _) => none
  | (.ok _, begun) =>
    match assertAxioms.outcome begun with
    | (.error _, _) => none
    | (.ok _, done) => some (begun, done)

def Event.axiomPass {R D : Type} [TripleSource R] [TripleSink D] (x : Event R D) :
    Option (Engine R D × Engine R D) :=
  x.initFlag.bind fun ignoreBackward => Engine.axiomPass ignoreBackward x.before

section
variable {R D : Type} [TripleSink R] [EmptyCollection R] [TripleSink D]

def Operation.perform : Operation R D → Step Failure (Engine R D) (List Triple)
  | .request asked => asked.answer
  | .initAsConfigured => do Engine.initAsConfigured; return []
  | .install compiled => do modify (·.setCompiled compiled); return []
  | .record recording => do modify (·.setRecording recording); return []
  | .edit change => do modify fun e => { e with graph := change e.graph }; return []

namespace Event

def answer (x : Event R D) : Except Failure (List Triple) :=
  (x.operation.perform.outcome x.before).1

def after (x : Event R D) : Engine R D := (x.operation.perform.outcome x.before).2

def Succeeds (x : Event R D) : Prop := ∃ worked, x.answer = .ok worked

def Fails (x : Event R D) : Prop := ∃ failure, x.answer = .error failure

theorem Succeeds.not_fails {x : Event R D} (succeeds : x.Succeeds) : ¬ x.Fails := by
  rintro ⟨failure, failed⟩
  obtain ⟨worked, ok⟩ := succeeds
  rw [ok] at failed
  contradiction

theorem cases_of_ends {x : Event R D} {good : List Triple → Engine R D → Prop}
    {bad : Failure → Engine R D → Prop} (ends : x.operation.perform.Ends x.before good bad) :
    (∃ worked, x.answer = .ok worked ∧ good worked x.after) ∨
      ∃ failure, x.answer = .error failure ∧ bad failure x.after := by
  unfold Step.Ends at ends
  unfold answer after
  split at ends <;> rename_i run <;> rw [run]
  · exact Or.inl ⟨_, rfl, ends⟩
  · exact Or.inr ⟨_, rfl, ends⟩

end Event

def performed (e : Engine R D) : List (Operation R D) → Engine R D
  | [] => e
  | operation :: rest => (Event.mk operation e).after.performed rest

def history (e : Engine R D) : List (Operation R D) → List (Event R D)
  | [] => []
  | operation :: rest => ⟨operation, e⟩ :: (Event.mk operation e).after.history rest

theorem performed_append (e : Engine R D) (operations later : List (Operation R D)) :
    e.performed (operations ++ later) = (e.performed operations).performed later := by
  induction operations generalizing e with
  | nil => rfl
  | cons operation rest ih => exact ih _

theorem history_append (e : Engine R D) (operations later : List (Operation R D)) :
    e.history (operations ++ later) =
      e.history operations ++ (e.performed operations).history later := by
  induction operations generalizing e with
  | nil => rfl
  | cons operation rest ih => exact congrArg (_ :: ·) (ih _)

theorem performed_concat (e : Engine R D) (operations : List (Operation R D))
    (operation : Operation R D) :
    e.performed (operations ++ [operation]) =
      (Event.mk operation (e.performed operations)).after :=
  performed_append e operations [operation]

theorem history_concat (e : Engine R D) (operations : List (Operation R D))
    (operation : Operation R D) :
    e.history (operations ++ [operation]) =
      e.history operations ++ [⟨operation, e.performed operations⟩] :=
  history_append e operations [operation]

end

theorem keptByAllPasses_stage {R D : Type} (stage : Phase × Bool) (noted : Option Nat) :
    KeptByAllPasses fun e : Engine R D => e.stage = stage ∧ e.axiomFirings = noted :=
  (keptByAllPasses_part Engine.stage (fun _ _ _ _ _ => rfl) stage).and
    (keptByAllPasses_part Engine.axiomFirings (fun _ _ _ _ _ => rfl) noted)

theorem ensureCompiled_preserves_part {R D α : Type} (part : Engine R D → α)
    (apart : ∀ (e : Engine R D) compiled journal, part { e with compiled, journal } = part e)
    (ignoreBackward : Bool) (value : α) :
    (ensureCompiled ignoreBackward : Step Failure (Engine R D) Unit).Preserves
      fun e => part e = value := by
  intro e same
  unfold Step.outcome ensureCompiled
  split
  · exact same
  · split
    · exact (apart e _ _).trans same
    · exact same

section
variable {R D : Type} [TripleSource R] [TripleSink D]

/-- The firings noted before stay. If there are none, those by the end of the axiom pass are noted,
even where the loading pass fails. -/
def notedBy (ignoreBackward : Bool) (e : Engine R D) : Option Nat :=
  e.axiomFirings.or ((axiomPass ignoreBackward e).map (·.2.firings))

theorem init_ends_noted (ignoreBackward : Bool) (e : Engine R D) :
    (init ignoreBackward).Ends e
      (fun _ e' => e'.stage = (.ready, true) ∧ e'.axiomFirings = notedBy ignoreBackward e)
      (fun _ e' => e'.stage = (.uninitialized, false) ∧
        e'.axiomFirings = notedBy ignoreBackward e) := by
  rw [init_ends_iff]
  refine (Step.ends_self.and ((ensureCompiled_preserves_part Engine.axiomFirings
    (fun _ _ _ => rfl) ignoreBackward e.axiomFirings).ends rfl)).mono ?_ ?_
  · rintro _ begun ⟨compiles, same⟩
    refine (Step.ends_self.and ((assertAxioms_ends_processed fun _ =>
      (keptByAllPasses_stage begun.stage e.axiomFirings).over _) ⟨rfl, same⟩)).mono ?_ ?_
    · rintro _ _ ⟨asserts, done, ⟨-, same⟩, rfl⟩
      have noted : some (e.axiomFirings.getD done.firings) = notedBy ignoreBackward e := by
        rw [notedBy, axiomPass, compiles]
        simp only [asserts]
        cases e.axiomFirings <;> rfl
      -- the number is there before the loading pass, which may fail
      rw [same, ← noted]
      refine (load_ends_ready (fun _ => (keptByAllPasses_stage (.axiomsProcessed, true) _).over _)
        ⟨rfl, rfl⟩).mono ?_ ?_
      · rintro _ _ ⟨e₃, ⟨stage, same⟩, rfl⟩
        exact ⟨congrArg (fun s : Phase × Bool => (Phase.ready, s.2)) stage, same⟩
      · rintro _ e₃ ⟨-, same⟩
        exact ⟨rfl, same⟩
    · rintro _ done ⟨fails, -, same⟩
      refine ⟨rfl, ?_⟩
      rw [notedBy, axiomPass, compiles]
      simpa [fails] using same
  · rintro _ e' ⟨fails, same⟩
    refine ⟨rfl, ?_⟩
    rw [notedBy, axiomPass, fails]
    simpa using same

end

namespace Event

variable {R D : Type} [TripleSink R] [EmptyCollection R] [TripleSink D] {x : Event R D}

theorem ends_of_init {ignoreBackward : Bool} (flag : x.initFlag = some ignoreBackward)
    {good : Engine R D → Prop} {bad : Failure → Engine R D → Prop}
    (ends : (init ignoreBackward).Ends x.before (fun _ => good) bad) :
    x.operation.perform.Ends x.before (fun _ => good) bad := by
  unfold initFlag at flag
  split at flag
  case h_1 same =>
    cases flag
    rw [same]
    exact Step.ends_bind.mpr ends
  case h_2 same =>
    cases flag
    rw [same]
    exact Step.ends_bind.mpr ends
  case h_3 => contradiction

theorem after_of {here : Engine R D → Prop} (kept : KeptByAllPasses here) (start : here x.before)
    (init : ∀ ignoreBackward, x.initFlag = some ignoreBackward →
      here ((Engine.init ignoreBackward).outcome x.before).2)
    (load : x.Loads → here (Engine.load.outcome x.before).2)
    (install : ∀ c, x.operation = .install c → here (x.before.setCompiled c))
    (record : ∀ recording, here (x.before.setRecording recording)) : here x.after := by
  cases flag : x.initFlag with
  | some ignoreBackward =>
    exact (ends_of_init flag (Step.ends_of_final (init ignoreBackward flag))).final
  | none =>
    obtain ⟨operation, e⟩ := x
    cases operation with
    | request asked =>
      cases asked with
      | call call =>
        cases call with
        | init ignoreBackward => cases flag
        | load => exact load rfl
        | add t =>
          exact add_preserves (fun _ _ => kept.over _) t (onGraph_preserves kept.graph _) e start
      | delete t =>
        have deletes := delete_preserves (D := D) (t := t) kept.toKeptByNotes
          (onGraph_preserves kept.graph _)
        exact deletes.bind (fun _ => Step.preserves_pure []) e start
      | applyOnce t => exact applyOnce_preserves (fun _ _ => kept.over _) t e start
    | initAsConfigured => cases flag
    | install compiled => exact install compiled rfl
    | record recording => exact record recording
    | edit change => exact kept.graph _ start

theorem stage_after (x : Event R D) :
    (x.Initialises ∧ x.Succeeds ∧ x.after.stage = (.ready, true)) ∨
      (x.Initialises ∧ x.Fails ∧ x.after.stage = (.uninitialized, false)) ∨
      (¬ x.Initialises ∧ x.Loads ∧ x.Succeeds ∧
        x.after.stage = (.ready, x.before.axiomsDone)) ∨
      (¬ x.Initialises ∧ ¬ (x.Loads ∧ x.Succeeds) ∧ x.after.stage = x.before.stage) := by
  have kept := keptByAllPasses_stage (R := R) (D := D) x.before.stage x.before.axiomFirings
  cases flag : x.initFlag with
  | some ignoreBackward =>
    rcases cases_of_ends (ends_of_init flag (init_ends_noted ignoreBackward x.before)) with
      ⟨worked, ok, stage, -⟩ | ⟨failure, failed, stage, -⟩
    · exact Or.inl ⟨⟨_, flag⟩, ⟨worked, ok⟩, stage⟩
    · exact Or.inr (Or.inl ⟨⟨_, flag⟩, ⟨failure, failed⟩, stage⟩)
  | none =>
    have noInit : ¬ x.Initialises := by simp [Initialises, flag]
    by_cases loads : x.Loads
    · have ends : x.operation.perform.Ends x.before
          (fun _ e' => e'.stage = (.ready, x.before.axiomsDone))
          (fun _ e' => e'.stage = x.before.stage) := by
        rw [show x.operation = _ from loads]
        refine (load_ends_ready (fun _ => kept.over _) ⟨rfl, rfl⟩).mono ?_ fun _ _ same => same.1
        rintro worked _ ⟨e₁, ⟨stage, -⟩, rfl⟩
        exact congrArg (fun s : Phase × Bool => (Phase.ready, s.2)) stage
      rcases cases_of_ends ends with ⟨worked, ok, stage⟩ | ⟨failure, failed, stage⟩
      · exact Or.inr (Or.inr (Or.inl ⟨noInit, loads, ⟨worked, ok⟩, stage⟩))
      · have noSuccess : ¬ x.Succeeds := fun succeeds => succeeds.not_fails ⟨failure, failed⟩
        exact Or.inr (Or.inr (Or.inr ⟨noInit, fun ready => noSuccess ready.2, stage⟩))
    · obtain ⟨same, -⟩ := after_of kept ⟨rfl, rfl⟩
        (fun ignoreBackward initialises => absurd ⟨ignoreBackward, initialises⟩ noInit)
        (fun load => absurd load loads) (fun _ _ => ⟨rfl, rfl⟩) fun _ => ⟨rfl, rfl⟩
      exact Or.inr (Or.inr (Or.inr ⟨noInit, fun ready => loads ready.1, same⟩))

theorem axiomFirings_after (x : Event R D) :
    x.after.axiomFirings = x.before.axiomFirings.or (x.axiomPass.map (·.2.firings)) := by
  cases flag : x.initFlag with
  | some ignoreBackward =>
    rw [axiomPass, flag]
    rcases cases_of_ends (ends_of_init flag (init_ends_noted ignoreBackward x.before)) with
      ⟨worked, ok, -, noted⟩ | ⟨failure, failed, -, noted⟩
    · exact noted
    · exact noted
  | none =>
    rw [axiomPass, flag, Option.bind_none, Option.map_none, Option.or_none]
    have kept := keptByAllPasses_part (R := R) (D := D) Engine.axiomFirings
      (fun _ _ _ _ _ => rfl) x.before.axiomFirings
    refine after_of kept rfl ?_ (fun _ => load_preserves (kept.calls fun _ _ same => same) _ rfl)
      (fun _ _ => rfl) fun _ => rfl
    intro ignoreBackward initialises
    rw [flag] at initialises
    contradiction

theorem compiled_after {c : CompiledRules} (installed : x.before.compiled = some c)
    (noInstall : ∀ c', x.operation ≠ .install c') : x.after.compiled = some c := by
  have kept := keptByAllPasses_part (R := R) (D := D) Engine.compiled (fun _ _ _ _ _ => rfl)
    (some c)
  have calls := kept.calls fun _ _ same => same
  refine after_of kept installed ?_ (fun _ => load_preserves calls _ installed)
    (fun c' install => absurd install (noInstall c')) fun _ => installed
  intro ignoreBackward _
  refine init_leaves calls (fun _ same => same) ?_
  unfold Step.Ends Step.outcome ensureCompiled
  rw [installed]
  exact installed

theorem settings_after (x : Event R D) : x.after.settings = x.before.settings := by
  have kept := keptByAllPasses_part (R := R) (D := D) Engine.settings (fun _ _ _ _ _ => rfl)
    x.before.settings
  have calls := kept.calls fun _ _ same => same
  refine after_of kept rfl ?_ (fun _ => load_preserves calls _ rfl) (fun _ _ => rfl) fun _ => rfl
  intro ignoreBackward _
  refine init_leaves calls (fun _ same => same) ?_
  exact (ensureCompiled_preserves_part Engine.settings (fun _ _ _ => rfl) ignoreBackward
    x.before.settings).ends rfl

end Event

section
variable {R D : Type} [TripleSink R] [EmptyCollection R] [TripleSink D]

theorem settings_performed (e : Engine R D) (operations : List (Operation R D)) :
    (e.performed operations).settings = e.settings := by
  induction operations generalizing e with
  | nil => rfl
  | cons operation rest ih => exact (ih _).trans (Event.settings_after ⟨operation, e⟩)

end

end Engine
end TripleInference
