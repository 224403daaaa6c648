import Mathlib.Tactic.Choose
import TripleInference.Store.Graph

/-!
Steps over a graph, seen from its two stores: scripts of requests. What is requested next depends
on the answers so far and on nothing else that is in the stores. A script has no way to go on after
a request that fails.
-/
namespace TripleInference

inductive StoreRequest where
  | find (l : Lookup)
  | contains (t : Triple)
  | add (t : Triple)
  | delete (t : Triple)
deriving DecidableEq, Repr

namespace StoreRequest

def Answer : StoreRequest → Type
  | .find _ => List Triple
  | .contains _ | .add _ | .delete _ => Bool

def make {S : Type} [TripleSink S] : (request : StoreRequest) → Step StoreError S request.Answer
  | .find l => TripleSource.find l
  | .contains t => TripleSource.contains t
  | .add t => TripleSink.add t
  | .delete t => TripleSink.delete t

end StoreRequest

inductive Place where
  | raw
  | deductions
deriving DecidableEq, Repr

structure StoreCall where
  place : Place
  request : StoreRequest
  failure : Option StoreError
deriving DecidableEq, Repr

class OverGraph (σ : Type) (G : outParam Type) where
  withGraph : σ → G → σ

instance {R D : Type} : OverGraph (InferenceGraph R D) (InferenceGraph R D) where
  withGraph _ g := g

section
variable {ε δ σ τ α β R D : Type} {fail : StoreError → ε}

/-- What to do with a graph. A request is followed by what depends on its answer; if it fails, only
the state `broken` is left. Other faults than those of a store end a script too. -/
inductive Script (fail : StoreError → ε) (σ α : Type) where
  | done (a : α) (s : σ)
  | fault (e : ε) (own : ∀ error, fail error ≠ e) (s : σ)
  | ask (place : Place) (request : StoreRequest) (broken : σ)
    (next : request.Answer → Script fail σ α)
  | ifRaw (there missing : Script fail σ α)

namespace Script

def bind (next : α → σ → Script fail σ β) : Script fail σ α → Script fail σ β
  | .done a s => next a s
  | .fault e own s => .fault e own s
  | .ask place request broken k => .ask place request broken fun answer => (k answer).bind next
  | .ifRaw there missing => .ifRaw (there.bind next) (missing.bind next)

def reshape (widen : ε → δ) (injective : Function.Injective widen) (put undo : σ → τ) :
    Script fail σ α → Script (fun error => widen (fail error)) τ α
  | .done a s => .done a (put s)
  | .fault e own s => .fault (widen e) (fun error same => own error (injective same)) (undo s)
  | .ask place request broken k =>
    .ask place request (undo broken) fun answer => (k answer).reshape widen injective put undo
  | .ifRaw there missing =>
    .ifRaw (there.reshape widen injective put undo) (missing.reshape widen injective put undo)

end Script

variable [TripleSink R] [EmptyCollection R] [TripleSink D]

def Place.make (request : StoreRequest) :
    Place → Step StoreError (InferenceGraph R D) request.Answer
  | .raw => request.make.within (·.raw.getD ∅) (fun raw g => { g with raw := some raw }) id
  | .deductions => InferenceGraph.onDeductions request.make

namespace Script

variable [OverGraph σ (InferenceGraph R D)]

def run : Script fail σ α → InferenceGraph R D → Except ε α × σ
  | .done a s, g => (.ok a, OverGraph.withGraph s g)
  | .fault e _ s, g => (.error e, OverGraph.withGraph s g)
  | .ask place request broken next, g =>
    match (place.make request).outcome g with
    | (.ok answer, g) => (next answer).run g
    | (.error error, g) => (.error (fail error), OverGraph.withGraph broken g)
  | .ifRaw there missing, g => if g.raw.isSome then there.run g else missing.run g

def calls : Script fail σ α → InferenceGraph R D → List StoreCall
  | .done _ _, _ => []
  | .fault _ _ _, _ => []
  | .ask place request _ next, g =>
    match (place.make request).outcome g with
    | (.ok answer, g) => ⟨place, request, none⟩ :: (next answer).calls g
    | (.error error, _) => [⟨place, request, some error⟩]
  | .ifRaw there missing, g => if g.raw.isSome then there.calls g else missing.calls g

/-- How a run ends: in a result or a fault of its own after requests that all went well, or with the
failure of its last request. -/
inductive Ended (fail : StoreError → ε) : List StoreCall → Except ε α → Prop where
  | done {calls : List StoreCall} {a : α} (well : ∀ call ∈ calls, call.failure = none) :
    Ended fail calls (.ok a)
  | fault {calls : List StoreCall} {e : ε} (well : ∀ call ∈ calls, call.failure = none)
    (own : ∀ error, fail error ≠ e) : Ended fail calls (.error e)
  | broken (before : List StoreCall) {last : StoreCall} {error : StoreError}
    (well : ∀ call ∈ before, call.failure = none) (failed : last.failure = some error) :
    Ended fail (before ++ [last]) (.error (fail error))

theorem Ended.cons {calls : List StoreCall} {result : Except ε α} (ended : Ended fail calls result)
    {first : StoreCall} (well : first.failure = none) : Ended fail (first :: calls) result := by
  cases ended with
  | done later => exact .done (List.forall_mem_cons.mpr ⟨well, later⟩)
  | fault later own => exact .fault (List.forall_mem_cons.mpr ⟨well, later⟩) own
  | broken before later failed =>
    exact .broken (first :: before) (List.forall_mem_cons.mpr ⟨well, later⟩) failed

theorem not_failed_of_well {calls : List StoreCall} (well : ∀ call ∈ calls, call.failure = none)
    {error : StoreError} : ¬ ∃ call ∈ calls, call.failure = some error := by
  rintro ⟨call, mem, failed⟩
  rw [well call mem] at failed
  cases failed

theorem Ended.failed_iff (injective : Function.Injective fail) {calls : List StoreCall}
    {result : Except ε α} (ended : Ended fail calls result) (error : StoreError) :
    (∃ call ∈ calls, call.failure = some error) ↔ result = .error (fail error) := by
  cases ended with
  | done well => exact iff_of_false (not_failed_of_well well) nofun
  | fault well own =>
    exact iff_of_false (not_failed_of_well well) fun same => own error (Except.error.inj same).symm
  | broken before well failed =>
    rename_i last error'
    constructor
    · rintro ⟨call, mem, failed'⟩
      rcases List.mem_append.mp mem with early | here
      · exact absurd ⟨call, early, failed'⟩ (not_failed_of_well well)
      · rw [List.mem_singleton.mp here, failed] at failed'
        rw [Option.some.inj failed']
    · intro same
      rw [injective (Except.error.inj same)] at failed
      exact ⟨last, List.mem_append_right _ List.mem_cons_self, failed⟩

theorem Ended.last_of_failed {calls : List StoreCall} {result : Except ε α}
    (ended : Ended fail calls result) {call : StoreCall} (mem : call ∈ calls)
    {error : StoreError} (failed : call.failure = some error) :
    ∃ before, calls = before ++ [call] ∧ ∀ other ∈ before, other.failure = none := by
  cases ended with
  | done well => exact absurd ⟨call, mem, failed⟩ (not_failed_of_well well)
  | fault well own => exact absurd ⟨call, mem, failed⟩ (not_failed_of_well well)
  | broken before well failed' =>
    rcases List.mem_append.mp mem with early | here
    · exact absurd ⟨call, early, failed⟩ (not_failed_of_well well)
    · exact ⟨before, by rw [List.mem_singleton.mp here], well⟩

theorem run_ended (script : Script fail σ α) (g : InferenceGraph R D) :
    Ended fail (script.calls g) (script.run g).1 := by
  induction script generalizing g with
  | done a s => exact .done nofun
  | fault e own s => exact .fault nofun own
  | ask place request broken next ih =>
    rw [calls, run]
    rcases (place.make request).outcome g with ⟨_ | answer, g'⟩
    · exact .broken [] nofun rfl
    · exact (ih answer g').cons rfl
  | ifRaw there missing ih ih' =>
    rw [calls, run]
    cases g.raw.isSome with
    | true => exact ih g
    | false => exact ih' g

theorem run_bind {later : α → σ → Except ε β × σ} {next : α → σ → Script fail σ β}
    (same : ∀ a s g, later a (OverGraph.withGraph s g) = (next a s).run g)
    (script : Script fail σ α) (g : InferenceGraph R D) :
    (script.bind next).run g =
      match script.run g with
      | (.ok a, s) => later a s
      | (.error e, s) => (.error e, s) := by
  induction script generalizing g with
  | done a s => exact (same a s g).symm
  | fault e own s => rfl
  | ask place request broken k ih =>
    rw [run, bind, run]
    rcases (place.make request).outcome g with ⟨error | answer, g'⟩
    · rfl
    · exact ih answer g'
  | ifRaw there missing ih ih' =>
    rw [run, bind, run]
    cases g.raw.isSome with
    | true => exact ih g
    | false => exact ih' g

theorem run_reshape [OverGraph τ (InferenceGraph R D)] {widen : ε → δ}
    {injective : Function.Injective widen} {put undo : σ → τ} (put' undo' : σ → τ)
    (puts : ∀ s g, put' (OverGraph.withGraph s g) = OverGraph.withGraph (put s) g)
    (undoes : ∀ s g, undo' (OverGraph.withGraph s g) = OverGraph.withGraph (undo s) g)
    (script : Script fail σ α) (g : InferenceGraph R D) :
    (script.reshape widen injective put undo).run g =
      match script.run g with
      | (.ok a, s) => (.ok a, put' s)
      | (.error e, s) => (.error (widen e), undo' s) := by
  induction script generalizing g with
  | done a s => exact congrArg (Prod.mk _) (puts s g).symm
  | fault e own s => exact congrArg (Prod.mk _) (undoes s g).symm
  | ask place request broken k ih =>
    rw [run, reshape, run]
    rcases (place.make request).outcome g with ⟨error | answer, g'⟩
    · exact congrArg (Prod.mk _) (undoes broken g').symm
    · exact ih answer g'
  | ifRaw there missing ih ih' =>
    rw [run, reshape, run]
    cases g.raw.isSome with
    | true => exact ih g
    | false => exact ih' g

end Script

namespace Step

variable [OverGraph σ (InferenceGraph R D)] {fail : StoreError → ε}

/-- Whatever graph is put into a state, the step runs the same script on it. -/
def Scripted (fail : StoreError → ε) (m : Step ε σ α) : Prop :=
  ∀ s, ∃ script : Script fail σ α, ∀ g : InferenceGraph R D,
    m.outcome (OverGraph.withGraph s g) = script.run g

theorem scripted_of_blind {m : Step ε σ α}
    (blind : ∀ s g, m.outcome (OverGraph.withGraph s g) =
      ((m.outcome s).1, OverGraph.withGraph (m.outcome s).2 g))
    (own : ∀ s error, (m.outcome s).1 ≠ .error (fail error)) : Scripted fail m := by
  intro s
  have own := own s
  rcases run : m.outcome s with ⟨e | a, s'⟩
  · rw [run] at own
    refine ⟨.fault e (fun error same => own error (congrArg _ same.symm)) s', fun g => ?_⟩
    rw [blind, run]
    rfl
  · refine ⟨.done a s', fun g => ?_⟩
    rw [blind, run]
    rfl

theorem scripted_pure (a : α) : Scripted fail (pure a : Step ε σ α) :=
  scripted_of_blind (fun _ _ => rfl) nofun

theorem scripted_throw {e : ε} (own : ∀ error, fail error ≠ e) :
    Scripted fail (throw e : Step ε σ α) :=
  scripted_of_blind (fun _ _ => rfl) fun _ error same => own error (Except.error.inj same).symm

theorem scripted_modify {change : σ → σ}
    (blind : ∀ s g, change (OverGraph.withGraph s g) = OverGraph.withGraph (change s) g) :
    Scripted fail (modify change : Step ε σ PUnit) :=
  scripted_of_blind (fun s g => congrArg (Prod.mk _) (blind s g)) nofun

theorem scripted_ofExcept {widen : δ → ε} (own : ∀ error e, fail error ≠ widen e)
    (result : Except δ α) : Scripted fail (ofExcept widen result : Step ε σ α) := by
  cases result with
  | ok a => exact scripted_pure a
  | error e => exact scripted_throw fun error => own error e

theorem scripted_get_bind {next : σ → Step ε σ α}
    (blind : ∀ s g, next (OverGraph.withGraph s g) = next s)
    (later : ∀ s, Scripted fail (next s)) : Scripted fail (get >>= next) := by
  intro s
  obtain ⟨script, same⟩ := later s s
  refine ⟨script, fun g => ?_⟩
  rw [outcome_bind, outcome_get]
  simp only [blind, same]

theorem scripted_get_set {change : σ → σ} {m : Step ε σ α}
    (blind : ∀ s g, change (OverGraph.withGraph s g) = OverGraph.withGraph (change s) g)
    (later : Scripted fail m) :
    Scripted fail (do let s ← get; set (change s); m) := by
  intro s
  obtain ⟨script, same⟩ := later (change s)
  refine ⟨script, fun g => ?_⟩
  rw [outcome_bind, outcome_get]
  simp only []
  rw [outcome_bind, outcome_set, blind]
  exact same g

theorem Scripted.bind {m : Step ε σ α} {next : α → Step ε σ β} (first : Scripted fail m)
    (later : ∀ a, Scripted fail (next a)) : Scripted fail (m >>= next) := by
  intro s
  obtain ⟨script, same⟩ := first s
  choose scripts same' using later
  refine ⟨script.bind scripts, fun g => ?_⟩
  rw [outcome_bind, same]
  exact (Script.run_bind same' script g).symm

theorem Scripted.map {m : Step ε σ α} (scripted : Scripted fail m) (f : α → β) :
    Scripted fail (f <$> m) := by
  rw [map_eq_pure_bind]
  exact scripted.bind fun a => scripted_pure (f a)

theorem Scripted.discard {m : Step ε σ α} (scripted : Scripted fail m) :
    Scripted fail (discard m : Step ε σ PUnit) := scripted.map fun _ => PUnit.unit

theorem scripted_forM {step : α → Step ε σ PUnit} (each : ∀ a, Scripted fail (step a))
    (as : List α) : Scripted fail (as.forM step) := by
  induction as with
  | nil => exact scripted_pure _
  | cons a as ih => exact (each a).bind fun _ => ih

theorem scripted_foldlM {step : β → α → Step ε σ β} (each : ∀ b a, Scripted fail (step b a))
    (as : List α) (b : β) : Scripted fail (as.foldlM step b) := by
  induction as generalizing b with
  | nil => exact scripted_pure b
  | cons a as ih =>
    rw [List.foldlM_cons]
    exact (each b a).bind ih

theorem Scripted.onFailure {m : Step ε σ α} (scripted : Scripted fail m) {undo : σ → σ}
    (blind : ∀ s g, undo (OverGraph.withGraph s g) = OverGraph.withGraph (undo s) g) :
    Scripted fail (onFailure undo m) := by
  intro s
  obtain ⟨script, same⟩ := scripted s
  refine ⟨script.reshape id Function.injective_id id undo, fun g => ?_⟩
  have untouched (s : σ) (g : InferenceGraph R D) :
      id (OverGraph.withGraph s g) = OverGraph.withGraph (id s) g := rfl
  rw [outcome_onFailure, same]
  exact (Script.run_reshape id undo untouched blind script g).symm

theorem Scripted.within [OverGraph τ (InferenceGraph R D)] {m : Step ε τ α}
    (scripted : Scripted fail m) {part : σ → τ} {put : τ → σ → σ} {widen : ε → δ}
    (injective : Function.Injective widen)
    (reads : ∀ s g, part (OverGraph.withGraph s g) = OverGraph.withGraph (part s) g)
    (writes : ∀ t s g g', put (OverGraph.withGraph t g) (OverGraph.withGraph s g') =
      OverGraph.withGraph (put t s) g) :
    Scripted (fun error => widen (fail error)) (m.within part put widen) := by
  intro s
  obtain ⟨script, same⟩ := scripted (part s)
  refine ⟨script.reshape widen injective (put · s) (put · s), fun g => ?_⟩
  let write (t : τ) : σ := put t (OverGraph.withGraph s g)
  have writes' (t : τ) (g' : InferenceGraph R D) :
      write (OverGraph.withGraph t g') = OverGraph.withGraph (put t s) g' := writes t s g' g
  rw [outcome_within, reads, same, Script.run_reshape write write writes' writes']
  rcases script.run g with ⟨e | a, t⟩ <;> rfl

end Step

namespace InferenceGraph

open Step

theorem scripted_make (place : Place) (request : StoreRequest) :
    Scripted id (place.make request :
      Step StoreError (InferenceGraph R D) request.Answer) := by
  intro g
  refine ⟨.ask place request g fun answer => .done answer g, fun g' => ?_⟩
  rw [Script.run]
  change (place.make request).outcome g' = _
  rcases (place.make request).outcome g' with ⟨error | answer, g''⟩ <;> rfl

theorem scripted_onDeductions (request : StoreRequest) :
    Scripted id (onDeductions request.make :
      Step StoreError (InferenceGraph R D) request.Answer) := scripted_make .deductions request

omit [TripleSink D] in
theorem assertRaw_eq (t : Triple) :
    (assertRaw t : Step StoreError (InferenceGraph R D) Bool) =
      (TripleSink.add t).within (·.raw.getD ∅) (fun raw g => { g with raw := some raw }) id := by
  funext g
  unfold assertRaw Step.within
  rcases (TripleSink.add t).outcome (g.raw.getD ∅) with ⟨error | answer, raw⟩ <;> rfl

theorem scripted_assertRaw (t : Triple) :
    Scripted id (assertRaw t : Step StoreError (InferenceGraph R D) Bool) := by
  rw [assertRaw_eq]
  exact scripted_make .raw (.add t)

omit [TripleSink R] [EmptyCollection R] [TripleSink D] in
theorem outcome_onRaw_some (m : Step StoreError R α) (raw : R) (deductions : D) :
    (onRaw m).outcome (⟨some raw, deductions⟩ : InferenceGraph R D) =
      ((m.outcome raw).1.map some, ⟨some (m.outcome raw).2, deductions⟩) := rfl

theorem scripted_onRaw (request : StoreRequest) :
    Scripted id (onRaw request.make :
      Step StoreError (InferenceGraph R D) (Option request.Answer)) := by
  intro g
  refine ⟨.ifRaw (.ask .raw request g fun answer => .done (some answer) g) (.done none g), ?_⟩
  rintro ⟨raw, deductions⟩
  cases raw with
  | none => rfl
  | some raw =>
    change (onRaw request.make).outcome ⟨some raw, deductions⟩ = _
    simp only [Script.run, Option.isSome_some, ↓reduceIte, Place.make, outcome_within,
      Option.getD_some]
    rw [outcome_onRaw_some]
    rcases request.make.outcome raw with ⟨error | answer, raw'⟩ <;> rfl

omit [TripleSink R] [EmptyCollection R] [TripleSink D] in
theorem onRaw_bind (m : Step StoreError R α) (next : α → Step StoreError R β) :
    (onRaw (m >>= next) : Step StoreError (InferenceGraph R D) (Option β)) =
      onRaw m >>= fun answer => answer.elim (pure none) fun a => onRaw (next a) := by
  funext ⟨raw, deductions⟩
  change (onRaw (m >>= next)).outcome _ = Step.outcome _ _
  rw [outcome_bind]
  cases raw with
  | none => rfl
  | some raw =>
    rw [outcome_onRaw_some, outcome_onRaw_some, outcome_bind]
    rcases m.outcome raw with ⟨error | a, raw'⟩ <;> rfl

theorem scripted_onRaw_bind {m : Step StoreError R α} {next : α → Step StoreError R β}
    (first : Scripted id (onRaw m : Step StoreError (InferenceGraph R D) (Option α)))
    (later : ∀ a, Scripted id (onRaw (next a) : Step StoreError (InferenceGraph R D) (Option β))) :
    Scripted id (onRaw (m >>= next) : Step StoreError (InferenceGraph R D) (Option β)) := by
  rw [onRaw_bind]
  apply first.bind
  intro answer
  cases answer with
  | none => exact scripted_pure none
  | some a => exact later a

theorem scripted_onRaw_pure (a : α) :
    Scripted id (onRaw (pure a) : Step StoreError (InferenceGraph R D) (Option α)) := by
  intro g
  refine ⟨.ifRaw (.done (some a) g) (.done none g), ?_⟩
  rintro ⟨raw, deductions⟩
  cases raw <;> rfl

end InferenceGraph
end
end TripleInference
