import TripleInference.Step

/-!
Reasoning about steps backwards, from how they end: in a result and a state, or in a failure and
the state it left. Nothing is assumed about steps that fail, so a statement about an ending covers
both.
-/
namespace TripleInference
namespace Step

variable {ε δ σ τ α β : Type}

/-- The step either ends from `s` with a result and a state in `good`, or fails in `bad`. -/
def Ends (m : Step ε σ α) (s : σ) (good : α → σ → Prop) (bad : ε → σ → Prop) : Prop :=
  match m.outcome s with
  | (.ok a, t) => good a t
  | (.error e, t) => bad e t

section
variable {m : Step ε σ α} {s : σ} {good good' : α → σ → Prop} {bad bad' : ε → σ → Prop}

theorem ends_of_outcome {a : α} {t : σ} (run : m.outcome s = (.ok a, t)) :
    m.Ends s good bad ↔ good a t := by
  rw [Ends, run]

theorem ends_self :
    m.Ends s (fun a t => m.outcome s = (.ok a, t)) (fun e t => m.outcome s = (.error e, t)) := by
  unfold Ends
  split <;> rename_i run <;> exact run

theorem Ends.mono (ends : m.Ends s good bad) (better : ∀ a t, good a t → good' a t)
    (worse : ∀ e t, bad e t → bad' e t) : m.Ends s good' bad' := by
  unfold Ends at ends ⊢
  split <;> rename_i run <;> rw [run] at ends
  · exact better _ _ ends
  · exact worse _ _ ends

theorem Ends.imp (ends : m.Ends s good bad) (better : ∀ a t, good a t → good' a t) :
    m.Ends s good' bad :=
  ends.mono better fun _ _ failed => failed

theorem Ends.and (ends : m.Ends s good bad) (ends' : m.Ends s good' bad') :
    m.Ends s (fun a t => good a t ∧ good' a t) (fun e t => bad e t ∧ bad' e t) := by
  unfold Ends at ends ends' ⊢
  split <;> rename_i run <;> rw [run] at ends ends'
  · exact ⟨ends, ends'⟩
  · exact ⟨ends, ends'⟩

theorem Ends.result (ends : m.Ends s good bad) (never : ∀ e t, ¬ bad e t) :
    ∃ a t, m.outcome s = (.ok a, t) ∧ good a t := by
  unfold Ends at ends
  split at ends
  · rename_i a t run
    exact ⟨a, t, run, ends⟩
  · exact absurd ends (never _ _)

theorem Ends.final {here : σ → Prop} (ends : m.Ends s (fun _ => here) (fun _ => here)) :
    here (m.outcome s).2 := by
  unfold Ends at ends
  split at ends <;> rename_i run <;> rw [run] <;> exact ends

theorem ends_of_final {here : σ → Prop} (reached : here (m.outcome s).2) :
    m.Ends s (fun _ => here) (fun _ => here) := by
  unfold Ends
  split <;> rename_i run <;> rwa [run] at reached

theorem Ends.good_of_outcome {a : α} {t : σ} (ends : m.Ends s good bad)
    (run : m.outcome s = (.ok a, t)) : good a t := by
  rwa [Ends, run] at ends

end

section
variable {s : σ} {bad : ε → σ → Prop}

@[simp] theorem ends_pure {a : α} {good : α → σ → Prop} :
    (pure a : Step ε σ α).Ends s good bad ↔ good a s := Iff.rfl

@[simp] theorem ends_throw {e : ε} {good : α → σ → Prop} :
    (throw e : Step ε σ α).Ends s good bad ↔ bad e s := Iff.rfl

@[simp] theorem ends_get {good : σ → σ → Prop} :
    (get : Step ε σ σ).Ends s good bad ↔ good s s := Iff.rfl

@[simp] theorem ends_set {t : σ} {good : PUnit → σ → Prop} :
    (set t : Step ε σ PUnit).Ends s good bad ↔ good ⟨⟩ t := Iff.rfl

@[simp] theorem ends_modify {change : σ → σ} {good : PUnit → σ → Prop} :
    (modify change : Step ε σ PUnit).Ends s good bad ↔ good ⟨⟩ (change s) := Iff.rfl

@[simp] theorem ends_bind {m : Step ε σ α} {next : α → Step ε σ β} {good : β → σ → Prop} :
    (m >>= next).Ends s good bad ↔ m.Ends s (fun a t => (next a).Ends t good bad) bad := by
  unfold Ends
  rw [outcome_bind]
  rcases m.outcome s with ⟨result, t⟩
  cases result <;> rfl

theorem bind_congr_of_ends {m : Step ε σ α} {next next' : α → Step ε σ β}
    (same : ∀ s, m.Ends s (fun a _ => next a = next' a) (fun _ _ => True)) :
    m >>= next = m >>= next' := by
  funext s
  change (m >>= next).outcome s = (m >>= next').outcome s
  rw [outcome_bind, outcome_bind]
  have results := same s
  unfold Ends at results
  generalize m.outcome s = run at results ⊢
  obtain ⟨result, t⟩ := run
  cases result with
  | ok a => exact congrArg (fun n : Step ε σ β => n.outcome t) results
  | error e => rfl

@[simp] theorem ends_map {m : Step ε σ α} {f : α → β} {good : β → σ → Prop} :
    (f <$> m).Ends s good bad ↔ m.Ends s (fun a => good (f a)) bad := by
  rw [map_eq_pure_bind]
  exact ends_bind

@[simp] theorem ends_discard {m : Step ε σ α} {good : PUnit → σ → Prop} :
    (discard m).Ends s good bad ↔ m.Ends s (fun _ => good ⟨⟩) bad := by
  have same : (discard m : Step ε σ PUnit) = (fun _ => PUnit.unit) <$> m := rfl
  rw [same]
  exact ends_map

theorem ends_within {part : σ → τ} {put : τ → σ → σ} {widen : δ → ε} {m : Step δ τ α}
    {good : α → σ → Prop} :
    (within part put widen m).Ends s good bad ↔
      m.Ends (part s) (fun a t => good a (put t s)) (fun e t => bad (widen e) (put t s)) := by
  unfold Ends
  rw [outcome_within]
  rcases m.outcome (part s) with ⟨result, t⟩
  cases result <;> rfl

theorem ends_ofExcept {widen : δ → ε} {result : Except δ α} {good : α → σ → Prop} :
    (ofExcept widen result).Ends s good bad ↔
      match result with
      | .ok a => good a s
      | .error e => bad (widen e) s := by
  cases result <;> rfl

theorem ends_onFailure {undo : σ → σ} {m : Step ε σ α} {good : α → σ → Prop} :
    (onFailure undo m).Ends s good bad ↔ m.Ends s good (fun e t => bad e (undo t)) := by
  unfold Ends
  rw [outcome_onFailure]
  rcases m.outcome s with ⟨result, t⟩
  cases result <;> rfl

theorem forM_ends {step : α → Step ε σ PUnit} {as : List α} {here : σ → Prop}
    (kept : ∀ a ∈ as, ∀ t, here t → (step a).Ends t (fun _ => here) (fun _ => here))
    (start : here s) : (as.forM step).Ends s (fun _ => here) (fun _ => here) := by
  induction as generalizing s with
  | nil => exact start
  | cons a as ih =>
    obtain ⟨first, later⟩ := List.forall_mem_cons.mp kept
    change (step a >>= fun _ => as.forM step).Ends s _ _
    rw [ends_bind]
    exact (first s start).imp fun _ t => ih later

end

end Step
end TripleInference
