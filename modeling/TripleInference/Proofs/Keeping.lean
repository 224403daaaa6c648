import TripleInference.Proofs.Ending

/-!
Steps that keep a property of the state, whether they end or fail. That a part of the state stays
as it is says as much for every value of that part.
-/
namespace TripleInference
namespace Step

variable {ε δ σ ρ α β : Type}

/-- Begun in a state with `here`, the step ends or fails in one. -/
def Preserves (here : σ → Prop) (m : Step ε σ α) : Prop := ∀ s, here s → here (m.outcome s).2

variable {here : σ → Prop}

theorem Preserves.ends {m : Step ε σ α} (kept : m.Preserves here) {s : σ} (start : here s) :
    m.Ends s (fun _ => here) (fun _ => here) := ends_of_final (kept s start)

theorem preserves_pure (a : α) : Preserves here (pure a : Step ε σ α) := fun _ start => start

theorem preserves_throw (e : ε) : Preserves here (throw e : Step ε σ α) := fun _ start => start

theorem preserves_get : Preserves here (get : Step ε σ σ) := fun _ start => start

theorem preserves_ofExcept (widen : δ → ε) (result : Except δ α) :
    Preserves here (ofExcept widen result : Step ε σ α) := fun _ start => start

theorem preserves_modify {change : σ → σ} (kept : ∀ s, here s → here (change s)) :
    Preserves here (modify change : Step ε σ PUnit) := kept

theorem Preserves.bind {m : Step ε σ α} {next : α → Step ε σ β} (first : Preserves here m)
    (later : ∀ a, Preserves here (next a)) : Preserves here (m >>= next) := by
  intro s start
  have reached := first s start
  rw [outcome_bind]
  generalize m.outcome s = run at reached ⊢
  obtain ⟨result, t⟩ := run
  cases result with
  | ok a => exact later a t reached
  | error e => exact reached

theorem Preserves.map {m : Step ε σ α} (kept : Preserves here m) (f : α → β) :
    Preserves here (f <$> m) := by
  rw [map_eq_pure_bind]
  exact kept.bind fun a => preserves_pure (f a)

theorem Preserves.discard {m : Step ε σ α} (kept : Preserves here m) :
    Preserves here (discard m : Step ε σ PUnit) :=
  kept.map fun _ => PUnit.unit

theorem Preserves.forM {step : α → Step ε σ PUnit} (kept : ∀ a, Preserves here (step a))
    (as : List α) : Preserves here (as.forM step) := by
  induction as with
  | nil => exact preserves_pure _
  | cons a as ih => exact (kept a).bind fun _ => ih

theorem Preserves.foldlM {step : β → α → Step ε σ β} (kept : ∀ b a, Preserves here (step b a))
    (as : List α) (b : β) : Preserves here (as.foldlM step b) := by
  induction as generalizing b with
  | nil => exact preserves_pure b
  | cons a as ih =>
    rw [List.foldlM_cons]
    exact (kept b a).bind ih

theorem Preserves.mapM {step : α → Step ε σ β} {as : List α}
    (kept : ∀ a ∈ as, Preserves here (step a)) : Preserves here (as.mapM step) := by
  induction as with
  | nil =>
    rw [List.mapM_nil]
    exact preserves_pure []
  | cons a as ih =>
    obtain ⟨first, later⟩ := List.forall_mem_cons.mp kept
    rw [List.mapM_cons]
    exact first.bind fun b => (ih later).bind fun bs => preserves_pure (b :: bs)

theorem preserves_within_elsewhere {view : σ → ρ} {put : ρ → σ → σ} {widen : δ → ε}
    {m : Step δ ρ α} (kept : ∀ t s, here s → here (put t s)) :
    Preserves here (within view put widen m) := fun s start => kept _ s start

theorem Preserves.within {inner : ρ → Prop} {view : σ → ρ} {put : ρ → σ → σ} {widen : δ → ε}
    {m : Step δ ρ α} (kept : Preserves inner m) (reads : ∀ s, here s → inner (view s))
    (writes : ∀ t s, here s → inner t → here (put t s)) :
    Preserves here (m.within view put widen) :=
  fun s start => writes _ s start (kept (view s) (reads s start))

end Step
end TripleInference
