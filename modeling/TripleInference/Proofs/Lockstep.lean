import TripleInference.Step

/-!
Two steps that run in lockstep. From related states both end, with related results, or both fail, in
the same way; and the states they reach are related again, so that the next two steps can follow.
-/
namespace TripleInference
namespace Step

variable {ε δ σ τ ρ π α β γ κ : Type}

/-- Both outcomes are results, related by `same`, or both are the same failure. The states reached
are related by `rel`. -/
inductive Together (rel : σ → τ → Prop) (same : α → β → Prop) :
    Except ε α × σ → Except ε β × τ → Prop where
  | ends {a : α} {b : β} {s : σ} {t : τ} (alike : same a b) (related : rel s t) :
    Together rel same (.ok a, s) (.ok b, t)
  | fails {e : ε} {s : σ} {t : τ} (related : rel s t) :
    Together rel same (.error e, s) (.error e, t)

def Lockstep (rel : σ → τ → Prop) (same : α → β → Prop) (m : Step ε σ α) (n : Step ε τ β) : Prop :=
  ∀ s t, rel s t → Together rel same (m.outcome s) (n.outcome t)

abbrev Respects (rel : σ → σ → Prop) (m : Step ε σ α) : Prop := Lockstep rel Eq m m

section
variable {rel : σ → τ → Prop} {same : α → β → Prop} {same' : γ → κ → Prop} {m : Step ε σ α}
  {n : Step ε τ β}

theorem Together.states {x : Except ε α × σ} {y : Except ε β × τ}
    (together : Together rel same x y) : rel x.2 y.2 := by
  cases together with
  | ends _ related => exact related
  | fails related => exact related

theorem Together.results {x : Except ε α × σ} {y : Except ε α × τ}
    (together : Together rel Eq x y) : x.1 = y.1 := by
  cases together with
  | ends alike _ => exact congrArg Except.ok alike
  | fails _ => rfl

theorem Lockstep.bind {next : α → Step ε σ γ} {next' : β → Step ε τ κ}
    (first : Lockstep rel same m n)
    (later : ∀ a b, same a b → Lockstep rel same' (next a) (next' b)) :
    Lockstep rel same' (m >>= next) (n >>= next') := by
  intro s t related
  have first := first s t related
  rw [outcome_bind, outcome_bind]
  generalize m.outcome s = x at first ⊢
  generalize n.outcome t = y at first ⊢
  cases first with
  | ends alike related => exact later _ _ alike _ _ related
  | fails related => exact .fails related

theorem Lockstep.bind_eq {n : Step ε τ α} {next : α → Step ε σ γ} {next' : α → Step ε τ κ}
    (first : Lockstep rel Eq m n) (later : ∀ a, Lockstep rel same' (next a) (next' a)) :
    Lockstep rel same' (m >>= next) (n >>= next') := by
  apply first.bind
  rintro a _ rfl
  exact later a

theorem lockstep_pure {a : α} {b : β} (alike : same a b) :
    Lockstep rel same (pure a : Step ε σ α) (pure b) := fun _ _ related => .ends alike related

theorem lockstep_throw (e : ε) : Lockstep rel same (throw e : Step ε σ α) (throw e) :=
  fun _ _ related => .fails related

theorem lockstep_get : Lockstep rel rel (get : Step ε σ σ) get := fun _ _ related =>
  .ends related related

theorem lockstep_set {s : σ} {t : τ} (related : rel s t) :
    Lockstep rel Eq (set s : Step ε σ PUnit) (set t) := fun _ _ _ => .ends rfl related

theorem lockstep_modify {change : σ → σ} {change' : τ → τ}
    (kept : ∀ s t, rel s t → rel (change s) (change' t)) :
    Lockstep rel Eq (modify change : Step ε σ PUnit) (modify change') :=
  fun s t related => .ends rfl (kept s t related)

theorem Lockstep.map {f : α → γ} {g : β → κ} (first : Lockstep rel same m n)
    (alike : ∀ a b, same a b → same' (f a) (g b)) : Lockstep rel same' (f <$> m) (g <$> n) := by
  rw [map_eq_pure_bind, map_eq_pure_bind]
  exact first.bind fun a b related => lockstep_pure (alike a b related)

theorem Lockstep.discard (first : Lockstep rel same m n) :
    Lockstep rel Eq (discard m : Step ε σ PUnit) (discard n) := first.map fun _ _ _ => rfl

theorem lockstep_ofExcept (widen : δ → ε) (result : Except δ α) :
    Lockstep rel Eq (ofExcept widen result : Step ε σ α) (ofExcept widen result) := by
  cases result with
  | ok a => exact lockstep_pure rfl
  | error e => exact lockstep_throw (widen e)

theorem lockstep_ofExcept_map (widen : δ → ε) (result : Except δ α) (f : α → β) :
    Lockstep rel (fun a b => result = .ok a ∧ b = f a) (ofExcept widen result : Step ε σ α)
      (ofExcept widen (result.map f)) := by
  cases result with
  | ok a => exact lockstep_pure ⟨rfl, rfl⟩
  | error e => exact lockstep_throw (widen e)

theorem Lockstep.onFailure {undo : σ → σ} {undo' : τ → τ} (first : Lockstep rel same m n)
    (kept : ∀ s t, rel s t → rel (undo s) (undo' t)) :
    Lockstep rel same (onFailure undo m) (onFailure undo' n) := by
  intro s t related
  have first := first s t related
  rw [outcome_onFailure, outcome_onFailure]
  generalize m.outcome s = x at first ⊢
  generalize n.outcome t = y at first ⊢
  cases first with
  | ends alike related => exact .ends alike related
  | fails related => exact .fails (kept _ _ related)

theorem Lockstep.within {inner : ρ → π → Prop} {part : σ → ρ} {put : ρ → σ → σ} {part' : τ → π}
    {put' : π → τ → τ} {m : Step δ ρ α} {n : Step δ π β} (first : Lockstep inner same m n)
    (widen : δ → ε) (reads : ∀ s t, rel s t → inner (part s) (part' t))
    (writes : ∀ s t, rel s t → ∀ u v, inner u v → rel (put u s) (put' v t)) :
    Lockstep rel same (m.within part put widen) (n.within part' put' widen) := by
  intro s t related
  have first := first _ _ (reads s t related)
  have writes := writes s t related
  rw [outcome_within, outcome_within]
  generalize m.outcome (part s) = x at first ⊢
  generalize n.outcome (part' t) = y at first ⊢
  cases first with
  | ends alike inside => exact .ends alike (writes _ _ inside)
  | fails inside => exact .fails (writes _ _ inside)

theorem lockstep_within_eq {part : σ → ρ} {put : ρ → σ → σ} {part' : τ → ρ} {put' : ρ → τ → τ}
    (m : Step δ ρ α) (widen : δ → ε) (reads : ∀ s t, rel s t → part s = part' t)
    (writes : ∀ s t, rel s t → ∀ u, rel (put u s) (put' u t)) :
    Lockstep rel Eq (m.within part put widen) (m.within part' put' widen) := by
  have inside : Lockstep Eq Eq m m := by
    rintro s _ rfl
    rcases m.outcome s with ⟨_ | _, _⟩
    · exact .fails rfl
    · exact .ends rfl rfl
  refine inside.within widen reads fun s t related u v same => ?_
  subst same
  exact writes s t related u

theorem lockstep_forM_map {step : α → Step ε σ PUnit} {step' : β → Step ε τ PUnit} {f : α → β}
    {as : List α} (each : ∀ a ∈ as, Lockstep rel Eq (step a) (step' (f a))) :
    Lockstep rel Eq (as.forM step) ((as.map f).forM step') := by
  induction as with
  | nil => exact lockstep_pure rfl
  | cons a as ih =>
    obtain ⟨first, later⟩ := List.forall_mem_cons.mp each
    exact first.bind_eq fun _ => ih later

theorem lockstep_forM {step : α → Step ε σ PUnit} {step' : α → Step ε τ PUnit} {as : List α}
    (each : ∀ a ∈ as, Lockstep rel Eq (step a) (step' a)) :
    Lockstep rel Eq (as.forM step) (as.forM step') := by
  have mapped : Lockstep rel Eq (as.forM step) ((as.map id).forM step') := lockstep_forM_map each
  rwa [List.map_id] at mapped

end

end Step
end TripleInference
