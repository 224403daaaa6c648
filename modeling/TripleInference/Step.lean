/-!
Steps over a state that may fail. A failing step keeps the state it had reached, so what an
operation leaves behind when it is cut short is part of its meaning.
-/
namespace TripleInference

abbrev Step (ε σ : Type) := ExceptT ε (StateM σ)

namespace Step

variable {ε δ σ τ α β : Type}

def outcome (m : Step ε σ α) (s : σ) : Except ε α × σ := m s

/-- Runs a step on the part of a state that `part` reads and `put` writes back. -/
def within (part : σ → τ) (put : τ → σ → σ) (widen : ε → δ) (m : Step ε τ α) : Step δ σ α :=
  fun s =>
    let (result, t) := m.outcome (part s)
    (result.mapError widen, put t s)

def ofExcept (widen : ε → δ) (result : Except ε α) : Step δ σ α :=
  fun s => (result.mapError widen, s)

def onFailure (undo : σ → σ) (m : Step ε σ α) : Step ε σ α :=
  fun s =>
    match m.outcome s with
    | (.ok a, s) => (.ok a, s)
    | (.error e, s) => (.error e, undo s)

@[simp] theorem outcome_pure (a : α) (s : σ) :
    outcome (pure a : Step ε σ α) s = (.ok a, s) := rfl

@[simp] theorem outcome_throw (e : ε) (s : σ) :
    outcome (throw e : Step ε σ α) s = (.error e, s) := rfl

@[simp] theorem outcome_get (s : σ) : outcome (get : Step ε σ σ) s = (.ok s, s) := rfl

@[simp] theorem outcome_set (t s : σ) : outcome (set t : Step ε σ PUnit) s = (.ok ⟨⟩, t) := rfl

@[simp] theorem outcome_modify (change : σ → σ) (s : σ) :
    outcome (modify change : Step ε σ PUnit) s = (.ok ⟨⟩, change s) := rfl

theorem outcome_bind (m : Step ε σ α) (next : α → Step ε σ β) (s : σ) :
    outcome (m >>= next) s =
      match outcome m s with
      | (.ok a, t) => outcome (next a) t
      | (.error e, t) => (.error e, t) := by
  simp only [outcome, bind, ExceptT.bind, ExceptT.mk, StateT.bind]
  rcases m s with ⟨result, t⟩
  cases result <;> rfl

theorem outcome_onFailure (undo : σ → σ) (m : Step ε σ α) (s : σ) :
    outcome (onFailure undo m) s =
      match outcome m s with
      | (.ok a, t) => (.ok a, t)
      | (.error e, t) => (.error e, undo t) := rfl

@[simp] theorem outcome_within (part : σ → τ) (put : τ → σ → σ) (widen : ε → δ) (m : Step ε τ α)
    (s : σ) :
    outcome (within part put widen m) s =
      ((outcome m (part s)).1.mapError widen, put (outcome m (part s)).2 s) := rfl

end Step
end TripleInference
