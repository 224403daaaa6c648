import TripleInference.Proofs.Matching.Binding

/-!
The heads of a well-formed rule have an instance whenever the variables of its body are bound, and
an instance has no terms but those of the rule and of the bindings.
-/
namespace TripleInference
namespace Rule

def Concludes (r : Rule) (v : Valuation) (t : Triple) : Prop := ∃ p ∈ r.head, p.Yields v t

theorem Concludes.mono {r : Rule} {v w : Valuation} {t : Triple} (concludes : r.Concludes v t)
    (below : v.Below w) : r.Concludes w t := by
  obtain ⟨p, mem, yields⟩ := concludes
  exact ⟨p, mem, yields.mono below⟩

theorem WellFormed.concludes_of_below {r : Rule} (wf : r.WellFormed) {v w : Valuation} {t : Triple}
    (concludes : r.Concludes w t) (below : v.Below w) (bound : ∀ i ∈ r.bodyVars, (v i).isSome) :
    r.Concludes v t := by
  obtain ⟨p, mem, yields⟩ := concludes
  exact ⟨p, mem, yields.of_below below fun i var => bound i (wf.boundHead p mem i var)⟩

theorem instantiateTerm_eq_ok {r : Rule} {b : Bindings} {term : Term} (closed : term ≠ .wildcard)
    (bound : ∀ i, term = .var i → (b.get? i).isSome) :
    ∃ x, r.instantiateTerm b term = .ok x ∧ term.valueIn b.get? = some x := by
  cases term with
  | constant id => exact ⟨id, rfl, rfl⟩
  | var i =>
    obtain ⟨x, value⟩ := Option.isSome_iff_exists.mp (bound i rfl)
    exact ⟨x, by simp only [instantiateTerm, value], value⟩
  | wildcard => exact absurd rfl closed

theorem instantiatePattern_eq_ok {r : Rule} {b : Bindings} {p : Pattern}
    (closed : ∀ slot, p.term slot ≠ .wildcard) (bound : ∀ i ∈ p.ordinals, (b.get? i).isSome) :
    ∃ t, r.instantiatePattern b p = .ok t ∧ p.Yields b.get? t := by
  have inSlot (slot : Slot) :
      ∃ x, r.instantiateTerm b (p.term slot) = .ok x ∧ (p.term slot).valueIn b.get? = some x :=
    instantiateTerm_eq_ok (closed slot) fun i term =>
      bound i (Pattern.mem_ordinals.mpr ⟨slot, term⟩)
  obtain ⟨s, subject, valueS⟩ := inSlot .subject
  obtain ⟨q, predicate, valueP⟩ := inSlot .predicate
  obtain ⟨o, object, valueO⟩ := inSlot .object
  simp only [Pattern.term] at subject predicate object
  refine ⟨⟨s, q, o⟩, ?_, Slot.forall_iff.mpr ⟨valueS, valueP, valueO⟩⟩
  simp only [instantiatePattern, subject, predicate, object]
  rfl

theorem mapM_instantiatePattern_eq_ok {r : Rule} {b : Bindings} {head : List Pattern}
    (instances : ∀ p ∈ head, ∃ t, r.instantiatePattern b p = .ok t ∧ p.Yields b.get? t) :
    ∃ heads, head.mapM (r.instantiatePattern b) = .ok heads ∧
      ∀ t, t ∈ heads ↔ ∃ p ∈ head, p.Yields b.get? t := by
  induction head with
  | nil => exact ⟨[], rfl, by simp⟩
  | cons p rest ih =>
    obtain ⟨first, here, yields⟩ := instances p List.mem_cons_self
    obtain ⟨heads, later, mem_iff⟩ := ih fun q mem => instances q (List.mem_cons_of_mem _ mem)
    refine ⟨first :: heads, ?_, fun t => ?_⟩
    · rw [List.mapM_cons, here, later]
      rfl
    · simp only [List.mem_cons, exists_eq_or_imp, mem_iff]
      apply or_congr_left
      constructor
      · rintro rfl
        exact yields
      · exact fun other => other.unique yields

theorem WellFormed.instantiate_eq_ok {r : Rule} (wf : r.WellFormed) {b : Bindings}
    (bound : ∀ i ∈ r.bodyVars, (b.get? i).isSome) :
    ∃ heads, r.instantiate b = .ok heads ∧ ∀ t, t ∈ heads ↔ r.Concludes b.get? t :=
  mapM_instantiatePattern_eq_ok fun p mem =>
    instantiatePattern_eq_ok (wf.closedHead p mem) fun i var => bound i (wf.boundHead p mem i var)

def groundHeads (r : Rule) : List Triple := (r.instantiate (.ofSize r.numVars)).toOption.getD []

def headTerms (r : Rule) : Set TermId := {x | ∃ p ∈ r.head, ∃ slot, p.term slot = .constant x}

theorem Concludes.term_mem {r : Rule} {v : Valuation} {t : Triple} (concludes : r.Concludes v t)
    (slot : Slot) : slot.of t ∈ r.headTerms ∨ ∃ i, v i = some (slot.of t) := by
  obtain ⟨p, mem, yields⟩ := concludes
  have value := yields slot
  cases term : p.term slot with
  | constant x =>
    rw [term] at value
    obtain rfl : x = slot.of t := Option.some.inj value
    exact Or.inl ⟨p, mem, slot, term⟩
  | var i =>
    rw [term] at value
    exact Or.inr ⟨i, value⟩
  | wildcard =>
    rw [term] at value
    cases value

end Rule
end TripleInference
