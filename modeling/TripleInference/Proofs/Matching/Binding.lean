import TripleInference.Network.Node
import TripleInference.Proofs.Matching.Valuation

/-!
The laws of bindings. Whatever extends bindings (a slot bound, a fact unified, other bindings
merged in) gives the least extension that does what was asked, exactly when there is one.
-/
namespace TripleInference
namespace Bindings

theorem lt_of_get? {b : Bindings} {i : Nat} {x : TermId} (value : b.get? i = some x) :
    i < b.size := by
  have bound : (Valuation.ofValues b.values i).isSome := Option.isSome_of_eq_some value
  exact Valuation.lt_of_ofValues bound

@[simp] theorem get?_commit (b : Bindings) : b.commit.get? = b.get? := rfl

@[simp] theorem size_commit (b : Bindings) : b.commit.size = b.size := rfl

@[simp] theorem values_commit (b : Bindings) : b.commit.values = b.values := rfl

@[simp] theorem size_ofSize (n : Nat) : (ofSize n).size = n := by simp [ofSize, size]

@[simp] theorem get?_ofSize (n i : Nat) : (ofSize n).get? i = none := by
  simp only [ofSize, get?, List.getElem?_replicate]
  split <;> rfl

theorem ofSize_below (n : Nat) (w : Valuation) : Valuation.Below (ofSize n).get? w := by
  intro i x h
  simp at h

/-- `c` extends `b` by no more than it takes to have the property. -/
structure Least (b c : Bindings) (property : Valuation → Prop) : Prop where
  size : c.size = b.size
  below : Valuation.Below b.get? c.get?
  holds : property c.get?
  least : ∀ w : Valuation, Valuation.Below b.get? w → property w → Valuation.Below c.get? w

theorem Least.congr {b c : Bindings} {P Q : Valuation → Prop} (ext : Least b c P)
    (same : ∀ w, P w ↔ Q w) : Least b c Q :=
  ⟨ext.size, ext.below, (same _).mp ext.holds, fun w below h => ext.least w below ((same w).mpr h)⟩

theorem Least.refl {b : Bindings} {P : Valuation → Prop} (holds : P b.get?) : Least b b P :=
  ⟨rfl, Valuation.Below.refl _, holds, fun _ below _ => below⟩

theorem Least.trans {b c d : Bindings} {P Q : Valuation → Prop} (first : Least b c P)
    (second : Least c d Q) (mono : ∀ v w : Valuation, v.Below w → P v → P w) :
    Least b d fun w => P w ∧ Q w where
  size := second.size.trans first.size
  below := first.below.trans second.below
  holds := ⟨mono _ _ second.below first.holds, second.holds⟩
  least w below h := second.least w (first.least w below h.1) h.2

theorem Least.bound {b c : Bindings} {P : Valuation → Prop} (ext : Least b c P) (vars : List Nat)
    (local' : ∀ v w : Valuation, (∀ i ∈ vars, v i = w i) → P v → P w) {i : Nat}
    (bound : (c.get? i).isSome) : (b.get? i).isSome ∨ i ∈ vars := by
  let w : Valuation := fun j => if (b.get? j).isSome ∨ j ∈ vars then c.get? j else none
  have below : Valuation.Below b.get? w := by
    intro j x h
    have : (b.get? j).isSome ∨ j ∈ vars := Or.inl (Option.isSome_of_eq_some h)
    simp only [w, if_pos this]
    exact ext.below j x h
  have holds : P w := by
    refine local' c.get? w (fun j mem => ?_) ext.holds
    have : (b.get? j).isSome ∨ j ∈ vars := Or.inr mem
    simp only [w, if_pos this]
  obtain ⟨x, hx⟩ := Option.isSome_iff_exists.mp bound
  have := ext.least w below holds i x hx
  by_contra neither
  simp only [w, if_neg neither] at this
  cases this

theorem bind_cases (b : Bindings) (i : Nat) (x : TermId) :
    (b.get? i = some x ∧ b.bind i x = (true, b)) ∨
    (b.values[i]? = some none ∧ b.bind i x = (true, ⟨b.values.set i (some x), i :: b.trail⟩)) ∨
    ((b.size ≤ i ∨ ∃ y, b.get? i = some y ∧ y ≠ x) ∧ b.bind i x = (false, b)) := by
  cases slot : b.values[i]? with
  | none =>
    refine Or.inr (Or.inr ⟨Or.inl ?_, by simp [bind, slot]⟩)
    simpa [size] using slot
  | some value =>
    cases value with
    | none => exact Or.inr (Or.inl ⟨rfl, by simp [bind, slot]⟩)
    | some y =>
      have value : b.get? i = some y := by simp [get?, slot]
      by_cases same : y = x
      · subst same
        exact Or.inl ⟨value, by simp [bind, slot]⟩
      · exact Or.inr (Or.inr ⟨Or.inr ⟨y, value, same⟩, by simp [bind, slot, same]⟩)

theorem get?_fresh {b : Bindings} {i : Nat} (x : TermId) (isOpen : b.values[i]? = some none)
    (j : Nat) : (Bindings.mk (b.values.set i (some x)) (i :: b.trail)).get? j =
      if i = j then some x else b.get? j := by
  obtain ⟨inside, -⟩ := List.getElem?_eq_some_iff.mp isOpen
  simp only [get?, List.getElem?_set]
  by_cases here : i = j
  · subst here
    simp [inside]
  · simp [here]

theorem bind_least {b c : Bindings} {i : Nat} {x : TermId} (bound : b.bind i x = (true, c)) :
    Least b c fun w => w i = some x := by
  rcases bind_cases b i x with ⟨value, result⟩ | ⟨isOpen, result⟩ | ⟨-, result⟩
  · obtain ⟨-, rfl⟩ := Prod.mk.inj (result.symm.trans bound)
    exact Least.refl value
  · obtain ⟨-, rfl⟩ := Prod.mk.inj (result.symm.trans bound)
    refine ⟨by simp [size], ?_, ?_, ?_⟩
    · intro j y h
      rw [get?_fresh x isOpen]
      split
      · rename_i here
        subst here
        simp [get?, isOpen] at h
      · exact h
    · rw [get?_fresh x isOpen, if_pos rfl]
    · intro w below value j y h
      rw [get?_fresh x isOpen] at h
      split at h
      · rename_i here
        subst here
        exact value.trans h
      · exact below j y h
  · rw [result] at bound
    cases (Prod.mk.inj bound).1

theorem bind_succeeds {b : Bindings} {i : Nat} {x : TermId} {w : Valuation} (room : i < b.size)
    (below : Valuation.Below b.get? w) (value : w i = some x) : (b.bind i x).1 = true := by
  rcases bind_cases b i x with ⟨-, result⟩ | ⟨-, result⟩ | ⟨misfit, -⟩
  · rw [result]
  · rw [result]
  · exfalso
    rcases misfit with outside | ⟨y, other, differs⟩
    · omega
    · have := below i y other
      rw [value] at this
      exact differs (Option.some.inj this).symm

theorem bindAll_least {pairs : List (Nat × TermId)} {b c : Bindings}
    (bound : bindAll pairs b = (true, c)) :
    Least b c fun w => ∀ pair ∈ pairs, w pair.1 = some pair.2 := by
  induction pairs generalizing b with
  | nil =>
    obtain ⟨-, rfl⟩ := Prod.mk.inj bound
    exact Least.refl (by simp)
  | cons pair pairs ih =>
    obtain ⟨i, x⟩ := pair
    rw [bindAll] at bound
    split at bound
    · rename_i b' first
      apply ((bind_least first).trans (ih bound) fun v w below value => below i x value).congr
      simp
    · cases (Prod.mk.inj bound).1

theorem bindAll_succeeds {pairs : List (Nat × TermId)} {b : Bindings} {w : Valuation}
    (room : ∀ pair ∈ pairs, pair.1 < b.size) (below : Valuation.Below b.get? w)
    (values : ∀ pair ∈ pairs, w pair.1 = some pair.2) : (bindAll pairs b).1 = true := by
  induction pairs generalizing b with
  | nil => rfl
  | cons pair pairs ih =>
    obtain ⟨i, x⟩ := pair
    have fits := bind_succeeds (room (i, x) (by simp)) below (values (i, x) (by simp))
    rw [bindAll]
    split
    · rename_i b' first
      have ext := bind_least first
      refine ih ?_ (ext.least w below (values (i, x) (by simp))) ?_
      · intro pair mem
        rw [ext.size]
        exact room pair (by simp [mem])
      · exact fun pair mem => values pair (by simp [mem])
    · rename_i b' first
      rw [first] at fits
      exact fits

def Fits (term : Term) (x : TermId) (w : Valuation) : Prop :=
  term = .wildcard ∨ term.valueIn w = some x

theorem fits_mono {term : Term} {x : TermId} {v w : Valuation} (below : v.Below w)
    (fits : Fits term x v) : Fits term x w := by
  rcases fits with wild | value
  · exact Or.inl wild
  · apply Or.inr
    cases term with
    | constant id => exact value
    | var i => exact below _ _ value
    | wildcard => cases value

theorem fit_least {b c : Bindings} {term : Term} {x : TermId} (fit : b.fit x term = (true, c)) :
    Least b c (Fits term x) := by
  cases term with
  | constant id =>
    obtain ⟨same, rfl⟩ := Prod.mk.inj fit
    exact Least.refl (Or.inr (congrArg some (beq_iff_eq.mp same)))
  | var i => exact (bind_least fit).congr fun w => by simp [Fits, Term.valueIn]
  | wildcard =>
    obtain ⟨-, rfl⟩ := Prod.mk.inj fit
    exact Least.refl (Or.inl rfl)

theorem fit_succeeds {b : Bindings} {term : Term} {x : TermId} {w : Valuation}
    (room : ∀ i, term = .var i → i < b.size) (below : Valuation.Below b.get? w)
    (fits : Fits term x w) : (b.fit x term).1 = true := by
  cases term with
  | constant id =>
    rcases fits with wild | value
    · cases wild
    · exact beq_iff_eq.mpr (Option.some.inj value)
  | var i =>
    rcases fits with wild | value
    · cases wild
    · exact bind_succeeds (room i rfl) below value
  | wildcard => rfl

theorem unifySlots_least {p : Pattern} {t : Triple} {slots : List Slot} {b c : Bindings}
    (unified : unifySlots p t slots b = (true, c)) :
    Least b c fun w => ∀ slot ∈ slots, Fits (p.term slot) (slot.of t) w := by
  induction slots generalizing b with
  | nil =>
    obtain ⟨-, rfl⟩ := Prod.mk.inj unified
    exact Least.refl (by simp)
  | cons slot slots ih =>
    rw [unifySlots] at unified
    split at unified
    · rename_i b' first
      apply ((fit_least first).trans (ih unified) fun v w => fits_mono).congr
      simp
    · cases (Prod.mk.inj unified).1

theorem unifySlots_succeeds {p : Pattern} {t : Triple} {slots : List Slot} {b : Bindings}
    {w : Valuation} (room : ∀ i ∈ p.ordinals, i < b.size) (below : Valuation.Below b.get? w)
    (fits : ∀ slot ∈ slots, Fits (p.term slot) (slot.of t) w) :
    (unifySlots p t slots b).1 = true := by
  induction slots generalizing b with
  | nil => rfl
  | cons slot slots ih =>
    have here : ∀ i, p.term slot = .var i → i < b.size := fun i var =>
      room i (Pattern.mem_ordinals.mpr ⟨slot, var⟩)
    have fitsHere := fit_succeeds here below (fits slot (by simp))
    rw [unifySlots]
    split
    · rename_i b' first
      have ext := fit_least first
      refine ih ?_ (ext.least w below (fits slot (by simp))) ?_
      · intro i mem
        rw [ext.size]
        exact room i mem
      · exact fun slot mem => fits slot (by simp [mem])
    · rename_i b' first
      rw [first] at fitsHere
      exact fitsHere

theorem unify_least {b c : Bindings} {p : Pattern} {t : Triple}
    (unified : b.unify p t = (true, c)) : Least b c fun w => p.Matches w t :=
  (unifySlots_least unified).congr fun _ =>
    ⟨fun fits slot => fits slot (Slot.mem_all slot), fun fits slot _ => fits slot⟩

theorem unify_succeeds {b : Bindings} {p : Pattern} {t : Triple} {w : Valuation}
    (room : ∀ i ∈ p.ordinals, i < b.size) (below : Valuation.Below b.get? w)
    (fits : p.Matches w t) : (b.unify p t).1 = true :=
  unifySlots_succeeds room below fun slot _ => fits slot

theorem matches_congr {p : Pattern} {t : Triple} {v w : Valuation}
    (same : ∀ i ∈ p.ordinals, v i = w i) (fits : p.Matches v t) : p.Matches w t := by
  intro slot
  rcases fits slot with wild | value
  · exact Or.inl wild
  · apply Or.inr
    cases term : p.term slot with
    | constant id => rw [term] at value; exact value
    | wildcard => rw [term] at value; cases value
    | var i =>
      rw [term] at value
      exact (same i (Pattern.mem_ordinals.mpr ⟨slot, term⟩)).symm.trans value

theorem isSome_get?_unify {b c : Bindings} {p : Pattern} {t : Triple}
    (unified : b.unify p t = (true, c)) (i : Nat) :
    (c.get? i).isSome ↔ (b.get? i).isSome ∨ i ∈ p.ordinals := by
  have ext := unify_least unified
  constructor
  · exact ext.bound p.ordinals fun v w same fits => matches_congr same fits
  · rintro (bound | var)
    · obtain ⟨x, hx⟩ := Option.isSome_iff_exists.mp bound
      rw [ext.below i x hx]
      rfl
    · obtain ⟨slot, value⟩ := ext.holds.bound var
      rw [value]
      rfl

theorem lookup_fits {b : Bindings} {p : Pattern} {t : Triple} {w : Valuation}
    (below : Valuation.Below b.get? w) (fits : p.Matches w t) : (b.lookup p).fits t = true := by
  have slotFits (slot : Slot) :
      ((b.resolve (p.term slot)).all (· == slot.of t)) = true := by
    rcases fits slot with wild | value
    · rw [wild]
      rfl
    · cases term : p.term slot with
      | wildcard => rfl
      | constant id =>
        rw [term] at value
        simpa [resolve] using Option.some.inj value
      | var i =>
        rw [term] at value
        cases bound : b.get? i with
        | none => simp [resolve, bound]
        | some x =>
          have := (below i x bound).symm.trans value
          simpa [resolve, bound] using Option.some.inj this
  rw [Lookup.fits, Bool.and_eq_true, Bool.and_eq_true]
  exact ⟨⟨slotFits .subject, slotFits .predicate⟩, slotFits .object⟩

theorem mem_bound {c : Bindings} {i : Nat} {x : TermId} : (i, x) ∈ c.bound ↔ c.get? i = some x := by
  simp only [bound, List.mem_filterMap, Prod.exists, List.mem_zipIdx_iff_getElem?,
    Option.map_eq_some_iff, Prod.mk.injEq, get?, Option.join_eq_some_iff]
  constructor
  · rintro ⟨value, j, found, y, rfl, rfl, rfl⟩
    exact found
  · exact fun found => ⟨some x, i, found, x, rfl, rfl, rfl⟩

theorem agreeOn_iff {b c : Bindings} {key : Nat} :
    b.agreeOn c key = true ↔ ∃ x, b.get? key = some x ∧ c.get? key = some x := by
  unfold agreeOn
  cases hb : b.get? key with
  | none => simp
  | some x =>
    cases hc : c.get? key with
    | none => simp
    | some y =>
      simp only [beq_iff_eq, Option.some.injEq]
      exact ⟨fun same => ⟨x, rfl, same.symm⟩, fun ⟨z, hx, hy⟩ => hx.trans hy.symm⟩

theorem merge_least {b c m : Bindings} {keys : List Nat} (merged : b.merge c keys = (true, m)) :
    Least b m fun w => Valuation.Below c.get? w := by
  unfold merge at merged
  split at merged
  · split at merged
    · rename_i m' bound
      obtain ⟨-, rfl⟩ := Prod.mk.inj merged
      refine (bindAll_least bound).congr fun w => ?_
      exact ⟨fun all i x h => all (i, x) (mem_bound.mpr h), fun all pair mem =>
        all pair.1 pair.2 (mem_bound.mp mem)⟩
    · cases (Prod.mk.inj merged).1
  · cases (Prod.mk.inj merged).1

theorem merge_succeeds {b c : Bindings} {keys : List Nat} {w : Valuation}
    (agree : ∀ key ∈ keys, ∃ x, b.get? key = some x ∧ c.get? key = some x)
    (room : ∀ i x, c.get? i = some x → i < b.size) (below : Valuation.Below b.get? w)
    (below' : Valuation.Below c.get? w) : (b.merge c keys).1 = true := by
  have keysAgree : keys.all (b.agreeOn c) = true :=
    List.all_eq_true.mpr fun key mem => agreeOn_iff.mpr (agree key mem)
  have fits : (bindAll c.bound b).1 = true := by
    refine bindAll_succeeds ?_ below fun pair mem => below' _ _ (mem_bound.mp mem)
    exact fun pair mem => room _ _ (mem_bound.mp mem)
  unfold merge
  rw [if_pos keysAgree]
  split
  · rfl
  · rename_i m' bound
    rw [bound] at fits
    exact fits

end Bindings

namespace ClauseFilter

theorem matches_iff {p : Pattern} {t : Triple} {w : Valuation} :
    p.Matches w t ↔ (∀ pair ∈ p.constantSlots, pair.1.of t = pair.2) ∧
      ∀ pair ∈ p.varSlots, w pair.2 = some (pair.1.of t) := by
  have constant (slot : Slot) (id : TermId) :
      (slot, id) ∈ p.constantSlots ↔ p.term slot = .constant id := by
    cases h : p.term slot <;>
      simp [Pattern.constantSlots, Slot.mem_all, h, Term.constant?]
  have var (slot : Slot) (i : Nat) : (slot, i) ∈ p.varSlots ↔ p.term slot = .var i := by
    cases h : p.term slot <;> simp [Pattern.varSlots, Slot.mem_all, h, Term.ordinal?]
  constructor
  · intro fits
    constructor
    · rintro ⟨slot, id⟩ mem
      rcases fits slot with wild | value
      · rw [(constant slot id).mp mem] at wild
        cases wild
      · rw [(constant slot id).mp mem] at value
        exact (Option.some.inj value).symm
    · rintro ⟨slot, i⟩ mem
      rcases fits slot with wild | value
      · rw [(var slot i).mp mem] at wild
        cases wild
      · rw [(var slot i).mp mem] at value
        exact value
  · rintro ⟨constants, vars⟩ slot
    cases h : p.term slot with
    | constant id =>
      exact Or.inr (congrArg some (constants (slot, id) ((constant slot id).mpr h)).symm)
    | var i => exact Or.inr (vars (slot, i) ((var slot i).mpr h))
    | wildcard => exact Or.inl rfl

theorem mem_constantSlots_ofPattern {rule : RuleId} {clause n : Nat} {p : Pattern}
    {pair : Slot × TermId} :
    pair ∈ (ofPattern rule clause p n).constantSlots ↔ pair ∈ p.constantSlots := by
  simp only [ofPattern, List.mem_append, List.mem_filter, bne_iff_ne, beq_iff_eq]
  tauto

theorem test_least {rule : RuleId} {clause n : Nat} {p : Pattern} {t : Triple} {b : Bindings}
    (tested : (ofPattern rule clause p n).test t = some b) :
    Bindings.Least (.ofSize n) b fun w => p.Matches w t := by
  unfold test at tested
  split at tested
  · rename_i constants
    split at tested
    · rename_i c bound
      cases tested
      have ext := Bindings.bindAll_least bound
      refine Bindings.Least.congr ⟨ext.size, ext.below, ext.holds, ext.least⟩ fun w => ?_
      rw [matches_iff]
      rw [List.all_eq_true] at constants
      constructor
      · intro values
        refine ⟨fun pair mem => ?_, fun pair mem => ?_⟩
        · exact beq_iff_eq.mp (constants pair (mem_constantSlots_ofPattern.mpr mem))
        · exact values (pair.2, pair.1.of t) (List.mem_map.mpr ⟨pair, mem, rfl⟩)
      · rintro ⟨-, vars⟩ pair mem
        obtain ⟨slotVar, slotMem, rfl⟩ := List.mem_map.mp mem
        exact vars slotVar slotMem
    · cases tested
  · cases tested

theorem test_succeeds {rule : RuleId} {clause n : Nat} {p : Pattern} {t : Triple} {w : Valuation}
    (room : ∀ i ∈ p.ordinals, i < n) (fits : p.Matches w t) :
    ∃ b, (ofPattern rule clause p n).test t = some b := by
  obtain ⟨constants, vars⟩ := matches_iff.mp fits
  have checked : ((ofPattern rule clause p n).constantSlots.all fun pair =>
      pair.1.of t == pair.2) = true :=
    List.all_eq_true.mpr fun pair mem =>
      beq_iff_eq.mpr (constants pair (mem_constantSlots_ofPattern.mp mem))
  have bound : (Bindings.bindAll ((ofPattern rule clause p n).varSlots.map fun pair =>
      (pair.2, pair.1.of t)) (.ofSize (ofPattern rule clause p n).numVars)).1 = true := by
    refine Bindings.bindAll_succeeds ?_ (Bindings.ofSize_below n w) ?_
    · intro pair mem
      obtain ⟨slotVar, slotMem, rfl⟩ := List.mem_map.mp mem
      rw [Bindings.size_ofSize]
      exact room _ (List.mem_map.mpr ⟨slotVar, slotMem, rfl⟩)
    · intro pair mem
      obtain ⟨slotVar, slotMem, rfl⟩ := List.mem_map.mp mem
      exact vars slotVar slotMem
  unfold test
  rw [if_pos checked]
  split
  · exact ⟨_, rfl⟩
  · rename_i b result
    rw [result] at bound
    cases bound

end ClauseFilter
end TripleInference
