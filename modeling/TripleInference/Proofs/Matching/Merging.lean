import TripleInference.Proofs.Matching.Trail

/-!
Merging is all or nothing. Where two bindings can be joined, the first become the union of both and
their trail grows by what was open before; otherwise they stay as they were, however many slots had
been bound when the conflict came up. With equal sizes it makes no difference which are merged into
which.
-/
namespace TripleInference
namespace Bindings

/-- Both bind the keys alike, no slot would hold two values, and `a` has room for what `b` binds. -/
structure Mergeable (a b : Bindings) (keys : List Nat) : Prop where
  keys : ∀ key ∈ keys, ∃ x, a.get? key = some x ∧ b.get? key = some x
  agree : ∀ i x y, a.get? i = some x → b.get? i = some y → x = y
  room : ∀ i x, b.get? i = some x → i < a.size

/-- The slots that `b` binds and `a` leaves open, ascending. -/
def newSlots (a b : Bindings) : List Nat :=
  (List.range b.size).filter fun i => (a.get? i).isNone && (b.get? i).isSome

variable {a b : Bindings} {keys : List Nat}

theorem Mergeable.symm (mergeable : Mergeable a b keys) (size : a.size = b.size) :
    Mergeable b a keys where
  keys key mem := by
    obtain ⟨x, here, there⟩ := mergeable.keys key mem
    exact ⟨x, there, here⟩
  agree i x y here there := (mergeable.agree i y x there here).symm
  room i x value := by
    rw [← size]
    exact lt_of_get? value

theorem Mergeable.below_union (mergeable : Mergeable a b keys) :
    Valuation.Below b.get? fun i => (a.get? i).or (b.get? i) := by
  intro i y there
  cases here : a.get? i with
  | none => simpa [here] using there
  | some x => simp [here, mergeable.agree i x y here there]

theorem merge_fst_of_mergeable (mergeable : Mergeable a b keys) : (a.merge b keys).1 = true := by
  refine merge_succeeds (w := fun i => (a.get? i).or (b.get? i)) mergeable.keys mergeable.room ?_
    mergeable.below_union
  intro i x here
  simp [here]

theorem least_of_merge_fst (merges : (a.merge b keys).1 = true) :
    Least a (a.merge b keys).2 fun w => Valuation.Below b.get? w :=
  merge_least (Prod.ext merges rfl)

theorem mergeable_of_merge_fst (merges : (a.merge b keys).1 = true) : Mergeable a b keys := by
  have least := least_of_merge_fst merges
  constructor
  case keys =>
    intro key mem
    by_cases agreed : keys.all (a.agreeOn b) = true
    · exact agreeOn_iff.mp (List.all_eq_true.mp agreed key mem)
    · rw [merge, if_neg agreed] at merges
      cases merges
  case agree =>
    intro i x y here there
    have value := least.below i x here
    rw [least.holds i y there] at value
    exact (Option.some.inj value).symm
  case room =>
    intro i x value
    rw [← least.size]
    exact lt_of_get? (least.holds i x value)

theorem merge_fst_iff : (a.merge b keys).1 = true ↔ Mergeable a b keys :=
  ⟨mergeable_of_merge_fst, merge_fst_of_mergeable⟩

theorem get?_merge (mergeable : Mergeable a b keys) (i : Nat) :
    (a.merge b keys).2.get? i = (a.get? i).or (b.get? i) := by
  have least := least_of_merge_fst (merge_fst_of_mergeable mergeable)
  have noMore : Valuation.Below (a.merge b keys).2.get? fun i => (a.get? i).or (b.get? i) := by
    refine least.least _ (fun j x here => ?_) mergeable.below_union
    simp [here]
  have noLess : Valuation.Below (fun i => (a.get? i).or (b.get? i)) (a.merge b keys).2.get? := by
    intro j x value
    cases here : a.get? j with
    | none => exact least.holds j x (by simpa [here] using value)
    | some y => exact least.below j x (by simpa [here] using value)
  exact congrFun (noMore.antisymm noLess) i

theorem trail_bindAll {pairs : List (Nat × TermId)} {c : Bindings}
    (bound : bindAll pairs a = (true, c)) (distinct : (pairs.map Prod.fst).Nodup) :
    c.trail = ((pairs.map Prod.fst).filter fun i => (a.get? i).isNone).reverse ++ a.trail := by
  induction pairs generalizing a with
  | nil =>
    cases bound
    rfl
  | cons pair pairs ih =>
    obtain ⟨i, x⟩ := pair
    obtain ⟨new, distinct⟩ := List.nodup_cons.mp distinct
    rw [bindAll] at bound
    rcases bind_cases a i x with ⟨value, result⟩ | ⟨isOpen, result⟩ | ⟨-, result⟩ <;>
      rw [result] at bound
    · rw [ih bound distinct, List.map_cons, List.filter_cons_of_neg]
      simp [value]
    · have opened : a.get? i = none := by simp [get?, isOpen]
      have same : ∀ j ∈ pairs.map Prod.fst,
          ((Bindings.mk (a.values.set i (some x)) (i :: a.trail)).get? j).isNone =
            (a.get? j).isNone := by
        intro j mem
        have other : i ≠ j := fun eq => new (eq ▸ mem)
        rw [get?_fresh x isOpen, if_neg other]
      rw [ih bound distinct, List.filter_congr same, List.map_cons, List.filter_cons_of_pos]
      · simp
      · simp [opened]
    · cases bound

theorem bound_slots (b : Bindings) :
    b.bound.map Prod.fst = (List.range b.size).filter fun i => (b.get? i).isSome := by
  have listed : b.values.zipIdx = (List.range b.size).map fun i => (b.get? i, i) := by
    refine List.ext_getElem (by simp [size]) fun i inside _ => ?_
    rw [List.length_zipIdx] at inside
    simp [get?, inside]
  have slot (i : Nat) : ((b.get? i).map (i, ·)).map Prod.fst =
      Option.guard (fun j => (b.get? j).isSome) i := by
    cases value : b.get? i <;> simp [Option.guard, value]
  rw [bound, listed, List.filterMap_map, List.map_filterMap, ← List.filterMap_eq_filter]
  exact congrArg (List.filterMap · (List.range b.size)) (funext slot)

theorem trail_merge (mergeable : Mergeable a b keys) :
    (a.merge b keys).2.trail = (newSlots a b).reverse ++ a.trail := by
  have merges := merge_fst_of_mergeable mergeable
  have agreed : keys.all (a.agreeOn b) = true :=
    List.all_eq_true.mpr fun key mem => agreeOn_iff.mpr (mergeable.keys key mem)
  have distinct : (b.bound.map Prod.fst).Nodup := by
    rw [bound_slots]
    exact List.nodup_range.filter _
  rw [merge, if_pos agreed] at merges ⊢
  split at merges
  · rename_i c bound
    rw [trail_bindAll bound distinct, bound_slots, List.filter_filter]
    rfl
  · cases merges

theorem merge_snd_of_not_mergeable (not : ¬ Mergeable a b keys) : (a.merge b keys).2 = a := by
  have fails : (a.merge b keys).1 = false := Bool.eq_false_iff.mpr (mt mergeable_of_merge_fst not)
  have undone := bindAll_undone b.bound a
  by_cases agreed : keys.all (a.agreeOn b) = true
  · rw [merge, if_pos agreed] at fails ⊢
    split at fails <;> rename_i partly result
    · cases fails
    · rw [result] at undone
      exact undone.2
  · rw [merge, if_neg agreed]

/-- Merging `b` into `a` is an atomic join: it succeeds exactly if both can be joined, and then
gives their union, with the slots new to `a` on top of the trail; if it fails, `a` stays as it was.
Which of two bindings of one size is merged into the other makes no difference to success and
values. -/
theorem merge_joins_or_changes_nothing (a b : Bindings) (keys : List Nat) :
    ((a.merge b keys).1 = true ↔ Mergeable a b keys) ∧
    (Mergeable a b keys →
      (a.merge b keys).2.size = a.size ∧
      (∀ i, (a.merge b keys).2.get? i = (a.get? i).or (b.get? i)) ∧
      (a.merge b keys).2.trail = (newSlots a b).reverse ++ a.trail) ∧
    (¬ Mergeable a b keys → (a.merge b keys).2 = a) ∧
    (a.size = b.size →
      (b.merge a keys).1 = (a.merge b keys).1 ∧
      (Mergeable a b keys → (b.merge a keys).2.values = (a.merge b keys).2.values)) := by
  have size {a b : Bindings} (mergeable : Mergeable a b keys) : (a.merge b keys).2.size = a.size :=
    (least_of_merge_fst (merge_fst_of_mergeable mergeable)).size
  refine ⟨merge_fst_iff, fun mergeable => ⟨size mergeable, get?_merge mergeable,
    trail_merge mergeable⟩, merge_snd_of_not_mergeable, fun sizes => ⟨?_, fun mergeable => ?_⟩⟩
  · rw [Bool.eq_iff_iff, merge_fst_iff, merge_fst_iff]
    exact ⟨fun mergeable => mergeable.symm sizes.symm, fun mergeable => mergeable.symm sizes⟩
  · have mergeable' := mergeable.symm sizes
    refine Valuation.ofValues_injective ?_ (funext fun i => ?_)
    · exact (size mergeable').trans (sizes.symm.trans (size mergeable).symm)
    · change (b.merge a keys).2.get? i = (a.merge b keys).2.get? i
      rw [get?_merge mergeable', get?_merge mergeable]
      cases here : a.get? i with
      | none => simp
      | some x =>
        cases there : b.get? i with
        | none => rfl
        | some y => simp [mergeable.agree i x y here there]

theorem late_conflict_gives_back_two_slots :
    ¬ Mergeable ⟨[some 1, none, none, some 9], [3, 0]⟩ ⟨[some 1, some 2, some 3, some 8], []⟩ [0] ∧
      (merge ⟨[some 1, none, none, some 9], [3, 0]⟩ ⟨[some 1, some 2, some 3, some 8], []⟩ [0]).2 =
        ⟨[some 1, none, none, some 9], [3, 0]⟩ ∧
      Mergeable ⟨[some 1, none, none, some 9], [3, 0]⟩ ⟨[some 1, some 2, some 3], []⟩ [0] ∧
      (merge ⟨[some 1, none, none, some 9], [3, 0]⟩ ⟨[some 1, some 2, some 3], []⟩ [0]).2.trail =
        [2, 1, 3, 0] := by
  obtain ⟨conflict, -, undone, -⟩ := merge_joins_or_changes_nothing
    ⟨[some 1, none, none, some 9], [3, 0]⟩ ⟨[some 1, some 2, some 3, some 8], []⟩ [0]
  obtain ⟨joined, union, -⟩ := merge_joins_or_changes_nothing
    ⟨[some 1, none, none, some 9], [3, 0]⟩ ⟨[some 1, some 2, some 3], []⟩ [0]
  have not := mt conflict.mpr (by decide)
  have mergeable := joined.mp (by decide)
  exact ⟨not, undone not, mergeable, (union mergeable).2.2⟩

end Bindings
end TripleInference
