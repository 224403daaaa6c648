import TripleInference.Proofs.Matching.Binding

/-!
The two matchers of patterns. Unification goes slot by slot from what is bound already; the test of
a clause filter compares the constants first and starts with every slot open. Both find a match
exactly if there is one, and the least one, so on open slots they find the same.
-/
namespace TripleInference
namespace Bindings

/-- The triple matches under some extension of the bindings that stays within their size. -/
def Matchable (b : Bindings) (p : Pattern) (t : Triple) : Prop :=
  ∃ w : Valuation, Valuation.Below b.get? w ∧ (∀ i, (w i).isSome → i < b.size) ∧ p.Matches w t

theorem Least.values_eq {b c d : Bindings} {property : Valuation → Prop}
    (first : Least b c property) (second : Least b d property) : c.values = d.values := by
  have same : c.get? = d.get? :=
    Valuation.Below.antisymm (first.least _ second.below second.holds)
      (second.least _ first.below first.holds)
  exact Valuation.ofValues_injective (first.size.trans second.size.symm) same

theorem Least.matchable {b c : Bindings} {p : Pattern} {t : Triple}
    (least : Least b c fun w => p.Matches w t) : Matchable b p t := by
  refine ⟨c.get?, least.below, fun i bound => ?_, least.holds⟩
  obtain ⟨x, value⟩ := Option.isSome_iff_exists.mp bound
  rw [← least.size]
  exact lt_of_get? value

theorem Matchable.room {b : Bindings} {p : Pattern} {t : Triple} (matchable : Matchable b p t) :
    ∀ i ∈ p.ordinals, i < b.size := by
  intro i mem
  obtain ⟨w, -, within, fits⟩ := matchable
  obtain ⟨slot, value⟩ := fits.bound mem
  exact within i (Option.isSome_of_eq_some value)

theorem unify_fst_iff {b : Bindings} {p : Pattern} {t : Triple} :
    (b.unify p t).1 = true ↔ Matchable b p t := by
  constructor
  · intro unifies
    exact (unify_least (Prod.ext unifies rfl)).matchable
  · intro matchable
    have room := matchable.room
    obtain ⟨w, below, -, fits⟩ := matchable
    exact unify_succeeds room below fits

end Bindings

namespace ClauseFilter

theorem trail_test {f : ClauseFilter} {t : Triple} {b : Bindings} (tested : f.test t = some b) :
    b.trail = [] := by
  unfold test at tested
  split at tested
  · split at tested
    · cases tested
      rfl
    · cases tested
  · cases tested

variable {rule : RuleId} {clause n : Nat} {p : Pattern} {t : Triple}

theorem unify_of_test {b : Bindings} (tested : (ofPattern rule clause p n).test t = some b) :
    ((Bindings.ofSize n).unify p t).1 = true ∧
      b = ⟨((Bindings.ofSize n).unify p t).2.values, []⟩ := by
  have least := test_least tested
  have unifies := Bindings.unify_fst_iff.mpr least.matchable
  have values := least.values_eq (Bindings.unify_least (Prod.ext unifies rfl))
  have trail := trail_test tested
  cases b
  cases values
  cases trail
  exact ⟨unifies, rfl⟩

theorem exists_test_of_unify (rule : RuleId) (clause : Nat)
    (unifies : ((Bindings.ofSize n).unify p t).1 = true) :
    ∃ b, (ofPattern rule clause p n).test t = some b := by
  have matchable := Bindings.unify_fst_iff.mp unifies
  have room : ∀ i ∈ p.ordinals, i < n := by
    intro i mem
    simpa using matchable.room i mem
  obtain ⟨w, -, -, fits⟩ := matchable
  exact test_succeeds room fits

end ClauseFilter

namespace Bindings

/-- Whatever the pattern and the bindings, unification succeeds exactly if the triple matches under
some extension of the bindings within their size, and then gives the least one. The filter of the
pattern passes exactly the triples that unify with open slots, with the same values and a trail
that is dropped. -/
theorem unify_and_test_find_the_least_match (p : Pattern) (t : Triple) :
    (∀ b : Bindings,
      ((b.unify p t).1 = true ↔ Matchable b p t) ∧
      (Matchable b p t → Least b (b.unify p t).2 fun w => p.Matches w t)) ∧
    ∀ (rule : RuleId) (clause n : Nat) (b : Bindings),
      (ClauseFilter.ofPattern rule clause p n).test t = some b ↔
        ((ofSize n).unify p t).1 = true ∧ b = ⟨((ofSize n).unify p t).2.values, []⟩ := by
  constructor
  · intro b
    exact ⟨unify_fst_iff, fun matchable =>
      unify_least (Prod.ext (unify_fst_iff.mpr matchable) rfl)⟩
  · intro rule clause n b
    constructor
    · exact ClauseFilter.unify_of_test
    · rintro ⟨unifies, rfl⟩
      obtain ⟨b, tested⟩ := ClauseFilter.exists_test_of_unify rule clause unifies
      rw [tested, (ClauseFilter.unify_of_test tested).2]

/-- A variable without room makes the match fail where its slot is reached. What was bound by then
stays on the trail, for the snapshot to be restored. -/
example : (ofSize 1).unify ⟨.var 0, .constant 9, .var 1⟩ ⟨3, 9, 3⟩ = (false, ⟨[some 3], [0]⟩) := by
  decide

end Bindings
end TripleInference
