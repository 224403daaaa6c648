import Mathlib.Data.Set.Basic
import Mathlib.Tactic.Tauto
import TripleInference.Matching.Bindings

/-!
What it means for a fact to match a pattern, for a rule's body to be matched and for its head to be
asserted, said with valuations of the variables and without the bindings an engine works with.
-/
namespace TripleInference

abbrev Valuation := Nat → Option TermId

namespace Valuation

def Below (v w : Valuation) : Prop := ∀ i x, v i = some x → w i = some x

theorem Below.refl (v : Valuation) : v.Below v := fun _ _ h => h

theorem Below.trans {u v w : Valuation} (first : u.Below v) (second : v.Below w) : u.Below w :=
  fun i x h => second i x (first i x h)

theorem Below.antisymm {v w : Valuation} (below : v.Below w) (above : w.Below v) : v = w := by
  funext i
  cases value : v i with
  | some x => exact (below i x value).symm
  | none =>
    cases value' : w i with
    | none => rfl
    | some y => exact absurd (value.symm.trans (above i y value')) nofun

theorem Below.eq_of_bound {v w : Valuation} (below : v.Below w)
    (bound : ∀ i, (w i).isSome → (v i).isSome) : v = w := by
  funext i
  cases h : v i with
  | some x => exact (below i x h).symm
  | none =>
    cases h' : w i with
    | none => rfl
    | some y => simpa [h] using bound i (by simp [h'])

def ofValues (values : List (Option TermId)) : Valuation := fun i => (values[i]?).join

theorem exists_substitution (v : Valuation) :
    ∃ subst : Nat → TermId, v.Below fun i => some (subst i) := by
  refine ⟨fun i => (v i).getD 0, fun i x value => ?_⟩
  simp [value]

theorem ofValues_injective {vs ws : List (Option TermId)} (size : vs.length = ws.length)
    (same : ofValues vs = ofValues ws) : vs = ws := by
  refine List.ext_getElem size fun i hv hw => ?_
  have here := congrFun same i
  simpa [ofValues, hv, hw] using here

theorem lt_of_ofValues {values : List (Option TermId)} {i : Nat}
    (bound : (ofValues values i).isSome) : i < values.length := by
  by_contra outside
  simp [ofValues, List.getElem?_eq_none (Nat.le_of_not_lt outside)] at bound

end Valuation

def Term.valueIn (v : Valuation) : Term → Option TermId
  | .constant id => some id
  | .var i => v i
  | .wildcard => none

theorem Slot.mem_all (slot : Slot) : slot ∈ Slot.all := by cases slot <;> simp [Slot.all]

theorem Slot.forall_iff {P : Slot → Prop} :
    (∀ slot, P slot) ↔ P .subject ∧ P .predicate ∧ P .object :=
  ⟨fun all => ⟨all _, all _, all _⟩, fun ⟨s, p, o⟩ slot => by cases slot <;> assumption⟩

theorem Triple.ext_slots {t u : Triple} (same : ∀ slot : Slot, slot.of t = slot.of u) : t = u := by
  cases t
  cases u
  obtain ⟨s, p, o⟩ := Slot.forall_iff.mp same
  simp_all [Slot.of]

namespace Pattern

/-- The fact has the value of every term in its slot; a wildcard fits any value. -/
def Matches (v : Valuation) (p : Pattern) (t : Triple) : Prop :=
  ∀ slot, p.term slot = .wildcard ∨ (p.term slot).valueIn v = some (slot.of t)

/-- The fact is the instance of the pattern: every term has a value, which stands in its slot. -/
def Yields (v : Valuation) (p : Pattern) (t : Triple) : Prop :=
  ∀ slot, (p.term slot).valueIn v = some (slot.of t)

theorem mem_ordinals {p : Pattern} {i : Nat} : i ∈ p.ordinals ↔ ∃ slot, p.term slot = .var i := by
  have ordinal (x : Term) : x.ordinal? = some i ↔ x = .var i := by
    cases x <;> simp [Term.ordinal?]
  simp only [ordinals, varSlots, List.map_filterMap, List.mem_filterMap, Option.map_map]
  constructor
  · rintro ⟨slot, -, h⟩
    exact ⟨slot, (ordinal _).mp (by simpa [Function.comp_def] using h)⟩
  · rintro ⟨slot, h⟩
    refine ⟨slot, Slot.mem_all slot, ?_⟩
    simp [Function.comp_def, (ordinal _).mpr h]

theorem Matches.mono {v w : Valuation} {p : Pattern} {t : Triple} (fits : p.Matches v t)
    (below : v.Below w) : p.Matches w t := by
  intro slot
  rcases fits slot with wild | value
  · exact Or.inl wild
  · apply Or.inr
    cases term : p.term slot with
    | constant id => rw [term] at value; exact value
    | var i => rw [term] at value; exact below _ _ value
    | wildcard => rw [term] at value; cases value

theorem Matches.bound {v : Valuation} {p : Pattern} {t : Triple} (fits : p.Matches v t) {i : Nat}
    (mem : i ∈ p.ordinals) : ∃ slot : Slot, v i = some (slot.of t) := by
  obtain ⟨slot, term⟩ := mem_ordinals.mp mem
  rcases fits slot with wild | value
  · rw [term] at wild
    cases wild
  · rw [term] at value
    exact ⟨slot, value⟩

theorem Matches.of_below {v w : Valuation} {p : Pattern} {t : Triple} (fits : p.Matches w t)
    (below : v.Below w) (bound : ∀ i ∈ p.ordinals, (v i).isSome) : p.Matches v t := by
  intro slot
  rcases fits slot with wild | value
  · exact Or.inl wild
  · apply Or.inr
    cases term : p.term slot with
    | constant id => rw [term] at value; exact value
    | wildcard => rw [term] at value; cases value
    | var i =>
      rw [term] at value
      obtain ⟨x, hx⟩ := Option.isSome_iff_exists.mp (bound i (mem_ordinals.mpr ⟨slot, term⟩))
      have value' : w i = some (slot.of t) := value
      rw [below i x hx] at value'
      rw [Term.valueIn, hx, value']

theorem Yields.mono {v w : Valuation} {p : Pattern} {t : Triple} (yields : p.Yields v t)
    (below : v.Below w) : p.Yields w t := by
  intro slot
  have value := yields slot
  cases term : p.term slot with
  | constant id => rw [term] at value; exact value
  | var i => rw [term] at value; exact below _ _ value
  | wildcard => rw [term] at value; cases value

theorem Yields.of_below {v w : Valuation} {p : Pattern} {t : Triple} (yields : p.Yields w t)
    (below : v.Below w) (bound : ∀ i ∈ p.ordinals, (v i).isSome) : p.Yields v t := by
  intro slot
  have fits : p.Matches v t := Matches.of_below (fun slot => Or.inr (yields slot)) below bound
  rcases fits slot with wild | value
  · have value := yields slot
    rw [wild] at value
    cases value
  · exact value

theorem Yields.unique {v : Valuation} {p : Pattern} {t u : Triple} (one : p.Yields v t)
    (other : p.Yields v u) : t = u :=
  Triple.ext_slots fun slot => Option.some.inj ((one slot).symm.trans (other slot))

theorem Matches.predicate_eq {v : Valuation} {p : Pattern} {t : Triple} (fits : p.Matches v t)
    {q : TermId} (constant : p.predicate.constant? = some q) : t.predicate = q := by
  have term : p.predicate = .constant q := by
    cases h : p.predicate <;> simp_all [Term.constant?]
  rcases fits .predicate with wild | value
  · rw [Pattern.term, term] at wild
    cases wild
  · rw [Pattern.term, term] at value
    exact (Option.some.inj value).symm

theorem hasWildcard_eq_false {p : Pattern} :
    p.hasWildcard = false ↔ ∀ slot, p.term slot ≠ .wildcard := by
  simp [hasWildcard, Slot.forall_iff, term, and_assoc]

end Pattern

namespace Rule

def bodyVars (r : Rule) : List Nat := r.body.flatMap Pattern.ordinals

def clauseVars (r : Rule) (clauses : List Nat) : List Nat :=
  clauses.flatMap fun clause => (r.body[clause]?).elim [] Pattern.ordinals

def Supports (r : Rule) (facts : Set Triple) (v : Valuation) (clause : Nat) : Prop :=
  ∃ p, r.body[clause]? = some p ∧ ∃ t ∈ facts, p.Matches v t

structure WellFormed (r : Rule) : Prop where
  room : ∀ i ∈ r.ordinals, i < r.numVars
  boundHead : ∀ p ∈ r.head, ∀ i ∈ p.ordinals, i ∈ r.bodyVars
  closedHead : ∀ p ∈ r.head, ∀ slot, p.term slot ≠ .wildcard

theorem exists_clause (r : Rule) {k : Nat} (inside : k < r.body.length) :
    ∃ p, r.body[k]? = some p :=
  ⟨_, List.getElem?_eq_getElem inside⟩

theorem mem_clauseVars {r : Rule} {clauses : List Nat} {i : Nat} :
    i ∈ r.clauseVars clauses ↔
      ∃ clause ∈ clauses, ∃ p, r.body[clause]? = some p ∧ i ∈ p.ordinals := by
  simp only [clauseVars, List.mem_flatMap]
  refine exists_congr fun clause => and_congr_right fun _ => ?_
  cases r.body[clause]? <;> simp

theorem clauseVars_append (r : Rule) (left right : List Nat) :
    r.clauseVars (left ++ right) = r.clauseVars left ++ r.clauseVars right :=
  List.flatMap_append

theorem clauseVars_singleton {r : Rule} {clause : Nat} {p : Pattern}
    (here : r.body[clause]? = some p) : r.clauseVars [clause] = p.ordinals := by
  simp [clauseVars, here]

theorem clauseVars_range (r : Rule) (k : Nat) :
    r.clauseVars (List.range k) = (r.body.take k).flatMap Pattern.ordinals := by
  induction k with
  | zero => rfl
  | succ k ih =>
    rw [List.range_succ, clauseVars_append, ih, List.take_add_one, List.flatMap_append]
    cases here : r.body[k]? with
    | none => simp [clauseVars, here]
    | some p => simp [clauseVars_singleton here]

theorem mem_clauseVars_range {r : Rule} {i : Nat} :
    i ∈ r.clauseVars (List.range r.body.length) ↔ i ∈ r.bodyVars := by
  rw [clauseVars_range, List.take_length, bodyVars]

theorem clauseVars_subset_bodyVars {r : Rule} {clauses : List Nat} {i : Nat}
    (mem : i ∈ r.clauseVars clauses) : i ∈ r.bodyVars := by
  obtain ⟨clause, -, p, here, var⟩ := mem_clauseVars.mp mem
  exact List.mem_flatMap.mpr ⟨p, List.mem_of_getElem? here, var⟩

theorem Supports.mono {r : Rule} {facts more : Set Triple} {v w : Valuation} {clause : Nat}
    (supports : r.Supports facts v clause) (subset : facts ⊆ more) (below : v.Below w) :
    r.Supports more w clause := by
  obtain ⟨p, here, t, mem, fits⟩ := supports
  exact ⟨p, here, t, subset mem, fits.mono below⟩

theorem WellFormed.room_of_body {r : Rule} (wf : r.WellFormed) {i : Nat} (mem : i ∈ r.bodyVars) :
    i < r.numVars := by
  apply wf.room
  rw [ordinals, patterns, List.flatMap_append]
  exact List.mem_append_left _ mem

theorem checkRoom_eq_ok {r : Rule} : r.checkRoom = .ok () ↔ ∀ i ∈ r.ordinals, i < r.numVars := by
  unfold checkRoom
  cases found : r.ordinals.find? (r.numVars ≤ ·) with
  | none => simpa using found
  | some i =>
    simp only [reduceCtorEq, false_iff]
    intro room
    have tooBig := List.find?_some found
    have := room i (List.mem_of_find?_eq_some found)
    simp at tooBig
    omega

theorem binds_iff {r : Rule} {i : Nat} : r.binds i = true ↔ i < r.numVars ∧ i ∈ r.bodyVars := by
  rw [binds, Bool.and_eq_true, decide_eq_true_iff, List.contains_iff_mem, bodyVars]

theorem mem_unboundInHead {r : Rule} {i : Nat} :
    i ∈ r.unboundInHead ↔ (∃ p ∈ r.head, i ∈ p.ordinals) ∧ ¬ r.binds i = true := by
  simp [unboundInHead]

theorem unboundInHead_eq_nil {r : Rule} (room : ∀ i ∈ r.ordinals, i < r.numVars) :
    r.unboundInHead = [] ↔ ∀ p ∈ r.head, ∀ i ∈ p.ordinals, i ∈ r.bodyVars := by
  constructor
  · intro noneUnbound p mem i var
    by_contra missing
    have listed : i ∈ r.unboundInHead :=
      mem_unboundInHead.mpr ⟨⟨p, mem, var⟩, fun bound => missing (binds_iff.mp bound).2⟩
    rw [noneUnbound] at listed
    cases listed
  · intro bound
    rw [List.eq_nil_iff_forall_not_mem]
    intro i listed
    obtain ⟨⟨p, mem, var⟩, unbound⟩ := mem_unboundInHead.mp listed
    have inside := room i (List.mem_flatMap.mpr ⟨p, List.mem_append_right _ mem, var⟩)
    exact unbound (binds_iff.mpr ⟨inside, bound p mem i var⟩)

theorem headHasWildcard_eq_false {r : Rule} :
    r.headHasWildcard = false ↔ ∀ p ∈ r.head, ∀ slot, p.term slot ≠ .wildcard := by
  simp only [headHasWildcard, List.any_eq_false, Bool.not_eq_true, Pattern.hasWildcard_eq_false]

theorem check_eq_ok {r : Rule} : r.check = .ok () ↔ r.WellFormed := by
  constructor
  · intro passed
    unfold check at passed
    split at passed
    · cases passed
    · cases passed
    · rename_i roomy noneUnbound
      have room := checkRoom_eq_ok.mp roomy
      refine ⟨room, (unboundInHead_eq_nil room).mp noneUnbound, headHasWildcard_eq_false.mp ?_⟩
      by_contra wild
      rw [Bool.not_eq_false] at wild
      rw [if_pos wild] at passed
      cases passed
  · intro wf
    rw [check, checkRoom_eq_ok.mpr wf.room, (unboundInHead_eq_nil wf.room).mpr wf.boundHead]
    simp [headHasWildcard_eq_false.mpr wf.closedHead]

end Rule
end TripleInference
