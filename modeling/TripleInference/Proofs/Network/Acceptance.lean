import Mathlib.Order.Bounds.Basic
import TripleInference.Proofs.Network.Compiling

/-!
Which rule lists are compiled, and what is wrong with the others. A rule is faulted for the first
variable without room, else for the least head variable its body lacks, else for a wildcard in its
head; a list, for the first of its rules at fault among those that are run.
-/
namespace TripleInference

theorem head?_eq_some_iff_isLeast {l : List Nat} (ascending : l.Pairwise (· < ·)) {x : Nat} :
    l.head? = some x ↔ IsLeast {y | y ∈ l} x := by
  cases l with
  | nil => simp [IsLeast]
  | cons y rest =>
    have first := (List.pairwise_cons.mp ascending).1
    have least : IsLeast {z | z ∈ y :: rest} y := by
      constructor
      · exact List.mem_cons_self
      · intro z mem
        rcases List.mem_cons.mp mem with same | later
        · exact Nat.le_of_eq same.symm
        · exact Nat.le_of_lt (first z later)
    rw [List.head?_cons, Option.some.injEq]
    constructor
    · intro same
      exact same ▸ least
    · intro other
      exact least.unique other

namespace Rule

def terms (r : Rule) : List Term := r.patterns.flatMap fun p => [p.subject, p.predicate, p.object]

/-- What a rule is at fault for. A fault is raised only where those above it are not. -/
inductive Faulted (r : Rule) : RuleFault → Prop where
  | outOfRange {before after : List Term} {index : Nat}
      (first : r.terms = before ++ .var index :: after)
      (room : ∀ i, .var i ∈ before → i < r.numVars) (outside : r.numVars ≤ index) :
      Faulted r (.variableOutOfRange r.label index r.numVars)
  | unboundHead {index : Nat} (room : ∀ i ∈ r.ordinals, i < r.numVars)
      (least : IsLeast {i | (∃ p ∈ r.head, i ∈ p.ordinals) ∧ i ∉ r.bodyVars} index) :
      Faulted r (.unboundHeadVariable r.label index)
  | wildcardInHead {p : Pattern} {slot : Slot} (room : ∀ i ∈ r.ordinals, i < r.numVars)
      (boundHead : ∀ p ∈ r.head, ∀ i ∈ p.ordinals, i ∈ r.bodyVars)
      (mem : p ∈ r.head) (wild : p.term slot = .wildcard) :
      Faulted r (.wildcardInHead r.label)

variable {r : Rule}

theorem ordinals_eq_filterMap (r : Rule) : r.ordinals = r.terms.filterMap Term.ordinal? := by
  have ofPattern (p : Pattern) :
      p.ordinals = [p.subject, p.predicate, p.object].filterMap Term.ordinal? := by
    obtain ⟨s, q, o⟩ := p
    cases s <;> cases q <;> cases o <;> rfl
  rw [ordinals, terms, List.filterMap_flatMap]
  exact congrArg (List.flatMap · r.patterns) (funext ofPattern)

theorem ordinal?_eq_some_iff {term : Term} {index : Nat} :
    term.ordinal? = some index ↔ term = .var index := by
  cases term <;> simp [Term.ordinal?]

theorem find?_ordinals {index : Nat} :
    r.ordinals.find? (r.numVars ≤ ·) = some index ↔
      ∃ before after, r.terms = before ++ .var index :: after ∧
        (∀ i, .var i ∈ before → i < r.numVars) ∧ r.numVars ≤ index := by
  rw [ordinals_eq_filterMap, List.find?_filterMap, Option.bind_eq_some_iff]
  constructor
  · rintro ⟨term, found, ordinal⟩
    obtain rfl := ordinal?_eq_some_iff.mp ordinal
    obtain ⟨outside, before, after, split, none⟩ := List.find?_eq_some_iff_append.mp found
    refine ⟨before, after, split, fun i mem => ?_, by simpa [Term.ordinal?] using outside⟩
    simpa [Term.ordinal?] using none _ mem
  · rintro ⟨before, after, split, room, outside⟩
    refine ⟨.var index, List.find?_eq_some_iff_append.mpr ⟨?_, before, after, split, ?_⟩, rfl⟩
    · simpa [Term.ordinal?] using outside
    · intro term mem
      cases term with
      | var i => simpa [Term.ordinal?] using room i mem
      | constant id => rfl
      | wildcard => rfl

theorem head?_unboundInHead (room : ∀ i ∈ r.ordinals, i < r.numVars) {index : Nat} :
    r.unboundInHead.head? = some index ↔
      IsLeast {i | (∃ p ∈ r.head, i ∈ p.ordinals) ∧ i ∉ r.bodyVars} index := by
  have ascending : r.unboundInHead.Pairwise (· < ·) := by
    unfold unboundInHead
    exact Std.ExtTreeSet.ordered_toList.imp Nat.compare_eq_lt.mp
  have same : {i | i ∈ r.unboundInHead} =
      {i | (∃ p ∈ r.head, i ∈ p.ordinals) ∧ i ∉ r.bodyVars} := by
    ext i
    simp only [Set.mem_ofPred_eq, mem_unboundInHead, binds_iff]
    refine and_congr_right fun ⟨p, mem, var⟩ => not_congr (and_iff_right (room i ?_))
    exact List.mem_flatMap.mpr ⟨p, List.mem_append_right _ mem, var⟩
  rw [head?_eq_some_iff_isLeast ascending, same]

theorem headHasWildcard_iff :
    r.headHasWildcard = true ↔ ∃ p ∈ r.head, ∃ slot, p.term slot = .wildcard := by
  rw [← Bool.not_eq_false, headHasWildcard_eq_false]
  simp only [ne_eq, not_forall, not_not, exists_prop]

theorem faulted_of_check {fault : RuleFault} (checked : r.check = .error fault) :
    r.Faulted fault := by
  cases found : r.ordinals.find? (r.numVars ≤ ·) with
  | some index =>
    obtain ⟨before, after, first, room, outside⟩ := find?_ordinals.mp found
    have raised : r.checkRoom = .error (.variableOutOfRange r.label index r.numVars) := by
      rw [checkRoom, found]
    rw [check, raised] at checked
    cases checked
    exact .outOfRange first room outside
  | none =>
    have roomy : r.checkRoom = .ok () := by rw [checkRoom, found]
    have room := checkRoom_eq_ok.mp roomy
    rw [check, roomy] at checked
    cases unbound : r.unboundInHead with
    | cons index rest =>
      rw [unbound] at checked
      cases checked
      exact .unboundHead room ((head?_unboundInHead room).mp (by rw [unbound, List.head?_cons]))
    | nil =>
      rw [unbound] at checked
      by_cases wild : r.headHasWildcard = true
      · simp only [wild, if_true] at checked
        cases checked
        obtain ⟨p, mem, slot, wild⟩ := headHasWildcard_iff.mp wild
        exact .wildcardInHead room ((unboundInHead_eq_nil room).mp unbound) mem wild
      · simp only [wild] at checked
        cases checked

theorem check_of_faulted {fault : RuleFault} (faulted : r.Faulted fault) :
    r.check = .error fault := by
  cases faulted with
  | outOfRange first room outside =>
    have found := find?_ordinals.mpr ⟨_, _, first, room, outside⟩
    rw [check, checkRoom, found]
  | unboundHead room least =>
    have roomy := checkRoom_eq_ok.mpr room
    obtain ⟨rest, unbound⟩ := List.head?_eq_some_iff.mp ((head?_unboundInHead room).mpr least)
    rw [check, roomy, unbound]
  | @wildcardInHead p slot room boundHead mem wild =>
    rw [check, checkRoom_eq_ok.mpr room, (unboundInHead_eq_nil room).mpr boundHead]
    simp [headHasWildcard_iff.mpr ⟨p, mem, slot, wild⟩]

theorem check_eq_error {fault : RuleFault} : r.check = .error fault ↔ r.Faulted fault :=
  ⟨faulted_of_check, check_of_faulted⟩

end Rule

namespace CompiledRules

/-- A list of rules is compiled exactly if those that are run are well formed. Otherwise the first
of them that is not is refused for its first fault, and nothing else makes compiling fail. -/
theorem compiling_accepts_exactly_the_well_formed (rules : List Rule) (ignoreBackward : Bool) :
    ((∃ c, compile rules ignoreBackward = .ok c) ↔
      ∀ r ∈ rules, r.Runs ignoreBackward → r.WellFormed) ∧
    ∀ failure, compile rules ignoreBackward = .error failure ↔
      ∃ before r after fault, rules = before ++ r :: after ∧
        (∀ q ∈ before, q.Runs ignoreBackward → q.WellFormed) ∧ r.Runs ignoreBackward ∧
        r.Faulted fault ∧ failure = .rule fault := by
  constructor
  · simp only [compile_eq_ok, NetworkBuilder.forall_numbered, exists_and_left, exists_eq, and_true]
  · intro failure
    simp only [compile_eq_error, Rule.check_eq_error]

end CompiledRules

/-- Two variables of the head are unbound, the greater one first, and there is a wildcard. -/
example :
    Rule.check ⟨"r", [⟨.var 0, .constant 1, .var 3⟩], [⟨.var 2, .wildcard, .var 1⟩], 4, .forward⟩ =
      .error (.unboundHeadVariable "r" 1) := by
  decide +kernel

end TripleInference
