import Std.Data.ExtTreeSet

/-!
Facts: triples of term identifiers, ordered by subject, then predicate, then object. A lookup is a
triple with some slots left open, which any value fits.
-/
namespace TripleInference

abbrev TermId := UInt32

structure Triple where
  subject : TermId
  predicate : TermId
  object : TermId
deriving DecidableEq, Repr, Inhabited

namespace Triple

instance : Ord Triple :=
  ⟨compareLex (compareOn subject) (compareLex (compareOn predicate) (compareOn object))⟩

instance : Std.TransOrd Triple :=
  inferInstanceAs (Std.TransCmp
    (compareLex (compareOn subject) (compareLex (compareOn predicate) (compareOn object))))

instance : Std.LawfulEqOrd Triple where
  eq_of_compare {a b} h := by
    obtain ⟨s, p, o⟩ := a
    obtain ⟨s', p', o'⟩ := b
    change (compare s s').then ((compare p p').then (compare o o')) = .eq at h
    obtain ⟨hs, hpo⟩ := Ordering.then_eq_eq.1 h
    obtain ⟨hp, ho⟩ := Ordering.then_eq_eq.1 hpo
    rw [Std.LawfulEqOrd.eq_of_compare hs, Std.LawfulEqOrd.eq_of_compare hp,
      Std.LawfulEqOrd.eq_of_compare ho]

def ascending (ts : List Triple) : List Triple := (Std.ExtTreeSet.ofList ts).toList

theorem mem_ascending {t : Triple} {ts : List Triple} : t ∈ ascending ts ↔ t ∈ ts := by
  simp [ascending]

theorem ascending_pairwise_lt (ts : List Triple) :
    (ascending ts).Pairwise (compare · · = .lt) :=
  Std.ExtTreeSet.ordered_toList

end Triple

structure Lookup where
  subject : Option TermId
  predicate : Option TermId
  object : Option TermId
deriving DecidableEq, Repr

namespace Lookup

def all : Lookup := ⟨none, none, none⟩

def exactly (t : Triple) : Lookup := ⟨some t.subject, some t.predicate, some t.object⟩

def withPredicate (p : TermId) : Lookup := ⟨none, some p, none⟩

def fits (l : Lookup) (t : Triple) : Bool :=
  l.subject.all (· == t.subject) && l.predicate.all (· == t.predicate) &&
    l.object.all (· == t.object)

theorem fits_all (t : Triple) : all.fits t = true := rfl

theorem fits_exactly {t u : Triple} : (exactly t).fits u = true ↔ t = u := by
  cases t
  cases u
  simp [exactly, fits, and_assoc]

end Lookup

end TripleInference
