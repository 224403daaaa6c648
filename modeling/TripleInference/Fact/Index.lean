import Std.Data.ExtTreeMap
import Std.Data.ExtTreeSet
import TripleInference.Fact.Triple

/-!
A set of facts indexed under three rotations, so that every lookup is one walk down: by subject
and predicate, by predicate and object, and by object and subject. A rotation is a map of maps of
sets, in which no branch is kept empty. All three hold the same triples, and `size` counts them.
-/
namespace TripleInference

open Std (ExtTreeMap ExtTreeSet)

structure Rotation where
  branches : ExtTreeMap TermId (ExtTreeMap TermId (ExtTreeSet TermId))

namespace Rotation

instance : EmptyCollection Rotation := ⟨⟨∅⟩⟩

def leaf (r : Rotation) (a b : TermId) : ExtTreeSet TermId :=
  ((r.branches[a]?.getD ∅)[b]?).getD ∅

def contains (r : Rotation) (a b c : TermId) : Bool := (r.leaf a b).contains c

def insert (r : Rotation) (a b c : TermId) : Rotation :=
  ⟨r.branches.alter a fun branch =>
    some ((branch.getD ∅).alter b fun leaf => some ((leaf.getD ∅).insert c))⟩

/-- A branch or leaf that holds nothing is not stored. -/
def keep {α : Type} (isEmpty : α → Bool) (x : α) : Option α := if isEmpty x then none else some x

def erase (r : Rotation) (a b c : TermId) : Rotation :=
  ⟨r.branches.alter a fun branch =>
    branch.bind fun leaves =>
      keep (·.isEmpty)
        (leaves.alter b fun leaf => leaf.bind fun values => keep (·.isEmpty) (values.erase c))⟩

def values (r : Rotation) (a b : TermId) : List TermId := (r.leaf a b).toList

def pairs (r : Rotation) (a : TermId) : List (TermId × TermId) :=
  (r.branches[a]?.getD ∅).toList.flatMap fun (b, values) => values.toList.map (b, ·)

def levels (r : Rotation) : List (TermId × List (TermId × List TermId)) :=
  r.branches.toList.map fun (a, leaves) =>
    (a, leaves.toList.map fun (b, values) => (b, values.toList))

theorem leaf_empty (a b : TermId) : (∅ : Rotation).leaf a b = ∅ := by
  change (((∅ : ExtTreeMap TermId (ExtTreeMap TermId (ExtTreeSet TermId)))[a]?.getD ∅)[b]?).getD ∅
    = ∅
  simp

theorem leaf_insert (r : Rotation) (a b c a' b' : TermId) :
    (r.insert a b c).leaf a' b' =
      if a = a' ∧ b = b' then (r.leaf a b).insert c else r.leaf a' b' := by
  unfold leaf insert
  simp only [ExtTreeMap.getElem?_alter, Std.LawfulEqOrd.compare_eq_iff_eq]
  by_cases ha : a = a'
  · subst ha
    by_cases hb : b = b' <;> simp [ExtTreeMap.getElem?_alter, hb]
  · simp [ha]

theorem getElem?_keep (branch : ExtTreeMap TermId (ExtTreeSet TermId)) (b : TermId) :
    ((keep (·.isEmpty) branch).getD ∅)[b]? = branch[b]? := by
  unfold keep
  split
  · rename_i h
    rw [ExtTreeMap.isEmpty_iff.1 h]
    simp
  · rfl

theorem getD_keep (values : ExtTreeSet TermId) : (keep (·.isEmpty) values).getD ∅ = values := by
  unfold keep
  split
  · rename_i h
    rw [ExtTreeSet.isEmpty_iff.1 h]
    rfl
  · rfl

theorem leaf_erase (r : Rotation) (a b c a' b' : TermId) :
    (r.erase a b c).leaf a' b' =
      if a = a' ∧ b = b' then (r.leaf a b).erase c else r.leaf a' b' := by
  unfold leaf erase
  simp only [ExtTreeMap.getElem?_alter, Std.LawfulEqOrd.compare_eq_iff_eq]
  by_cases ha : a = a'
  · subst ha
    cases h : r.branches[a]? with
    | none => simp
    | some branch =>
      simp only [↓reduceIte, Option.bind_some, getElem?_keep, Option.getD_some, true_and,
        ExtTreeMap.getElem?_alter, Std.LawfulEqOrd.compare_eq_iff_eq]
      by_cases hb : b = b'
      · subst hb
        cases branch[b]? with
        | none => simp
        | some values => simp [getD_keep]
      · simp [hb]
  · simp [ha]

end Rotation

structure FactIndex where
  spo : Rotation
  pos : Rotation
  osp : Rotation
  size : Nat

namespace FactIndex

def empty : FactIndex := ⟨∅, ∅, ∅, 0⟩

instance : EmptyCollection FactIndex := ⟨empty⟩

instance : Inhabited FactIndex := ⟨empty⟩

def isEmpty (x : FactIndex) : Bool := x.size == 0

def contains (x : FactIndex) (t : Triple) : Bool := x.spo.contains t.subject t.predicate t.object

def insert (x : FactIndex) (t : Triple) : Bool × FactIndex :=
  if x.contains t then (false, x)
  else
    (true,
      { spo := x.spo.insert t.subject t.predicate t.object
        pos := x.pos.insert t.predicate t.object t.subject
        osp := x.osp.insert t.object t.subject t.predicate
        size := x.size + 1 })

def erase (x : FactIndex) (t : Triple) : Bool × FactIndex :=
  if x.contains t then
    (true,
      { spo := x.spo.erase t.subject t.predicate t.object
        pos := x.pos.erase t.predicate t.object t.subject
        osp := x.osp.erase t.object t.subject t.predicate
        size := x.size - 1 })
  else (false, x)

/-- The stored triples that fit a lookup, read off the rotation that has its closed slots first. -/
def matching (x : FactIndex) : Lookup → List Triple
  | ⟨some s, some p, some o⟩ => if x.contains ⟨s, p, o⟩ then [⟨s, p, o⟩] else []
  | ⟨some s, some p, none⟩ => (x.spo.values s p).map fun o => ⟨s, p, o⟩
  | ⟨some s, none, some o⟩ => (x.osp.values o s).map fun p => ⟨s, p, o⟩
  | ⟨none, some p, some o⟩ => (x.pos.values p o).map fun s => ⟨s, p, o⟩
  | ⟨some s, none, none⟩ => (x.spo.pairs s).map fun (p, o) => ⟨s, p, o⟩
  | ⟨none, some p, none⟩ => (x.pos.pairs p).map fun (o, s) => ⟨s, p, o⟩
  | ⟨none, none, some o⟩ => (x.osp.pairs o).map fun (s, p) => ⟨s, p, o⟩
  | ⟨none, none, none⟩ =>
    x.spo.levels.flatMap fun (s, branch) =>
      branch.flatMap fun (p, objects) => objects.map fun o => ⟨s, p, o⟩

def find (x : FactIndex) (l : Lookup) : List Triple := Triple.ascending (x.matching l)

def toList (x : FactIndex) : List Triple := x.find .all

def insertAll (x : FactIndex) (ts : List Triple) : FactIndex :=
  ts.foldl (fun x t => (x.insert t).2) x

def merge (x y : FactIndex) : FactIndex := x.insertAll (y.matching .all)

/-- Builds an index part by part: each part on its own, then all of them merged. -/
def ofParts (parts : List (List Triple)) : FactIndex :=
  parts.foldl (fun x part => x.merge (empty.insertAll part)) empty

def clear (x : FactIndex) : FactIndex := { x with spo := ∅, pos := ∅, osp := ∅, size := 0 }

def build (x : FactIndex) (parts : List (List Triple)) : FactIndex :=
  parts.foldl (fun x part => x.merge (empty.insertAll part)) x.clear

/-- Cuts a list into consecutive parts, given how many elements the part in hand still takes;
returns the rest of that part and the parts after it. A new part takes one element and then
`more` others. -/
def cutFrom {α : Type} (more : Nat) : Nat → List α → List α × List (List α)
  | _, [] => ([], [])
  | 0, x :: xs =>
    let (part, parts) := cutFrom more more xs
    ([], (x :: part) :: parts)
  | room + 1, x :: xs =>
    let (part, parts) := cutFrom more room xs
    (x :: part, parts)

def cut {α : Type} (more : Nat) (xs : List α) : List (List α) := (cutFrom more 0 xs).2

def ofList (ts : List Triple) : FactIndex := ofParts (cut 9999 ts)

theorem cutFrom_append {α : Type} (more room : Nat) (xs : List α) :
    (cutFrom more room xs).1 ++ (cutFrom more room xs).2.flatten = xs := by
  induction xs generalizing room with
  | nil => simp [cutFrom]
  | cons x xs ih =>
    cases room with
    | zero => simpa [cutFrom] using ih more
    | succ room => simpa [cutFrom] using ih room

theorem flatten_cut {α : Type} (more : Nat) (xs : List α) : (cut more xs).flatten = xs := by
  have first : (cutFrom more 0 xs).1 = [] := by cases xs <;> rfl
  simpa [cut, first] using cutFrom_append more 0 xs

theorem contains_insert (x : FactIndex) (t u : Triple) :
    (x.insert t).2.contains u = (t == u || x.contains u) := by
  unfold insert
  split
  · rename_i h
    by_cases htu : t = u
    · subst htu
      simp [h]
    · simp [htu]
  · obtain ⟨s, p, o⟩ := t
    obtain ⟨s', p', o'⟩ := u
    simp only [contains, Rotation.contains, Rotation.leaf_insert]
    by_cases hsp : s = s' ∧ p = p'
    · obtain ⟨rfl, rfl⟩ := hsp
      rw [if_pos ⟨rfl, rfl⟩, Std.ExtTreeSet.contains_insert]
      congr 1
      rw [Bool.eq_iff_iff]
      simp
    · have htu : (⟨s, p, o⟩ : Triple) ≠ ⟨s', p', o'⟩ := by
        rintro ⟨⟩
        exact hsp ⟨rfl, rfl⟩
      simp [hsp, htu]

end FactIndex

end TripleInference
