import TripleInference.Proofs.Fact.Canonical

/-!
Building an index part by part. The parts may be indexed apart from each other, and the triples of
each may then be merged in any order: what comes out is the index that takes in the whole list, one
triple after the other.
-/
namespace TripleInference
namespace FactIndex

/-- Merging the indexes of some parts into `x` may end in `y`. What the index of a part holds may be
read in any order. -/
inductive MergesParts : FactIndex → List (List Triple) → FactIndex → Prop where
  | nil {x : FactIndex} : MergesParts x [] x
  | cons {x y : FactIndex} {part read : List Triple} {parts : List (List Triple)} :
    read.Perm ((empty.insertAll part).matching .all) → MergesParts (x.insertAll read) parts y →
      MergesParts x (part :: parts) y

variable {x y : FactIndex}

theorem Canonical.insertAll_congr (canonical : x.Canonical) {ts us : List Triple}
    (same : ∀ t, t ∈ ts ↔ t ∈ us) : x.insertAll ts = x.insertAll us := by
  refine (canonical.insertAll ts).ext (canonical.insertAll us) ?_
  rw [insertAll_facts, insertAll_facts]
  exact congrArg (x.facts ∪ ·) (Set.ext same)

theorem insertAll_append (x : FactIndex) (ts us : List Triple) :
    x.insertAll (ts ++ us) = (x.insertAll ts).insertAll us := List.foldl_append

theorem mem_matching_part (part : List Triple) (t : Triple) :
    t ∈ (empty.insertAll part).matching .all ↔ t ∈ part := by
  have coherent : (empty.insertAll part).Coherent := coherent_empty.insertAll part
  have facts : (empty.insertAll part).facts = (∅ : FactIndex).facts ∪ {t | t ∈ part} :=
    insertAll_facts ∅ part
  rw [coherent.mem_matching, facts, facts_empty]
  simp [Lookup.fits_all]

theorem MergesParts.eq_insertAll {parts : List (List Triple)} (merges : MergesParts x parts y)
    (canonical : x.Canonical) : y = x.insertAll parts.flatten := by
  induction merges with
  | nil => rfl
  | @cons x y part read parts perm _ ih =>
    have first : x.insertAll read = x.insertAll part := by
      apply canonical.insertAll_congr
      intro t
      rw [perm.mem_iff, mem_matching_part]
    rw [ih (canonical.insertAll read), first, List.flatten_cons, insertAll_append]

/-- The order in which the rotations of a part are walked through is one that may be taken. -/
theorem mergesParts_foldl (x : FactIndex) (parts : List (List Triple)) :
    MergesParts x parts (parts.foldl (fun x part => x.merge (empty.insertAll part)) x) := by
  induction parts generalizing x with
  | nil => exact .nil
  | cons part parts ih => exact .cons (.refl _) (ih (x.merge (empty.insertAll part)))

theorem Canonical.size_merge (canonical : x.Canonical) (canonical' : y.Canonical) :
    ((x.merge y).size : ℕ∞) + (x.facts ∩ y.facts).encard = x.size + y.size := by
  rw [← (canonical.merge y).size, merge_facts x canonical'.coherent,
    Set.encard_union_add_encard_inter, canonical.size, canonical'.size]

/-- Whatever an index held before and however a list is cut, a build in which the triples of each
part are merged in some order gives the index that takes the list in triple by triple, with the same
rotations and the same size; the orders of the rotations are among these. Merging another index, in
any order, gives the union of both, in which a shared triple counts once. -/
theorem bulk_build_is_incremental :
    (∀ (x y : FactIndex) (ts : List Triple) (parts : List (List Triple)), parts.flatten = ts →
      MergesParts x.clear parts y → y = (∅ : FactIndex).insertAll ts) ∧
    (∀ (x : FactIndex) (parts : List (List Triple)), MergesParts x.clear parts (x.build parts)) ∧
    (∀ ts : List Triple, ofList ts = (∅ : FactIndex).insertAll ts) ∧
    ∀ x y : FactIndex, x.Reachable → y.Reachable → ∀ read : List Triple,
      read.Perm (y.matching .all) →
        x.insertAll read = x.merge y ∧ (x.merge y).facts = x.facts ∪ y.facts ∧
        (x.merge y).facts.encard = (x.merge y).size ∧
        ((x.merge y).size : ℕ∞) + (x.facts ∩ y.facts).encard = x.size + y.size := by
  refine ⟨?_, fun x parts => mergesParts_foldl x.clear parts, ?_, ?_⟩
  · rintro x y _ parts rfl merges
    exact merges.eq_insertAll canonical_empty
  · intro ts
    have built := (mergesParts_foldl ∅ (cut 9999 ts)).eq_insertAll canonical_empty
    rwa [flatten_cut] at built
  · intro x y reachable reachable' read perm
    have canonical := reachable.canonical
    have canonical' := reachable'.canonical
    exact ⟨canonical.insertAll_congr fun t => perm.mem_iff, merge_facts x canonical'.coherent,
      (canonical.merge y).size, canonical.size_merge canonical'⟩

theorem repeated_triples_are_built_once :
    ∃ x y z : FactIndex, x = (∅ : FactIndex).insertAll [⟨7, 7, 7⟩] ∧
      MergesParts x.clear [[⟨1, 10, 2⟩, ⟨1, 10, 2⟩, ⟨2, 11, 3⟩], [⟨1, 10, 2⟩, ⟨3, 10, 1⟩]] y ∧
      y.size = 3 ∧ y.contains ⟨7, 7, 7⟩ = false ∧
      z = ofList [⟨3, 10, 1⟩, ⟨9, 9, 9⟩] ∧ (y.merge z).facts.encard = 4 := by
  let first : List Triple := [⟨1, 10, 2⟩, ⟨1, 10, 2⟩, ⟨2, 11, 3⟩]
  let second : List Triple := [⟨1, 10, 2⟩, ⟨3, 10, 1⟩]
  let x : FactIndex := (∅ : FactIndex).insertAll [⟨7, 7, 7⟩]
  let z : FactIndex := ofList [⟨3, 10, 1⟩, ⟨9, 9, 9⟩]
  obtain ⟨incremental, -, -, merging⟩ := bulk_build_is_incremental
  have behind (part : List Triple) :
      ((empty.insertAll part).matching .all).reverse.Perm ((empty.insertAll part).matching .all) :=
    List.reverse_perm _
  have merges := MergesParts.cons (x := x.clear) (behind first) (.cons (behind second) .nil)
  have built := incremental x _ (first ++ second) [first, second] rfl merges
  rw [built] at merges
  have reachable : (ofParts [first ++ second]).Reachable := reachable_ofParts _
  have whole : ofParts [first ++ second] = (∅ : FactIndex).insertAll (first ++ second) :=
    incremental x _ _ [first ++ second] (List.append_nil _) (mergesParts_foldl _ _)
  rw [whole] at reachable
  obtain ⟨-, -, counted, -⟩ := merging _ z reachable (reachable_ofParts _) _ (.refl _)
  refine ⟨x, _, z, rfl, merges, by decide +kernel, by decide +kernel, rfl, counted.trans ?_⟩
  have size : (((∅ : FactIndex).insertAll (first ++ second)).merge z).size = 4 := by
    decide +kernel
  rw [size]
  rfl

end FactIndex
end TripleInference
