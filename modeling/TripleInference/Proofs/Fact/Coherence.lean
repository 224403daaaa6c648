import Mathlib.Data.Set.Insert
import Mathlib.Tactic.Tauto
import TripleInference.Fact.Index

/-!
What a fact index stores, seen as a set. The three rotations of an index agree, so a lookup finds
exactly the stored triples that fit it, whichever rotation serves it.
-/
namespace TripleInference

namespace Rotation

@[simp] theorem contains_empty (a b c : TermId) : (∅ : Rotation).contains a b c = false := by
  simp [contains, leaf_empty]

theorem contains_insert (r : Rotation) (a b c a' b' c' : TermId) :
    (r.insert a b c).contains a' b' c' = true ↔
      (a = a' ∧ b = b' ∧ c = c') ∨ r.contains a' b' c' = true := by
  simp only [contains, leaf_insert]
  by_cases here : a = a' ∧ b = b'
  · obtain ⟨rfl, rfl⟩ := here
    simp [Std.ExtTreeSet.contains_insert]
  · rw [if_neg here]
    constructor
    · exact Or.inr
    · rintro (⟨ha, hb, -⟩ | old)
      · exact absurd ⟨ha, hb⟩ here
      · exact old

theorem contains_erase (r : Rotation) (a b c a' b' c' : TermId) :
    (r.erase a b c).contains a' b' c' = true ↔
      ¬ (a = a' ∧ b = b' ∧ c = c') ∧ r.contains a' b' c' = true := by
  simp only [contains, leaf_erase]
  by_cases here : a = a' ∧ b = b'
  · obtain ⟨rfl, rfl⟩ := here
    simp [Std.ExtTreeSet.contains_erase]
  · rw [if_neg here]
    constructor
    · exact fun old => ⟨fun same => here ⟨same.1, same.2.1⟩, old⟩
    · exact fun h => h.2

theorem mem_values {r : Rotation} {a b c : TermId} :
    c ∈ r.values a b ↔ r.contains a b c = true := by
  simp [values, contains]

theorem mem_pairs {r : Rotation} {a b c : TermId} :
    (b, c) ∈ r.pairs a ↔ r.contains a b c = true := by
  simp only [pairs, List.mem_flatMap, Prod.exists, List.mem_map, Prod.mk.injEq,
    Std.ExtTreeMap.mem_toList_iff_getElem?_eq_some, contains, leaf]
  constructor
  · rintro ⟨b', values, found, c', mem, rfl, rfl⟩
    rw [found]
    simpa using mem
  · intro h
    cases found : (r.branches[a]?.getD ∅)[b]? with
    | none => simp [found] at h
    | some values => exact ⟨b, values, found, c, by simpa [found] using h, rfl, rfl⟩

theorem mem_levels {r : Rotation} {a b c : TermId} :
    (∃ branch, (a, branch) ∈ r.levels ∧ ∃ values, (b, values) ∈ branch ∧ c ∈ values) ↔
      r.contains a b c = true := by
  simp only [levels, List.mem_map, Prod.exists, Prod.mk.injEq,
    Std.ExtTreeMap.mem_toList_iff_getElem?_eq_some, contains, leaf]
  constructor
  · rintro ⟨_, ⟨a', leaves, found, rfl, rfl⟩, values, mem, hc⟩
    simp only [List.mem_map, Prod.exists, Prod.mk.injEq,
      Std.ExtTreeMap.mem_toList_iff_getElem?_eq_some] at mem
    obtain ⟨b', stored, foundLeaf, rfl, rfl⟩ := mem
    simpa [found, foundLeaf] using hc
  · intro h
    cases found : r.branches[a]? with
    | none => simp [found] at h
    | some leaves =>
      cases foundLeaf : leaves[b]? with
      | none => simp [found, foundLeaf] at h
      | some stored =>
        refine ⟨_, ⟨a, leaves, found, rfl, rfl⟩, stored.toList, ?_, ?_⟩
        · simp only [List.mem_map, Prod.exists, Prod.mk.injEq,
            Std.ExtTreeMap.mem_toList_iff_getElem?_eq_some]
          exact ⟨b, stored, foundLeaf, rfl, rfl⟩
        · simpa [found, foundLeaf] using h

end Rotation

namespace FactIndex

def facts (x : FactIndex) : Set Triple := {t | x.contains t = true}

theorem mem_facts {x : FactIndex} {t : Triple} : t ∈ x.facts ↔ x.contains t = true := Iff.rfl

structure Coherent (x : FactIndex) : Prop where
  pos : ∀ s p o, x.pos.contains p o s = true ↔ x.contains ⟨s, p, o⟩ = true
  osp : ∀ s p o, x.osp.contains o s p = true ↔ x.contains ⟨s, p, o⟩ = true

theorem facts_empty : (∅ : FactIndex).facts = ∅ := by
  ext ⟨s, p, o⟩
  change (∅ : Rotation).contains s p o = true ↔ _
  simp

theorem coherent_empty : (∅ : FactIndex).Coherent where
  pos _ _ _ := Iff.rfl
  osp _ _ _ := Iff.rfl

theorem insert_fst (x : FactIndex) (t : Triple) : (x.insert t).1 = true ↔ t ∉ x.facts := by
  unfold insert
  split <;> simp_all [mem_facts]

theorem facts_insert (x : FactIndex) (t : Triple) : (x.insert t).2.facts = {t} ∪ x.facts := by
  ext u
  simp only [mem_facts, contains_insert, Bool.or_eq_true, beq_iff_eq, Set.mem_union,
    Set.mem_singleton_iff, eq_comm (a := u)]

theorem Coherent.insert {x : FactIndex} (coherent : x.Coherent) (t : Triple) :
    (x.insert t).2.Coherent := by
  unfold FactIndex.insert
  split
  · exact coherent
  · constructor
    · intro s p o
      simp only [contains, Rotation.contains_insert, coherent.pos s p o]
      grind
    · intro s p o
      simp only [contains, Rotation.contains_insert, coherent.osp s p o]
      grind

theorem erase_fst (x : FactIndex) (t : Triple) : (x.erase t).1 = true ↔ t ∈ x.facts := by
  unfold erase
  split <;> simp_all [mem_facts]

theorem facts_erase (x : FactIndex) (t : Triple) : (x.erase t).2.facts = x.facts \ {t} := by
  ext ⟨s, p, o⟩
  obtain ⟨s', p', o'⟩ := t
  unfold erase
  split
  · simp only [mem_facts, contains, Rotation.contains_erase, Set.mem_sdiff, Set.mem_singleton_iff,
      Triple.mk.injEq]
    grind
  · rename_i absent
    simp only [mem_facts, Set.mem_sdiff, Set.mem_singleton_iff, iff_self_and]
    rintro present ⟨⟩
    exact absent present

theorem Coherent.erase {x : FactIndex} (coherent : x.Coherent) (t : Triple) :
    (x.erase t).2.Coherent := by
  unfold FactIndex.erase
  split
  · constructor
    · intro s p o
      simp only [contains, Rotation.contains_erase, coherent.pos s p o]
      grind
    · intro s p o
      simp only [contains, Rotation.contains_erase, coherent.osp s p o]
      grind
  · exact coherent

theorem insertAll_facts (x : FactIndex) (ts : List Triple) :
    (x.insertAll ts).facts = x.facts ∪ {t | t ∈ ts} := by
  induction ts generalizing x with
  | nil => simp [insertAll]
  | cons t ts ih =>
    change ((x.insert t).2.insertAll ts).facts = _
    rw [ih, facts_insert]
    ext u
    simp only [Set.mem_union, Set.mem_singleton_iff, Set.mem_ofPred_eq, List.mem_cons]
    tauto

theorem Coherent.insertAll {x : FactIndex} (coherent : x.Coherent) (ts : List Triple) :
    (x.insertAll ts).Coherent := by
  induction ts generalizing x with
  | nil => exact coherent
  | cons t ts ih => exact ih (coherent.insert t)

theorem Coherent.mem_matching {x : FactIndex} (coherent : x.Coherent) {l : Lookup} {t : Triple} :
    t ∈ x.matching l ↔ t ∈ x.facts ∧ l.fits t = true := by
  obtain ⟨s', p', o'⟩ := t
  obtain ⟨s, p, o⟩ := l
  have bySpo : ∀ a b c, x.spo.contains a b c = true ↔ x.contains ⟨a, b, c⟩ = true := fun _ _ _ =>
    Iff.rfl
  cases s <;> cases p <;> cases o <;>
    simp only [matching, List.mem_map, List.mem_flatMap, Prod.exists, Triple.mk.injEq,
      Rotation.mem_values, Rotation.mem_pairs, coherent.pos, coherent.osp, bySpo, mem_facts,
      Lookup.fits, Option.all_none, Option.all_some, Bool.and_true, Bool.true_and,
      Bool.and_eq_true, beq_iff_eq]
  case none.none.none =>
    rw [and_true, ← bySpo, ← Rotation.mem_levels]
    constructor
    · rintro ⟨a, branch, found, b, values, mem, c, hc, rfl, rfl, rfl⟩
      exact ⟨branch, found, values, mem, hc⟩
    · rintro ⟨branch, found, values, mem, hc⟩
      exact ⟨s', branch, found, p', values, mem, o', hc, rfl, rfl, rfl⟩
  case some.some.some s p o =>
    split <;> rename_i h
    · simp only [List.mem_singleton, Triple.mk.injEq]
      grind
    · simp only [List.not_mem_nil, false_iff]
      grind
  all_goals grind

theorem Coherent.mem_find {x : FactIndex} (coherent : x.Coherent) {l : Lookup} {t : Triple} :
    t ∈ x.find l ↔ t ∈ x.facts ∧ l.fits t = true := by
  rw [find, Triple.mem_ascending, coherent.mem_matching]

theorem Coherent.merge {x : FactIndex} (coherent : x.Coherent) (y : FactIndex) :
    (x.merge y).Coherent := coherent.insertAll _

theorem merge_facts (x : FactIndex) {y : FactIndex} (coherent : y.Coherent) :
    (x.merge y).facts = x.facts ∪ y.facts := by
  rw [merge, insertAll_facts]
  ext t
  simp [coherent.mem_matching, Lookup.fits_all]

theorem ofParts_facts (parts : List (List Triple)) :
    (ofParts parts).Coherent ∧ (ofParts parts).facts = {t | t ∈ parts.flatten} := by
  suffices built : ∀ x : FactIndex, x.Coherent →
      (parts.foldl (fun x part => x.merge (empty.insertAll part)) x).Coherent ∧
        (parts.foldl (fun x part => x.merge (empty.insertAll part)) x).facts =
          x.facts ∪ {t | t ∈ parts.flatten} by
    obtain ⟨coherent, facts⟩ := built ∅ coherent_empty
    exact ⟨coherent, facts.trans (by rw [facts_empty, Set.empty_union])⟩
  induction parts with
  | nil => intro x coherent; simpa using coherent
  | cons part parts ih =>
    intro x coherent
    have partCoherent : (empty.insertAll part).Coherent := coherent_empty.insertAll part
    have partFacts : (empty.insertAll part).facts = {t | t ∈ part} := by
      rw [insertAll_facts]
      exact (congrArg (· ∪ _) facts_empty).trans (Set.empty_union _)
    obtain ⟨whole, facts⟩ := ih (x.merge (empty.insertAll part)) (coherent.merge _)
    refine ⟨whole, ?_⟩
    rw [List.foldl_cons, facts, merge_facts x partCoherent, partFacts, Set.union_assoc]
    congr 1
    ext t
    simp

theorem ofList_coherent (ts : List Triple) : (ofList ts).Coherent := (ofParts_facts _).1

theorem ofList_facts (ts : List Triple) : (ofList ts).facts = {t | t ∈ ts} := by
  rw [ofList, (ofParts_facts _).2, flatten_cut]

end FactIndex
end TripleInference
