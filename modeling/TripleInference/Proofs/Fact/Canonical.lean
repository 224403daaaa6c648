import Mathlib.Data.Set.Card
import TripleInference.Proofs.Fact.Coherence

/-!
A set of facts has one index. However an index came to hold its facts, its three rotations are the
ones that these facts alone determine: no rotation keeps a branch or a leaf that holds nothing.
-/
namespace TripleInference

open Std (ExtTreeMap ExtTreeSet)

namespace Rotation

structure Pruned (r : Rotation) : Prop where
  noEmptyBranch : ∀ (a : TermId) (leaves : ExtTreeMap TermId (ExtTreeSet TermId)),
    r.branches[a]? = some leaves → leaves ≠ ∅
  noEmptyLeaf : ∀ (a : TermId) (leaves : ExtTreeMap TermId (ExtTreeSet TermId)),
    r.branches[a]? = some leaves → ∀ (b : TermId) (values : ExtTreeSet TermId),
      leaves[b]? = some values → values ≠ ∅

theorem pruned_empty : (∅ : Rotation).Pruned where
  noEmptyBranch a leaves stored := by
    change (∅ : ExtTreeMap TermId (ExtTreeMap TermId (ExtTreeSet TermId)))[a]? = _ at stored
    simp at stored
  noEmptyLeaf a leaves stored := by
    change (∅ : ExtTreeMap TermId (ExtTreeMap TermId (ExtTreeSet TermId)))[a]? = _ at stored
    simp at stored

theorem keep_eq_some {α : Type} {isEmpty : α → Bool} {x y : α} :
    keep isEmpty x = some y ↔ isEmpty x = false ∧ x = y := by
  unfold keep
  split <;> rename_i h <;> simp [h]

theorem Pruned.insert {r : Rotation} (pruned : r.Pruned) (a b c : TermId) :
    (r.insert a b c).Pruned where
  noEmptyBranch a' leaves stored := by
    rw [Rotation.insert, ExtTreeMap.getElem?_alter] at stored
    split at stored
    · obtain rfl := Option.some.inj stored
      simp [ExtTreeMap.alter_eq_empty_iff]
    · exact pruned.noEmptyBranch a' leaves stored
  noEmptyLeaf a' leaves stored b' values found := by
    rw [Rotation.insert, ExtTreeMap.getElem?_alter] at stored
    split at stored
    · obtain rfl := Option.some.inj stored
      rw [ExtTreeMap.getElem?_alter] at found
      split at found
      · obtain rfl := Option.some.inj found
        exact ExtTreeSet.insert_ne_empty
      · cases old : r.branches[a]? with
        | none => simp [old] at found
        | some leaves =>
          exact pruned.noEmptyLeaf a leaves old b' values (by simpa [old] using found)
    · exact pruned.noEmptyLeaf a' leaves stored b' values found

theorem Pruned.erase {r : Rotation} (pruned : r.Pruned) (a b c : TermId) :
    (r.erase a b c).Pruned where
  noEmptyBranch a' leaves stored := by
    rw [Rotation.erase, ExtTreeMap.getElem?_alter] at stored
    split at stored
    · obtain ⟨old, -, kept⟩ := Option.bind_eq_some_iff.mp stored
      obtain ⟨nonempty, rfl⟩ := keep_eq_some.mp kept
      exact ExtTreeMap.isEmpty_eq_false_iff.mp nonempty
    · exact pruned.noEmptyBranch a' leaves stored
  noEmptyLeaf a' leaves stored b' values found := by
    rw [Rotation.erase, ExtTreeMap.getElem?_alter] at stored
    split at stored
    · obtain ⟨old, here, kept⟩ := Option.bind_eq_some_iff.mp stored
      obtain ⟨-, rfl⟩ := keep_eq_some.mp kept
      rw [ExtTreeMap.getElem?_alter] at found
      split at found
      · obtain ⟨_, -, kept⟩ := Option.bind_eq_some_iff.mp found
        obtain ⟨nonempty, rfl⟩ := keep_eq_some.mp kept
        exact ExtTreeSet.isEmpty_eq_false_iff.mp nonempty
      · exact pruned.noEmptyLeaf a old here b' values found
    · exact pruned.noEmptyLeaf a' leaves stored b' values found

theorem Pruned.getElem?_branches {r : Rotation} (pruned : r.Pruned) (a : TermId) :
    r.branches[a]? = keep (·.isEmpty) (r.branches[a]?.getD ∅) := by
  cases stored : r.branches[a]? with
  | none => rfl
  | some leaves =>
    have nonempty : leaves.isEmpty = false :=
      ExtTreeMap.isEmpty_eq_false_iff.mpr (pruned.noEmptyBranch a leaves stored)
    exact (keep_eq_some.mpr ⟨nonempty, rfl⟩).symm

theorem Pruned.getElem?_leaves {r : Rotation} (pruned : r.Pruned) (a b : TermId) :
    (r.branches[a]?.getD ∅)[b]? = keep (·.isEmpty) (r.leaf a b) := by
  cases stored : r.branches[a]? with
  | none => simp [leaf, stored, keep]
  | some leaves =>
    cases found : leaves[b]? with
    | none => simp [leaf, stored, found, keep]
    | some values =>
      have nonempty := pruned.noEmptyLeaf a leaves stored b values found
      simp [leaf, stored, found, keep, nonempty]

theorem Pruned.ext {r r' : Rotation} (pruned : r.Pruned) (pruned' : r'.Pruned)
    (same : ∀ a b c, r.contains a b c = true ↔ r'.contains a b c = true) : r = r' := by
  have leaves (a b : TermId) : r.leaf a b = r'.leaf a b :=
    ExtTreeSet.ext_mem fun c => same a b c
  have branches (a : TermId) : r.branches[a]?.getD ∅ = r'.branches[a]?.getD ∅ := by
    apply ExtTreeMap.ext_getElem?
    intro b
    rw [pruned.getElem?_leaves, pruned'.getElem?_leaves, leaves]
  obtain ⟨stored⟩ := r
  obtain ⟨stored'⟩ := r'
  congr 1
  apply ExtTreeMap.ext_getElem?
  intro a
  exact ((pruned.getElem?_branches a).trans (congrArg _ (branches a))).trans
    (pruned'.getElem?_branches a).symm

end Rotation

namespace FactIndex

structure Canonical (x : FactIndex) : Prop where
  coherent : x.Coherent
  spo : x.spo.Pruned
  pos : x.pos.Pruned
  osp : x.osp.Pruned
  size : x.facts.encard = x.size

theorem canonical_empty : (∅ : FactIndex).Canonical where
  coherent := coherent_empty
  spo := Rotation.pruned_empty
  pos := Rotation.pruned_empty
  osp := Rotation.pruned_empty
  size := by
    rw [facts_empty, Set.encard_empty]
    rfl

theorem Canonical.insert {x : FactIndex} (canonical : x.Canonical) (t : Triple) :
    (x.insert t).2.Canonical := by
  by_cases stored : x.contains t = true
  · have same : (x.insert t).2 = x := by
      rw [FactIndex.insert, if_pos stored]
    rwa [same]
  · have counted : (x.insert t).2.facts.encard = (x.size + 1 : Nat) := by
      rw [facts_insert, Set.singleton_union,
        Set.encard_insert_of_notMem (mt mem_facts.mp stored), canonical.size]
      rfl
    have coherent := canonical.coherent.insert t
    rw [FactIndex.insert, if_neg stored] at counted coherent ⊢
    exact ⟨coherent, canonical.spo.insert _ _ _, canonical.pos.insert _ _ _,
      canonical.osp.insert _ _ _, counted⟩

theorem Canonical.erase {x : FactIndex} (canonical : x.Canonical) (t : Triple) :
    (x.erase t).2.Canonical := by
  by_cases stored : x.contains t = true
  · have counted : (x.erase t).2.facts.encard = (x.size - 1 : Nat) := by
      -- sizes are subtracted as natural numbers, so the facts are counted as a finite set
      have finite : x.facts.Finite := Set.finite_of_encard_eq_coe canonical.size
      have count := finite.cast_ncard_eq.trans canonical.size
      rw [facts_erase, ← finite.sdiff.cast_ncard_eq, Set.ncard_sdiff_singleton_of_mem
        (mem_facts.mpr stored)]
      exact congrArg (fun n : Nat => ((n - 1 : Nat) : ℕ∞)) (Nat.cast_injective count)
    have coherent := canonical.coherent.erase t
    rw [FactIndex.erase, if_pos stored] at counted coherent ⊢
    exact ⟨coherent, canonical.spo.erase _ _ _, canonical.pos.erase _ _ _,
      canonical.osp.erase _ _ _, counted⟩
  · have same : (x.erase t).2 = x := by
      rw [FactIndex.erase, if_neg stored]
    rwa [same]

theorem Canonical.insertAll {x : FactIndex} (canonical : x.Canonical) (ts : List Triple) :
    (x.insertAll ts).Canonical := by
  induction ts generalizing x with
  | nil => exact canonical
  | cons t ts ih => exact ih (canonical.insert t)

theorem Canonical.merge {x : FactIndex} (canonical : x.Canonical) (y : FactIndex) :
    (x.merge y).Canonical := canonical.insertAll _

theorem canonical_ofParts (parts : List (List Triple)) : (ofParts parts).Canonical := by
  suffices built : ∀ x : FactIndex, x.Canonical →
      (parts.foldl (fun x part => x.merge (empty.insertAll part)) x).Canonical from
    built ∅ canonical_empty
  induction parts with
  | nil => exact fun x canonical => canonical
  | cons part parts ih => exact fun x canonical => ih _ (canonical.merge _)

theorem Canonical.ext {x y : FactIndex} (canonical : x.Canonical) (canonical' : y.Canonical)
    (same : x.facts = y.facts) : x = y := by
  have stored (s p o : TermId) : x.contains ⟨s, p, o⟩ = true ↔ y.contains ⟨s, p, o⟩ = true :=
    Set.ext_iff.mp same ⟨s, p, o⟩
  have spo : x.spo = y.spo := canonical.spo.ext canonical'.spo stored
  have pos : x.pos = y.pos := canonical.pos.ext canonical'.pos fun p o s => by
    rw [canonical.coherent.pos, canonical'.coherent.pos, stored]
  have osp : x.osp = y.osp := canonical.osp.ext canonical'.osp fun o s p => by
    rw [canonical.coherent.osp, canonical'.coherent.osp, stored]
  have size : x.size = y.size := by
    have counted := canonical.size
    rw [same, canonical'.size] at counted
    exact (Nat.cast_injective counted).symm
  obtain ⟨_, _, _, _⟩ := x
  obtain ⟨_, _, _, _⟩ := y
  cases spo
  cases pos
  cases osp
  cases size
  rfl

/-- An index that operations have built, beginning with the empty one. -/
inductive Reachable : FactIndex → Prop where
  | empty : Reachable ∅
  | insert {x : FactIndex} (t : Triple) : Reachable x → Reachable (x.insert t).2
  | erase {x : FactIndex} (t : Triple) : Reachable x → Reachable (x.erase t).2
  | clear {x : FactIndex} : Reachable x → Reachable x.clear
  | build {x : FactIndex} (parts : List (List Triple)) : Reachable x → Reachable (x.build parts)
  | merge {x y : FactIndex} : Reachable x → Reachable y → Reachable (x.merge y)

theorem reachable_ofParts (parts : List (List Triple)) : (ofParts parts).Reachable :=
  .build parts .empty

theorem Reachable.canonical {x : FactIndex} (reachable : x.Reachable) : x.Canonical := by
  induction reachable with
  | empty => exact canonical_empty
  | insert t _ ih => exact ih.insert t
  | erase t _ ih => exact ih.erase t
  | clear _ _ => exact canonical_empty
  | build parts _ _ => exact canonical_ofParts parts
  | merge _ _ ih _ => exact ih.merge _

/-- Whatever operations have built an index, its rotations hold the same triples and nothing empty,
its size counts them, every operation does to them what it does to a set, and no other index that
operations build holds the same facts. -/
theorem reachable_index_is_canonical {x : FactIndex} (reachable : x.Reachable) :
    (∀ s p o, x.pos.contains p o s = x.spo.contains s p o ∧
      x.osp.contains o s p = x.spo.contains s p o) ∧
    (x.spo.Pruned ∧ x.pos.Pruned ∧ x.osp.Pruned) ∧
    x.facts.encard = x.size ∧
    (∀ t, (x.insert t).2.facts = {t} ∪ x.facts ∧
      ((x.insert t).1 = true ↔ (x.insert t).2.facts ≠ x.facts)) ∧
    (∀ t, (x.erase t).2.facts = x.facts \ {t} ∧
      ((x.erase t).1 = true ↔ (x.erase t).2.facts ≠ x.facts)) ∧
    (x.clear.facts = ∅ ∧ (∀ parts, (x.build parts).facts = {t | t ∈ parts.flatten}) ∧
      ∀ y : FactIndex, y.Reachable → (x.merge y).facts = x.facts ∪ y.facts) ∧
    (∀ y : FactIndex, y.Reachable → y.facts = x.facts →
      y.spo = x.spo ∧ y.pos = x.pos ∧ y.osp = x.osp ∧ y.size = x.size) ∧
    ∀ t ∉ x.facts, ((x.insert t).2.erase t).2 = x := by
  have canonical := reachable.canonical
  refine ⟨fun s p o => ⟨?_, ?_⟩, ⟨canonical.spo, canonical.pos, canonical.osp⟩, canonical.size,
    fun t => ⟨facts_insert x t, ?_⟩, fun t => ⟨facts_erase x t, ?_⟩,
    ⟨facts_empty, fun parts => (ofParts_facts parts).2, fun y reachable' =>
      merge_facts x reachable'.canonical.coherent⟩, fun y reachable' same => ?_, fun t absent => ?_⟩
  · exact Bool.eq_iff_iff.mpr (canonical.coherent.pos s p o)
  · exact Bool.eq_iff_iff.mpr (canonical.coherent.osp s p o)
  · rw [insert_fst, facts_insert, ne_eq, Set.union_eq_right, Set.singleton_subset_iff]
  · rw [erase_fst, facts_erase, ne_eq, sdiff_eq_left, Set.disjoint_singleton_right, not_not]
  · obtain rfl := reachable'.canonical.ext canonical same
    exact ⟨rfl, rfl, rfl, rfl⟩
  · refine ((canonical.insert t).erase t).ext canonical ?_
    rw [facts_erase, facts_insert, Set.singleton_union, Set.insert_sdiff_self_of_notMem absent]

theorem edited_index_is_the_built_one :
    ∃ x : FactIndex, x = (((((∅ : FactIndex).insert ⟨7, 7, 7⟩).2.clear.build
        [[⟨2, 11, 3⟩], [⟨1, 10, 2⟩, ⟨2, 11, 3⟩]]).erase ⟨2, 11, 3⟩).2.merge (ofList [⟨1, 10, 3⟩])) ∧
      x.Reachable ∧
      (ofList [⟨1, 10, 3⟩, ⟨1, 10, 2⟩, ⟨1, 10, 3⟩]).pos = x.pos ∧ x.size = 2 := by
  have edited := Reachable.erase ⟨2, 11, 3⟩
    (.build [[⟨2, 11, 3⟩], [⟨1, 10, 2⟩, ⟨2, 11, 3⟩]] (.clear (.insert ⟨7, 7, 7⟩ .empty)))
  have reachable := edited.merge (reachable_ofParts (cut 9999 [⟨1, 10, 3⟩]))
  have built : (ofList [⟨1, 10, 3⟩, ⟨1, 10, 2⟩, ⟨1, 10, 3⟩]).Reachable := reachable_ofParts _
  obtain ⟨-, -, -, -, -, -, unique, -⟩ := reachable_index_is_canonical reachable
  obtain ⟨-, pos, -, size⟩ := unique _ built <| by
    rw [ofList_facts, merge_facts _ (ofParts_facts _).1, (ofParts_facts _).2, facts_erase]
    change _ = ((ofParts _).facts \ _) ∪ _
    rw [(ofParts_facts _).2]
    ext t
    simp only [flatten_cut, Set.mem_union, Set.mem_sdiff, Set.mem_singleton_iff,
      Set.mem_ofPred_eq, List.flatten_cons, List.flatten_nil, List.mem_append, List.mem_cons,
      List.not_mem_nil, or_false]
    have differs : (⟨1, 10, 2⟩ : Triple) ≠ ⟨2, 11, 3⟩ := by decide
    grind
  exact ⟨_, rfl, reachable, pos, by rw [ofList, ← size]; decide +kernel⟩

end FactIndex
end TripleInference
