import Mathlib.Data.List.Sort
import TripleInference.Proofs.Fact.Canonical
import TripleInference.Rule.Basic

/-!
What a lookup gives back, as a list. Whichever rotation serves it, a lookup reads each stored triple
that fits once, so that putting what was read in order is all that is left to do, and the answer is
the same in whatever order it was read.
-/
namespace TripleInference

open Std (ExtTreeMap ExtTreeSet)

namespace Triple

instance : Std.Irrefl fun t u : Triple => compare t u = .lt :=
  ⟨fun t less => by simp [Std.ReflCmp.compare_self] at less⟩

instance : Std.Antisymm fun t u : Triple => compare t u = .lt :=
  ⟨fun t u less greater => by
    have swapped : compare t u = (compare u t).swap := Std.OrientedCmp.eq_swap
    rw [less, greater] at swapped
    cases swapped⟩

theorem eq_of_ascending {ts us : List Triple} (ascending : ts.Pairwise (compare · · = .lt))
    (ascending' : us.Pairwise (compare · · = .lt)) (same : ∀ t, t ∈ ts ↔ t ∈ us) : ts = us :=
  ascending.eq_of_mem_iff ascending' same

theorem ascending_perm {ts : List Triple} (distinct : ts.Nodup) : (ascending ts).Perm ts :=
  (List.perm_ext_iff_of_nodup (ascending_pairwise_lt ts).nodup distinct).mpr fun _ =>
    mem_ascending

end Triple

namespace Rotation

theorem nodup_spread {κ β γ : Type} {entries : List (κ × β)} {spread : κ × β → List γ}
    (key : γ → κ) (keys : entries.Pairwise (·.1 ≠ ·.1))
    (distinct : ∀ entry ∈ entries, (spread entry).Nodup)
    (tells : ∀ entry ∈ entries, ∀ x ∈ spread entry, key x = entry.1) :
    (entries.flatMap spread).Nodup := by
  rw [List.nodup_flatMap]
  refine ⟨distinct, keys.imp_of_mem fun mem mem' differ x here there => ?_⟩
  exact differ ((tells _ mem x here).symm.trans (tells _ mem' x there))

theorem distinct_keys {β : Type} (entries : ExtTreeMap TermId β) :
    entries.toList.Pairwise (·.1 ≠ ·.1) :=
  ExtTreeMap.distinct_keys_toList.imp fun differ same => differ (by simp [same])

theorem nodup_leaf (values : ExtTreeSet TermId) : values.toList.Nodup :=
  ExtTreeSet.distinct_toList.imp fun differ same => differ (by simp [same])

theorem nodup_values (r : Rotation) (a b : TermId) : (r.values a b).Nodup := nodup_leaf _

theorem nodup_pairs (r : Rotation) (a : TermId) : (r.pairs a).Nodup := by
  refine nodup_spread Prod.fst (distinct_keys _) ?_ ?_
  · rintro ⟨b, values⟩ -
    exact (nodup_leaf values).map (Prod.mk_right_injective b)
  · rintro ⟨b, values⟩ - x mem
    obtain ⟨c, -, rfl⟩ := List.mem_map.mp mem
    rfl

theorem distinct_keys_map {β γ : Type} (entries : ExtTreeMap TermId β)
    {f : TermId × β → TermId × γ} (kept : ∀ entry, (f entry).1 = entry.1) :
    (entries.toList.map f).Pairwise (·.1 ≠ ·.1) :=
  (distinct_keys entries).map f fun _ _ differ => by rwa [kept, kept]

end Rotation

namespace FactIndex

theorem nodup_matching_all (x : FactIndex) : (x.matching .all).Nodup := by
  simp only [Lookup.all, matching]
  rw [Rotation.levels]
  refine Rotation.nodup_spread Triple.subject (Rotation.distinct_keys_map _ fun _ => rfl) ?_ ?_
  · intro entry mem
    obtain ⟨⟨s, leaves⟩, -, rfl⟩ := List.mem_map.mp mem
    refine Rotation.nodup_spread Triple.predicate (Rotation.distinct_keys_map _ fun _ => rfl) ?_ ?_
    · intro entry mem
      obtain ⟨⟨p, values⟩, -, rfl⟩ := List.mem_map.mp mem
      exact (Rotation.nodup_leaf values).map fun o o' same => (Triple.mk.inj same).2.2
    · rintro ⟨p, objects⟩ - t mem
      obtain ⟨o, -, rfl⟩ := List.mem_map.mp mem
      rfl
  · rintro ⟨s, branch⟩ - t mem
    obtain ⟨⟨p, objects⟩, -, mem⟩ := List.mem_flatMap.mp mem
    obtain ⟨o, -, rfl⟩ := List.mem_map.mp mem
    rfl

theorem nodup_matching (x : FactIndex) (l : Lookup) : (x.matching l).Nodup := by
  have slots {s p o s' p' o' : TermId} (same : (⟨s, p, o⟩ : Triple) = ⟨s', p', o'⟩) :
      s = s' ∧ p = p' ∧ o = o' := Triple.mk.inj same
  obtain ⟨s, p, o⟩ := l
  cases s <;> cases p <;> cases o
  case none.none.none => exact x.nodup_matching_all
  all_goals simp only [matching]
  case none.none.some o =>
    refine (x.osp.nodup_pairs o).map ?_
    rintro ⟨s, p⟩ ⟨s', p'⟩ same
    obtain ⟨rfl, rfl, -⟩ := slots same
    rfl
  case none.some.none p =>
    refine (x.pos.nodup_pairs p).map ?_
    rintro ⟨o, s⟩ ⟨o', s'⟩ same
    obtain ⟨rfl, -, rfl⟩ := slots same
    rfl
  case some.none.none s =>
    refine (x.spo.nodup_pairs s).map ?_
    rintro ⟨p, o⟩ ⟨p', o'⟩ same
    obtain ⟨-, rfl, rfl⟩ := slots same
    rfl
  case none.some.some p o => exact (x.pos.nodup_values p o).map fun s s' same => (slots same).1
  case some.none.some s o => exact (x.osp.nodup_values o s).map fun p p' same => (slots same).2.1
  case some.some.none s p => exact (x.spo.nodup_values s p).map fun o o' same => (slots same).2.2
  case some.some.some s p o =>
    split
    · exact List.nodup_singleton _
    · exact List.nodup_nil

theorem find_pairwise_lt (x : FactIndex) (l : Lookup) :
    (x.find l).Pairwise (compare · · = .lt) := Triple.ascending_pairwise_lt _

/-- The triples that a lookup reads come back in order, in whatever order they are read. -/
theorem find_of_perm {x : FactIndex} {l : Lookup} {read : List Triple}
    (perm : read.Perm (x.matching l)) :
    (x.find l).Perm read ∧ Triple.ascending read = x.find l := by
  refine ⟨(Triple.ascending_perm (x.nodup_matching l)).trans perm.symm, ?_⟩
  refine Triple.eq_of_ascending (Triple.ascending_pairwise_lt _) (x.find_pairwise_lt l) fun t => ?_
  rw [find, Triple.mem_ascending, Triple.mem_ascending, perm.mem_iff]

theorem Coherent.find_eq_filter {x : FactIndex} (coherent : x.Coherent) (l : Lookup) :
    x.find l = x.toList.filter l.fits := by
  refine Triple.eq_of_ascending (x.find_pairwise_lt l) ((x.find_pairwise_lt .all).filter _) ?_
  intro t
  rw [coherent.mem_find, List.mem_filter, toList, coherent.mem_find]
  simp [Lookup.fits_all]

theorem Coherent.find_exactly {x : FactIndex} (coherent : x.Coherent) (t : Triple) :
    x.find (.exactly t) = if x.contains t then [t] else [] := by
  refine Triple.eq_of_ascending (x.find_pairwise_lt _) (by split <;> simp) fun u => ?_
  rw [coherent.mem_find, Lookup.fits_exactly, mem_facts]
  split <;> rename_i stored
  · rw [List.mem_singleton]
    exact ⟨fun found => found.2.symm, fun same => by subst same; exact ⟨stored, rfl⟩⟩
  · rw [List.mem_nil_iff, iff_false]
    rintro ⟨found, rfl⟩
    exact stored found

end FactIndex

theorem Lookup.fits_iff (l : Lookup) (t : Triple) :
    l.fits t = true ↔ (∀ s ∈ l.subject, t.subject = s) ∧ (∀ p ∈ l.predicate, t.predicate = p) ∧
      ∀ o ∈ l.object, t.object = o := by
  have slot (given : Option TermId) (value : TermId) :
      given.all (· == value) = true ↔ ∀ id ∈ given, value = id := by
    cases given with
    | none => simp
    | some id =>
      rw [Option.all_some, beq_iff_eq]
      exact ⟨fun same other mem => same.symm.trans (Option.some.inj mem),
        fun all => (all id rfl).symm⟩
  simp only [fits, Bool.and_eq_true, slot, and_assoc]

theorem Pattern.lookup_fits_iff (p : Pattern) (t : Triple) :
    p.lookup.fits t = true ↔ ∀ slot id, p.term slot = .constant id → slot.of t = id := by
  rw [Lookup.fits_iff]
  simp only [lookup, Option.mem_def, Term.constant?_eq_some_iff]
  constructor
  · rintro ⟨subject, predicate, object⟩ slot id here
    cases slot
    · exact subject id here
    · exact predicate id here
    · exact object id here
  · intro fits
    exact ⟨fits .subject, fits .predicate, fits .object⟩

namespace FactIndex

/-- Whatever operations have built an index, a lookup of any shape gives the stored triples that fit
it, in strictly ascending order and in whatever order the rotation that serves it is read; so does
the lookup of a pattern, for its constants, and a fully closed lookup tells what is stored. -/
theorem lookups_filter_the_stored_triples {x : FactIndex} (reachable : x.Reachable) :
    (∀ l, (x.find l).Pairwise (compare · · = .lt) ∧
      (∀ t, t ∈ x.find l ↔ x.contains t = true ∧ (∀ s ∈ l.subject, t.subject = s) ∧
        (∀ p ∈ l.predicate, t.predicate = p) ∧ ∀ o ∈ l.object, t.object = o) ∧
      x.find l = x.toList.filter l.fits ∧
      ∀ read : List Triple, read.Perm (x.matching l) →
        (x.find l).Perm read ∧ Triple.ascending read = x.find l) ∧
    (∀ p : Pattern, (x.find p.lookup).Pairwise (compare · · = .lt) ∧
      ∀ t, t ∈ x.find p.lookup ↔ x.contains t = true ∧
        ∀ slot id, p.term slot = .constant id → slot.of t = id) ∧
    ∀ t, x.find (.exactly t) = if x.contains t then [t] else [] := by
  have coherent := reachable.canonical.coherent
  refine ⟨fun l => ⟨x.find_pairwise_lt l, fun t => ?_, coherent.find_eq_filter l,
    fun read perm => find_of_perm perm⟩, fun p => ⟨x.find_pairwise_lt _, fun t => ?_⟩,
    coherent.find_exactly⟩
  · rw [coherent.mem_find, mem_facts, l.fits_iff]
  · rw [coherent.mem_find, mem_facts, p.lookup_fits_iff]

theorem edited_index_gives_the_facts_of_an_object :
    ∃ x : FactIndex, x.Reachable ∧ x.find ⟨none, none, some 3⟩ = [⟨1, 10, 3⟩, ⟨2, 10, 3⟩] ∧
      ⟨2, 10, 3⟩ ∈ x.find (Pattern.lookup ⟨.var 0, .constant 10, .var 0⟩) ∧
      x.find (.exactly ⟨2, 11, 3⟩) = [] := by
  have reachable := Reachable.merge
    (.erase ⟨2, 11, 3⟩ (.insert ⟨2, 11, 3⟩ (.insert ⟨2, 10, 3⟩ .empty)))
    (.build [[⟨1, 10, 3⟩, ⟨2, 10, 3⟩], [⟨1, 10, 2⟩]] .empty)
  obtain ⟨lookups, patterns, closed⟩ := lookups_filter_the_stored_triples reachable
  refine ⟨_, reachable, ?_, ?_, ?_⟩
  · rw [(lookups _).2.2.1]
    decide +kernel
  · refine ((patterns _).2 _).mpr ⟨by decide +kernel, fun slot id here => ?_⟩
    cases slot <;> cases here
    rfl
  · rw [closed]
    decide +kernel

end FactIndex
end TripleInference
