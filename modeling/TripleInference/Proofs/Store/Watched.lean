import TripleInference.Proofs.Keeping
import TripleInference.Store.Graph

/-!
Stores that are watched. All requests are passed on to the store behind, whatever it is, and the
lookups among them are noted.
-/
namespace TripleInference

structure Watched (S : Type) where
  store : S
  lookups : List Lookup

namespace Watched

variable {S α : Type}

def ofStore (store : S) : Watched S := ⟨store, []⟩

def note (l : Lookup) : Step StoreError (Watched S) Unit :=
  modify fun w => { w with lookups := w.lookups ++ [l] }

def passOn (m : Step StoreError S α) : Step StoreError (Watched S) α :=
  m.within (·.store) (fun store w => { w with store }) id

instance [EmptyCollection S] : EmptyCollection (Watched S) := ⟨ofStore ∅⟩

instance [TripleSource S] : TripleSource (Watched S) where
  find l := do
    note l
    passOn (TripleSource.find l)
  contains t := do
    note (.exactly t)
    passOn (TripleSource.contains t)

instance [TripleSink S] : TripleSink (Watched S) where
  add t := passOn (TripleSink.add t)
  delete t := passOn (TripleSink.delete t)

def Only (allowed : Lookup → Prop) (w : Watched S) : Prop := ∀ l ∈ w.lookups, allowed l

variable {allowed : Lookup → Prop} {l : Lookup}

theorem passOn_preserves (m : Step StoreError S α) : (passOn m).Preserves (Only allowed) :=
  Step.preserves_within_elsewhere fun _ _ start => start

theorem note_preserves (isAllowed : allowed l) :
    (note l : Step StoreError (Watched S) Unit).Preserves (Only allowed) := by
  apply Step.preserves_modify
  intro w start other mem
  rcases List.mem_append.mp mem with before | here
  · exact start other before
  · exact List.mem_singleton.mp here ▸ isAllowed

theorem find_preserves [TripleSource S] (isAllowed : allowed l) :
    (TripleSource.find l : Step StoreError (Watched S) (List Triple)).Preserves (Only allowed) :=
  (note_preserves isAllowed).bind fun _ => passOn_preserves _

theorem contains_preserves [TripleSource S] {t : Triple} (isAllowed : allowed (.exactly t)) :
    (TripleSource.contains t : Step StoreError (Watched S) Bool).Preserves (Only allowed) :=
  (note_preserves isAllowed).bind fun _ => passOn_preserves _

theorem add_preserves [TripleSink S] (t : Triple) :
    (TripleSink.add t : Step StoreError (Watched S) Bool).Preserves (Only allowed) :=
  passOn_preserves _

theorem delete_preserves [TripleSink S] (t : Triple) :
    (TripleSink.delete t : Step StoreError (Watched S) Bool).Preserves (Only allowed) :=
  passOn_preserves _

end Watched

namespace InferenceGraph

variable {R D α : Type}

def lookups (g : InferenceGraph (Watched R) (Watched D)) : List Lookup :=
  g.raw.elim [] (·.lookups) ++ g.deductions.lookups

/-- No other lookups have been made on the stores. -/
def LooksUpOnly (allowed : Lookup → Prop) (g : InferenceGraph (Watched R) (Watched D)) : Prop :=
  ∀ l ∈ g.lookups, allowed l

variable {allowed : Lookup → Prop}

theorem looksUpOnly_iff {g : InferenceGraph (Watched R) (Watched D)} :
    g.LooksUpOnly allowed ↔ (∀ raw ∈ g.raw, raw.Only allowed) ∧ g.deductions.Only allowed := by
  unfold LooksUpOnly lookups
  rw [List.forall_mem_append]
  refine and_congr_left fun _ => ?_
  cases g.raw with
  | none => simp
  | some raw => simp [Watched.Only]

theorem onDeductions_preserves {m : Step StoreError (Watched D) α}
    (kept : m.Preserves (Watched.Only allowed)) :
    (onDeductions m : Step StoreError (InferenceGraph (Watched R) (Watched D)) α).Preserves
      (LooksUpOnly allowed) := by
  refine kept.within (fun g start => (looksUpOnly_iff.mp start).2) fun d g start deduced => ?_
  exact looksUpOnly_iff.mpr ⟨(looksUpOnly_iff.mp start).1, deduced⟩

theorem onRaw_preserves {m : Step StoreError (Watched R) α}
    (kept : m.Preserves (Watched.Only allowed)) :
    (onRaw m : Step StoreError (InferenceGraph (Watched R) (Watched D)) (Option α)).Preserves
      (LooksUpOnly allowed) := by
  intro g start
  obtain ⟨onlyRaw, onlyDeductions⟩ := looksUpOnly_iff.mp start
  unfold Step.outcome onRaw
  cases hasRaw : g.raw with
  | none => exact start
  | some raw =>
    refine looksUpOnly_iff.mpr ⟨?_, onlyDeductions⟩
    rintro _ ⟨⟩
    exact kept raw (onlyRaw raw hasRaw)

theorem assertRaw_preserves [TripleSink R] [EmptyCollection R] (t : Triple) :
    (assertRaw t : Step StoreError (InferenceGraph (Watched R) (Watched D)) Bool).Preserves
      (LooksUpOnly allowed) := by
  intro g start
  obtain ⟨onlyRaw, onlyDeductions⟩ := looksUpOnly_iff.mp start
  refine looksUpOnly_iff.mpr ⟨?_, onlyDeductions⟩
  rintro _ ⟨⟩
  refine Watched.add_preserves t (g.raw.getD ∅) ?_
  cases hasRaw : g.raw with
  | none => exact List.forall_mem_nil _
  | some raw => exact onlyRaw raw hasRaw

variable [TripleSource R] [TripleSource D]

theorem find_preserves {l : Lookup} (isAllowed : allowed l) :
    (find l : Step StoreError (InferenceGraph (Watched R) (Watched D)) (List Triple)).Preserves
      (LooksUpOnly allowed) := by
  apply (onDeductions_preserves (Watched.find_preserves isAllowed)).bind
  intro deduced
  apply (onRaw_preserves (Watched.find_preserves isAllowed)).bind
  intro asserted
  cases asserted with
  | none => exact Step.preserves_pure _
  | some asserted => exact Step.preserves_pure _

theorem contains_preserves {t : Triple} (isAllowed : allowed (.exactly t)) :
    (contains t : Step StoreError (InferenceGraph (Watched R) (Watched D)) Bool).Preserves
      (LooksUpOnly allowed) := by
  apply (onDeductions_preserves (Watched.contains_preserves isAllowed)).bind
  intro deduced
  cases deduced with
  | true => exact Step.preserves_pure _
  | false =>
    exact (onRaw_preserves (Watched.contains_preserves isAllowed)).bind fun _ =>
      Step.preserves_pure _

end InferenceGraph
end TripleInference
