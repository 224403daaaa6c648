import TripleInference.Proofs.Engine.Deducing
import TripleInference.Proofs.Engine.History

/-!
What an engine records about its deductions. Whatever a deduction rests on is backed by then: it is
raw, or concluded by a record.
-/
namespace TripleInference

namespace Provenance

open Std (ExtTreeMap)

def backed (raw : Set Triple) (records : List Derivation) : Set Triple :=
  raw ∪ {f | ∃ d ∈ records, d.conclusion = f}

structure Indexed (log : Provenance) : Prop where
  inRange : ∀ t : Triple, ∀ i ∈ log.positions[t]?.getD [], i < log.records.size
  explaining : ∀ t : Triple, log.explaining t = log.records.toList.filter (·.conclusion = t)

theorem positions_empty (t : Triple) : (∅ : Provenance).positions[t]?.getD [] = [] := by
  change (∅ : ExtTreeMap Triple (List Nat))[t]?.getD [] = []
  rw [ExtTreeMap.getElem?_empty, Option.getD_none]

theorem indexed_empty : (∅ : Provenance).Indexed := by
  constructor
  case inRange =>
    intro t i mem
    rw [positions_empty] at mem
    cases mem
  case explaining =>
    intro t
    rw [Provenance.explaining, positions_empty]
    rfl

theorem positions_record (log : Provenance) (d : Derivation) (t : Triple) :
    (log.record d).positions[t]?.getD [] =
      log.positions[t]?.getD [] ++ if d.conclusion = t then [log.records.size] else [] := by
  rw [record, ExtTreeMap.getElem?_insert]
  by_cases same : d.conclusion = t
  · subst same
    simp
  · simp [same]

theorem Indexed.record {log : Provenance} (indexed : log.Indexed) (d : Derivation) :
    (log.record d).Indexed := by
  have size : (log.record d).records.size = log.records.size + 1 := Array.size_push d
  constructor
  case inRange =>
    intro t i mem
    rw [positions_record, List.mem_append] at mem
    rcases mem with old | new
    · have before := indexed.inRange t i old
      omega
    · split at new
      · rw [List.mem_singleton] at new
        omega
      · cases new
  case explaining =>
    intro t
    have old : (log.positions[t]?.getD []).filterMap (fun i => (log.record d).records[i]?) =
        log.explaining t := by
      apply List.filterMap_congr
      intro i mem
      have inside := indexed.inRange t i mem
      change (log.records.push d)[i]? = log.records[i]?
      rw [Array.getElem?_push, if_neg inside.ne]
    rw [Provenance.explaining, positions_record, List.filterMap_append, old, indexed.explaining]
    change _ = (log.records.push d).toList.filter _
    rw [Array.toList_push, List.filter_append]
    by_cases same : d.conclusion = t
    · simp [same, Provenance.record]
    · simp [same]

def ofRecords (ds : List Derivation) : Provenance := ds.foldl record ∅

theorem ofRecords_concat (ds : List Derivation) (d : Derivation) :
    ofRecords (ds ++ [d]) = (ofRecords ds).record d := by
  rw [ofRecords, List.foldl_append]
  rfl

theorem toList_records_ofRecords (ds : List Derivation) : (ofRecords ds).records.toList = ds := by
  induction ds using List.reverseRecOn with
  | nil => rfl
  | append_singleton ds d ih =>
    rw [ofRecords_concat]
    exact (Array.toList_push ..).trans (congrArg (· ++ [d]) ih)

theorem size_records_ofRecords (ds : List Derivation) :
    (ofRecords ds).records.size = ds.length := by
  rw [← Array.length_toList, toList_records_ofRecords]

theorem indexed_ofRecords (ds : List Derivation) : (ofRecords ds).Indexed := by
  induction ds using List.reverseRecOn with
  | nil => exact indexed_empty
  | append_singleton ds d ih =>
    rw [ofRecords_concat]
    exact ih.record d

theorem mem_positions_ofRecords (ds : List Derivation) (t : Triple) (i : Nat) :
    i ∈ (ofRecords ds).positions[t]?.getD [] ↔
      ∃ inside : i < ds.length, ds[i].conclusion = t := by
  induction ds using List.reverseRecOn with
  | nil =>
    rw [ofRecords, List.foldl_nil, positions_empty]
    simp
  | append_singleton ds d ih =>
    rw [ofRecords_concat, positions_record, List.mem_append, ih, size_records_ofRecords]
    rcases lt_trichotomy i ds.length with before | rfl | behind
    · simp [before, before.ne, before.le, Order.lt_add_one_iff]
    · by_cases same : d.conclusion = t <;> simp [same]
    · simp [behind.not_gt, behind.ne', behind.not_ge, Order.lt_add_one_iff]

theorem positions_ofRecords_ascending (ds : List Derivation) (t : Triple) :
    ((ofRecords ds).positions[t]?.getD []).Pairwise (· < ·) := by
  induction ds using List.reverseRecOn with
  | nil =>
    rw [ofRecords, List.foldl_nil, positions_empty]
    exact List.Pairwise.nil
  | append_singleton ds d ih =>
    rw [ofRecords_concat, positions_record, size_records_ofRecords]
    refine List.pairwise_append.mpr ⟨ih, by split <;> simp, fun i old j new => ?_⟩
    obtain ⟨inside, -⟩ := (mem_positions_ofRecords ds t i).mp old
    split at new
    · rwa [List.mem_singleton.mp new]
    · cases new

/-- A log that derivations are recorded in holds them as they came, and its index has, for every
triple, the places of those that conclude it, so that a lookup finds each of them in order. -/
theorem log_and_index_agree (ds : List Derivation) :
    (ofRecords ds).records.toList = ds ∧
      ∀ t : Triple, (ofRecords ds).explaining t = ds.filter (·.conclusion = t) ∧
        ((ofRecords ds).positions[t]?.getD []).Pairwise (· < ·) ∧
        ∀ i, i ∈ (ofRecords ds).positions[t]?.getD [] ↔
          ∃ inside : i < ds.length, ds[i].conclusion = t := by
  refine ⟨toList_records_ofRecords ds, fun t => ⟨?_, positions_ofRecords_ascending ds t,
    mem_positions_ofRecords ds t⟩⟩
  rw [(indexed_ofRecords ds).explaining, toList_records_ofRecords]

end Provenance

namespace CompiledRules

/-- Every record applies a rule to facts that are raw or concluded before it. -/
def Proves (c : CompiledRules) (raw : Set Triple) (records : List Derivation) : Prop :=
  ∀ earlier d later, records = earlier ++ d :: later →
    c.Explains (Provenance.backed raw earlier) d

variable {c : CompiledRules} {raw raw' : Set Triple} {d : Derivation} {records : List Derivation}

theorem proves_nil : c.Proves raw [] := by
  intro earlier d later split
  simp at split

theorem Proves.concat (proves : c.Proves raw records)
    (explains : c.Explains (Provenance.backed raw records) d) : c.Proves raw (records ++ [d]) :=
  forall_split_concat proves explains

theorem Proves.mono (proves : c.Proves raw records) (subset : raw ⊆ raw') :
    c.Proves raw' records := by
  intro earlier d later split
  exact (proves earlier d later split).mono (Set.union_subset_union_left _ subset)

end CompiledRules

namespace Engine

section
variable {R D : Type}

def records (e : Engine R D) : List Derivation := e.derivations.records.toList

theorem derivations_recordDerivation (e : Engine R D) (d : Derivation)
    (recording : e.recording = true) :
    (e.recordDerivation d).derivations = e.derivations.record d := by
  simp [recordDerivation, recording]

theorem records_recordDerivation (e : Engine R D) (d : Derivation)
    (recording : e.recording = true) : (e.recordDerivation d).records = e.records ++ [d] := by
  rw [records, derivations_recordDerivation e d recording]
  exact Array.toList_push

end

variable {R D : Type} [TripleSource R] [LawfulSource R] [TripleSink D] [LawfulSink D]
  {c : CompiledRules} {e e' : Engine R D}

/-- The records are a proof, and no deduced fact goes without one. -/
structure Accounts (c : CompiledRules) (e : Engine R D) : Prop where
  sound : e.graph.Sound
  installed : e.compiled = some c
  recording : e.recording = true
  recorded : ∀ u ∈ e.graph.deduced, ∃ d ∈ e.records, d.conclusion = u
  proves : c.Proves e.graph.rawFacts e.records

theorem Accounts.known_backed (accounts : Accounts c e) :
    e.graph.known ⊆ Provenance.backed e.graph.rawFacts e.records :=
  Set.union_subset_union_right _ accounts.recorded

theorem Accounts.congr (accounts : Accounts c e) (sound : e'.graph.Sound)
    (installed : e'.compiled = some c) (recording : e'.recording = e.recording)
    (derivations : e'.derivations = e.derivations) (rawFacts : e.graph.rawFacts ⊆ e'.graph.rawFacts)
    (deduced : e'.graph.deduced ⊆ e.graph.deduced) : Accounts c e' := by
  have records : e'.records = e.records := congrArg (·.records.toList) derivations
  constructor
  case sound => exact sound
  case installed => exact installed
  case recording => exact recording.trans accounts.recording
  case recorded =>
    rw [records]
    exact fun u mem => accounts.recorded u (deduced mem)
  case proves =>
    rw [records]
    exact accounts.proves.mono rawFacts

theorem Accounts.of_same (accounts : Accounts c e) (same : InferenceGraph.Same e.graph e'.graph)
    (setup : e'.setup = e.setup) (derivations : e'.derivations = e.derivations) : Accounts c e' :=
  accounts.congr same.sound ((compiled_of_setup setup).trans accounts.installed)
    (recording_of_setup setup) derivations same.rawFacts.symm.subset same.deduced.subset

theorem Accounts.deduce (accounts : Accounts c e) {d : Derivation} {g : InferenceGraph R D}
    (explains : c.Explains e.graph.known d)
    (deduces : InferenceGraph.Deduces {d.conclusion} e.graph g) :
    Accounts c ({ e with graph := g }.recordDerivation d) := by
  have setup : ({ e with graph := g }.recordDerivation d).setup = e.setup :=
    setup_recordDerivation _ d
  have records : ({ e with graph := g }.recordDerivation d).records = e.records ++ [d] :=
    records_recordDerivation _ d accounts.recording
  constructor
  case sound =>
    rw [graph_recordDerivation]
    exact deduces.sound
  case installed => exact (compiled_of_setup setup).trans accounts.installed
  case recording => exact (recording_of_setup setup).trans accounts.recording
  case recorded =>
    rw [records, graph_recordDerivation, deduces.deduced]
    intro u mem
    rcases mem with rfl | old
    · exact ⟨d, List.mem_append_right _ List.mem_cons_self, rfl⟩
    · obtain ⟨d', mem, same⟩ := accounts.recorded u old
      exact ⟨d', List.mem_append_left _ mem, same⟩
  case proves =>
    rw [records, graph_recordDerivation, deduces.rawFacts]
    exact accounts.proves.concat (explains.mono accounts.known_backed)

theorem kept_accounts (c : CompiledRules) :
    KeptByAsserting c (Accounts c : Engine R D → Prop) where
  sound accounts := accounts.sound
  quiet accounts quiet := accounts.of_same quiet.graph quiet.setup quiet.derivations
  deduce accounts _ _ explains deduces := by
    rw [Set.empty_union] at explains
    exact accounts.deduce explains deduces
  assert accounts _ _ explains deduces :=
    accounts.deduce (explains.mono (Set.empty_subset _)) deduces
  proceed _ _ accounts := accounts.of_same (.refl accounts.sound) rfl rfl

end Engine
end TripleInference
