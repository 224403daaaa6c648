import TripleInference.Proofs.Network.Compiled
import TripleInference.Proofs.Network.Search

/-!
What a join queue makes of a match: every way to complete it by the clauses of its sibling. That
only the join keys are handed to the search, and the rest is merged in afterwards, makes no
difference.
-/
namespace TripleInference

structure Covers (r : Rule) (clauses : List Nat) (b : Bindings) : Prop where
  size : b.size = r.numVars
  binds : ∀ i, (b.get? i).isSome ↔ i ∈ r.clauseVars clauses

/-- The bindings with the values that `b` has for the keys, and no others. -/
structure Probes (keys : List Nat) (b probed : Bindings) : Prop where
  size : probed.size = b.size
  below : Valuation.Below probed.get? b.get?
  binds : ∀ i, (probed.get? i).isSome ↔ i ∈ keys

namespace Bindings

theorem isSome_get?_bind {b c : Bindings} {i : Nat} {x : TermId} (bound : b.bind i x = (true, c))
    (j : Nat) : (c.get? j).isSome ↔ (b.get? j).isSome ∨ j = i := by
  have ext := bind_least bound
  constructor
  · intro here
    have place := ext.bound [i] (fun v w same value => (same i (by simp)).symm.trans value) here
    simpa using place
  · rintro (old | rfl)
    · obtain ⟨y, value⟩ := Option.isSome_iff_exists.mp old
      exact Option.isSome_of_eq_some (ext.below j y value)
    · exact Option.isSome_of_eq_some ext.holds

theorem isSome_get?_merge {b c m : Bindings} {keys : List Nat}
    (merged : b.merge c keys = (true, m)) (j : Nat) :
    (m.get? j).isSome ↔ (b.get? j).isSome ∨ (c.get? j).isSome := by
  have ext := merge_least merged
  constructor
  · intro here
    have onlyBound (v w : Valuation) (same : ∀ i ∈ c.bound.map Prod.fst, v i = w i)
        (below : Valuation.Below c.get? v) : Valuation.Below c.get? w := by
      intro i x value
      have mem : i ∈ c.bound.map Prod.fst := List.mem_map_of_mem (mem_bound.mpr value)
      exact (same i mem).symm.trans (below i x value)
    rcases ext.bound (c.bound.map Prod.fst) onlyBound here with old | new
    · exact Or.inl old
    · obtain ⟨⟨i, x⟩, mem, rfl⟩ := List.mem_map.mp new
      exact Or.inr (Option.isSome_of_eq_some (mem_bound.mp mem))
  · rintro (old | new)
    · obtain ⟨y, value⟩ := Option.isSome_iff_exists.mp old
      exact Option.isSome_of_eq_some (ext.below j y value)
    · obtain ⟨y, value⟩ := Option.isSome_iff_exists.mp new
      exact Option.isSome_of_eq_some (ext.holds j y value)

end Bindings

namespace Descent

theorem probe_from (node : NodeId) {b : Bindings} {keys : List Nat}
    (bound : ∀ key ∈ keys, (b.get? key).isSome) {start : Bindings} (size : start.size = b.size)
    (below : Valuation.Below start.get? b.get?) :
    ∃ probed, probe node b keys start = .ok probed ∧ probed.size = b.size ∧
      Valuation.Below probed.get? b.get? ∧
      ∀ i, (probed.get? i).isSome ↔ (start.get? i).isSome ∨ i ∈ keys := by
  induction keys generalizing start with
  | nil => exact ⟨start, rfl, size, below, by simp⟩
  | cons key rest ih =>
    obtain ⟨x, value⟩ := Option.isSome_iff_exists.mp (bound key List.mem_cons_self)
    have room : key < start.size := by
      rw [size]
      exact Bindings.lt_of_get? value
    have bindable := Bindings.bind_succeeds room below value
    obtain ⟨next, bindKey⟩ : ∃ next, start.bind key x = (true, next) := ⟨_, Prod.ext bindable rfl⟩
    have ext := Bindings.bind_least bindKey
    obtain ⟨probed, run, size', below', binds⟩ :=
      ih (fun other mem => bound other (List.mem_cons_of_mem _ mem)) (ext.size.trans size)
        (ext.least _ below value)
    refine ⟨probed, ?_, size', below', fun i => ?_⟩
    · simp only [probe, value, bindKey, run]
    · rw [binds, Bindings.isSome_get?_bind bindKey, or_assoc, List.mem_cons]

theorem probe_eq_ok (node : NodeId) {b : Bindings} {keys : List Nat}
    (bound : ∀ key ∈ keys, (b.get? key).isSome) :
    ∃ probed, probe node b keys (.ofSize b.size) = .ok probed ∧ Probes keys b probed := by
  obtain ⟨probed, run, size, below, binds⟩ := probe_from node bound
    (Bindings.size_ofSize _) (Bindings.ofSize_below b.size b.get?)
  exact ⟨probed, run, size, below, by simpa using binds⟩

def mergeAll (b : Bindings) (keys : List Nat) (found : List Bindings) : List Bindings :=
  found.filterMap fun other =>
    match b.merge other keys with
    | (true, merged) => some merged.commit
    | (false, _) => none

theorem mem_mergeAll {b m : Bindings} {keys : List Nat} {found : List Bindings} :
    m ∈ mergeAll b keys found ↔
      ∃ other ∈ found, ∃ merged, b.merge other keys = (true, merged) ∧ merged.commit = m := by
  rw [mergeAll, List.mem_filterMap]
  refine exists_congr fun other => and_congr_right fun _ => ?_
  rcases b.merge other keys with ⟨⟨⟩, merged⟩ <;> simp

end Descent

/-- The keys are all the search has to know of a match: merging the rest in afterwards gives the
completions of the match itself. -/
theorem Found.mergeAll {r : Rule} {must may : Set Triple} {others keys : List Nat}
    {b probed : Bindings} {found : List Bindings} (completions : Found r must may others probed found)
    (probes : Probes keys b probed) (shared : ∀ key ∈ keys, key ∈ r.clauseVars others) :
    Found r must may others b (Descent.mergeAll b keys found) where
  sound m mem := by
    obtain ⟨other, found, merged, merge, rfl⟩ := Descent.mem_mergeAll.mp mem
    have completes := completions.sound other found
    have ext := Bindings.merge_least merge
    refine ⟨ext.size, ext.below, fun i => ?_, fun clause here => ?_⟩
    · rw [Bindings.get?_commit, Bindings.isSome_get?_merge merge, completes.binds, probes.binds]
      exact or_congr_right (or_iff_right_of_imp (shared i))
    · exact (completes.supported clause here).mono (Set.Subset.refl _) ext.holds
  complete w below supported := by
    obtain ⟨other, found, otherBelow⟩ := completions.complete w (probes.below.trans below) supported
    have completes := completions.sound other found
    have agree : ∀ key ∈ keys, ∃ x, b.get? key = some x ∧ other.get? key = some x := by
      intro key mem
      obtain ⟨x, value⟩ := Option.isSome_iff_exists.mp ((probes.binds key).mpr mem)
      exact ⟨x, probes.below key x value, completes.below key x value⟩
    have room : ∀ i x, other.get? i = some x → i < b.size := fun i x value => by
      rw [← probes.size, ← completes.size]
      exact Bindings.lt_of_get? value
    have mergeable := Bindings.merge_succeeds agree room below otherBelow
    obtain ⟨merged, merge⟩ : ∃ merged, b.merge other keys = (true, merged) :=
      ⟨_, Prod.ext mergeable rfl⟩
    refine ⟨merged.commit, Descent.mem_mergeAll.mpr ⟨other, found, merged, merge, rfl⟩, ?_⟩
    exact (Bindings.merge_least merge).least w below otherBelow

theorem Covers.completes {r : Rule} {facts : Set Triple} {clauses others all : List Nat}
    {b c : Bindings} (covers : Covers r clauses b) (completes : Completes r facts others b c)
    (both : ∀ clause, clause ∈ all ↔ clause ∈ clauses ∨ clause ∈ others) : Covers r all c where
  size := completes.size.trans covers.size
  binds i := by
    rw [completes.binds, covers.binds]
    simp only [Rule.mem_clauseVars, both, or_and_right, exists_or]

theorem Arrivals.remember_of_mem {m : Arrivals} {node : NodeId} {values : List (Option TermId)}
    (known : ⟨node, values⟩ ∈ m.seen) : m.remember node values = (false, m) :=
  if_pos (Std.ExtTreeSet.contains_iff_mem.mpr known)

theorem Arrivals.remember_of_not_mem {m : Arrivals} {node : NodeId} {values : List (Option TermId)}
    (new : ⟨node, values⟩ ∉ m.seen) :
    m.remember node values = (true, ⟨m.seen.insert ⟨node, values⟩⟩) :=
  if_neg fun known => new (Std.ExtTreeSet.contains_iff_mem.mp known)

theorem Descent.remember_ends {G : Type} {node : NodeId} {b : Bindings} {d : Descent G}
    {good : Bool → Descent G → Prop} {bad : Failure → Descent G → Prop} :
    (remember node b).Ends d good bad ↔
      good (d.memory.remember node b.values).1
        { d with memory := (d.memory.remember node b.values).2 } := Iff.rfl

namespace Descent

variable {G : Type} [TripleSource G] {state : G → Prop} {must may : Set Triple} {fails : Prop}

theorem join_ends (reads : Reads state must may fails) {c : CompiledRules} {id : RuleId} {r : Rule}
    {clauses others : List Nat} {pos next : Nat} {q s : JoinQueue}
    (pairs : c.network.Pairs id r clauses others pos q s next) (numbered : c.rule? id = some r)
    (wf : r.WellFormed) {b : Bindings} (covers : Covers r clauses b) {d : Descent G}
    (start : state d.graph) :
    (join c pos q b).Ends d
      (fun out d' => out.1 = next ∧ state d'.graph ∧ d'.bodyMatches = d.bodyMatches ∧
        ((⟨pos, b.values⟩ ∈ d.memory.seen ∧ d'.memory = d.memory ∧ out.2 = []) ∨
          (d'.memory.seen = d.memory.seen.insert ⟨pos, b.values⟩ ∧
            Found r must may others b out.2)))
      (fun e d' => state d'.graph ∧ fails ∧ e.OfStore) := by
  have bound : ∀ key ∈ q.keys, (b.get? key).isSome := fun key mem =>
    (covers.binds key).mpr (pairs.keys key mem).1
  obtain ⟨probed, probe, probes⟩ := probe_eq_ok pos bound
  have room : ∀ i ∈ r.clauseVars others, i < probed.size := by
    intro i mem
    rw [probes.size, covers.size]
    exact wf.room_of_body (Rule.clauseVars_subset_bodyVars mem)
  rw [join, Step.ends_bind, Step.ends_ofExcept, pairs.sibling]
  simp only [pairs.continuation]
  rw [Step.ends_bind, remember_ends]
  by_cases known : ⟨pos, b.values⟩ ∈ d.memory.seen
  · rw [Arrivals.remember_of_mem known, if_neg Bool.false_ne_true, Step.ends_pure]
    exact ⟨rfl, start, rfl, Or.inl ⟨known, rfl, rfl⟩⟩
  · rw [Arrivals.remember_of_not_mem known, if_pos rfl, Step.ends_bind, Step.ends_ofExcept, probe]
    simp only [pairs.rule, numbered, pairs.siblingTakes]
    rw [Step.ends_bind, onGraph, Step.ends_within]
    apply (search_ends reads pairs.inBody room #[] start).imp
    rintro ⟨b', found⟩ g ⟨start', -, new, appended, completions⟩
    obtain rfl : found.toList = new := by simpa using appended
    rw [Step.ends_pure]
    refine ⟨rfl, start', rfl, Or.inr ⟨rfl, ?_⟩⟩
    exact completions.mergeAll probes fun key mem => (pairs.keys key mem).2

theorem join_ends_onward {c : CompiledRules} {id : RuleId} {r : Rule} {clauses others : List Nat}
    {pos next : Nat} {q s : JoinQueue}
    (pairs : c.network.Pairs id r clauses others pos q s next) {b : Bindings} {d : Descent G} :
    (join c pos q b).Ends d (fun out _ => out.1 = next) (fun _ _ => True) := by
  rw [join, Step.ends_bind, Step.ends_ofExcept, pairs.sibling]
  simp only [pairs.continuation]
  rw [Step.ends_bind, remember_ends]
  split
  · rw [Step.ends_bind, Step.ends_ofExcept]
    cases probe pos b q.keys (.ofSize b.size) with
    | error fault => trivial
    | ok probed =>
      cases c.rule? q.rule with
      | none => simp only [Step.ends_throw]
      | some rule =>
        simp only []
        rw [Step.ends_bind]
        exact Step.ends_self.mono (fun _ _ _ => rfl) (fun _ _ _ => trivial)
  · rfl

end Descent
end TripleInference
