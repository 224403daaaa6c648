import Mathlib.Data.List.Nodup
import TripleInference.Proofs.Network.Exactness
import TripleInference.Proofs.Network.Renumbering

/-!
Which filters a compiled network has and where they are filed: one for each clause of an active
rule, under one key. A triple that is offered to the filters filed for its predicate misses none
that it can pass and meets none twice.
-/
namespace TripleInference

def Node.clause? : Node → Option (RuleId × Nat)
  | .filter f => some (f.rule, f.clause)
  | _ => none

def clausesOf (rules : List (RuleId × Rule)) : List (RuleId × Nat) :=
  rules.flatMap fun rule => (List.range rule.2.body.length).map (rule.1, ·)

theorem nodup_clausesOf {rules : List (RuleId × Rule)} (distinct : (rules.map (·.1)).Nodup) :
    (clausesOf rules).Nodup := by
  refine List.nodup_flatMap.mpr ⟨fun rule _ => ?_, (List.pairwise_map.mp distinct).imp ?_⟩
  · exact List.nodup_range.map fun _ _ same => (Prod.mk.inj same).2
  · intro rule other differ clause here there
    obtain ⟨_, -, rfl⟩ := List.mem_map.mp here
    obtain ⟨_, -, same⟩ := List.mem_map.mp there
    exact differ (Prod.mk.inj same).1.symm

theorem eq_of_nodup_filterMap {α β : Type} {f : α → Option β} {l : List α}
    (distinct : (l.filterMap f).Nodup) {i j : Nat} {a b : α} {x : β} (here : l[i]? = some a)
    (gives : f a = some x) (there : l[j]? = some b) (gives' : f b = some x) : i = j := by
  have apart := List.pairwise_iff_getElem.mp (List.pairwise_filterMap.mp distinct)
  obtain ⟨inside, rfl⟩ := List.getElem?_eq_some_iff.mp here
  obtain ⟨inside', rfl⟩ := List.getElem?_eq_some_iff.mp there
  rcases Nat.lt_trichotomy i j with less | same | more
  · exact absurd rfl (apart i j inside inside' less x gives x gives')
  · exact same
  · exact absurd rfl (apart j i inside' inside more x gives' x gives)

namespace Network

theorem clauses_chainTail (id : RuleId) (numVars : Nat) (rest : List Pattern) (clause : Nat)
    (seen : List Nat) (pos : Nat) :
    (chainTail id numVars rest clause seen pos).filterMap Node.clause? =
      (List.range' clause rest.length).map (id, ·) := by
  induction rest generalizing clause seen pos with
  | nil => rfl
  | cons p rest ih =>
    rw [chainTail, List.filterMap_append, ih, List.length_cons, List.range'_succ, List.map_cons]
    rfl

theorem clauses_chain (id : RuleId) (r : Rule) (pos : Nat) :
    (chain id r pos).filterMap Node.clause? = (List.range r.body.length).map (id, ·) := by
  unfold chain
  split
  · rename_i body
    rw [body]
    rfl
  · rename_i p rest body
    rw [body, List.length_cons, List.range_eq_range', List.range'_succ, List.map_cons]
    exact congrArg ((id, 0) :: ·) (clauses_chainTail id r.numVars rest 1 _ _)

end Network

namespace FilterTable

/-- Each key has its filters in ascending order, all of them below the bound, and no filter is
filed under two keys. -/
structure Ordered (x : FilterTable) (bound : Nat) : Prop where
  ascending : ∀ key, (x.get key).Pairwise (· < ·)
  below : ∀ key, ∀ pos ∈ x.get key, pos < bound
  single : ∀ key other pos, pos ∈ x.get key → pos ∈ x.get other → key = other

variable {x : FilterTable} {bound bound' : Nat}

theorem Ordered.mono (ordered : x.Ordered bound) (le : bound ≤ bound') : x.Ordered bound' where
  ascending := ordered.ascending
  below key pos mem := Nat.lt_of_lt_of_le (ordered.below key pos mem) le
  single := ordered.single

theorem ordered_empty : Ordered ∅ 0 := by
  have none (key : TermId) : (∅ : FilterTable).get key = [] := by
    change (FilterTable.empty).get key = []
    simp [get, FilterTable.empty]
  constructor <;> simp [none]

theorem Ordered.insert (ordered : x.Ordered bound) (key : TermId) {pos : NodeId}
    (new : bound ≤ pos) : (x.insert key pos).Ordered (pos + 1) := by
  have behind (other : TermId) (old : NodeId) (mem : old ∈ x.get other) : old < pos :=
    Nat.lt_of_lt_of_le (ordered.below other old mem) new
  constructor
  case ascending =>
    intro other
    rw [get_insert]
    split
    · refine List.pairwise_append.mpr ⟨ordered.ascending key, List.pairwise_singleton _ pos, ?_⟩
      intro old mem last here
      exact List.mem_singleton.mp here ▸ behind key old mem
    · exact ordered.ascending other
  case below =>
    intro other old mem
    rcases mem_get_insert.mp mem with mem | ⟨-, rfl⟩
    · exact Nat.lt_succ_of_lt (behind other old mem)
    · exact Nat.lt_succ_self old
  case single =>
    intro first second old mem mem'
    rcases mem_get_insert.mp mem with mem | ⟨same, rfl⟩ <;>
      rcases mem_get_insert.mp mem' with mem' | ⟨same', eq⟩
    · exact ordered.single first second old mem mem'
    · exact absurd (behind first old mem) (eq ▸ Nat.lt_irrefl old)
    · exact absurd (behind second old mem') (Nat.lt_irrefl old)
    · exact same.symm.trans same'

theorem Ordered.nodup_get (ordered : x.Ordered bound) (key : TermId) : (x.get key).Nodup :=
  (ordered.ascending key).imp Nat.ne_of_lt

theorem Ordered.nodup_candidates (ordered : x.Ordered bound) (predicate : TermId) :
    (x.candidates predicate).Nodup := by
  unfold candidates openFilters
  split
  · exact ordered.nodup_get openKey
  · rename_i differs
    refine List.nodup_append.mpr ⟨ordered.nodup_get predicate, ordered.nodup_get openKey, ?_⟩
    rintro pos mem _ mem' rfl
    exact differs (ordered.single predicate openKey pos mem mem')

end FilterTable

namespace NetworkBuilder

theorem ordered_fileTail {b : NetworkBuilder} {bound : Nat} (ordered : b.table.Ordered bound)
    (rest : List Pattern) {pos : Nat} (new : bound ≤ pos) :
    (b.fileTail rest pos).table.Ordered (pos + 3 * rest.length) := by
  induction rest generalizing b bound pos with
  | nil => exact ordered.mono new
  | cons p rest ih =>
    have first : (b.fileClause p pos).table.Ordered (pos + 1) := by
      rw [table_fileClause]
      exact ordered.insert p.fileKey new
    have next : pos + 1 ≤ pos + 3 := by omega
    refine (ih first next).mono ?_
    rw [List.length_cons]
    omega

theorem ordered_fileRule {b : NetworkBuilder} {base : Nat} (ordered : b.table.Ordered base)
    (id : RuleId) (r : Rule) :
    (b.fileRule r base).table.Ordered (base + (Network.chain id r base).length) := by
  unfold fileRule Network.chain
  split
  · exact ordered
  · rename_i p rest body
    have first : (b.fileClause p base).table.Ordered (base + 1) := by
      rw [table_fileClause]
      exact ordered.insert p.fileKey (Nat.le_refl base)
    refine (ordered_fileTail first rest (Nat.le_refl _)).mono ?_
    rw [List.length_cons, Network.length_chainTail]
    omega

structure Filed (done : List (RuleId × Rule)) (b : NetworkBuilder) : Prop where
  clauses : b.network.nodes.toList.filterMap Node.clause? = clausesOf done
  ordered : b.table.Ordered b.network.size

theorem Filed.place {done : List (RuleId × Rule)} {b : NetworkBuilder} (filed : Filed done b)
    (rule : RuleId × Rule) : Filed (done ++ [rule]) (b.place rule) := by
  have nodes : (b.place rule).network.nodes.toList =
      b.network.nodes.toList ++ Network.chain rule.1 rule.2 b.network.size := by
    simp [NetworkBuilder.place, withNodes, Network.ofNodes]
  have size : (b.place rule).network.size =
      b.network.size + (Network.chain rule.1 rule.2 b.network.size).length := by
    rw [Network.size, ← Array.length_toList, nodes, List.length_append, Array.length_toList,
      Network.size]
  constructor
  · rw [nodes, List.filterMap_append, filed.clauses, Network.clauses_chain, clausesOf, clausesOf,
      List.flatMap_append, List.flatMap_singleton]
  · rw [size]
    exact ordered_fileRule filed.ordered rule.1 rule.2

theorem filed_foldl {done : List (RuleId × Rule)} {b : NetworkBuilder} (filed : Filed done b)
    (rules : List (RuleId × Rule)) : Filed (done ++ rules) (rules.foldl NetworkBuilder.place b) := by
  induction rules generalizing done b with
  | nil => simpa using filed
  | cons rule rules ih =>
    rw [← List.singleton_append, ← List.append_assoc]
    exact ih (filed.place rule)

theorem filed_empty : Filed [] ∅ := ⟨rfl, FilterTable.ordered_empty⟩

end NetworkBuilder

namespace CompiledRules

def Passes (c : CompiledRules) (t : Triple) (pos : NodeId) : Prop :=
  ∃ f, c.network.filter pos = .ok f ∧ (f.test t).isSome

/-- The filter at this place stands for the clause of the rule. -/
def FilterOf (c : CompiledRules) (rule : RuleId) (clause : Nat) (pos : NodeId) : Prop :=
  ∃ f, c.network.filter pos = .ok f ∧ f.rule = rule ∧ f.clause = clause

variable {rules : List Rule} {ignoreBackward : Bool} {c : CompiledRules}

theorem filed_of_compile (compiles : compile rules ignoreBackward = .ok c) :
    c.network.nodes.toList.filterMap Node.clause? = clausesOf c.active ∧
      c.table.Ordered c.network.size ∧ (c.active.map (·.1)).Nodup := by
  obtain ⟨-, rfl⟩ := compile_eq_ok.mp compiles
  have filed := NetworkBuilder.filed_foldl NetworkBuilder.filed_empty
    (NetworkBuilder.numbered ignoreBackward rules 0)
  exact ⟨filed.clauses, filed.ordered, nodup_numbered ignoreBackward rules⟩

theorem predicatesUsed_eq_none_iff (compiles : compile rules ignoreBackward = .ok c) :
    c.predicatesUsed = none ↔ c.openPredicate = true := by
  obtain ⟨-, rfl⟩ := compile_eq_ok.mp compiles
  simp [NetworkBuilder.finish]

theorem eq_of_filterOf (compiles : compile rules ignoreBackward = .ok c) {rule : RuleId}
    {clause : Nat} {pos other : NodeId} (here : c.FilterOf rule clause pos)
    (there : c.FilterOf rule clause other) : pos = other := by
  obtain ⟨clauses, -, distinct⟩ := filed_of_compile compiles
  have once : (c.network.nodes.toList.filterMap Node.clause?).Nodup :=
    clauses ▸ nodup_clausesOf distinct
  obtain ⟨f, filter, rfl, rfl⟩ := here
  obtain ⟨g, filter', rule, clause⟩ := there
  have node := Network.node_of_filter filter
  have node' := Network.node_of_filter filter'
  rw [← Array.getElem?_toList] at node node'
  have gives : (Node.filter g).clause? = some (f.rule, f.clause) := by
    rw [Node.clause?, rule, clause]
  exact eq_of_nodup_filterMap once node rfl node' gives

theorem clause_of_filter (compiled : c.Compiled) {pos : NodeId} {f : ClauseFilter}
    (filter : c.network.filter pos = .ok f) :
    ∃ r p, (f.rule, r) ∈ c.active ∧ r.body[f.clause]? = some p ∧
      f = { ClauseFilter.ofPattern f.rule f.clause p r.numVars with
        continuation := f.continuation } := by
  obtain ⟨⟨id, r⟩, active, p, target, here, shape, -⟩ := compiled.filter filter
  have rule : f.rule = id := by rw [shape]; rfl
  have continuation : f.continuation = some target := by rw [shape]
  exact ⟨r, p, rule ▸ active, here, by rw [rule, continuation]; exact shape⟩

theorem filterOf_clause (compiled : c.Compiled) {rule : RuleId × Rule} (active : rule ∈ c.active)
    {k : Nat} {p : Pattern} (here : rule.2.body[k]? = some p) :
    ∃ pos ∈ c.table.get p.fileKey, c.FilterOf rule.1 k pos := by
  obtain ⟨pos, filed, f, node, number, clause⟩ := compiled.clause rule active k p here
  exact ⟨pos, filed, f, Network.filter_eq_ok node, number, clause⟩

theorem candidate_of_passes (compiles : compile rules ignoreBackward = .ok c) {t : Triple}
    {pos : NodeId} (passes : c.Passes t pos) : pos ∈ c.table.candidates t.predicate := by
  have compiled := compiled_of_compile compiles
  obtain ⟨f, filter, passed⟩ := passes
  obtain ⟨r, p, active, here, shape⟩ := clause_of_filter compiled filter
  obtain ⟨other, filed, there⟩ := filterOf_clause compiled active here
  have standsFor : c.FilterOf f.rule f.clause pos := ⟨f, filter, rfl, rfl⟩
  obtain rfl := eq_of_filterOf compiles standsFor there
  obtain ⟨b, tested⟩ := Option.isSome_iff_exists.mp passed
  have tested' : (ClauseFilter.ofPattern f.rule f.clause p r.numVars).test t = some b := by
    rw [shape] at tested
    exact tested
  exact FilterTable.mem_candidates filed (ClauseFilter.test_least tested').holds

/-- For any triple, the filters filed for its predicate are filters of the network, none of them
twice, and those of them that it passes are all that it passes. The network has exactly one filter
for each clause of an active rule. It is known whether some clause leaves its predicate open, and
if none does, which predicates the clauses have. -/
theorem filing_misses_no_filter_and_repeats_none
    (compiles : compile rules ignoreBackward = .ok c) :
    (∀ t : Triple, {pos | pos ∈ c.table.candidates t.predicate ∧ c.Passes t pos} =
        {pos | c.Passes t pos} ∧
      (∀ pos ∈ c.table.candidates t.predicate, ∃ f, c.network.filter pos = .ok f) ∧
      (c.table.candidates t.predicate).Nodup) ∧
    (∀ pos f, c.network.filter pos = .ok f →
      ∃ r p, (f.rule, r) ∈ c.active ∧ r.body[f.clause]? = some p ∧
        f = { ClauseFilter.ofPattern f.rule f.clause p r.numVars with
          continuation := f.continuation }) ∧
    (∀ rule ∈ c.active, ∀ k < rule.2.body.length, ∃! pos, c.FilterOf rule.1 k pos) ∧
    (c.predicatesUsed = none ↔ c.openPredicate = true) ∧
    (c.openPredicate = true ↔
      ∃ rule ∈ c.active, ∃ p ∈ rule.2.body, ∀ q, p.predicate ≠ .constant q) ∧
    ∀ used, c.predicatesUsed = some used → ∀ q, q ∈ used ↔
      ∃ rule ∈ c.active, ∃ p ∈ rule.2.body, p.predicate = .constant q := by
  have compiled := compiled_of_compile compiles
  obtain ⟨-, ordered, -⟩ := filed_of_compile compiles
  refine ⟨fun t => ⟨?_, fun pos => compiled.candidate, ordered.nodup_candidates _⟩,
    fun pos f => clause_of_filter compiled, fun rule active k inside => ?_,
    predicatesUsed_eq_none_iff compiles, ?_, fun used some q => ?_⟩
  · exact Set.ext fun pos => and_iff_right_of_imp (candidate_of_passes compiles)
  · obtain ⟨p, here⟩ := rule.2.exists_clause inside
    obtain ⟨pos, -, filterOf⟩ := filterOf_clause compiled active here
    exact ⟨pos, filterOf, fun other there => eq_of_filterOf compiles there filterOf⟩
  · rw [← predicatesUsed_eq_none_iff compiles, compiled.openPredicate]
    simp only [Term.constant?_eq_none_iff]
  · rw [compiled.predicates used some q]
    simp only [Term.constant?_eq_some_iff]

def turnAround : Rule :=
  .ofPatterns [⟨.var 0, .var 1, .var 2⟩] [⟨.var 2, .var 1, .var 0⟩]

theorem highest_predicate_meets_open_clauses_once :
    ∃ c, compile [.transitive FilterTable.openKey, turnAround] true = .ok c ∧
      (c.table.candidates FilterTable.openKey).length = 3 ∧
      (c.table.candidates FilterTable.openKey).Nodup ∧
      (∃! pos, c.FilterOf 1 0 pos) ∧ c.predicatesUsed = none := by
  have wellFormed : ∀ rule ∈
      NetworkBuilder.numbered true [.transitive FilterTable.openKey, turnAround] 0,
      rule.2.check = .ok () := by
    decide +kernel
  obtain ⟨c, compiles⟩ : ∃ c, compile [.transitive FilterTable.openKey, turnAround] true = .ok c :=
    ⟨_, compile_eq_ok.mpr ⟨fun rule mem => Rule.check_eq_ok.mp (wellFormed rule mem), rfl⟩⟩
  obtain ⟨filing, -, single, wildcard, isOpen, -⟩ :=
    filing_misses_no_filter_and_repeats_none compiles
  have active : (1, turnAround) ∈ c.active := by
    obtain ⟨-, rfl⟩ := compile_eq_ok.mp compiles
    decide +kernel
  have three : (c.table.candidates FilterTable.openKey).length = 3 := by
    obtain ⟨-, rfl⟩ := compile_eq_ok.mp compiles
    decide +kernel
  refine ⟨c, compiles, three, (filing ⟨0, FilterTable.openKey, 0⟩).2.2,
    single _ active 0 (by decide), wildcard.mpr (isOpen.mpr ⟨_, active, ?_⟩)⟩
  exact ⟨_, List.mem_cons_self, fun q => nofun⟩

end CompiledRules
end TripleInference
