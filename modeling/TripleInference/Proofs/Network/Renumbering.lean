import Mathlib.Data.List.Nodup
import TripleInference.Proofs.Lockstep
import TripleInference.Proofs.Network.Compiling

/-!
Leaving the ignored rules out of a list beforehand. The rules that stay get new numbers, and they
compile into the same nodes at the same places, with the new numbers in them.
-/
namespace TripleInference

def Rule.asForward (r : Rule) : Rule := { r with direction := .forward }

def forwardRules (ignoreBackward : Bool) (rules : List Rule) : List Rule :=
  (rules.filter fun r => !(ignoreBackward && r.isBackward)).map .asForward

/-- How many of the rules before this one are not ignored. -/
def rank (ignoreBackward : Bool) (rules : List Rule) (id : RuleId) : RuleId :=
  (rules.take id).countP fun r => !(ignoreBackward && r.isBackward)

theorem map_asForward {rules : List Rule} (forward : ∀ r ∈ rules, r.isBackward = false) :
    rules.map .asForward = rules := by
  refine (List.map_congr_left fun r mem => ?_).trans (List.map_id rules)
  obtain ⟨name, body, head, numVars, direction⟩ := r
  cases direction with
  | forward => rfl
  | backward => cases forward _ mem

theorem forwardRules_true (rules : List Rule) :
    forwardRules true rules = rules.filter (!·.isBackward) := by
  simp only [forwardRules, Bool.true_and]
  exact map_asForward fun r mem => by simpa using (List.mem_filter.mp mem).2

theorem forwardRules_false (rules : List Rule) :
    forwardRules false rules = rules.map .asForward := by
  simp [forwardRules]

theorem rank_false {rules : List Rule} {id : RuleId} (inside : id ≤ rules.length) :
    rank false rules id = id := by
  simp [rank, inside]

theorem zipIdx_filter {α : Type} (p : α → Bool) (before l : List α) :
    (l.filter p).zipIdx (before.countP p) = ((l.zipIdx before.length).filter (p ·.1)).map
      fun (a, i) => (a, ((before ++ l).take i).countP p) := by
  induction l generalizing before with
  | nil => rfl
  | cons a l ih =>
    have ih := ih (before ++ [a])
    rw [List.countP_append, List.length_append, List.append_assoc, List.singleton_append,
      List.length_singleton] at ih
    rw [List.zipIdx_cons, List.filter_cons, List.filter_cons]
    cases through : p a with
    | false => simpa [through] using ih
    | true => simpa [through] using ih

theorem numbered_forwardRules (ignoreBackward ignoreBackward' : Bool) (rules : List Rule) :
    NetworkBuilder.numbered ignoreBackward' (forwardRules ignoreBackward rules) 0 =
      (NetworkBuilder.numbered ignoreBackward rules 0).map
        fun rule => (rank ignoreBackward rules rule.1, rule.2.asForward) := by
  have forward : ∀ rule ∈ (forwardRules ignoreBackward rules).zipIdx 0,
      (!(ignoreBackward' && rule.1.isBackward)) = true := by
    rintro ⟨r, id⟩ mem
    have listed : r ∈ forwardRules ignoreBackward rules := List.fst_mem_of_mem_zipIdx mem
    obtain ⟨r', -, rfl⟩ := List.mem_map.mp listed
    simp [Rule.asForward, Rule.isBackward]
  have places := zipIdx_filter (fun r : Rule => !(ignoreBackward && r.isBackward)) [] rules
  rw [NetworkBuilder.numbered, List.filter_eq_self.mpr forward, forwardRules, List.zipIdx_map]
  simp only [List.countP_nil, List.length_nil, List.nil_append] at places
  rw [places]
  simp [NetworkBuilder.numbered, rank, Function.comp_def]

def Stays (rules : List Rule) (ignoreBackward : Bool) (id : RuleId) : Prop :=
  ∃ r, (id, r) ∈ NetworkBuilder.numbered ignoreBackward rules 0

theorem nodup_numbered (ignoreBackward : Bool) (rules : List Rule) :
    ((NetworkBuilder.numbered ignoreBackward rules 0).map (·.1)).Nodup := by
  have sublist : ((NetworkBuilder.numbered ignoreBackward rules 0).map (·.1)).Sublist
      (rules.zipIdx.map (·.2)) := by
    rw [NetworkBuilder.numbered, List.map_map]
    exact List.filter_sublist.map _
  refine sublist.nodup ?_
  rw [List.zipIdx_map_snd]
  exact List.nodup_range'

theorem rank_injective {rules : List Rule} {ignoreBackward : Bool} {id other : RuleId}
    (stays : Stays rules ignoreBackward id) (stays' : Stays rules ignoreBackward other)
    (same : rank ignoreBackward rules id = rank ignoreBackward rules other) : id = other := by
  obtain ⟨r, mem⟩ := stays
  obtain ⟨r', mem'⟩ := stays'
  have nodup := nodup_numbered ignoreBackward (forwardRules ignoreBackward rules)
  rw [numbered_forwardRules, List.map_map] at nodup
  exact congrArg Prod.fst (List.inj_on_of_nodup_map nodup mem mem' same)

def ClauseFilter.renumber (f : RuleId → RuleId) (c : ClauseFilter) : ClauseFilter :=
  { c with rule := f c.rule }

def JoinQueue.renumber (f : RuleId → RuleId) (q : JoinQueue) : JoinQueue :=
  { q with rule := f q.rule }

def Node.rule : Node → RuleId
  | .filter c => c.rule
  | .queue q => q.rule
  | .terminal rule => rule

def Node.renumber (f : RuleId → RuleId) : Node → Node
  | .filter c => .filter (c.renumber f)
  | .queue q => .queue (q.renumber f)
  | .terminal rule => .terminal (f rule)

namespace Network

def renumber (f : RuleId → RuleId) (n : Network) : Network := ⟨n.nodes.map (Node.renumber f)⟩

variable (f : RuleId → RuleId) (n : Network)

@[simp] theorem size_renumber : (n.renumber f).size = n.size := by
  simp [renumber, size]

theorem renumber_id : n.renumber id = n := by
  have same : Node.renumber id = id := by
    funext node
    cases node <;> rfl
  rw [renumber, same, Array.map_id]

theorem node_renumber (id : NodeId) : (n.renumber f).node id = (n.node id).map (.renumber f) := by
  simp only [node, renumber, Array.getElem?_map]
  cases n.nodes[id]? <;> rfl

theorem filter_renumber (id : NodeId) :
    (n.renumber f).filter id = (n.filter id).map (.renumber f) := by
  simp only [filter, node_renumber]
  rcases n.node id with _ | _ | _ | _ <;> rfl

theorem queue_renumber (id : NodeId) :
    (n.renumber f).queue id = (n.queue id).map (.renumber f) := by
  simp only [queue, node_renumber]
  rcases n.node id with _ | _ | _ | _ <;> rfl

theorem sibling_renumber (id : NodeId) :
    (n.renumber f).sibling id = (n.sibling id).map (.renumber f) := by
  simp only [sibling, queue_renumber]
  cases n.queue id with
  | error fault => rfl
  | ok q =>
    cases paired : q.sibling with
    | none => simp [Except.map, JoinQueue.renumber, paired]
    | some other =>
      simp only [Except.map, JoinQueue.renumber, paired, node_renumber]
      rcases n.node other with _ | _ | s | _
      case ok.queue =>
        simp only [Node.renumber, JoinQueue.renumber]
        split <;> rfl
      all_goals rfl

theorem Seat.rule {n : Network} {id : RuleId} {r : Rule} {pos : Nat} {node : Node}
    (seat : n.Seat id r pos) (here : n.nodes[pos]? = some node) : node.rule = id := by
  cases seat with
  | first _ first _ =>
    obtain rfl := Option.some.inj (first.symm.trans here)
    rfl
  | terminal laid =>
    obtain rfl := Option.some.inj (laid.terminal.symm.trans here)
    rfl
  | @joint k j pos inside laid place =>
    obtain ⟨p, keys, -, -, holds, -⟩ := laid.joint inside
    match j, place with
    | 0, _ =>
      obtain rfl := Option.some.inj ((holds 0 _ rfl).symm.trans here)
      rfl
    | 1, _ =>
      obtain rfl := Option.some.inj ((holds 1 _ rfl).symm.trans here)
      rfl
    | 2, _ =>
      obtain rfl := Option.some.inj ((holds 2 _ rfl).symm.trans here)
      rfl

theorem chainTail_renumber (id : RuleId) (numVars : Nat) (rest : List Pattern) (clause : Nat)
    (seen : List Nat) (pos : Nat) :
    (chainTail id numVars rest clause seen pos).map (.renumber f) =
      chainTail (f id) numVars rest clause seen pos := by
  induction rest generalizing clause seen pos with
  | nil => rfl
  | cons p rest ih =>
    rw [chainTail, List.map_append, ih]
    rfl

theorem chain_renumber (id : RuleId) (r : Rule) (pos : Nat) :
    (chain id r pos).map (.renumber f) = chain (f id) r.asForward pos := by
  unfold chain Rule.asForward
  cases r.body with
  | nil => rfl
  | cons p rest =>
    rw [List.map_cons, chainTail_renumber]
    rfl

end Network

namespace NetworkBuilder

def renumber (f : RuleId → RuleId) (b : NetworkBuilder) : NetworkBuilder :=
  { b with network := b.network.renumber f }

variable (f : RuleId → RuleId)

theorem renumber_empty : (∅ : NetworkBuilder).renumber f = ∅ := by
  have network : (∅ : Network).renumber f = ∅ := congrArg Network.mk Array.map_empty
  change { (∅ : NetworkBuilder) with network := (∅ : Network).renumber f } = (∅ : NetworkBuilder)
  rw [network]
  rfl

theorem renumber_fileClause (b : NetworkBuilder) (p : Pattern) (pos : Nat) :
    (b.fileClause p pos).renumber f = (b.renumber f).fileClause p pos := by
  unfold fileClause
  cases p.predicate <;> rfl

theorem renumber_fileTail (b : NetworkBuilder) (rest : List Pattern) (pos : Nat) :
    (b.fileTail rest pos).renumber f = (b.renumber f).fileTail rest pos := by
  induction rest generalizing b pos with
  | nil => rfl
  | cons p rest ih => rw [fileTail, ih, renumber_fileClause, fileTail]

theorem renumber_fileRule (b : NetworkBuilder) (r : Rule) (pos : Nat) :
    (b.fileRule r pos).renumber f = (b.renumber f).fileRule r.asForward pos := by
  unfold fileRule Rule.asForward
  cases r.body with
  | nil => rfl
  | cons p rest => exact (renumber_fileTail f _ rest _).trans (by rw [renumber_fileClause])

theorem renumber_place (b : NetworkBuilder) (rule : RuleId × Rule) :
    (b.place rule).renumber f = (b.renumber f).place (f rule.1, rule.2.asForward) := by
  have nodes : (Network.ofNodes (b.network.nodes.toList ++
        Network.chain rule.1 rule.2 b.network.size)).renumber f =
      Network.ofNodes ((b.renumber f).network.nodes.toList ++
        Network.chain (f rule.1) rule.2.asForward (b.renumber f).network.size) := by
    simp only [renumber, Network.size_renumber, ← Network.chain_renumber]
    simp [Network.renumber, Network.ofNodes]
  have filed := renumber_fileRule f b rule.2 b.network.size
  have size : (b.renumber f).network.size = b.network.size := Network.size_renumber f b.network
  rw [place, place, size, ← filed, renumber, withNodes, withNodes, nodes, size]
  rfl

theorem buildRule_lockstep (id : RuleId) (r : Rule) :
    Step.Lockstep (fun b b' => b' = b.renumber f) Eq
      (discard (buildRule id r) : Step Failure NetworkBuilder PUnit)
      (discard (buildRule (f id) r.asForward)) := by
  rintro b _ rfl
  have same : r.asForward.check = r.check := rfl
  rw [outcome_discard_buildRule, outcome_discard_buildRule, same]
  cases r.check with
  | ok _ => exact .ends rfl (renumber_place f b (id, r)).symm
  | error fault => exact .fails rfl

theorem buildRules_lockstep (ignoreBackward ignoreBackward' : Bool) (rules : List Rule) :
    Step.Lockstep (fun b b' => b' = b.renumber (rank ignoreBackward rules)) Eq
      (buildRules ignoreBackward rules 0)
      (buildRules ignoreBackward' (forwardRules ignoreBackward rules) 0) := by
  rw [buildRules_eq, buildRules_eq, numbered_forwardRules]
  exact Step.lockstep_forM_map fun rule _ => buildRule_lockstep _ rule.1 rule.2

end NetworkBuilder

namespace CompiledRules

/-- The first rules are compiled from a list, the second ones from what stays of it. They are the
same but for their numbers and the notation they had. -/
structure Twins (rules : List Rule) (ignoreBackward : Bool) (c c' : CompiledRules) : Prop where
  compiles : compile rules ignoreBackward = .ok c
  network : c'.network = c.network.renumber (rank ignoreBackward rules)
  table : c'.table = c.table
  predicatesUsed : c'.predicatesUsed = c.predicatesUsed
  openPredicate : c'.openPredicate = c.openPredicate
  active : c.active = NetworkBuilder.numbered ignoreBackward rules 0
  active' : c'.active = c.active.map
    fun rule => (rank ignoreBackward rules rule.1, rule.2.asForward)

theorem compile_forwardRules (ignoreBackward ignoreBackward' : Bool) (rules : List Rule) :
    (∃ c c', compile rules ignoreBackward = .ok c ∧
      compile (forwardRules ignoreBackward rules) ignoreBackward' = .ok c' ∧
      Twins rules ignoreBackward c c') ∨
    ∃ failure, compile rules ignoreBackward = .error failure ∧
      compile (forwardRules ignoreBackward rules) ignoreBackward' = .error failure := by
  have together := NetworkBuilder.buildRules_lockstep ignoreBackward ignoreBackward' rules ∅ ∅
    (NetworkBuilder.renumber_empty _).symm
  unfold compile
  generalize run : (NetworkBuilder.buildRules ignoreBackward rules 0).outcome ∅ = x at together ⊢
  generalize (NetworkBuilder.buildRules ignoreBackward'
    (forwardRules ignoreBackward rules) 0).outcome ∅ = y at together ⊢
  cases together with
  | fails _ => exact Or.inr ⟨_, rfl, rfl⟩
  | @ends _ _ b _ _ related =>
    subst related
    refine Or.inl ⟨_, _, rfl, rfl, ?_, rfl, rfl, rfl, rfl, rfl, ?_⟩
    · unfold compile
      rw [run]
    · exact numbered_forwardRules ignoreBackward ignoreBackward' rules

theorem Compiled.active_of_node {c : CompiledRules} (compiled : c.Compiled) {pos : NodeId}
    {node : Node} (here : c.network.node pos = .ok node) : ∃ r, (node.rule, r) ∈ c.active := by
  have inside := Network.node_eq_ok.mp here
  obtain ⟨⟨id, r⟩, mem, seat⟩ := compiled.seat pos (Array.getElem?_eq_some_iff.mp inside).1
  rw [seat.rule inside]
  exact ⟨r, mem⟩

section
variable {rules : List Rule} {ignoreBackward : Bool} {c c' : CompiledRules}

theorem Twins.rule? (twins : Twins rules ignoreBackward c c') {id : RuleId}
    (stays : Stays rules ignoreBackward id) :
    ∃ r, c.rule? id = some r ∧ c'.rule? (rank ignoreBackward rules id) = some r.asForward := by
  obtain ⟨r, mem⟩ := stays
  rw [← twins.active] at mem
  have mem' : (rank ignoreBackward rules id, r.asForward) ∈ c'.active := by
    rw [twins.active']
    exact List.mem_map_of_mem mem
  exact ⟨r, rule?_of_mem_active mem, rule?_of_mem_active mem'⟩

theorem Twins.stays_of_node (twins : Twins rules ignoreBackward c c') {pos : NodeId} {node : Node}
    (here : c.network.node pos = .ok node) : Stays rules ignoreBackward node.rule := by
  obtain ⟨r, mem⟩ := (compiled_of_compile twins.compiles).active_of_node here
  exact ⟨r, twins.active ▸ mem⟩

end

end CompiledRules
end TripleInference
