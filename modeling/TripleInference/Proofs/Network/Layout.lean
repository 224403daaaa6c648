import TripleInference.Network.Builder
import TripleInference.Proofs.Ending
import TripleInference.Proofs.Matching.Valuation

/-!
The chain of nodes that a rule is compiled into, written down in one piece. Building a rule appends
its chain to the network, wired to the end, and files its filters; nodes built before stay as they
are.
-/
namespace TripleInference

namespace Network

def ofNodes (nodes : List Node) : Network := ⟨nodes.toArray⟩

/-- Where a chain takes the matches of the clauses so far, if the clauses to come are laid out
from `pos` on: in the left half of the next pair or in the terminal. -/
def onward : List Pattern → Nat → Nat
  | [], pos => pos
  | _ :: _, pos => pos + 1

def halves (id : RuleId) (keys : List Nat) (clause : Nat) (pos : Nat) (next : Option Nat) :
    List Node :=
  [.queue ⟨id, .left, keys, List.range clause, some (pos + 2), next⟩,
    .queue ⟨id, .right, keys, [clause], some (pos + 1), next⟩]

/-- The filter of a clause with others before it, at `pos`, and its pair. -/
def joint (id : RuleId) (numVars : Nat) (p : Pattern) (keys : List Nat) (clause : Nat)
    (pos : Nat) (next : Option Nat) : List Node :=
  .filter { ClauseFilter.ofPattern id clause p numVars with continuation := some (pos + 2) } ::
    halves id keys clause pos next

def chainTail (id : RuleId) (numVars : Nat) : List Pattern → Nat → List Nat → Nat → List Node
  | [], _, _, _ => [.terminal id]
  | p :: rest, clause, seen, pos =>
    joint id numVars p (p.distinctOrdinals.filter (· ∈ seen)) clause pos
        (some (onward rest (pos + 3))) ++
      chainTail id numVars rest (clause + 1) (seen ++ p.distinctOrdinals) (pos + 3)

def chain (id : RuleId) (r : Rule) (pos : Nat) : List Node :=
  match r.body with
  | [] => []
  | p :: rest =>
    .filter { ClauseFilter.ofPattern id 0 p r.numVars with
      continuation := some (onward rest (pos + 1)) } ::
    chainTail id r.numVars rest 1 p.distinctOrdinals (pos + 1)

/-- Where the matches of the clauses so far go, if the clauses to come are laid out from `pos` on:
to the left half of the next pair or out of the chain. -/
def passOn (rest : List Pattern) (pos : Nat) (exit : Option NodeId) : Option NodeId :=
  match rest with
  | [] => exit
  | _ :: _ => some (pos + 1)

def joints (id : RuleId) (numVars : Nat) :
    List Pattern → Nat → List Nat → Nat → Option NodeId → List Node
  | [], _, _, _, _ => []
  | p :: rest, clause, seen, pos, exit =>
    joint id numVars p (p.distinctOrdinals.filter (· ∈ seen)) clause pos
        (passOn rest (pos + 3) exit) ++
      joints id numVars rest (clause + 1) (seen ++ p.distinctOrdinals) (pos + 3) exit

def openChain (id : RuleId) (r : Rule) (pos : Nat) (exit : Option NodeId) : List Node :=
  match r.body with
  | [] => []
  | p :: rest =>
    .filter { ClauseFilter.ofPattern id 0 p r.numVars with
      continuation := passOn rest (pos + 1) exit } ::
    joints id r.numVars rest 1 p.distinctOrdinals (pos + 1) exit

def chainEnd : List Pattern → Nat → Nat → Nat
  | [], last, _ => last
  | _ :: rest, _, pos => chainEnd rest (pos + 1) (pos + 3)

theorem chainEnd_cons (p : Pattern) (rest : List Pattern) (last pos : Nat) :
    chainEnd (p :: rest) last pos = pos + 3 * rest.length + 1 := by
  induction rest generalizing p last pos with
  | nil => rfl
  | cons q rest ih =>
    rw [chainEnd, ih, List.length_cons]
    omega

theorem passOn_exit (rest : List Pattern) (pos : Nat) :
    passOn rest pos (some (pos + 3 * rest.length)) = some (onward rest pos) := by
  cases rest <;> rfl

theorem chainTail_eq (id : RuleId) (numVars : Nat) (rest : List Pattern) (clause : Nat)
    (seen : List Nat) (pos : Nat) :
    chainTail id numVars rest clause seen pos =
      joints id numVars rest clause seen pos (some (pos + 3 * rest.length)) ++ [.terminal id] := by
  induction rest generalizing clause seen pos with
  | nil => rfl
  | cons p rest ih =>
    have exit : pos + 3 * (p :: rest).length = pos + 3 + 3 * rest.length := by
      rw [List.length_cons]
      omega
    rw [chainTail, ih, joints, exit, passOn_exit, List.append_assoc]

theorem chain_eq (id : RuleId) {r : Rule} {p : Pattern} {rest : List Pattern}
    (body : r.body = p :: rest) (pos : Nat) :
    chain id r pos = openChain id r pos (some (pos + 1 + 3 * rest.length)) ++ [.terminal id] := by
  simp only [chain, openChain, body, chainTail_eq, passOn_exit, List.cons_append]

theorem length_joints (id : RuleId) (numVars : Nat) (rest : List Pattern) (clause : Nat)
    (seen : List Nat) (pos : Nat) (exit : Option NodeId) :
    (joints id numVars rest clause seen pos exit).length = 3 * rest.length := by
  induction rest generalizing clause seen pos with
  | nil => rfl
  | cons p rest ih =>
    simp only [joints, joint, halves, List.length_append, List.length_cons, List.length_nil, ih]
    omega

theorem length_chainTail (id : RuleId) (numVars : Nat) (rest : List Pattern) (clause : Nat)
    (seen : List Nat) (pos : Nat) :
    (chainTail id numVars rest clause seen pos).length = 3 * rest.length + 1 := by
  rw [chainTail_eq, List.length_append, length_joints, List.length_singleton]

theorem node_behind (before behind : List Node) (k : Nat) {node : Node}
    (here : behind[k]? = some node) :
    (ofNodes (before ++ behind)).node (before.length + k) = .ok node := by
  have found : (before ++ behind)[before.length + k]? = some node := by
    rw [List.getElem?_append_right (Nat.le_add_right _ _), Nat.add_sub_cancel_left, here]
  simp [Network.node, ofNodes, found]

theorem set_behind (before behind : List Node) (k : Nat) (node : Node) :
    (ofNodes (before ++ behind)).set (before.length + k) node =
      ofNodes (before ++ behind.set k node) := by
  simp only [set, ofNodes, List.setIfInBounds_toArray]
  rw [List.set_append_right _ _ (Nat.le_add_right _ _), Nat.add_sub_cancel_left]

theorem outcome_updateQueue_behind (before behind : List Node) (k : Nat) {q : JoinQueue}
    (change : JoinQueue → JoinQueue) (here : behind[k]? = some (.queue q)) :
    (updateQueue change (before.length + k)).outcome (ofNodes (before ++ behind)) =
      (.ok (), ofNodes (before ++ behind.set k (.queue (change q)))) := by
  simp only [updateQueue, Step.outcome, queue, node_behind before behind k here, set_behind]

theorem outcome_connect_filter (before behind : List Node) (k : Nat) {f : ClauseFilter}
    (target : Nat) (here : behind[k]? = some (.filter f)) :
    (connect (before.length + k) target).outcome (ofNodes (before ++ behind)) =
      (.ok (), ofNodes (before ++
        behind.set k (.filter { f with continuation := some target }))) := by
  simp only [connect, Step.outcome, node_behind before behind k here, set_behind]

theorem outcome_connect_queue (before behind : List Node) (k j : Nat) {q s : JoinQueue}
    (target : Nat) (here : behind[k]? = some (.queue q))
    (paired : q.sibling = some (before.length + j)) (there : behind[j]? = some (.queue s))
    (apart : k ≠ j) :
    (connect (before.length + k) target).outcome (ofNodes (before ++ behind)) =
      (.ok (), ofNodes (before ++ (behind.set k (.queue { q with continuation := some target })).set
        j (.queue { s with continuation := some target }))) := by
  simp only [connect, Step.outcome, node_behind before behind k here, set_behind, paired]
  exact outcome_updateQueue_behind before _ j _ (by rw [List.getElem?_set_ne apart, there])

/-- A chain that ends at `last` and sends its matches nowhere yet: connecting it to a target, also
after more nodes have been added, makes that its exit. -/
structure OpenEnd (last : Nat) (wired : Option NodeId → List Node) : Prop where
  length : ∀ exit, (wired exit).length = (wired none).length
  connect : ∀ target more, (Network.connect last target).outcome (ofNodes (wired none ++ more)) =
    (.ok (), ofNodes (wired (some target) ++ more))

theorem openEnd_filter (before : List Node) (id : RuleId) (clause : Nat) (p : Pattern)
    (numVars : Nat) :
    OpenEnd before.length fun exit => before ++
      [.filter { ClauseFilter.ofPattern id clause p numVars with continuation := exit }] where
  length exit := by simp
  connect target more := by
    have run := outcome_connect_filter before
      (.filter (.ofPattern id clause p numVars) :: more) 0 target rfl
    simp only [List.append_assoc, List.singleton_append]
    exact run

theorem openEnd_joint (before : List Node) (id : RuleId) (numVars : Nat) (p : Pattern)
    (keys : List Nat) (clause : Nat) :
    OpenEnd (before.length + 1)
      fun exit => before ++ joint id numVars p keys clause before.length exit where
  length exit := by simp [joint, halves]
  connect target more := by
    have run := outcome_connect_queue before
      (joint id numVars p keys clause before.length none ++ more) 1 2 target rfl rfl rfl (by simp)
    simpa [joint, halves] using run

def continued (wired : Option NodeId → List Node) (id : RuleId) (numVars : Nat)
    (rest : List Pattern) (clause : Nat) (seen : List Nat) (exit : Option NodeId) : List Node :=
  wired (passOn rest (wired none).length exit) ++
    joints id numVars rest clause seen (wired none).length exit

theorem outcome_pair_halves (before : List Node) (first : Node) (id : RuleId) (keys : List Nat)
    (clause : Nat) :
    (pair (before.length + 1) (before.length + 2)).outcome (ofNodes (before ++
        [first, .queue (.unwired id .left keys (List.range clause)),
          .queue (.unwired id .right keys [clause])])) =
      (.ok (), ofNodes (before ++ first :: halves id keys clause before.length none)) := by
  have left := outcome_updateQueue_behind before
    [first, .queue (.unwired id .left keys (List.range clause)),
      .queue (.unwired id .right keys [clause])] 1
    (fun q => { q with sibling := some (before.length + 2) }) rfl
  have right := outcome_updateQueue_behind before
    [first, .queue ⟨id, .left, keys, List.range clause, some (before.length + 2), none⟩,
      .queue (.unwired id .right keys [clause])] 2
    (fun q => { q with sibling := some (before.length + 1) }) rfl
  rw [pair, Step.outcome_bind, left]
  exact right

theorem outcome_connect_joint (before : List Node) (id : RuleId) (numVars : Nat) (p : Pattern)
    (keys : List Nat) (clause : Nat) :
    (connect before.length (before.length + 2)).outcome (ofNodes (before ++
        .filter (.ofPattern id clause p numVars) :: halves id keys clause before.length none)) =
      (.ok (), ofNodes (before ++ joint id numVars p keys clause before.length none)) :=
  outcome_connect_filter before
    (.filter (.ofPattern id clause p numVars) :: halves id keys clause before.length none) 0
    (before.length + 2) rfl

end Network

namespace NetworkBuilder

open Network (ofNodes halves joint chain openChain chainEnd continued OpenEnd)

def fileTail (b : NetworkBuilder) : List Pattern → Nat → NetworkBuilder
  | [], _ => b
  | p :: rest, pos => (b.fileClause p pos).fileTail rest (pos + 3)

def fileRule (b : NetworkBuilder) (r : Rule) (pos : Nat) : NetworkBuilder :=
  match r.body with
  | [] => b
  | p :: rest => (b.fileClause p pos).fileTail rest (pos + 1)

def withNodes (b : NetworkBuilder) (nodes : List Node) : NetworkBuilder :=
  { b with network := ofNodes nodes }

theorem withNodes_toList (b : NetworkBuilder) : b.withNodes b.network.nodes.toList = b := rfl

theorem withNodes_fileClause (b : NetworkBuilder) (nodes : List Node) (p : Pattern) (pos : Nat) :
    (b.withNodes nodes).fileClause p pos = (b.fileClause p pos).withNodes nodes := by
  unfold fileClause
  cases p.predicate <;> rfl

theorem outcome_push (b : NetworkBuilder) (nodes : List Node) (node : Node) :
    (push node).outcome (b.withNodes nodes) =
      (.ok nodes.length, b.withNodes (nodes ++ [node])) := by
  have pushed : nodes.toArray.push node = (nodes ++ [node]).toArray := by simp
  have size : nodes.toArray.size = nodes.length := by simp
  simp only [push, Step.outcome, withNodes, Network.push, ofNodes, pushed, size]

theorem outcome_wire {m : Step WiringFault Network Unit} {nodes wired : List Node}
    (b : NetworkBuilder) (run : m.outcome (ofNodes nodes) = (.ok (), ofNodes wired)) :
    (wire m).outcome (b.withNodes nodes) = (.ok (), b.withNodes wired) := by
  have part : (b.withNodes nodes).network = ofNodes nodes := rfl
  rw [wire, Step.outcome_within, part, run]
  rfl

theorem outcome_join (b : NetworkBuilder) {last : Nat} {wired : Option NodeId → List Node}
    (isOpen : OpenEnd last wired) (id : RuleId) (numVars : Nat) (p : Pattern) (keys : List Nat)
    (clause : Nat) :
    (join id clause keys last (wired none).length).outcome
        (b.withNodes (wired none ++ [.filter (.ofPattern id clause p numVars)])) =
      (.ok ((wired none).length + 1), b.withNodes (wired (some ((wired none).length + 1)) ++
        joint id numVars p keys clause (wired none).length none)) := by
  generalize place : wired none = nodes
  have pushLeft := outcome_push b (nodes ++ [.filter (.ofPattern id clause p numVars)])
    (.queue (.unwired id .left keys (List.range clause)))
  have pushRight := outcome_push b (nodes ++ [.filter (.ofPattern id clause p numVars),
    .queue (.unwired id .left keys (List.range clause))])
    (.queue (.unwired id .right keys [clause]))
  simp only [List.length_append, List.length_cons, List.length_nil, List.append_assoc,
    List.cons_append, List.nil_append, Nat.zero_add, Nat.reduceAdd] at pushLeft pushRight
  have paired := outcome_wire b (Network.outcome_pair_halves nodes
    (.filter (.ofPattern id clause p numVars)) id keys clause)
  have fed := outcome_wire b (Network.outcome_connect_joint nodes id numVars p keys clause)
  have continued := outcome_wire b (isOpen.connect (nodes.length + 1)
    (joint id numVars p keys clause nodes.length none))
  rw [place] at continued
  simp only [join, Step.outcome_bind, pushLeft, pushRight, paired, fed, continued,
    Step.outcome_pure]

def close (id : RuleId) : Option Nat → Step Failure NetworkBuilder (Option Nat)
  | none => return none
  | some last => do
    let terminal ← push (.terminal id)
    wire (Network.connect last terminal)
    return some terminal

theorem buildRule_eq (id : RuleId) (r : Rule) : buildRule id r = buildChain id r >>= close id := by
  unfold buildRule
  congr 1

theorem outcome_buildClauses (id : RuleId) (numVars : Nat) (rest : List Pattern) (clause : Nat)
    (seen : List Nat) (b : NetworkBuilder) {last : Nat} {wired : Option NodeId → List Node}
    (isOpen : OpenEnd last wired) :
    (buildClauses id numVars rest clause seen (some last)).outcome (b.withNodes (wired none)) =
      (.ok (some (chainEnd rest last (wired none).length)),
        (b.fileTail rest (wired none).length).withNodes
          (continued wired id numVars rest clause seen none)) ∧
      OpenEnd (chainEnd rest last (wired none).length)
        (continued wired id numVars rest clause seen) := by
  induction rest generalizing clause seen b last wired with
  | nil =>
    have same : continued wired id numVars [] clause seen = wired :=
      funext fun exit => List.append_nil _
    rw [same]
    exact ⟨rfl, isOpen⟩
  | cons p rest ih =>
    let pos := (wired none).length
    let keys := p.distinctOrdinals.filter (· ∈ seen)
    -- the end stays open: the next join takes it as its left input and leaves an end of its own
    let joined := fun exit => wired (some (pos + 1)) ++ joint id numVars p keys clause pos exit
    have isOpen' : OpenEnd (pos + 1) joined := by
      have ends := Network.openEnd_joint (wired (some (pos + 1))) id numVars p keys clause
      rwa [isOpen.length] at ends
    have length : (joined none).length = pos + 3 := by
      simp [joined, pos, joint, halves, isOpen.length]
    have same : continued joined id numVars rest (clause + 1) (seen ++ p.distinctOrdinals) =
        continued wired id numVars (p :: rest) clause seen := by
      funext exit
      rw [continued, length]
      exact List.append_assoc _ _ _
    have later := ih (clause + 1) (seen ++ p.distinctOrdinals) (b.fileClause p pos) isOpen'
    rw [same, length] at later
    have joinedNow := outcome_join (b.fileClause p pos) isOpen id numVars p keys clause
    refine ⟨?_, later.2⟩
    rw [buildClauses, Step.outcome_bind, outcome_push]
    simp only []
    rw [Step.outcome_bind, Step.outcome_modify, withNodes_fileClause]
    simp only []
    rw [Step.outcome_bind, joinedNow]
    exact later.1

theorem outcome_ofCheck {r : Rule} (wf : r.WellFormed) (b : NetworkBuilder) :
    (Step.ofExcept Failure.rule r.check : Step Failure NetworkBuilder Unit).outcome b =
      (.ok (), b) := by
  rw [Rule.check_eq_ok.mpr wf]
  rfl

theorem outcome_buildChain_of_nil (id : RuleId) {r : Rule} (wf : r.WellFormed)
    (body : r.body = []) (b : NetworkBuilder) : (buildChain id r).outcome b = (.ok none, b) := by
  rw [buildChain, Step.outcome_bind, outcome_ofCheck wf, body]
  rfl

theorem outcome_buildChain (id : RuleId) {r : Rule} (wf : r.WellFormed) {p : Pattern}
    {rest : List Pattern} (body : r.body = p :: rest) (b : NetworkBuilder) :
    (buildChain id r).outcome b =
      (.ok (some (chainEnd rest b.network.size (b.network.size + 1))),
        (b.fileRule r b.network.size).withNodes
          (b.network.nodes.toList ++ openChain id r b.network.size none)) ∧
      OpenEnd (chainEnd rest b.network.size (b.network.size + 1))
        fun exit => b.network.nodes.toList ++ openChain id r b.network.size exit := by
  have size : b.network.size = b.network.nodes.toList.length := by simp [Network.size]
  have isOpen := Network.openEnd_filter b.network.nodes.toList id 0 p r.numVars
  have built := outcome_buildClauses id r.numVars rest 1 p.distinctOrdinals
    (b.fileClause p b.network.size) isOpen
  have same : continued (fun exit => b.network.nodes.toList ++
        [.filter { ClauseFilter.ofPattern id 0 p r.numVars with continuation := exit }])
        id r.numVars rest 1 p.distinctOrdinals =
      fun exit => b.network.nodes.toList ++ openChain id r b.network.size exit := by
    funext exit
    simp [continued, openChain, body, size]
  rw [same, List.length_append, List.length_singleton, ← size] at built
  refine ⟨?_, built.2⟩
  have pushed := outcome_push b b.network.nodes.toList (.filter (.ofPattern id 0 p r.numVars))
  rw [withNodes_toList, ← size] at pushed
  rw [buildChain, Step.outcome_bind, outcome_ofCheck wf, body]
  simp only [buildClauses, pure_bind, List.nil_append]
  rw [Step.outcome_bind, pushed]
  simp only []
  rw [Step.outcome_bind, Step.outcome_modify, withNodes_fileClause]
  simp only [Nat.zero_add]
  rw [fileRule, body]
  exact built.1

theorem outcome_close (id : RuleId) {last : Nat} {wired : Option NodeId → List Node}
    (isOpen : OpenEnd last wired) (b : NetworkBuilder) :
    (close id (some last)).outcome (b.withNodes (wired none)) =
      (.ok (some (wired none).length),
        b.withNodes (wired (some (wired none).length) ++ [.terminal id])) := by
  have connected := outcome_wire b (isOpen.connect (wired none).length [.terminal id])
  simp only [close, Step.outcome_bind, outcome_push, connected, Step.outcome_pure]

theorem outcome_buildRule_of_nil (id : RuleId) {r : Rule} (wf : r.WellFormed)
    (body : r.body = []) (b : NetworkBuilder) : (buildRule id r).outcome b = (.ok none, b) := by
  rw [buildRule_eq, Step.outcome_bind, outcome_buildChain_of_nil id wf body]
  rfl

theorem outcome_buildRule_of_body (id : RuleId) {r : Rule} (wf : r.WellFormed) {p : Pattern}
    {rest : List Pattern} (body : r.body = p :: rest) (b : NetworkBuilder) :
    (buildRule id r).outcome b =
      (.ok (some (b.network.size + 1 + 3 * rest.length)),
        (b.fileRule r b.network.size).withNodes
          (b.network.nodes.toList ++ chain id r b.network.size)) := by
  obtain ⟨built, isOpen⟩ := outcome_buildChain id wf body b
  have length : (b.network.nodes.toList ++ openChain id r b.network.size none).length =
      b.network.size + 1 + 3 * rest.length := by
    simp [openChain, body, Network.length_joints, Network.size]
    omega
  have closed := outcome_close id isOpen (b.fileRule r b.network.size)
  rw [length, List.append_assoc, ← Network.chain_eq id body] at closed
  rw [buildRule_eq, Step.outcome_bind, built]
  exact closed

theorem outcome_buildRule (id : RuleId) {r : Rule} (wf : r.WellFormed) (b : NetworkBuilder) :
    ∃ terminal, (buildRule id r).outcome b = (.ok terminal,
      (b.fileRule r b.network.size).withNodes
        (b.network.nodes.toList ++ chain id r b.network.size)) := by
  cases body : r.body with
  | nil =>
    have same : (b.fileRule r b.network.size).withNodes
        (b.network.nodes.toList ++ chain id r b.network.size) = b := by
      simp only [fileRule, chain, body, List.append_nil]
      rfl
    exact ⟨none, by rw [outcome_buildRule_of_nil id wf body, same]⟩
  | cons p rest => exact ⟨_, outcome_buildRule_of_body id wf body b⟩

theorem outcome_buildChain_of_fault (id : RuleId) {r : Rule} {fault : RuleFault}
    (checked : r.check = .error fault) (b : NetworkBuilder) :
    (buildChain id r).outcome b = (.error (.rule fault), b) := by
  have failed : (Step.ofExcept Failure.rule r.check : Step Failure NetworkBuilder Unit).outcome b =
      (.error (.rule fault), b) := by
    rw [checked]
    rfl
  rw [buildChain, Step.outcome_bind, failed]

theorem outcome_buildRule_of_fault (id : RuleId) {r : Rule} {fault : RuleFault}
    (checked : r.check = .error fault) (b : NetworkBuilder) :
    (buildRule id r).outcome b = (.error (.rule fault), b) := by
  rw [buildRule_eq, Step.outcome_bind, outcome_buildChain_of_fault id checked]

end NetworkBuilder
end TripleInference
