import Mathlib.Logic.Function.Basic
import TripleInference.Proofs.Network.Compiled

/-!
What a single call does to the links of a network, whether it ends or fails. Both calls that wire
nodes write to one of them before they look the other one up. When the other one turns out to be no
queue, the first has been written to already, and that is all that a failed call leaves behind.
-/
namespace TripleInference
namespace Network

def linkAt (n : Network) (link : Node → Option NodeId) (pos : NodeId) : Option NodeId :=
  n.nodes[pos]?.bind link

/-- The other half of the queue at `pos`, as this queue has it. -/
def siblingAt (n : Network) : NodeId → Option NodeId := n.linkAt Node.sibling

def continuationAt (n : Network) : NodeId → Option NodeId := n.linkAt Node.continuation

def hasQueue (n : Network) (pos : NodeId) : Bool := (n.queue pos).isOk

variable {n m : Network} {pos other target : NodeId} {q : JoinQueue} {fault : WiringFault}

theorem queue_eq_ok_iff : n.queue pos = .ok q ↔ n.nodes[pos]? = some (.queue q) := by
  refine ⟨fun found => ?_, queue_eq_ok⟩
  unfold queue Network.node at found
  cases here : n.nodes[pos]? with
  | none => simp [here] at found
  | some node => cases node <;> simp_all

theorem hasQueue_iff : n.hasQueue pos = true ↔ ∃ q, n.queue pos = .ok q := by
  unfold hasQueue
  cases n.queue pos <;> simp [Except.isOk, Except.toBool]

theorem hasQueue_eq_false_iff : n.hasQueue pos = false ↔ ∃ fault, n.queue pos = .error fault := by
  unfold hasQueue
  cases n.queue pos <;> simp [Except.isOk, Except.toBool]

theorem siblingAt_of_queue (here : n.queue pos = .ok q) : n.siblingAt pos = q.sibling := by
  simp [siblingAt, linkAt, queue_eq_ok_iff.mp here, Node.sibling]

theorem continuationAt_of_queue (here : n.queue pos = .ok q) :
    n.continuationAt pos = q.continuation := by
  simp [continuationAt, linkAt, queue_eq_ok_iff.mp here, Node.continuation]

theorem siblingAt_eq_none (fails : n.queue pos = .error fault) : n.siblingAt pos = none := by
  rcases linked : n.siblingAt pos with - | other
  · rfl
  · obtain ⟨node, here, sibling⟩ := Option.bind_eq_some_iff.mp linked
    cases node with
    | filter f => cases sibling
    | terminal rule => cases sibling
    | queue q => cases (queue_eq_ok here).symm.trans fails

theorem lt_size_of_queue (here : n.queue pos = .ok q) : pos < n.size :=
  (Array.getElem?_eq_some_iff.mp (queue_eq_ok_iff.mp here)).1

/-! Replacing a node changes the links at its place. -/

theorem getElem?_set (inside : pos < n.size) (node : Node) (k : NodeId) :
    (n.set pos node).nodes[k]? = if k = pos then some node else n.nodes[k]? := by
  have inside' : pos < n.nodes.size := inside
  simp only [set, Array.getElem?_setIfInBounds, inside', if_true, eq_comm (a := pos)]

theorem linkAt_set (inside : pos < n.size) (node : Node) (link : Node → Option NodeId) :
    (n.set pos node).linkAt link = Function.update (n.linkAt link) pos (link node) := by
  funext k
  rw [linkAt, getElem?_set inside, Function.update_apply]
  split <;> rfl

theorem linkAt_set_of_same {node : Node} {link : Node → Option NodeId} (inside : pos < n.size)
    (same : link node = n.linkAt link pos) : (n.set pos node).linkAt link = n.linkAt link :=
  (linkAt_set inside node link).trans (Function.update_eq_self_iff.mpr same)

theorem queue_set (inside : pos < n.size) (q : JoinQueue) (k : NodeId) :
    (n.set pos (.queue q)).queue k = if k = pos then .ok q else n.queue k := by
  unfold queue Network.node
  rw [getElem?_set inside]
  by_cases same : k = pos
  · rw [if_pos same, if_pos same]
  · rw [if_neg same, if_neg same]

theorem queue_set_eq_error (here : n.queue pos = .ok q) (q' : JoinQueue) :
    (n.set pos (.queue q')).queue other = .error fault ↔ n.queue other = .error fault := by
  rw [queue_set (lt_size_of_queue here)]
  split
  · rename_i same
    simp [same, here]
  · exact Iff.rfl

theorem hasQueue_set (here : n.queue pos = .ok q) (q' : JoinQueue) :
    (n.set pos (.queue q')).hasQueue other = n.hasQueue other := by
  rw [Bool.eq_iff_iff, ← not_iff_not, Bool.not_eq_true, Bool.not_eq_true, hasQueue_eq_false_iff,
    hasQueue_eq_false_iff]
  exact exists_congr fun fault => queue_set_eq_error here q'

theorem outcome_updateQueue (change : JoinQueue → JoinQueue) (pos : NodeId) (n : Network) :
    (updateQueue change pos).outcome n =
      match n.queue pos with
      | .ok q => (.ok (), n.set pos (.queue (change q)))
      | .error fault => (.error fault, n) := rfl

theorem links_set_sibling (here : n.queue pos = .ok q) (link : Option NodeId) :
    (n.set pos (.queue { q with sibling := link })).siblingAt =
        Function.update n.siblingAt pos link ∧
      (n.set pos (.queue { q with sibling := link })).continuationAt = n.continuationAt := by
  have inside := lt_size_of_queue here
  exact ⟨linkAt_set inside _ _, linkAt_set_of_same inside (continuationAt_of_queue here).symm⟩

theorem links_set_continuation (here : n.queue pos = .ok q) (link : Option NodeId) :
    (n.set pos (.queue { q with continuation := link })).siblingAt = n.siblingAt ∧
      (n.set pos (.queue { q with continuation := link })).continuationAt =
        Function.update n.continuationAt pos link := by
  have inside := lt_size_of_queue here
  exact ⟨linkAt_set_of_same inside (siblingAt_of_queue here).symm, linkAt_set inside _ _⟩

inductive PairEnds (n : Network) (left right : NodeId) : Except WiringFault Unit × Network → Prop where
  | refused {fault : WiringFault} (leftFails : n.queue left = .error fault) :
    PairEnds n left right (.error fault, n)
  | halfway {fault : WiringFault} {m : Network} (isQueue : n.hasQueue left = true)
      (rightFails : n.queue right = .error fault)
      (siblings : m.siblingAt = Function.update n.siblingAt left (some right))
      (continuations : m.continuationAt = n.continuationAt) :
    PairEnds n left right (.error fault, m)
  | paired {m : Network} (isQueue : n.hasQueue left = true) (isQueue' : n.hasQueue right = true)
      (siblings : m.siblingAt =
        Function.update (Function.update n.siblingAt left (some right)) right (some left))
      (continuations : m.continuationAt = n.continuationAt) :
    PairEnds n left right (.ok (), m)

theorem pair_ends (n : Network) (left right : NodeId) :
    PairEnds n left right ((pair left right).outcome n) := by
  rw [pair, Step.outcome_bind, outcome_updateQueue]
  cases here : n.queue left with
  | error fault => exact .refused here
  | ok q =>
    have isQueue : n.hasQueue left = true := hasQueue_iff.mpr ⟨q, here⟩
    obtain ⟨siblings, continuations⟩ := links_set_sibling here (some right)
    simp only [outcome_updateQueue]
    cases there : (n.set left (.queue { q with sibling := some right })).queue right with
    | error fault =>
      exact .halfway isQueue ((queue_set_eq_error here _).mp there) siblings continuations
    | ok s =>
      have isQueue' : n.hasQueue right = true :=
        (hasQueue_set here _).symm.trans (hasQueue_iff.mpr ⟨s, there⟩)
      obtain ⟨siblings', continuations'⟩ := links_set_sibling there (some left)
      rw [siblings] at siblings'
      exact .paired isQueue isQueue' siblings' (continuations'.trans continuations)

theorem outcome_connect_of_single (here : n.queue pos = .ok q) (unpaired : q.sibling = none) :
    (connect pos target).outcome n =
      (.ok (), n.set pos (.queue { q with continuation := some target })) := by
  simp only [connect, Step.outcome, node_eq_ok.mpr (queue_eq_ok_iff.mp here), unpaired]

theorem outcome_connect_of_paired (here : n.queue pos = .ok q) (paired : q.sibling = some other) :
    (connect pos target).outcome n =
      (updateQueue (fun s => { s with continuation := some target }) other).outcome
        (n.set pos (.queue { q with continuation := some target })) := by
  simp only [connect, Step.outcome, node_eq_ok.mpr (queue_eq_ok_iff.mp here), paired]

/-- How a call to connect a node ends, and what it leaves. -/
inductive ConnectEnds (n : Network) (pos target : NodeId) :
    Except WiringFault Unit × Network → Prop where
  | missing {fault : WiringFault} (fails : n.node pos = .error fault) :
    ConnectEnds n pos target (.error fault, n)
  | refused {rule : RuleId} (isTerminal : n.node pos = .ok (.terminal rule)) :
    ConnectEnds n pos target (.error (.unexpectedNode pos "clause filter or join queue"), n)
  | halfway {fault : WiringFault} {m : Network} {other : NodeId}
      (paired : n.siblingAt pos = some other) (otherFails : n.queue other = .error fault)
      (siblings : m.siblingAt = n.siblingAt)
      (continuations : m.continuationAt = Function.update n.continuationAt pos (some target)) :
    ConnectEnds n pos target (.error fault, m)
  | single {m : Network} (unpaired : n.siblingAt pos = none) (siblings : m.siblingAt = n.siblingAt)
      (continuations : m.continuationAt = Function.update n.continuationAt pos (some target)) :
    ConnectEnds n pos target (.ok (), m)
  | both {m : Network} {other : NodeId} (paired : n.siblingAt pos = some other)
      (isQueue : n.hasQueue other = true) (siblings : m.siblingAt = n.siblingAt)
      (continuations : m.continuationAt =
        Function.update (Function.update n.continuationAt pos (some target)) other (some target)) :
    ConnectEnds n pos target (.ok (), m)

theorem connect_ends (n : Network) (pos target : NodeId) :
    ConnectEnds n pos target ((connect pos target).outcome n) := by
  cases here : n.node pos with
  | error fault =>
    simp only [connect, Step.outcome, here]
    exact .missing here
  | ok node =>
    have stored := node_eq_ok.mp here
    cases node with
    | terminal rule =>
      simp only [connect, Step.outcome, here]
      exact .refused here
    | filter f =>
      have inside : pos < n.size := (Array.getElem?_eq_some_iff.mp stored).1
      have unpaired : n.siblingAt pos = none := by simp [siblingAt, linkAt, stored, Node.sibling]
      simp only [connect, Step.outcome, here]
      exact .single unpaired (linkAt_set_of_same inside unpaired.symm) (linkAt_set inside _ _)
    | queue q =>
      have found : n.queue pos = .ok q := queue_eq_ok stored
      have linked := siblingAt_of_queue found
      obtain ⟨siblings, continuations⟩ := links_set_continuation found (some target)
      rcases paired : n.siblingAt pos with - | other
      · rw [outcome_connect_of_single found (linked.symm.trans paired)]
        exact .single paired siblings continuations
      · rw [outcome_connect_of_paired found (linked.symm.trans paired), outcome_updateQueue]
        cases there : (n.set pos (.queue { q with continuation := some target })).queue other with
        | error fault =>
          exact .halfway paired ((queue_set_eq_error found _).mp there) siblings continuations
        | ok s =>
          have isQueue : n.hasQueue other = true :=
            (hasQueue_set found _).symm.trans (hasQueue_iff.mpr ⟨s, there⟩)
          obtain ⟨siblings', continuations'⟩ := links_set_continuation there (some target)
          rw [continuations] at continuations'
          exact .both paired isQueue (siblings'.trans siblings) continuations'

inductive Call where
  | push (node : Node)
  | pair (left right : NodeId)
  | connect (pos target : NodeId)

def Call.on (n : Network) : Call → Network
  | .push node => (n.push node).2
  | .pair left right => ((Network.pair left right).outcome n).2
  | .connect pos target => ((Network.connect pos target).outcome n).2

def after (calls : List Call) : Network := calls.foldl Call.on ∅

/-- A call that fails on the first node it looks up changes nothing. One that fails on the second
has written the link of the first, and this is all that it changes: a pair is left with one half, a
queue with a continuation that its sibling has not been given. -/
theorem failed_call_writes_one_link_at_most (n : Network) (pos other : NodeId) :
    (∀ fault m, (pair pos other).outcome n = (.error fault, m) →
      (n.queue pos = .error fault ∧ m = n) ∨
        (n.hasQueue pos = true ∧ n.queue other = .error fault ∧
          m.siblingAt = Function.update n.siblingAt pos (some other) ∧
          m.continuationAt = n.continuationAt)) ∧
    ∀ fault m, (connect pos other).outcome n = (.error fault, m) →
      ((n.node pos = .error fault ∨ ∃ rule, n.node pos = .ok (.terminal rule)) ∧ m = n) ∨
        ∃ sibling, n.siblingAt pos = some sibling ∧ n.queue sibling = .error fault ∧
          m.siblingAt = n.siblingAt ∧
          m.continuationAt = Function.update n.continuationAt pos (some other) := by
  constructor
  · intro fault m run
    have ends := pair_ends n pos other
    rw [run] at ends
    cases ends with
    | refused leftFails => exact Or.inl ⟨leftFails, rfl⟩
    | halfway isQueue rightFails siblings continuations =>
      exact Or.inr ⟨isQueue, rightFails, siblings, continuations⟩
  · intro fault m run
    have ends := connect_ends n pos other
    rw [run] at ends
    cases ends with
    | missing fails => exact Or.inl ⟨Or.inl fails, rfl⟩
    | refused isTerminal => exact Or.inl ⟨Or.inr ⟨_, isTerminal⟩, rfl⟩
    | halfway paired otherFails siblings continuations =>
      exact Or.inr ⟨_, paired, otherFails, siblings, continuations⟩

theorem failed_pair_keeps_the_continuations :
    let n := after [.push (.queue (.unwired 0 .left [0] [0])), .push (.terminal 0), .pair 0 0,
      .connect 0 1]
    ∃ m, (pair 0 1).outcome n = (.error (.unexpectedNode 1 "join queue"), m) ∧
      m.siblingAt = Function.update n.siblingAt 0 (some 1) ∧
      m.continuationAt = n.continuationAt := by
  intro n
  have run : (pair 0 1).outcome n =
      (.error (.unexpectedNode 1 "join queue"), ((pair 0 1).outcome n).2) := rfl
  refine ⟨_, run, ?_⟩
  rcases (failed_call_writes_one_link_at_most n 0 1).1 _ _ run with ⟨refused, -⟩ | ⟨-, -, links⟩
  · cases refused
  · exact links

theorem failed_calls_leave_links :
    let n := after [.push (.queue (.unwired 0 .left [0] [0])), .push (.terminal 0)]
    let paired := (pair 0 1).outcome n
    let connected := (connect 0 1).outcome paired.2
    paired.1 = .error (.unexpectedNode 1 "join queue") ∧
      n.siblingAt 0 = none ∧ paired.2.siblingAt 0 = some 1 ∧
      connected.1 = .error (.unexpectedNode 1 "join queue") ∧
      paired.2.continuationAt 0 = none ∧ connected.2.continuationAt 0 = some 1 := by
  decide

end Network
end TripleInference
