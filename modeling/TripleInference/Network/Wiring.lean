import TripleInference.Network.Node
import TripleInference.Step

/-!
Networks and their wiring. Nodes refer to each other by position. Wiring changes one node after
another, so a call that fails on the second node has already changed the first.
-/
namespace TripleInference

inductive WiringFault where
  | missingSibling (node : NodeId)
  | missingContinuation (node : NodeId)
  | unexpectedNode (node : NodeId) (expected : String)
  | nodeOutOfRange (node : NodeId)
  | unboundJoinKey (node : NodeId) (key : Nat)
  | unknownRule (rule : RuleId)
  | unknownClause (rule : String) (clause : Nat)
deriving DecidableEq, Repr

def WiringFault.message : WiringFault → String
  | .missingSibling node => s!"join queue #{node} has no sibling wired back to it"
  | .missingContinuation node => s!"node #{node} has no continuation"
  | .unexpectedNode node expected => s!"node #{node} is not a {expected}"
  | .nodeOutOfRange node => s!"node #{node} does not exist"
  | .unboundJoinKey node key => s!"join key ?{key} is unbound at node #{node}"
  | .unknownRule rule => s!"rule {rule} is not in the rule store"
  | .unknownClause rule clause => s!"rule {rule} has no body clause {clause}"

structure Network where
  nodes : Array Node
deriving DecidableEq, Repr

namespace Network

def empty : Network := ⟨#[]⟩

instance : EmptyCollection Network := ⟨empty⟩

instance : Inhabited Network := ⟨empty⟩

def size (n : Network) : Nat := n.nodes.size

def isEmpty (n : Network) : Bool := n.nodes.isEmpty

def push (n : Network) (node : Node) : NodeId × Network := (n.nodes.size, ⟨n.nodes.push node⟩)

def node (n : Network) (id : NodeId) : Except WiringFault Node :=
  match n.nodes[id]? with
  | some node => .ok node
  | none => .error (.nodeOutOfRange id)

def filter (n : Network) (id : NodeId) : Except WiringFault ClauseFilter :=
  match n.node id with
  | .ok (.filter f) => .ok f
  | .ok _ => .error (.unexpectedNode id "clause filter")
  | .error fault => .error fault

def queue (n : Network) (id : NodeId) : Except WiringFault JoinQueue :=
  match n.node id with
  | .ok (.queue q) => .ok q
  | .ok _ => .error (.unexpectedNode id "join queue")
  | .error fault => .error fault

/-- The other half of a pair. It has to point back. -/
def sibling (n : Network) (id : NodeId) : Except WiringFault JoinQueue :=
  match n.queue id with
  | .error fault => .error fault
  | .ok q =>
    match q.sibling with
    | none => .error (.missingSibling id)
    | some other =>
      match n.node other with
      | .error fault => .error fault
      | .ok (.queue s) => if s.sibling = some id then .ok s else .error (.missingSibling id)
      | .ok _ => .error (.missingSibling id)

def set (n : Network) (id : NodeId) (node : Node) : Network := ⟨n.nodes.setIfInBounds id node⟩

def updateQueue (change : JoinQueue → JoinQueue) (id : NodeId) : Step WiringFault Network Unit :=
  fun n =>
    match n.queue id with
    | .ok q => (.ok (), n.set id (.queue (change q)))
    | .error fault => (.error fault, n)

def pair (left right : NodeId) : Step WiringFault Network Unit := do
  updateQueue (fun q => { q with sibling := some right }) left
  updateQueue (fun q => { q with sibling := some left }) right

/-- Sets where a node sends its matches. The sibling of a queue gets the same continuation. -/
def connect (id target : NodeId) : Step WiringFault Network Unit :=
  fun n =>
    match n.node id with
    | .error fault => (.error fault, n)
    | .ok (.filter f) => (.ok (), n.set id (.filter { f with continuation := some target }))
    | .ok (.terminal _) => (.error (.unexpectedNode id "clause filter or join queue"), n)
    | .ok (.queue q) =>
      let n := n.set id (.queue { q with continuation := some target })
      match q.sibling with
      | none => (.ok (), n)
      | some other =>
        (updateQueue (fun s => { s with continuation := some target }) other).outcome n

end Network
end TripleInference
