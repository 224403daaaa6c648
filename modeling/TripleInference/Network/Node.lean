import TripleInference.Matching.Bindings

/-!
The nodes of a matching network. A clause filter tests one body clause of a rule against one triple
and feeds a join queue or a terminal. Join queues come in pairs, one for the matches of the earlier
clauses of a rule and one for those of the next clause; both feed the same node.
-/
namespace TripleInference

abbrev NodeId := Nat

structure ClauseFilter where
  rule : RuleId
  clause : Nat
  numVars : Nat
  constantSlots : List (Slot × TermId)
  varSlots : List (Slot × Nat)
  continuation : Option NodeId
deriving DecidableEq, Repr

namespace ClauseFilter

/-- The filter of a clause. The predicate, by which triples are sorted out beforehand, is the
last constant to be compared. -/
def ofPattern (rule : RuleId) (clause : Nat) (p : Pattern) (numVars : Nat) : ClauseFilter :=
  { rule, clause, numVars
    constantSlots :=
      p.constantSlots.filter (·.1 != .predicate) ++ p.constantSlots.filter (·.1 == .predicate)
    varSlots := p.varSlots
    continuation := none }

def test (f : ClauseFilter) (t : Triple) : Option Bindings :=
  if f.constantSlots.all fun (slot, id) => slot.of t == id then
    match Bindings.bindAll (f.varSlots.map fun (slot, v) => (v, slot.of t)) (.ofSize f.numVars) with
    | (true, b) => some b.commit
    | (false, _) => none
  else none

end ClauseFilter

inductive Side where
  | left
  | right
deriving DecidableEq, Repr

structure JoinQueue where
  rule : RuleId
  side : Side
  keys : List Nat
  clauses : List Nat
  sibling : Option NodeId
  continuation : Option NodeId
deriving DecidableEq, Repr

def JoinQueue.unwired (rule : RuleId) (side : Side) (keys clauses : List Nat) : JoinQueue :=
  { rule, side, keys, clauses, sibling := none, continuation := none }

inductive Node where
  | filter (f : ClauseFilter)
  | queue (q : JoinQueue)
  | terminal (rule : RuleId)
deriving DecidableEq, Repr

namespace Node

def kind : Node → String
  | .filter _ => "clause filter"
  | .queue _ => "join queue"
  | .terminal _ => "terminal"

def sibling : Node → Option NodeId
  | .queue q => q.sibling
  | _ => none

def continuation : Node → Option NodeId
  | .filter f => f.continuation
  | .queue q => q.continuation
  | .terminal _ => none

end Node

end TripleInference
