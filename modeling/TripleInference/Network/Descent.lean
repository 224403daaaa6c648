import Std.Data.ExtTreeSet
import TripleInference.Network.Builder

/-!
The descent of one triple through a network. It only reads the graph. A match that reaches one half
of a join pair is completed by searching the graph for the clauses of the other half; what reaches
a terminal is a matched body, left for the engine to fire. A queue that gets the same match again
while one triple is worked on does nothing.
-/
namespace TripleInference

structure Arrival where
  node : NodeId
  values : List (Option TermId)
deriving DecidableEq, Repr

namespace Arrival

instance : Ord Arrival := ⟨compareLex (compareOn node) (compareOn values)⟩

instance : Std.TransOrd Arrival :=
  inferInstanceAs (Std.TransCmp (compareLex (compareOn node) (compareOn values)))

instance : Std.LawfulEqOrd Arrival where
  eq_of_compare {a b} h := by
    obtain ⟨n, vs⟩ := a
    obtain ⟨m, ws⟩ := b
    change (compare n m).then (compare vs ws) = .eq at h
    obtain ⟨hn, hv⟩ := Ordering.then_eq_eq.1 h
    rw [Std.LawfulEqOrd.eq_of_compare hn, Std.LawfulEqOrd.eq_of_compare hv]

end Arrival

structure Arrivals where
  seen : Std.ExtTreeSet Arrival

namespace Arrivals

def empty : Arrivals := ⟨∅⟩

instance : EmptyCollection Arrivals := ⟨empty⟩

instance : Inhabited Arrivals := ⟨empty⟩

def size (m : Arrivals) : Nat := m.seen.size

def isEmpty (m : Arrivals) : Bool := m.size == 0

def remember (m : Arrivals) (node : NodeId) (values : List (Option TermId)) :
    Bool × Arrivals :=
  if m.seen.contains ⟨node, values⟩ then (false, m)
  else (true, ⟨m.seen.insert ⟨node, values⟩⟩)

end Arrivals

structure BodyMatch where
  rule : RuleId
  bindings : Bindings
deriving DecidableEq, Repr

structure Descent (G : Type) where
  graph : G
  memory : Arrivals
  bodyMatches : Array BodyMatch
  journal : Journal

namespace Descent

variable {G : Type} [TripleSource G]

def find (l : Lookup) : Step Failure G (List Triple) :=
  (TripleSource.find l).within id (fun g _ => g) .store

/-- Appends to `found` every extension of the bindings under which facts of the graph match all the
clauses, in the order of the facts. The bindings come back as they were. -/
def search (rule : Rule) :
    List Nat → Bindings → Array Bindings → Step Failure G (Bindings × Array Bindings)
  | [], b, found => return (b, found.push b)
  | clause :: rest, b, found => do
    match rule.body[clause]? with
    | none => throw (.wiring (.unknownClause rule.label clause))
    | some p =>
      (← find (b.lookup p)).foldlM (fun (b, found) t => do
        let mark := b.snapshot
        match b.unify p t with
        | (true, b) =>
          let (b, found) ← search rule rest b found
          return (b.restore mark, found)
        | (false, b) => return (b.restore mark, found)) (b, found)

def probe (node : NodeId) (b : Bindings) : List Nat → Bindings → Except WiringFault Bindings
  | [], probed => .ok probed
  | key :: rest, probed =>
    match b.get? key with
    | none => .error (.unboundJoinKey node key)
    | some value => probe node b rest (probed.bind key value).2

def remember (node : NodeId) (b : Bindings) : Step Failure (Descent G) Bool :=
  fun d =>
    let (isNew, memory) := d.memory.remember node b.values
    (.ok isNew, { d with memory })

def onGraph {α : Type} (m : Step Failure G α) : Step Failure (Descent G) α :=
  m.within (·.graph) (fun graph d => { d with graph }) id

/-- What a queue makes of a match: where its results go, and the results. A match it has taken in
before makes none. -/
def join (rules : CompiledRules) (id : NodeId) (q : JoinQueue) (b : Bindings) :
    Step Failure (Descent G) (NodeId × List Bindings) := do
  let sibling ← Step.ofExcept .wiring (rules.network.sibling id)
  match q.continuation with
  | none => throw (.wiring (.missingContinuation id))
  | some target =>
    if ← remember id b then
      let probed ← Step.ofExcept .wiring (probe id b q.keys (.ofSize b.size))
      match rules.rule? q.rule with
      | none => throw (.wiring (.unknownRule q.rule))
      | some rule =>
        let (_, found) ← onGraph (search rule sibling.clauses probed #[])
        return (target, found.toList.filterMap fun other =>
          match b.merge other q.keys with
          | (true, merged) => some merged.commit
          | (false, _) => none)
    else
      return (target, [])

/-- Delivers a match to a node and sends its results on. `hops` bounds how many nodes they may
still visit; continuations lead to later nodes, so one more than the network has is enough. -/
def deliver (rules : CompiledRules) : Nat → NodeId → Bindings → Step Failure (Descent G) Unit
  | 0, id, _ => throw (.wiring (.missingContinuation id))
  | hops + 1, id, b => do
    match ← Step.ofExcept .wiring (rules.network.node id) with
    | .filter _ => throw (.wiring (.unexpectedNode id "join queue or terminal"))
    | .terminal rule => modify fun d => { d with bodyMatches := d.bodyMatches.push ⟨rule, b⟩ }
    | .queue q =>
      let (target, results) ← join rules id q b
      results.forM (deliver rules hops target)

def enter (rules : CompiledRules) (id : NodeId) (b : Bindings) :
    Step Failure (Descent G) Unit :=
  deliver rules (rules.network.size + 1) id b

def offer (rules : CompiledRules) (t : Triple) (id : NodeId) : Step Failure (Descent G) Bool := do
  let f ← Step.ofExcept .wiring (rules.network.filter id)
  match f.test t with
  | none => return false
  | some b =>
    modify fun d => { d with journal := d.journal.push (.matched t f.clause f.rule) }
    match f.continuation with
    | none => throw (.wiring (.missingContinuation id))
    | some target =>
      enter rules target b
      return true

def offerAll (rules : CompiledRules) (t : Triple) : Step Failure (Descent G) (List BodyMatch) := do
  (rules.table.candidates t.predicate).forM fun id => discard (offer rules t id)
  return (← get).bodyMatches.toList

end Descent

end TripleInference
