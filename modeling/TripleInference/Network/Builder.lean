import Std.Data.ExtTreeMap
import TripleInference.Journal
import TripleInference.Network.Wiring
import TripleInference.Store.Graph

/-!
Compiling rule bodies into a network. Every clause gets a filter. From the second clause on, a pair
of join queues joins what the earlier clauses matched with what the new one does; the left half of
the last pair is the end of the chain, and a terminal hangs off it. A table keeps the filters that a
triple has to be offered to, by its predicate. The highest identifier is no predicate: filters of
clauses whose predicate is left open are kept under it and offered every triple. What rules have
been compiled into can be shared by engines.
-/
namespace TripleInference

inductive Failure where
  | rule (fault : RuleFault)
  | wiring (fault : WiringFault)
  | store (error : StoreError)
  | notCompiled
deriving DecidableEq, Repr

def Failure.message : Failure → String
  | .rule fault => fault.message
  | .wiring fault => fault.message
  | .store error => error.message
  | .notCompiled => "no rule store: call init() or set_rule_store() first"

structure FilterTable where
  entries : Std.ExtTreeMap TermId (List NodeId)

namespace FilterTable

def openKey : TermId := 0xFFFFFFFF

def empty : FilterTable := ⟨∅⟩

instance : EmptyCollection FilterTable := ⟨empty⟩

instance : Inhabited FilterTable := ⟨empty⟩

def get (x : FilterTable) (predicate : TermId) : List NodeId := x.entries[predicate]?.getD []

def insert (x : FilterTable) (predicate : TermId) (filter : NodeId) : FilterTable :=
  ⟨x.entries.insert predicate (x.get predicate ++ [filter])⟩

def insertOpen (x : FilterTable) (filter : NodeId) : FilterTable := x.insert openKey filter

def openFilters (x : FilterTable) : List NodeId := x.get openKey

/-- The filters to offer a triple with this predicate: its own, then those with an open one. -/
def candidates (x : FilterTable) (predicate : TermId) : List NodeId :=
  (if predicate = openKey then [] else x.get predicate) ++ x.openFilters

def size (x : FilterTable) : Nat := (x.entries.toList.flatMap (·.2)).length

def isEmpty (x : FilterTable) : Bool := x.entries.isEmpty

theorem get_insert (x : FilterTable) (p q : TermId) (filter : NodeId) :
    (x.insert p filter).get q = if p = q then x.get p ++ [filter] else x.get q := by
  unfold get insert
  simp only [Std.ExtTreeMap.getElem?_insert, Std.LawfulEqOrd.compare_eq_iff_eq]
  split <;> simp [get]

end FilterTable

structure NetworkBuilder where
  network : Network
  table : FilterTable
  predicates : Std.ExtTreeSet TermId
  openPredicate : Bool

namespace NetworkBuilder

def empty : NetworkBuilder := ⟨∅, ∅, ∅, false⟩

instance : EmptyCollection NetworkBuilder := ⟨empty⟩

instance : Inhabited NetworkBuilder := ⟨empty⟩

def fileClause (b : NetworkBuilder) (p : Pattern) (filter : NodeId) : NetworkBuilder :=
  match p.predicate with
  | .constant id =>
    { b with
      table := b.table.insert id filter
      predicates := if b.openPredicate then b.predicates else b.predicates.insert id }
  | _ => { b with table := b.table.insertOpen filter, openPredicate := true }

def push (node : Node) : Step Failure NetworkBuilder NodeId :=
  fun b =>
    let (id, network) := b.network.push node
    (.ok id, { b with network })

def wire (m : Step WiringFault Network Unit) : Step Failure NetworkBuilder Unit :=
  m.within (·.network) (fun network b => { b with network }) .wiring

def join (rule : RuleId) (clause : Nat) (keys : List Nat) (previous filter : NodeId) :
    Step Failure NetworkBuilder NodeId := do
  let left ← push (.queue (.unwired rule .left keys (List.range clause)))
  let right ← push (.queue (.unwired rule .right keys [clause]))
  wire (Network.pair left right)
  wire (Network.connect filter right)
  wire (Network.connect previous left)
  return left

/-- Compiles the clauses from number `clause` on, given the variables seen so far and the end of
the chain so far. Variables that an earlier clause has are the keys of the join. -/
def buildClauses (rule : RuleId) (numVars : Nat) :
    List Pattern → Nat → List Nat → Option NodeId → Step Failure NetworkBuilder (Option NodeId)
  | [], _, _, last => return last
  | p :: rest, clause, seen, last => do
    let filter ← push (.filter (.ofPattern rule clause p numVars))
    modify (·.fileClause p filter)
    let next ←
      match last with
      | none => pure filter
      | some previous => join rule clause (p.distinctOrdinals.filter (· ∈ seen)) previous filter
    buildClauses rule numVars rest (clause + 1) (seen ++ p.distinctOrdinals) (some next)

def buildChain (id : RuleId) (r : Rule) : Step Failure NetworkBuilder (Option NodeId) := do
  Step.ofExcept .rule r.check
  buildClauses id r.numVars r.body 0 [] none

def buildRule (id : RuleId) (r : Rule) : Step Failure NetworkBuilder (Option NodeId) := do
  match ← buildChain id r with
  | none => return none
  | some last =>
    let terminal ← push (.terminal id)
    wire (Network.connect last terminal)
    return some terminal

end NetworkBuilder

structure CompiledRules where
  rules : List Rule
  network : Network
  table : FilterTable
  /-- The predicates of the body clauses, unless some clause leaves its predicate open. -/
  predicatesUsed : Option (Std.ExtTreeSet TermId)
  openPredicate : Bool
  ignoresBackward : Bool

def NetworkBuilder.finish (c : NetworkBuilder) (rules : List Rule) (ignoresBackward : Bool) :
    CompiledRules :=
  { rules, network := c.network, table := c.table
    predicatesUsed := if c.openPredicate then none else some c.predicates
    openPredicate := c.openPredicate
    ignoresBackward }

/-- Adds the rules of a list, numbered from `id` on. Backward rules keep their number but are left
out when they are to be ignored. -/
def NetworkBuilder.buildRules (ignoreBackward : Bool) :
    List Rule → RuleId → Step Failure NetworkBuilder Unit
  | [], _ => return ()
  | r :: rest, id => do
    unless ignoreBackward && r.isBackward do
      discard <| buildRule id r
    buildRules ignoreBackward rest (id + 1)

namespace CompiledRules

def compile (rules : List Rule) (ignoreBackward : Bool) : Except Failure CompiledRules :=
  match (NetworkBuilder.buildRules ignoreBackward rules 0).outcome ∅ with
  | (.ok (), c) => .ok (c.finish rules ignoreBackward)
  | (.error failure, _) => .error failure

def summary (c : CompiledRules) : LogRecord :=
  .compiled c.rules.length c.network.size c.table.size c.openPredicate

def rule? (c : CompiledRules) (id : RuleId) : Option Rule := c.rules[id]?

def active (c : CompiledRules) : List (RuleId × Rule) :=
  (c.rules.zipIdx.filter fun (r, _) => !(c.ignoresBackward && r.isBackward)).map Prod.swap

end CompiledRules

end TripleInference
