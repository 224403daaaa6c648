import TripleInference.Fact.Index
import TripleInference.Step

/-!
What an engine asks of a store of facts, and the facts it works over. Each request to a store may
fail, and may change the store even when it only reads; a `FactIndex` is one that never fails. Raw
facts belong to the caller, deductions to the engine, and reading sees the union of the two. There
may be no raw store at all; the first raw fact then makes one.
-/
namespace TripleInference

inductive StoreError where
  | unavailable (why : String)
  | io (why : String)
deriving DecidableEq, Repr

def StoreError.message : StoreError → String
  | .unavailable why => s!"store unavailable: {why}"
  | .io why => s!"store i/o failure: {why}"

/-- A store that can be read. `find` gives the stored triples that fit a lookup, ascending. -/
class TripleSource (S : Type) where
  find : Lookup → Step StoreError S (List Triple)
  contains : Triple → Step StoreError S Bool :=
    fun t => do return !(← find (.exactly t)).isEmpty

class TripleSink (S : Type) extends TripleSource S where
  add : Triple → Step StoreError S Bool
  delete : Triple → Step StoreError S Bool

/-- A store that holds its facts in an index, which its owner may reach past the requests. -/
class InMemory (S : Type) where
  facts : S → FactIndex
  setFacts : FactIndex → S → S

instance : InMemory FactIndex where
  facts := id
  setFacts facts _ := facts

instance : TripleSink FactIndex where
  find l := fun x => (.ok (x.find l), x)
  contains t := fun x => (.ok (x.contains t), x)
  add t := fun x =>
    let (added, x) := x.insert t
    (.ok added, x)
  delete t := fun x =>
    let (deleted, x) := x.erase t
    (.ok deleted, x)

structure InferenceGraph (R D : Type) where
  raw : Option R
  deductions : D

abbrev MemoryGraph := InferenceGraph FactIndex FactIndex

namespace InferenceGraph

variable {R D α : Type}

def onDeductions (m : Step StoreError D α) : Step StoreError (InferenceGraph R D) α :=
  m.within (·.deductions) (fun deductions g => { g with deductions }) id

def onRaw (m : Step StoreError R α) : Step StoreError (InferenceGraph R D) (Option α) :=
  fun g =>
    match g.raw with
    | none => (.ok none, g)
    | some raw =>
      let (result, raw) := m.outcome raw
      (result.map some, { g with raw := some raw })

def assertRaw [TripleSink R] [EmptyCollection R] (t : Triple) :
    Step StoreError (InferenceGraph R D) Bool :=
  fun g =>
    let (result, raw) := (TripleSink.add t).outcome (g.raw.getD ∅)
    (result, { g with raw := some raw })

/-- Takes a raw fact away, whatever state the store is in; the flag says whether it was there. -/
def retractRaw [InMemory R] (g : InferenceGraph R D) (t : Triple) :
    Bool × InferenceGraph R D :=
  match g.raw with
  | none => (false, g)
  | some raw =>
    let (removed, facts) := (InMemory.facts raw).erase t
    (removed, { g with raw := some (InMemory.setFacts facts raw) })

variable [TripleSource R] [TripleSource D]

/-- The stored triples that fit a lookup, ascending. A triple in both stores comes once. -/
def find (l : Lookup) : Step StoreError (InferenceGraph R D) (List Triple) := do
  let deduced ← onDeductions (TripleSource.find l)
  match ← onRaw (TripleSource.find l) with
  | none => return deduced
  | some asserted => return Triple.ascending (deduced ++ asserted)

/-- Whether a triple is in the deductions or, failing that, in the raw store. -/
def contains (t : Triple) : Step StoreError (InferenceGraph R D) Bool := do
  if ← onDeductions (TripleSource.contains t) then
    return true
  else
    return (← onRaw (TripleSource.contains t)).getD false

instance : TripleSource (InferenceGraph R D) where
  find := find
  contains := contains

end InferenceGraph

namespace MemoryGraph

def withRaw (ts : List Triple) : MemoryGraph := ⟨some (.ofList ts), ∅⟩

def withoutRaw : MemoryGraph := ⟨none, ∅⟩

end MemoryGraph

end TripleInference
