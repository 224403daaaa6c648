import TripleInference.Store.Graph

/-!
A store that keeps a list of the lookups made on it, and that can be told to fail. A failing store
records nothing and stays as it is.
-/
namespace TripleInference

structure Recording where
  facts : FactIndex
  scans : Array Lookup
  failure : Option StoreError

namespace Recording

def ofFacts (facts : FactIndex) : Recording := ⟨facts, #[], none⟩

instance : EmptyCollection Recording := ⟨ofFacts ∅⟩

def failWith (r : Recording) (failure : Option StoreError) : Recording := { r with failure }

def takeScans (r : Recording) : List Lookup × Recording := (r.scans.toList, { r with scans := #[] })

def answer {α : Type} (request : Recording → α × Recording) : Step StoreError Recording α :=
  fun r =>
    match r.failure with
    | some failure => (.error failure, r)
    | none =>
      let (a, r) := request r
      (.ok a, r)

instance : InMemory Recording where
  facts := facts
  setFacts facts r := { r with facts }

instance : TripleSink Recording where
  find l := answer fun r => (r.facts.find l, { r with scans := r.scans.push l })
  add t := answer fun r =>
    let (added, facts) := r.facts.insert t
    (added, { r with facts })
  delete t := answer fun r =>
    let (deleted, facts) := r.facts.erase t
    (deleted, { r with facts })

end Recording
end TripleInference
