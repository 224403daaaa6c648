import TripleInference.Engine.Pass

/-!
What an engine can be told to do. It is initialised once: rules are compiled unless they are
already, axioms asserted, raw facts loaded. After that facts come one by one. A call that fails
keeps what it had done; a failed initialisation also puts the engine back to its first phase.
-/
namespace TripleInference
namespace Engine

section
variable {R D α : Type}

def pass (m : Step Failure (Pass R D) α) : Step Failure (Engine R D) α :=
  m.within (fun engine => ⟨engine, ∅⟩) (fun pass _ => pass.engine) id

def ensureCompiled (ignoreBackward : Bool) : Step Failure (Engine R D) Unit :=
  fun e =>
    match e.compiled with
    | some _ => (.ok (), e)
    | none =>
      match CompiledRules.compile e.rules ignoreBackward with
      | .ok compiled => (.ok (), (e.report compiled.summary).setCompiled compiled)
      | .error failure => (.error failure, e)

variable [TripleSink D]

/-- Takes a fact out of the deductions. What was deduced from it stays, and so does a raw fact. -/
def delete (t : Triple) : Step Failure (Engine R D) Unit := do
  let deleted ← onGraph (InferenceGraph.onDeductions (TripleSink.delete t))
  modify (·.report (.deleted t deleted))

/-- Asserts one head of an axiom. It is put on the agenda even if it was deduced before. -/
def assertHead (id : RuleId) (r : Rule) (t : Triple) : Step Failure (Pass R D) Unit := do
  let added ← Pass.onEngine (onGraph (InferenceGraph.onDeductions (TripleSink.add t)))
  if added then
    Pass.modifyEngine (·.recordDerivation ⟨id, r.label, t, none, []⟩)
  Pass.enqueue t

def assertAxiom (id : RuleId) (r : Rule) : Step Failure (Pass R D) Unit := do
  let heads ← Step.ofExcept .rule (r.instantiate (.ofSize r.numVars))
  Pass.modifyEngine fun e => { e with firings := e.firings + 1 }
  heads.forM (assertHead id r)

variable [TripleSource R]

def assertAxioms : Step Failure (Engine R D) (List Triple) := do
  let rules ← requireCompiled
  let worked ← pass do
    (rules.active.filter (·.2.isAxiom)).forM fun (id, r) => assertAxiom id r
    Pass.settleAll rules
  modify fun e => { e with axiomsDone := true, phase := .axiomsProcessed }
  return worked

/-- The raw facts that some rule may be interested in: all of them if a clause leaves its predicate
open, else predicate by predicate. -/
def scan (rules : CompiledRules) : Step StoreError R (List Triple) :=
  match rules.predicatesUsed with
  | none => TripleSource.find .all
  | some predicates => do
    return (← predicates.toList.mapM fun p => TripleSource.find (.withPredicate p)).flatten

def load : Step Failure (Engine R D) (List Triple) := do
  let rules ← requireCompiled
  match ← onGraph (InferenceGraph.onRaw (scan rules)) with
  | none =>
    modify fun e => { e with phase := .ready }
    return []
  | some facts =>
    modify (·.report (.rawQueued facts.length rules.openPredicate))
    let worked ← pass do
      modify fun p => { p with agenda := p.agenda.enqueueAll facts }
      Pass.settleAll rules
    modify fun e => { e with phase := .ready }
    return worked

def bootstrap (ignoreBackward : Bool) : Step Failure (Engine R D) Unit := do
  ensureCompiled ignoreBackward
  discard assertAxioms
  let e ← get
  let axiomFirings := e.axiomFirings.getD e.firings
  set ({ e with axiomFirings := some axiomFirings }.report (.axiomsFired axiomFirings))
  discard load

/-- Initialises an engine. If that fails, it is uninitialised again. -/
def init (ignoreBackward : Bool) : Step Failure (Engine R D) Unit :=
  (bootstrap ignoreBackward).onFailure fun e =>
    { e with phase := .uninitialized, axiomsDone := false }

def initAsConfigured : Step Failure (Engine R D) Unit := do
  init (← get).settings.ignoreBackward

/-- Runs the rules on one triple, stored or not, but not on what they deduce, which it returns. -/
def applyOnce (t : Triple) : Step Failure (Engine R D) (List Triple) := do
  pass (Pass.work (← requireCompiled) t)

end

/-- Takes a fact into the raw store unless it is known, and runs the rules it triggers and all that
follows; returns the triples worked on. -/
def add {R D : Type} [TripleSink R] [EmptyCollection R] [TripleSink D] (t : Triple) :
    Step Failure (Engine R D) (List Triple) := do
  let rules ← requireCompiled
  unless ← onGraph (InferenceGraph.contains t) do
    discard <| onGraph (InferenceGraph.assertRaw t)
  pass do
    Pass.enqueue t
    Pass.settleAll rules

end Engine
end TripleInference
