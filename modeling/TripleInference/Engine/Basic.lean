import Std.Data.ExtTreeMap
import TripleInference.Network.Builder

/-!
Engines: a graph, rules, and what an engine remembers from call to call. Why deduced facts are there
is told by a log of derivations in the order they were made, with an index from each conclusion to
the positions of its derivations.
-/
namespace TripleInference

structure Derivation where
  rule : RuleId
  ruleName : String
  conclusion : Triple
  trigger : Option Triple
  bindings : List (Option TermId)
deriving DecidableEq, Repr

structure Provenance where
  records : Array Derivation
  positions : Std.ExtTreeMap Triple (List Nat)

namespace Provenance

def empty : Provenance := ⟨#[], ∅⟩

instance : EmptyCollection Provenance := ⟨empty⟩

instance : Inhabited Provenance := ⟨empty⟩

def size (log : Provenance) : Nat := log.records.size

def isEmpty (log : Provenance) : Bool := log.records.isEmpty

def record (log : Provenance) (d : Derivation) : Provenance :=
  { records := log.records.push d
    positions := log.positions.insert d.conclusion
      (log.positions[d.conclusion]?.getD [] ++ [log.records.size]) }

def explaining (log : Provenance) (t : Triple) : List Derivation :=
  (log.positions[t]?.getD []).filterMap fun i => log.records[i]?

end Provenance

structure EngineSettings where
  recordDerivations : Bool
  trace : Bool
  ignoreBackward : Bool
deriving DecidableEq, Repr

def EngineSettings.standard : EngineSettings := ⟨false, false, true⟩

inductive Phase where
  | uninitialized
  | axiomsProcessed
  | ready
deriving DecidableEq, Repr

structure Engine (R D : Type) where
  graph : InferenceGraph R D
  /-- The rules to compile when no compiled rules are installed. -/
  rules : List Rule
  compiled : Option CompiledRules
  settings : EngineSettings
  phase : Phase
  firings : Nat
  /-- The firings by the end of the first axiom pass. -/
  axiomFirings : Option Nat
  /-- Whether the axioms have been asserted; tracing waits for it. -/
  axiomsDone : Bool
  recording : Bool
  derivations : Provenance
  journal : Journal

namespace Engine

variable {R D : Type}

def ofRules (graph : InferenceGraph R D) (rules : List Rule) (settings : EngineSettings) :
    Engine R D :=
  { graph, rules, settings
    compiled := none
    phase := .uninitialized
    firings := 0
    axiomFirings := none
    axiomsDone := false
    recording := settings.recordDerivations
    derivations := ∅
    journal := #[] }

def ofCompiled (graph : InferenceGraph R D) (compiled : CompiledRules) (settings : EngineSettings) :
    Engine R D :=
  { ofRules graph [] settings with compiled := some compiled }

def setCompiled (e : Engine R D) (compiled : CompiledRules) : Engine R D :=
  { e with compiled := some compiled }

def setRecording (e : Engine R D) (recording : Bool) : Engine R D := { e with recording }

def tracing (e : Engine R D) : Bool := e.settings.trace && e.axiomsDone

def report (e : Engine R D) (r : LogRecord) : Engine R D := { e with journal := e.journal.push r }

def traceRecord (e : Engine R D) (r : LogRecord) : Engine R D :=
  if e.tracing then e.report r else e

def recordDerivation (e : Engine R D) (d : Derivation) : Engine R D :=
  if e.recording then { e with derivations := e.derivations.record d } else e

def onGraph {α : Type} (m : Step StoreError (InferenceGraph R D) α) : Step Failure (Engine R D) α :=
  m.within (·.graph) (fun graph e => { e with graph }) .store

def requireCompiled : Step Failure (Engine R D) CompiledRules :=
  fun e =>
    match e.compiled with
    | some compiled => (.ok compiled, e)
    | none => (.error .notCompiled, e)

end Engine

end TripleInference
