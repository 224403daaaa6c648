import TripleInference.Rule.Basic

/-!
What an engine reports while it works, as records with a level and a text.
-/
namespace TripleInference

inductive LogLevel where
  | warn
  | debug
  | trace
deriving DecidableEq, Repr

inductive LogRecord where
  | compiled (rules nodes entries : Nat) (openPredicate : Bool)
  | axiomsFired (count : Nat)
  | rawQueued (count : Nat) (openPredicate : Bool)
  | deleted (t : Triple) (wasDeduced : Bool)
  | processing (t : Triple)
  | matched (t : Triple) (clause : Nat) (rule : RuleId)
  | fired (rule : String) (trigger : Option Triple)
  | deduced (t : Triple)
deriving DecidableEq, Repr

abbrev Journal := Array LogRecord

namespace LogRecord

def level : LogRecord → LogLevel
  | .compiled .. | .axiomsFired _ | .rawQueued .. => .debug
  | .deleted .. => .warn
  | .processing _ | .matched .. | .fired .. | .deduced _ => .trace

def tripleText (t : Triple) : String :=
  "Triple \x7b subject: " ++ toString t.subject ++ ", predicate: " ++ toString t.predicate ++
    ", object: " ++ toString t.object ++ " \x7d"

def triggerText : Option Triple → String
  | some t => "Some(" ++ tripleText t ++ ")"
  | none => "None"

def message : LogRecord → String
  | .compiled rules nodes entries openPredicate =>
    s!"Compiled {rules} rules into {nodes} nodes ({entries} clause index entries, " ++
      s!"wildcard: {openPredicate})"
  | .axiomsFired count => s!"Axioms fired {count} rules"
  | .rawQueued count openPredicate =>
    s!"Bootstrap scan queued {count} raw triples (wildcard: {openPredicate})"
  | .deleted t wasDeduced =>
    "Deleted " ++ tripleText t ++
      s!" (deduction: {wasDeduced}); facts derived from it are not retracted"
  | .processing t => "Processing: " ++ tripleText t
  | .matched t clause rule => tripleText t ++ s!" matched clause {clause} of rule {rule}"
  | .fired rule trigger => s!"Fired rule {rule} on " ++ triggerText trigger
  | .deduced t => "  deduced " ++ tripleText t

end LogRecord

def LogLevel.name : LogLevel → String
  | .warn => "WARN"
  | .debug => "DEBUG"
  | .trace => "TRACE"

end TripleInference
