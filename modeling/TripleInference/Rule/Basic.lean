import TripleInference.Fact.Triple

/-!
Rules: when every body pattern matches, every head pattern is asserted. The slots of a pattern are
constants, numbered variables or wildcards. A rule without a body is an axiom. A rule can be
compiled if every variable has room, every variable of the head occurs in the body, and the head has
no wildcard; one that breaks several of these is faulted for the first.
-/
namespace TripleInference

/-- A slot of a pattern. A variable is an ordinal of the rule it stands in; a wildcard fits
anything and binds nothing. -/
inductive Term where
  | constant (id : TermId)
  | var (index : Nat)
  | wildcard
deriving DecidableEq, Repr, Ord

namespace Term

def constant? : Term → Option TermId
  | .constant id => some id
  | _ => none

def ordinal? : Term → Option Nat
  | .var index => some index
  | _ => none

theorem constant?_eq_some_iff {t : Term} {id : TermId} :
    t.constant? = some id ↔ t = .constant id := by
  cases t <;> simp [constant?]

theorem constant?_eq_none_iff {t : Term} : t.constant? = none ↔ ∀ id, t ≠ .constant id := by
  cases t <;> simp [constant?]

end Term

inductive Slot where
  | subject
  | predicate
  | object
deriving DecidableEq, Repr

namespace Slot

def all : List Slot := [.subject, .predicate, .object]

def of : Slot → Triple → TermId
  | .subject, t => t.subject
  | .predicate, t => t.predicate
  | .object, t => t.object

end Slot

structure Pattern where
  subject : Term
  predicate : Term
  object : Term
deriving DecidableEq, Repr

namespace Pattern

def term (p : Pattern) : Slot → Term
  | .subject => p.subject
  | .predicate => p.predicate
  | .object => p.object

def varSlots (p : Pattern) : List (Slot × Nat) :=
  Slot.all.filterMap fun slot => (p.term slot).ordinal?.map (slot, ·)

def constantSlots (p : Pattern) : List (Slot × TermId) :=
  Slot.all.filterMap fun slot => (p.term slot).constant?.map (slot, ·)

def ordinals (p : Pattern) : List Nat := p.varSlots.map (·.2)

def addOrdinals (p : Pattern) (known : List Nat) : List Nat :=
  p.ordinals.foldl (fun vs v => if v ∈ vs then vs else vs ++ [v]) known

def distinctOrdinals (p : Pattern) : List Nat := p.addOrdinals []

def toTriple? (p : Pattern) : Option Triple := do
  return ⟨← p.subject.constant?, ← p.predicate.constant?, ← p.object.constant?⟩

def lookup (p : Pattern) : Lookup :=
  ⟨p.subject.constant?, p.predicate.constant?, p.object.constant?⟩

def hasWildcard (p : Pattern) : Bool :=
  p.subject == .wildcard || p.predicate == .wildcard || p.object == .wildcard

end Pattern

/-- Which way a rule was written. A backward rule puts its head first; an engine may be told to
leave such rules out. -/
inductive Direction where
  | forward
  | backward
deriving DecidableEq, Repr

abbrev RuleId := Nat

structure Rule where
  name : Option String
  body : List Pattern
  head : List Pattern
  /-- How many variables a match has room for. -/
  numVars : Nat
  direction : Direction
deriving DecidableEq, Repr

namespace Rule

def patterns (r : Rule) : List Pattern := r.body ++ r.head

def roomFor (ps : List Pattern) : Nat :=
  (ps.flatMap Pattern.ordinals).foldl (fun room v => max room (v + 1)) 0

def ofPatterns (body head : List Pattern) : Rule :=
  { name := none, body, head, numVars := roomFor (body ++ head), direction := .forward }

def unconditional (head : List Pattern) : Rule := ofPatterns [] head

def named (r : Rule) (name : String) : Rule := { r with name := some name }

def reversed (r : Rule) : Rule := { r with direction := .backward }

def isAxiom (r : Rule) : Bool := r.body.isEmpty

def isBackward (r : Rule) : Bool := r.direction == .backward

def label (r : Rule) : String := r.name.getD "<anonymous>"

end Rule

inductive RuleFault where
  | variableOutOfRange (rule : String) (index numVars : Nat)
  | unboundHeadVariable (rule : String) (index : Nat)
  | wildcardInHead (rule : String)
deriving DecidableEq, Repr

def RuleFault.message : RuleFault → String
  | .variableOutOfRange rule index numVars =>
    s!"rule {rule}: variable ?{index} is out of range (rule declares {numVars} variables)"
  | .unboundHeadVariable rule index =>
    s!"rule {rule}: head variable ?{index} is not bound by the body"
  | .wildcardInHead rule => s!"rule {rule}: wildcard in head pattern"

namespace Rule

def ordinals (r : Rule) : List Nat := r.patterns.flatMap Pattern.ordinals

def checkRoom (r : Rule) : Except RuleFault Unit :=
  match r.ordinals.find? (r.numVars ≤ ·) with
  | some index => .error (.variableOutOfRange r.label index r.numVars)
  | none => .ok ()

def binds (r : Rule) (v : Nat) : Bool :=
  v < r.numVars && (r.body.flatMap Pattern.ordinals).contains v

def unboundInHead (r : Rule) : List Nat :=
  (Std.ExtTreeSet.ofList ((r.head.flatMap Pattern.ordinals).filter (!r.binds ·))).toList

def headHasWildcard (r : Rule) : Bool := r.head.any Pattern.hasWildcard

def check (r : Rule) : Except RuleFault Unit :=
  match r.checkRoom, r.unboundInHead with
  | .error fault, _ => .error fault
  | .ok (), index :: _ => .error (.unboundHeadVariable r.label index)
  | .ok (), [] => if r.headHasWildcard then .error (.wildcardInHead r.label) else .ok ()

end Rule

end TripleInference
