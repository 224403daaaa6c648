import TripleInference.Rule.Basic

/-!
The bindings of one rule's variables, with a trail. Binding an open slot puts it on the trail;
restoring a snapshot reopens the slots bound since, and no others. Committing drops the trail, so
what was bound by then stays bound. Under bindings of all its variables a rule asserts the instance
of its head.
-/
namespace TripleInference

structure Bindings where
  values : List (Option TermId)
  /-- The slots that a restore may reopen, latest first. -/
  trail : List Nat
deriving DecidableEq, Repr

structure Snapshot where
  height : Nat
deriving DecidableEq, Repr

namespace Bindings

def ofSize (numVars : Nat) : Bindings := ⟨List.replicate numVars none, []⟩

def size (b : Bindings) : Nat := b.values.length

def isEmpty (b : Bindings) : Bool := b.values.isEmpty

def get? (b : Bindings) (index : Nat) : Option TermId := (b.values[index]?).join

/-- Binds an open slot; a bound slot has to hold the value already, and a slot that does not exist
never fits. -/
def bind (b : Bindings) (index : Nat) (value : TermId) : Bool × Bindings :=
  match b.values[index]? with
  | some (some bound) => (bound == value, b)
  | some none => (true, ⟨b.values.set index (some value), index :: b.trail⟩)
  | none => (false, b)

def bindAll : List (Nat × TermId) → Bindings → Bool × Bindings
  | [], b => (true, b)
  | (index, value) :: rest, b =>
    match b.bind index value with
    | (true, b) => bindAll rest b
    | (false, b) => (false, b)

def snapshot (b : Bindings) : Snapshot := ⟨b.trail.length⟩

/-- Reopens the slots bound since the snapshot. A snapshot above the trail changes nothing. -/
def restore (b : Bindings) (mark : Snapshot) : Bindings :=
  let later := b.trail.length - mark.height
  ⟨(b.trail.take later).foldl (fun values index => values.set index none) b.values,
    b.trail.drop later⟩

def commit (b : Bindings) : Bindings := { b with trail := [] }

def resolve (b : Bindings) : Term → Option TermId
  | .constant id => some id
  | .var index => b.get? index
  | .wildcard => none

def lookup (b : Bindings) (p : Pattern) : Lookup :=
  ⟨b.resolve p.subject, b.resolve p.predicate, b.resolve p.object⟩

def fit (b : Bindings) (value : TermId) : Term → Bool × Bindings
  | .constant id => (id == value, b)
  | .var index => b.bind index value
  | .wildcard => (true, b)

def unifySlots (p : Pattern) (t : Triple) : List Slot → Bindings → Bool × Bindings
  | [], b => (true, b)
  | slot :: rest, b =>
    match b.fit (slot.of t) (p.term slot) with
    | (true, b) => unifySlots p t rest b
    | (false, b) => (false, b)

/-- Matches a triple against a pattern. When it fails, slots bound on the way stay bound until a
snapshot is restored. -/
def unify (b : Bindings) (p : Pattern) (t : Triple) : Bool × Bindings := unifySlots p t Slot.all b

def bound (b : Bindings) : List (Nat × TermId) :=
  b.values.zipIdx.filterMap fun (value, index) => value.map (index, ·)

def agreeOn (b c : Bindings) (key : Nat) : Bool :=
  match b.get? key, c.get? key with
  | some x, some y => x == y
  | _, _ => false

/-- Takes over every slot bound in `c`. Both must agree on the keys, and no slot may hold two
values; otherwise nothing changes. -/
def merge (b c : Bindings) (keys : List Nat) : Bool × Bindings :=
  if keys.all (b.agreeOn c) then
    match bindAll c.bound b with
    | (true, merged) => (true, merged)
    | (false, partly) => (false, partly.restore b.snapshot)
  else (false, b)

end Bindings

namespace Rule

def instantiateTerm (r : Rule) (b : Bindings) : Term → Except RuleFault TermId
  | .constant id => .ok id
  | .var index =>
    match b.get? index with
    | some id => .ok id
    | none => .error (.unboundHeadVariable r.label index)
  | .wildcard => .error (.wildcardInHead r.label)

def instantiatePattern (r : Rule) (b : Bindings) (p : Pattern) : Except RuleFault Triple := do
  return ⟨← r.instantiateTerm b p.subject, ← r.instantiateTerm b p.predicate,
    ← r.instantiateTerm b p.object⟩

def instantiate (r : Rule) (b : Bindings) : Except RuleFault (List Triple) :=
  r.head.mapM (r.instantiatePattern b)

end Rule

end TripleInference
