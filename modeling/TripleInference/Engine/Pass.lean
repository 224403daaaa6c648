import TripleInference.Engine.Basic
import TripleInference.Network.Descent

/-!
One pass of an engine: working off an agenda, first in first out, until nothing is pending. Every
triple descends through the network; the body matches it yields are then fired, and what they newly
deduce goes into the deductions and onto the agenda. What is kept while one triple is worked on, the
next one starts without.
-/
namespace TripleInference

structure Agenda where
  front : List Triple
  /-- The triples after those, latest first. -/
  back : List Triple
  /-- The rules already counted for the triple in hand. -/
  fired : Std.ExtTreeSet RuleId
  memory : Arrivals

namespace Agenda

def empty : Agenda := ⟨[], [], ∅, ∅⟩

instance : EmptyCollection Agenda := ⟨empty⟩

instance : Inhabited Agenda := ⟨empty⟩

def pending (a : Agenda) : List Triple := a.front ++ a.back.reverse

def size (a : Agenda) : Nat := a.front.length + a.back.length

def enqueue (a : Agenda) (t : Triple) : Agenda := { a with back := t :: a.back }

def enqueueAll (a : Agenda) (ts : List Triple) : Agenda := ts.foldl enqueue a

def next (a : Agenda) : Option Triple × Agenda :=
  match a.front with
  | t :: front => (some t, ⟨front, a.back, ∅, ∅⟩)
  | [] =>
    match a.back.reverse with
    | t :: front => (some t, ⟨front, [], ∅, ∅⟩)
    | [] => (none, ⟨[], [], ∅, ∅⟩)

def noteFired (a : Agenda) (rule : RuleId) : Bool × Agenda :=
  if a.fired.contains rule then (false, a) else (true, { a with fired := a.fired.insert rule })

theorem size_eq_length_pending (a : Agenda) : a.size = a.pending.length := by
  simp [size, pending]

@[simp] theorem pending_enqueue (a : Agenda) (t : Triple) :
    (a.enqueue t).pending = a.pending ++ [t] := by
  simp [enqueue, pending]

theorem pending_enqueueAll (a : Agenda) (ts : List Triple) :
    (a.enqueueAll ts).pending = a.pending ++ ts := by
  induction ts generalizing a with
  | nil => simp [enqueueAll]
  | cons t ts ih => simpa [enqueueAll] using ih (a.enqueue t)

theorem next_eq (a : Agenda) :
    a.next.1 = a.pending.head? ∧ a.next.2.pending = a.pending.tail := by
  obtain ⟨front, back, fired, memory⟩ := a
  cases front with
  | cons t front => simp [next, pending]
  | nil => cases h : back.reverse <;> simp [next, pending, h]

end Agenda

structure Pass (R D : Type) where
  engine : Engine R D
  agenda : Agenda

namespace Pass

variable {R D : Type}

def onEngine {α : Type} (m : Step Failure (Engine R D) α) : Step Failure (Pass R D) α :=
  m.within (·.engine) (fun engine pass => { pass with engine }) id

def modifyEngine (change : Engine R D → Engine R D) : Step Failure (Pass R D) Unit :=
  modify fun pass => { pass with engine := change pass.engine }

def enqueue (t : Triple) : Step Failure (Pass R D) Unit :=
  modify fun pass => { pass with agenda := pass.agenda.enqueue t }

def next : Step Failure (Pass R D) (Option Triple) :=
  fun pass =>
    let (t, agenda) := pass.agenda.next
    (.ok t, { pass with agenda })

def countFiring (rule : RuleId) (r : Rule) (trigger : Option Triple) :
    Step Failure (Pass R D) Unit :=
  modify fun pass =>
    match pass.agenda.noteFired rule with
    | (true, agenda) =>
      { engine := { pass.engine with firings := pass.engine.firings + 1 }.traceRecord
          (.fired r.label trigger)
        agenda }
    | (false, agenda) => { pass with agenda }

def matchTriple [TripleSource R] [TripleSource D] (rules : CompiledRules) (t : Triple) :
    Step Failure (Pass R D) (List BodyMatch) :=
  (Descent.offerAll rules t).within
    (fun pass => ⟨pass.engine.graph, pass.agenda.memory, #[], pass.engine.journal⟩)
    (fun descent pass =>
      { engine := { pass.engine with graph := descent.graph, journal := descent.journal }
        agenda := { pass.agenda with memory := descent.memory } })
    id

variable [TripleSource R] [TripleSink D]

/-- Asserts those conclusions of an activation that are not known yet, and returns them. -/
def conclude (r : Rule) (a : BodyMatch) (trigger : Option Triple) :
    List Triple → Step Failure (Pass R D) (List Triple)
  | [] => return []
  | t :: rest => do
    if ← onEngine (Engine.onGraph (InferenceGraph.contains t)) then
      conclude r a trigger rest
    else
      discard <| onEngine (Engine.onGraph (InferenceGraph.onDeductions (TripleSink.add t)))
      enqueue t
      modifyEngine fun e =>
        (e.recordDerivation ⟨a.rule, r.label, t, trigger, a.bindings.values⟩).traceRecord
          (.deduced t)
      return t :: (← conclude r a trigger rest)

def fire (rules : CompiledRules) (trigger : Option Triple) (a : BodyMatch) :
    Step Failure (Pass R D) (List Triple) := do
  match rules.rule? a.rule with
  | none => throw (.wiring (.unknownRule a.rule))
  | some r =>
    let conclusions ← Step.ofExcept .rule (r.instantiate a.bindings)
    countFiring a.rule r trigger
    conclude r a trigger conclusions

def fireAll (rules : CompiledRules) (trigger : Option Triple) :
    List BodyMatch → Step Failure (Pass R D) (List Triple)
  | [] => return []
  | a :: rest => do
    let deduced ← fire rules trigger a
    return deduced ++ (← fireAll rules trigger rest)

def work (rules : CompiledRules) (t : Triple) : Step Failure (Pass R D) (List Triple) := do
  fireAll rules (some t) (← matchTriple rules t)

/-- Works off the agenda and returns the triples worked on, in order. `limit` bounds their
number. -/
def settle (rules : CompiledRules) : Nat → Step Failure (Pass R D) (List Triple)
  | 0 => return []
  | limit + 1 => do
    match ← next with
    | none => return []
    | some t =>
      modifyEngine (·.traceRecord (.processing t))
      discard <| work rules t
      return t :: (← settle rules limit)

/-- The number of triples there are. A pass puts a triple on its agenda when it first becomes
known, so it works on at most that many besides those it began with. -/
def tripleCount : Nat := UInt32.size * UInt32.size * UInt32.size

def settleAll (rules : CompiledRules) : Step Failure (Pass R D) (List Triple) := do
  settle rules ((← get).agenda.size + tripleCount)

end Pass

end TripleInference
