import TripleInference.Fact.Index
import TripleInference.Rule.Basic

/-!
Facts, patterns, rules and indexes as plain data and back. Data is what a value looks like outside,
before any format.
-/
namespace TripleInference

inductive Datum where
  | null
  | bool (b : Bool)
  | integer (n : Int)
  /-- A number that is not written as an integer. Nothing here reads one. -/
  | fraction
  | text (s : String)
  | list (items : List Datum)
  | record (fields : List (String × Datum))

namespace Datum

instance : Inhabited Datum := ⟨.null⟩

def natural? : Datum → Option Nat
  | .integer n => if 0 ≤ n then some n.toNat else none
  | _ => none

def count? (d : Datum) : Option Nat := d.natural?.filter (· < UInt64.size)

def id? (d : Datum) : Option TermId := (d.natural?.filter (· < UInt32.size)).map UInt32.ofNat

def items? : Datum → Option (List Datum)
  | .list items => some items
  | _ => none

/-- The values of named fields. A record may leave fields out and have others besides; a list gives
all fields in order, without names. -/
def fields? (names : List String) : Datum → Option (List (Option Datum))
  | .record fields => some (names.map fun name => List.lookup name fields)
  | .list items => if items.length = names.length then some (items.map some) else none
  | _ => none

def kind? : Datum → Option (String × Option Datum)
  | .text name => some (name, none)
  | .record [(name, value)] => some (name, some value)
  | _ => none

def isVoid : Option Datum → Bool
  | none | some .null => true
  | _ => false

def ofId (id : TermId) : Datum := .integer id.toNat

def ofNat (n : Nat) : Datum := .integer n

end Datum

namespace Triple

def toDatum (t : Triple) : Datum :=
  .record [("subject", .ofId t.subject), ("predicate", .ofId t.predicate),
    ("object", .ofId t.object)]

def ofDatum? (d : Datum) : Option Triple :=
  match d.fields? ["subject", "predicate", "object"] with
  | some [some s, some p, some o] => return ⟨← s.id?, ← p.id?, ← o.id?⟩
  | _ => none

end Triple

namespace Term

def toDatum : Term → Datum
  | .constant id => .record [("Constant", .ofId id)]
  | .var index => .record [("Variable", .ofNat index)]
  | .wildcard => .text "Wildcard"

def ofDatum? (d : Datum) : Option Term :=
  match d.kind? with
  | some ("Constant", some value) => value.id?.map .constant
  | some ("Variable", some value) => value.count?.map .var
  | some ("Wildcard", value) => if Datum.isVoid value then some .wildcard else none
  | _ => none

end Term

namespace Pattern

def toDatum (p : Pattern) : Datum :=
  .record [("subject", p.subject.toDatum), ("predicate", p.predicate.toDatum),
    ("object", p.object.toDatum)]

def ofDatum? (d : Datum) : Option Pattern :=
  match d.fields? ["subject", "predicate", "object"] with
  | some [some s, some p, some o] =>
    return ⟨← Term.ofDatum? s, ← Term.ofDatum? p, ← Term.ofDatum? o⟩
  | _ => none

end Pattern

namespace Direction

def toDatum : Direction → Datum
  | .forward => .text "Forward"
  | .backward => .text "Backward"

def ofDatum? (d : Datum) : Option Direction :=
  match d.kind? with
  | some ("Forward", value) => if Datum.isVoid value then some .forward else none
  | some ("Backward", value) => if Datum.isVoid value then some .backward else none
  | _ => none

end Direction

namespace Rule

def toDatum (r : Rule) : Datum :=
  .record [("name", match r.name with | some name => .text name | none => .null),
    ("body", .list (r.body.map Pattern.toDatum)), ("head", .list (r.head.map Pattern.toDatum)),
    ("num_vars", .ofNat r.numVars), ("direction", r.direction.toDatum)]

def nameOfDatum? : Option Datum → Option (Option String)
  | none | some .null => some none
  | some (.text name) => some (some name)
  | _ => none

def patternsOfDatum? (d : Datum) : Option (List Pattern) := do
  (← d.items?).mapM Pattern.ofDatum?

def ofDatum? (d : Datum) : Option Rule :=
  match d.fields? ["name", "body", "head", "num_vars", "direction"] with
  | some [name, some body, some head, some numVars, some direction] => do
    return { name := ← nameOfDatum? name, body := ← patternsOfDatum? body
             head := ← patternsOfDatum? head, numVars := ← numVars.count?
             direction := ← Direction.ofDatum? direction }
  | _ => none

end Rule

namespace Rotation

def toDatum (r : Rotation) : Datum :=
  .record <| r.levels.map fun (a, branch) =>
    (toString a, .record <| branch.map fun (b, values) =>
      (toString b, .list (values.map Datum.ofId)))

def idOfName? (name : String) : Option TermId :=
  (name.toNat?.filter fun n => n < UInt32.size && toString n == name).map UInt32.ofNat

def entries? : Datum → Option (List (TermId × Datum))
  | .record fields => fields.mapM fun (name, value) => do return (← idOfName? name, value)
  | _ => none

def ofDatum? (d : Datum) : Option Rotation := do
  let triples ← (← entries? d).mapM fun (a, branch) => do
    (← entries? branch).mapM fun (b, leaf) => do
      return (← (← leaf.items?).mapM Datum.id?).map fun c => (a, b, c)
  return triples.flatten.flatten.foldl (fun r (a, b, c) => r.insert a b c) ∅

end Rotation

namespace FactIndex

def toDatum (x : FactIndex) : Datum :=
  .record [("spo", x.spo.toDatum), ("pos", x.pos.toDatum), ("osp", x.osp.toDatum),
    ("len", .ofNat x.size)]

def ofDatum? (d : Datum) : Option FactIndex :=
  match d.fields? ["spo", "pos", "osp", "len"] with
  | some [some spo, some pos, some osp, some size] =>
    return ⟨← Rotation.ofDatum? spo, ← Rotation.ofDatum? pos, ← Rotation.ofDatum? osp,
      ← size.count?⟩
  | _ => none

end FactIndex

end TripleInference
