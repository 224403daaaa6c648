import TripleInference.Rule.Basic
import TripleInference.Text.Alphanumeric

/-!
Rule documents and reading them. A document declares shorthands and has rules whose terms are still
words. A reader takes what it wants from the front of a text and returns the rest; words and names
are as long as they can be. Between the parts there may be layout: blanks, and comments, which run
from a number sign to the end of the line or of the text. A carriage return ends a line only together
with the line feed after it; a comment that meets a lone one is none.
-/
namespace TripleInference

inductive WrittenTerm where
  | var (name : String)
  | wildcard
  | name (word : String)
  | iri (text : String)
  | literal (text : String)
deriving DecidableEq, Repr

structure WrittenPattern where
  subject : WrittenTerm
  predicate : WrittenTerm
  object : WrittenTerm
deriving DecidableEq, Repr

structure WrittenRule where
  name : Option String
  body : List WrittenPattern
  head : List WrittenPattern
  direction : Direction
deriving DecidableEq, Repr

inductive Statement where
  | declaration (shorthand expansion : String)
  | rule (r : WrittenRule)
deriving DecidableEq, Repr

namespace RuleText

/-- Drops layout. Inside a comment, `comment` is the text from its number sign on. -/
def skip : Option (List Char) → List Char → List Char
  | none, [] => []
  | none, c :: rest =>
    if Text.isBlank c then skip none rest
    else if c == '#' then skip (some (c :: rest)) rest
    else c :: rest
  | some _, [] => []
  | some comment, c :: rest =>
    if c == '\n' then skip none rest
    else if c == '\r' then
      if rest.head? == some '\n' then skip none rest else comment
    else skip (some comment) rest

def skipLayout (s : List Char) : List Char := skip none s

def skipSeparator (s : List Char) : List Char :=
  match skipLayout s with
  | ',' :: rest => skipLayout rest
  | rest => rest

abbrev Reader (α : Type) := List Char → Option (α × List Char)

def expect : List Char → List Char → Option (List Char)
  | [], s => some s
  | c :: cs, d :: s => if c == d then expect cs s else none
  | _ :: _, [] => none

def run (kind : Char → Bool) : Reader String := fun s =>
  match s.takeWhile kind with
  | [] => none
  | word => some (String.ofList word, s.dropWhile kind)

def closedBy (close : Char) : Reader String := fun s =>
  match s.dropWhile (· != close) with
  | [] => none
  | _ :: rest => some (String.ofList (s.takeWhile (· != close)), rest)

def term : Reader WrittenTerm
  | '?' :: s => (run Text.isWordChar s).map fun (name, s) => (.var name, s)
  | '<' :: s => (closedBy '>' s).map fun (text, s) => (.iri text, s)
  | '"' :: s => (closedBy '"' s).map fun (text, s) => (.literal text, s)
  | s => (run Text.isNameChar s).map fun (word, s) =>
      (if word = "_" then .wildcard else .name word, s)

def pattern : Reader WrittenPattern := fun s => do
  let s ← expect ['('] s
  let (subject, s) ← term (skipLayout s)
  let (predicate, s) ← term (skipSeparator s)
  let (object, s) ← term (skipSeparator s)
  let s ← expect [')'] (skipLayout s)
  return (⟨subject, predicate, object⟩, s)

/-- Reads as many items as there are, with `gap` dropped after each; no more than `limit`. -/
def many {α : Type} (item : Reader α) (gap : List Char → List Char) :
    Nat → List Char → List α × List Char
  | 0, s => ([], s)
  | limit + 1, s =>
    match item s with
    | none => ([], s)
    | some (x, s) =>
      let (xs, s) := many item gap limit (gap s)
      (x :: xs, s)

def patterns (s : List Char) : List WrittenPattern × List Char :=
  many pattern skipSeparator s.length s

/-- Reads the name of a rule, which a colon follows; a rule may have none. -/
def ruleName (s : List Char) : Option String × List Char :=
  match run Text.isWordChar s with
  | none => (none, s)
  | some (name, rest) =>
    match skipLayout rest with
    | ':' :: rest => (some name, rest)
    | _ => (none, s)

def arrow : Reader Direction
  | '-' :: '>' :: s => some (.forward, s)
  | '<' :: '-' :: s => some (.backward, s)
  | _ => none

def rule : Reader WrittenRule := fun s => do
  let s ← expect ['['] s
  let (name, s) := ruleName (skipLayout s)
  let (left, s) := patterns (skipLayout s)
  let (direction, s) ← arrow s
  let (right, s) := patterns (skipLayout s)
  let s ← expect [']'] s
  match direction with
  | .forward => return ({ name, body := left, head := right, direction }, s)
  | .backward => return ({ name, body := right, head := left, direction }, s)

def skipBlanks : List Char → Option (List Char)
  | [] => none
  | c :: s => if Text.isBlank c then some (s.dropWhile Text.isBlank) else none

def declaration : Reader (String × String) := fun s => do
  let s ← expect "@prefix".toList s
  let s ← skipBlanks s
  let shorthand := s.takeWhile Text.isWordChar
  let s ← expect [':'] (s.dropWhile Text.isWordChar)
  let s ← expect ['<'] (skipLayout s)
  let (expansion, s) ← closedBy '>' s
  let s ← expect ['.'] (skipLayout s)
  return ((String.ofList shorthand, expansion), s)

def statement : Reader Statement := fun s =>
  match declaration s with
  | some ((shorthand, expansion), s) => some (.declaration shorthand expansion, s)
  | none => (rule s).map fun (r, s) => (.rule r, s)

def statements (s : List Char) : List Statement × List Char :=
  let s := skipLayout s
  many statement skipLayout s.length s

structure SyntaxError where
  /-- The first characters that could not be read, at most forty. -/
  near : String
deriving DecidableEq, Repr

def SyntaxError.message (e : SyntaxError) : String :=
  "rule syntax error: unexpected input near `" ++ e.near ++ "`"

def document (s : List Char) : Except SyntaxError (List Statement) :=
  match statements s with
  | (read, []) => .ok read
  | (_, rest) => .error ⟨String.ofList (rest.take 40)⟩

end RuleText

end TripleInference
