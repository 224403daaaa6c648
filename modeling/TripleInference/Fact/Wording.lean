import Std.Data.ExtTreeMap
import TripleInference.Rule.Basic

/-!
Words and their numbers. A vocabulary numbers the words it has met, in order of first appearance. A
word keeps its number for good. Facts, terms and patterns are put into words by it.
-/
namespace TripleInference

structure Vocabulary where
  words : Array String
  numbers : Std.ExtTreeMap String TermId

namespace Vocabulary

def empty : Vocabulary := ⟨#[], ∅⟩

instance : EmptyCollection Vocabulary := ⟨empty⟩

instance : Inhabited Vocabulary := ⟨empty⟩

instance : BEq Vocabulary := ⟨fun v w => v.words == w.words⟩

def size (v : Vocabulary) : Nat := v.words.size

def isEmpty (v : Vocabulary) : Bool := v.words.isEmpty

def lookup (v : Vocabulary) (word : String) : Option TermId := v.numbers[word]?

def decode (v : Vocabulary) (id : TermId) : Option String := v.words[id.toNat]?

/-- The number of a word; a new word gets the next free one. -/
def encode (v : Vocabulary) (word : String) : TermId × Vocabulary :=
  match v.lookup word with
  | some id => (id, v)
  | none =>
    let id := UInt32.ofNat v.words.size
    (id, ⟨v.words.push word, v.numbers.insert word id⟩)

def encodeTriple (v : Vocabulary) (subject predicate object : String) : Triple × Vocabulary :=
  let (s, v) := v.encode subject
  let (p, v) := v.encode predicate
  let (o, v) := v.encode object
  (⟨s, p, o⟩, v)

def wordOf (v : Vocabulary) (id : TermId) : String := (v.decode id).getD "unknown"

def sentence (v : Vocabulary) (t : Triple) : String :=
  s!"{v.wordOf t.subject} {v.wordOf t.predicate} {v.wordOf t.object} ."

end Vocabulary

namespace Vocabulary

def termText (v : Vocabulary) : Term → String
  | .constant id => v.wordOf id
  | .var index => s!"?{index}"
  | .wildcard => "_"

def patternText (v : Vocabulary) (p : Pattern) : String :=
  s!"({v.termText p.subject} {v.termText p.predicate} {v.termText p.object})"

end Vocabulary

end TripleInference
