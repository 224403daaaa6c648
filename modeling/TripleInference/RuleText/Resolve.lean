import TripleInference.Fact.Wording
import TripleInference.RuleText.Reader
import TripleInference.Step

/-!
From written rules to rules: constants are numbered by a vocabulary, and the variables of each rule
by their first appearance, body before head. A literal keeps its quotes, so it is the same constant
as an IRI only if the quotes are part of the IRI. A document that cannot be read leaves the
vocabulary as it was.
-/
namespace TripleInference
namespace RuleText

abbrev Shorthands := Std.ExtTreeMap String String

/-- A name whose part before the first colon is a shorthand is expanded; others stay as written. -/
def expand (shorthands : Shorthands) (word : String) : String :=
  match word.toList.dropWhile (· != ':') with
  | [] => word
  | _ :: rest =>
    match shorthands[String.ofList (word.toList.takeWhile (· != ':'))]? with
    | some expansion => expansion ++ String.ofList rest
    | none => word

structure Numbering where
  vocabulary : Vocabulary
  names : List String

def numberVariable (name : String) : StateM Numbering Nat := fun n =>
  match n.names.idxOf? name with
  | some index => (index, n)
  | none => (n.names.length, { n with names := n.names ++ [name] })

def numberWord (word : String) : StateM Numbering TermId := fun n =>
  let (id, vocabulary) := n.vocabulary.encode word
  (id, { n with vocabulary })

def resolveTerm (shorthands : Shorthands) : WrittenTerm → StateM Numbering Term
  | .var name => return .var (← numberVariable name)
  | .wildcard => return .wildcard
  | .name word => return .constant (← numberWord (expand shorthands word))
  | .iri text => return .constant (← numberWord text)
  | .literal text => return .constant (← numberWord ("\"" ++ text ++ "\""))

def resolvePattern (shorthands : Shorthands) (p : WrittenPattern) : StateM Numbering Pattern :=
  return ⟨← resolveTerm shorthands p.subject, ← resolveTerm shorthands p.predicate,
    ← resolveTerm shorthands p.object⟩

def resolvePatterns (shorthands : Shorthands) :
    List WrittenPattern → StateM Numbering (List Pattern)
  | [] => return []
  | p :: rest => do
    let p ← resolvePattern shorthands p
    return p :: (← resolvePatterns shorthands rest)

def resolveRule (shorthands : Shorthands) (r : WrittenRule) (v : Vocabulary) : Rule × Vocabulary :=
  let (body, n) := resolvePatterns shorthands r.body ⟨v, []⟩
  let (head, n) := resolvePatterns shorthands r.head n
  ({ name := r.name, body, head, numVars := n.names.length, direction := r.direction },
    n.vocabulary)

/-- The rules of a document. A shorthand may be declared again; each rule goes by the declarations
before it. -/
def resolve : List Statement → Shorthands → Vocabulary → List Rule × Vocabulary
  | [], _, v => ([], v)
  | .declaration shorthand expansion :: rest, shorthands, v =>
    resolve rest (shorthands.insert shorthand expansion) v
  | .rule r :: rest, shorthands, v =>
    let (r, v) := resolveRule shorthands r v
    let (rules, v) := resolve rest shorthands v
    (r :: rules, v)

def read (text : String) : Step SyntaxError Vocabulary (List Rule) := fun v =>
  match document text.toList with
  | .error e => (.error e, v)
  | .ok statements =>
    let (rules, v) := resolve statements ∅ v
    (.ok rules, v)

end RuleText
end TripleInference
