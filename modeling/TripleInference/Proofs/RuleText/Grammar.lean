import TripleInference.RuleText.Reader

/-!
The grammar of rule documents, said without a reader: how terms, patterns, rules and declarations
are spelled, and where layout stands between their parts. Only layout and commas are left to the
writer; all else is determined by what is written.
-/
namespace TripleInference

namespace WrittenTerm

def token : WrittenTerm → List Char
  | .var word => '?' :: word.toList
  | .wildcard => ['_']
  | .name word => word.toList
  | .iri text => '<' :: (text.toList ++ ['>'])
  | .literal text => '"' :: (text.toList ++ ['"'])

/-- Which terms have a spelling. A name that is a single underscore would be a wildcard. -/
def Writable : WrittenTerm → Prop
  | .var word => word.toList ≠ [] ∧ ∀ c ∈ word.toList, Text.isWordChar c = true
  | .wildcard => True
  | .name word =>
    word.toList ≠ [] ∧ word.toList ≠ ['_'] ∧ ∀ c ∈ word.toList, Text.isNameChar c = true
  | .iri text => '>' ∉ text.toList
  | .literal text => '"' ∉ text.toList

/-- The characters that would belong to a term if they came right after it. -/
def extendedBy : WrittenTerm → Char → Bool
  | .var _, c => Text.isWordChar c
  | .wildcard, c => Text.isNameChar c
  | .name _, c => Text.isNameChar c
  | .iri _, _ => false
  | .literal _, _ => false

end WrittenTerm

namespace RuleText

def OneLine (s : List Char) : Prop := ∀ c ∈ s, c ≠ '\n' ∧ c ≠ '\r'

/-- Blanks and comments, in any mix. A comment runs up to the end of its line. -/
inductive Layout : List Char → Prop where
  | nil : Layout []
  | blank {c : Char} {s : List Char} : Text.isBlank c = true → Layout s → Layout (c :: s)
  | comment {text lineEnd s : List Char} : OneLine text →
    lineEnd = ['\n'] ∨ lineEnd = ['\r', '\n'] → Layout s → Layout ('#' :: (text ++ (lineEnd ++ s)))

/-- Layout at the end of a text, which may end a comment too. -/
def FinalLayout (s : List Char) : Prop :=
  Layout s ∨ ∃ before text, Layout before ∧ OneLine text ∧ s = before ++ '#' :: text

def Separator (s : List Char) : Prop :=
  Layout s ∨ ∃ before after, Layout before ∧ Layout after ∧ s = before ++ ',' :: after

/-- What stands between two terms. There may be nothing where the second term does not begin like
a continuation of the first. -/
structure Between (t u : WrittenTerm) (s : List Char) : Prop where
  separator : Separator s
  apart : s = [] → ∀ c ∈ u.token.head?, t.extendedBy c = false

inductive PatternText : WrittenPattern → List Char → Prop where
  | mk {p : WrittenPattern} {before first second after : List Char} : Layout before →
    p.subject.Writable → Between p.subject p.predicate first → p.predicate.Writable →
    Between p.predicate p.object second → p.object.Writable → Layout after →
    PatternText p ('(' :: (before ++ (p.subject.token ++ (first ++ (p.predicate.token ++
      (second ++ (p.object.token ++ (after ++ [')']))))))))

inductive PatternsText : List WrittenPattern → List Char → Prop where
  | nil : PatternsText [] []
  | cons {p : WrittenPattern} {ps : List WrittenPattern} {text gap rest : List Char} :
    PatternText p text → Separator gap → PatternsText ps rest →
    PatternsText (p :: ps) (text ++ (gap ++ rest))

inductive NameText : Option String → List Char → Prop where
  | unnamed : NameText none []
  | named {name : String} {before after : List Char} : name.toList ≠ [] →
    (∀ c ∈ name.toList, Text.isWordChar c = true) → Layout before → Layout after →
    NameText (some name) (name.toList ++ (before ++ ':' :: after))

def arrowText : Direction → List Char
  | .forward => ['-', '>']
  | .backward => ['<', '-']

def leftOf (r : WrittenRule) : List WrittenPattern :=
  match r.direction with
  | .forward => r.body
  | .backward => r.head

def rightOf (r : WrittenRule) : List WrittenPattern :=
  match r.direction with
  | .forward => r.head
  | .backward => r.body

inductive WrittenRuleText : WrittenRule → List Char → Prop where
  | mk {r : WrittenRule} {before name left after right : List Char} : Layout before →
    NameText r.name name → PatternsText (leftOf r) left → Layout after →
    PatternsText (rightOf r) right →
    WrittenRuleText r ('[' :: (before ++ (name ++ (left ++ (arrowText r.direction ++
      (after ++ (right ++ [']'])))))))

inductive DeclarationText : String → String → List Char → Prop where
  | mk {shorthand expansion : String} {blanks before after : List Char} : blanks ≠ [] →
    (∀ c ∈ blanks, Text.isBlank c = true) →
    (∀ c ∈ shorthand.toList, Text.isWordChar c = true) → Layout before →
    '>' ∉ expansion.toList → Layout after →
    DeclarationText shorthand expansion ("@prefix".toList ++ (blanks ++ (shorthand.toList ++
      ':' :: (before ++ '<' :: (expansion.toList ++ '>' :: (after ++ ['.']))))))

def StatementText : Statement → List Char → Prop
  | .declaration shorthand expansion => DeclarationText shorthand expansion
  | .rule r => WrittenRuleText r

inductive DocumentText : List Statement → List Char → Prop where
  | nil {s : List Char} : FinalLayout s → DocumentText [] s
  | cons {st : Statement} {rest : List Statement} {before text s : List Char} : Layout before →
    StatementText st text → DocumentText rest s → DocumentText (st :: rest) (before ++ (text ++ s))

end RuleText
end TripleInference
