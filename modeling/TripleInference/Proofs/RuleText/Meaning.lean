import Mathlib.Data.List.Forall2
import TripleInference.Proofs.Ending
import TripleInference.Proofs.Fact.Numbering
import TripleInference.Proofs.RuleText.Document
import TripleInference.RuleText.Resolve

/-!
What a document says, without the order in which reading it numbers things: which word each constant
stands for under the declarations before its rule, in which order words come to the vocabulary, and
which ordinal each variable has in its rule.
-/
namespace TripleInference

namespace RuleText

abbrev Declared := List (String × String)

/-- The word that a constant stands for. A literal keeps its quotes. A name is expanded when the
part before its first colon is declared. -/
inductive ConstantWord (declared : Declared) : WrittenTerm → String → Prop where
  | iri {text : String} : ConstantWord declared (.iri text) text
  | literal {text : String} : ConstantWord declared (.literal text) ("\"" ++ text ++ "\"")
  | expanded {shorthand rest expansion : String} : ':' ∉ shorthand.toList →
    declared.lookup shorthand = some expansion →
    ConstantWord declared (.name (shorthand ++ ":" ++ rest)) (expansion ++ rest)
  | plain {word : String} :
    (∀ shorthand rest : String, word = shorthand ++ ":" ++ rest → ':' ∉ shorthand.toList →
      declared.lookup shorthand = none) → ConstantWord declared (.name word) word

def isConstant : WrittenTerm → Bool
  | .var _ => false
  | .wildcard => false
  | _ => true

def varName? : WrittenTerm → Option String
  | .var name => some name
  | _ => none

def termsOf (p : WrittenPattern) : List WrittenTerm := [p.subject, p.predicate, p.object]

def ruleTerms (r : WrittenRule) : List WrittenTerm := (r.body ++ r.head).flatMap termsOf

def variableNames (r : WrittenRule) : List String := ((ruleTerms r).filterMap varName?).eraseDups

def rulesUnder : Declared → List Statement → List (Declared × WrittenRule)
  | _, [] => []
  | declared, .declaration shorthand expansion :: rest =>
    rulesUnder ((shorthand, expansion) :: declared) rest
  | declared, .rule r :: rest => (declared, r) :: rulesUnder declared rest

def constantsUnder (declared : Declared) (doc : List Statement) : List (Declared × WrittenTerm) :=
  (rulesUnder declared doc).flatMap fun (declared, r) =>
    ((ruleTerms r).filter isConstant).map (declared, ·)

/-- What a term means once all words are numbered and the variables of its rule are known. -/
inductive TermMeans (v : Vocabulary) (declared : Declared) (names : List String) :
    WrittenTerm → Term → Prop where
  | var {name : String} {index : Nat} : names[index]? = some name →
    TermMeans v declared names (.var name) (.var index)
  | wildcard : TermMeans v declared names .wildcard .wildcard
  | constant {t : WrittenTerm} {word : String} {id : TermId} : ConstantWord declared t word →
    v.lookup word = some id → TermMeans v declared names t (.constant id)

structure PatternMeans (v : Vocabulary) (declared : Declared) (names : List String)
    (p : WrittenPattern) (q : Pattern) : Prop where
  subject : TermMeans v declared names p.subject q.subject
  predicate : TermMeans v declared names p.predicate q.predicate
  object : TermMeans v declared names p.object q.object

structure RuleMeans (v : Vocabulary) (written : Declared × WrittenRule) (r : Rule) : Prop where
  name : r.name = written.2.name
  direction : r.direction = written.2.direction
  body : List.Forall₂ (PatternMeans v written.1 (variableNames written.2)) written.2.body r.body
  head : List.Forall₂ (PatternMeans v written.1 (variableNames written.2)) written.2.head r.head
  numVars : r.numVars = (variableNames written.2).length

def listNames (names more : List String) : List String :=
  more.foldl (fun names name => if name ∈ names then names else names ++ [name]) names

theorem listNames_append (names more more' : List String) :
    listNames names (more ++ more') = listNames (listNames names more) more' := List.foldl_append

theorem listNames_eq (names more : List String) :
    listNames names more = names ++ (more.filter (· ∉ names)).eraseDups := by
  induction more generalizing names with
  | nil => simp [listNames]
  | cons name more ih =>
    change listNames (if name ∈ names then names else names ++ [name]) more = _
    rw [ih]
    split
    · rename_i old
      simp [old]
    · rename_i new
      simp only [List.filter_cons, new, not_false_eq_true, decide_true, ↓reduceIte,
        List.eraseDups_cons, List.filter_filter, List.append_assoc, List.cons_append,
        List.nil_append]
      congr 4
      funext other
      grind

theorem listNames_nil (more : List String) : listNames [] more = more.eraseDups := by
  simp [listNames_eq]

theorem prefix_listNames (names more : List String) : names <+: listNames names more :=
  ⟨_, (listNames_eq names more).symm⟩

def Agree (shorthands : Shorthands) (declared : Declared) : Prop :=
  ∀ shorthand : String, shorthands[shorthand]? = declared.lookup shorthand

theorem agree_nothing : Agree ∅ [] := fun _ => by simp

theorem Agree.insert {shorthands : Shorthands} {declared : Declared}
    (agree : Agree shorthands declared) (shorthand expansion : String) :
    Agree (shorthands.insert shorthand expansion) ((shorthand, expansion) :: declared) := by
  intro other
  rw [Std.ExtTreeMap.getElem?_insert, List.lookup_cons, agree]
  by_cases same : other = shorthand
  · simp [same]
  · have same' : ¬ shorthand = other := fun h => same h.symm
    simp [beq_eq_false_iff_ne.mpr same, same']

theorem takeWhile_colon {shorthand rest : String} (noColon : ':' ∉ shorthand.toList) :
    (shorthand ++ ":" ++ rest).toList.takeWhile (· != ':') = shorthand.toList ∧
      (shorthand ++ ":" ++ rest).toList.dropWhile (· != ':') = ':' :: rest.toList := by
  have all : ∀ c ∈ shorthand.toList, (c != ':') = true := fun c mem =>
    bne_iff_ne.mpr (ne_of_mem_of_not_mem mem noColon)
  have stop : ∀ c ∈ (':' :: rest.toList).head?, (c != ':') = false := by simp
  simpa using takeWhile_word all stop

theorem constantWord_expand {shorthands : Shorthands} {declared : Declared}
    (agree : Agree shorthands declared) (word : String) :
    ConstantWord declared (.name word) (expand shorthands word) := by
  unfold expand
  split
  · rename_i noColon
    refine .plain fun shorthand rest same absent => ?_
    subst same
    rw [(takeWhile_colon absent).2] at noColon
    cases noColon
  · rename_i c rest found
    have colon : c = ':' := by
      have stops := dropWhile_stops (· != ':') word.toList c (by rw [found]; rfl)
      simpa using stops
    subst colon
    have absent : ':' ∉ (String.ofList (word.toList.takeWhile (· != ':'))).toList := by
      rw [String.toList_ofList]
      intro mem
      have other := List.all_eq_true.mp List.all_takeWhile ':' mem
      simp at other
    have parts : word = String.ofList (word.toList.takeWhile (· != ':')) ++ ":" ++
        String.ofList rest := by
      apply String.toList_injective
      have whole : word.toList = word.toList.takeWhile (· != ':') ++ ':' :: rest := by
        rw [← found]
        exact List.takeWhile_append_dropWhile.symm
      simpa using whole
    split
    · rename_i expansion stored
      rw [agree] at stored
      have expanded := @ConstantWord.expanded declared _ (String.ofList rest) _ absent stored
      rwa [← parts] at expanded
    · rename_i missing
      refine .plain fun shorthand behind same absent' => ?_
      rw [agree, same, (takeWhile_colon absent').1, String.ofList_toList] at missing
      exact missing

/-- Numbering has gone on from `n` to `n'` over the constants and variables among the terms. -/
structure Numbers (declared : Declared) (terms : List WrittenTerm) (n n' : Numbering) : Prop where
  words : ∃ words, List.Forall₂ (ConstantWord declared) (terms.filter isConstant) words ∧
    n'.vocabulary = n.vocabulary.encodeAll words
  names : n'.names = listNames n.names (terms.filterMap varName?)

section
variable {declared : Declared} {n n' n'' : Numbering} {terms terms' : List WrittenTerm}

theorem Numbers.keeps (numbers : Numbers declared terms n n') :
    n.vocabulary.Keeps n'.vocabulary := by
  obtain ⟨words, -, same⟩ := numbers.words
  exact same ▸ n.vocabulary.keeps_encodeAll words

theorem Numbers.prefix (numbers : Numbers declared terms n n') : n.names <+: n'.names :=
  numbers.names ▸ prefix_listNames _ _

theorem numbers_nothing : Numbers declared [] n n := ⟨⟨[], .nil, rfl⟩, rfl⟩

theorem Numbers.trans (first : Numbers declared terms n n')
    (later : Numbers declared terms' n' n'') : Numbers declared (terms ++ terms') n n'' := by
  obtain ⟨words, named, vocabulary⟩ := first.words
  obtain ⟨words', named', vocabulary'⟩ := later.words
  constructor
  · refine ⟨words ++ words', ?_, ?_⟩
    · rw [List.filter_append]
      exact List.rel_append named named'
    · rw [vocabulary', vocabulary, Vocabulary.encodeAll_append]
  · rw [later.names, first.names, List.filterMap_append, listNames_append]

variable {v w : Vocabulary} {names names' : List String}

theorem TermMeans.mono {t : WrittenTerm} {u : Term} (means : TermMeans v declared names t u)
    (keeps : v.Keeps w) (longer : names <+: names') : TermMeans w declared names' t u := by
  cases means with
  | var found =>
    obtain ⟨more, rfl⟩ := longer
    exact .var ((List.getElem?_append_left (List.getElem?_eq_some_iff.mp found).1).trans found)
  | wildcard => exact .wildcard
  | constant named found => exact .constant named (keeps _ _ found)

theorem PatternMeans.mono {p : WrittenPattern} {q : Pattern}
    (means : PatternMeans v declared names p q) (keeps : v.Keeps w) (longer : names <+: names') :
    PatternMeans w declared names' p q :=
  ⟨means.subject.mono keeps longer, means.predicate.mono keeps longer,
    means.object.mono keeps longer⟩

theorem RuleMeans.mono {written : Declared × WrittenRule} {r : Rule} (means : RuleMeans v written r)
    (keeps : v.Keeps w) : RuleMeans w written r where
  name := means.name
  direction := means.direction
  body := means.body.imp fun _ _ pattern => pattern.mono keeps (List.prefix_refl _)
  head := means.head.imp fun _ _ pattern => pattern.mono keeps (List.prefix_refl _)
  numVars := means.numVars

end

section
variable {shorthands : Shorthands} {declared : Declared}

theorem numberVariable_numbers (declared : Declared) (name : String) (n : Numbering) :
    Numbers declared [.var name] n (numberVariable name n).2 ∧
      (numberVariable name n).2.names[(numberVariable name n).1]? = some name := by
  unfold numberVariable
  split
  · rename_i index found
    obtain ⟨inside, here, -⟩ := List.idxOf?_eq_some_iff.mp found
    have listed : n.names[index]? = some name := by rw [List.getElem?_eq_getElem inside, here]
    refine ⟨⟨⟨[], .nil, rfl⟩, ?_⟩, listed⟩
    have old : name ∈ n.names := List.mem_of_getElem? listed
    simp [listNames, varName?, old]
  · rename_i missing
    have new : name ∉ n.names := List.idxOf?_eq_none_iff.mp missing
    refine ⟨⟨⟨[], .nil, rfl⟩, ?_⟩, ?_⟩
    · simp [listNames, varName?, new]
    · simp

theorem numberWord_numbers {t : WrittenTerm} {word : String} (constant : isConstant t = true)
    (named : ConstantWord declared t word) (n : Numbering) :
    Numbers declared [t] n (numberWord word n).2 ∧
      (numberWord word n).2.vocabulary.lookup word = some (numberWord word n).1 := by
  have noName : varName? t = none := by
    cases t <;> first | rfl | cases constant
  refine ⟨⟨⟨[word], ?_, rfl⟩, ?_⟩, n.vocabulary.lookup_encode_self word⟩
  · simpa [constant] using List.Forall₂.cons named .nil
  · simp [noName, listNames, numberWord]

theorem resolveTerm_means (agree : Agree shorthands declared) (t : WrittenTerm) (n : Numbering) :
    Numbers declared [t] n (resolveTerm shorthands t n).2 ∧
      TermMeans (resolveTerm shorthands t n).2.vocabulary declared
        (resolveTerm shorthands t n).2.names t (resolveTerm shorthands t n).1 := by
  cases t with
  | var name =>
    obtain ⟨numbers, found⟩ := numberVariable_numbers declared name n
    exact ⟨numbers, .var found⟩
  | wildcard => exact ⟨⟨⟨[], .nil, rfl⟩, rfl⟩, .wildcard⟩
  | name word =>
    have named := constantWord_expand agree word
    obtain ⟨numbers, found⟩ := numberWord_numbers rfl named n
    exact ⟨numbers, .constant named found⟩
  | iri text =>
    have named : ConstantWord declared (.iri text) text := .iri
    obtain ⟨numbers, found⟩ := numberWord_numbers rfl named n
    exact ⟨numbers, .constant named found⟩
  | literal text =>
    have named : ConstantWord declared (.literal text) ("\"" ++ text ++ "\"") := .literal
    obtain ⟨numbers, found⟩ := numberWord_numbers rfl named n
    exact ⟨numbers, .constant named found⟩

theorem resolvePattern_means (agree : Agree shorthands declared) (p : WrittenPattern)
    (n : Numbering) :
    Numbers declared (termsOf p) n (resolvePattern shorthands p n).2 ∧
      PatternMeans (resolvePattern shorthands p n).2.vocabulary declared
        (resolvePattern shorthands p n).2.names p (resolvePattern shorthands p n).1 := by
  obtain ⟨first, subject⟩ := resolveTerm_means agree p.subject n
  obtain ⟨second, predicate⟩ :=
    resolveTerm_means agree p.predicate (resolveTerm shorthands p.subject n).2
  obtain ⟨third, object⟩ := resolveTerm_means agree p.object
    (resolveTerm shorthands p.predicate (resolveTerm shorthands p.subject n).2).2
  have later := second.trans third
  exact ⟨first.trans later, subject.mono later.keeps later.prefix,
    predicate.mono third.keeps third.prefix, object⟩

theorem resolvePatterns_means (agree : Agree shorthands declared) (ps : List WrittenPattern)
    (n : Numbering) :
    Numbers declared (ps.flatMap termsOf) n (resolvePatterns shorthands ps n).2 ∧
      List.Forall₂ (PatternMeans (resolvePatterns shorthands ps n).2.vocabulary declared
        (resolvePatterns shorthands ps n).2.names) ps (resolvePatterns shorthands ps n).1 := by
  induction ps generalizing n with
  | nil => exact ⟨numbers_nothing, .nil⟩
  | cons p rest ih =>
    obtain ⟨first, pattern⟩ := resolvePattern_means agree p n
    obtain ⟨later, patterns⟩ := ih (resolvePattern shorthands p n).2
    exact ⟨first.trans later, .cons (pattern.mono later.keeps later.prefix) patterns⟩

theorem resolveRule_means (agree : Agree shorthands declared) (r : WrittenRule) (v : Vocabulary) :
    (∃ words, List.Forall₂ (ConstantWord declared) ((ruleTerms r).filter isConstant) words ∧
      (resolveRule shorthands r v).2 = v.encodeAll words) ∧
      RuleMeans (resolveRule shorthands r v).2 (declared, r) (resolveRule shorthands r v).1 := by
  obtain ⟨first, body⟩ := resolvePatterns_means agree r.body ⟨v, []⟩
  obtain ⟨later, head⟩ := resolvePatterns_means agree r.head _
  have whole := first.trans later
  rw [← List.flatMap_append] at whole
  have names := whole.names.trans (listNames_nil _)
  change _ = variableNames r at names
  refine ⟨whole.words, rfl, rfl, ?_, names ▸ head, congrArg List.length names⟩
  exact body.imp fun _ _ pattern => pattern.mono later.keeps (names ▸ later.prefix)

theorem resolve_means (agree : Agree shorthands declared) (doc : List Statement) (v : Vocabulary) :
    ∃ words, List.Forall₂ (fun constant word => ConstantWord constant.1 constant.2 word)
        (constantsUnder declared doc) words ∧
      (resolve doc shorthands v).2 = v.encodeAll words ∧
      List.Forall₂ (RuleMeans (resolve doc shorthands v).2) (rulesUnder declared doc)
        (resolve doc shorthands v).1 := by
  induction doc generalizing shorthands declared v with
  | nil => exact ⟨[], .nil, rfl, .nil⟩
  | cons st rest ih =>
    cases st with
    | declaration shorthand expansion => exact ih (agree.insert shorthand expansion) v
    | rule r =>
      obtain ⟨⟨words, named, vocabulary⟩, means⟩ := resolveRule_means agree r v
      obtain ⟨words', named', vocabulary', means'⟩ := ih agree (resolveRule shorthands r v).2
      have here : List.Forall₂ (fun constant word => ConstantWord constant.1 constant.2 word)
          (((ruleTerms r).filter isConstant).map (declared, ·)) words :=
        List.forall₂_map_left_iff.mpr named
      refine ⟨words ++ words', List.rel_append here named', ?_, ?_⟩
      · rw [Vocabulary.encodeAll_append, ← vocabulary, ← vocabulary']
        rfl
      · refine .cons (means.mono ?_) means'
        change Vocabulary.Keeps _ (resolve rest shorthands (resolveRule shorthands r v).2).2
        rw [vocabulary']
        exact Vocabulary.keeps_encodeAll _ _

end

theorem outcome_read_ok {text : String} {doc : List Statement}
    (found : document text.toList = .ok doc) (v : Vocabulary) :
    (read text).outcome v = (.ok (resolve doc ∅ v).1, (resolve doc ∅ v).2) := by
  simp only [Step.outcome, read, found]

theorem outcome_read_error {text : String} {e : SyntaxError}
    (found : document text.toList = .error e) (v : Vocabulary) :
    (read text).outcome v = (.error e, v) := by
  simp only [Step.outcome, read, found]

theorem exists_document_of_reads {text : String} {encodings : List Encoding} {rules : List Rule}
    (reads : ((read text).outcome (Vocabulary.after ∅ encodings)).1 = .ok rules) :
    ∃ doc words, DocumentText doc text.toList ∧
      ((read text).outcome (Vocabulary.after ∅ encodings)).2.Lists words ∧
      List.Forall₂ (RuleMeans ((read text).outcome (Vocabulary.after ∅ encodings)).2)
        (rulesUnder [] doc) rules := by
  cases found : document text.toList with
  | error e =>
    rw [outcome_read_error found] at reads
    cases reads
  | ok doc =>
    rw [outcome_read_ok found] at reads ⊢
    cases reads
    obtain ⟨words, -, vocabulary, means⟩ := resolve_means agree_nothing doc (.after ∅ encodings)
    have lists := (Vocabulary.lists_after encodings).encodeAll words
    rw [← vocabulary] at lists
    exact ⟨doc, _, document_eq_ok.mp found, lists, means⟩

/-- A text is read exactly when it is a document. Reading then numbers the words of its constants in
order and gives its rules, with each constant under the number of its word and each variable under
its place among the variables of its rule; otherwise it changes nothing. -/
theorem read_accepts_exactly_the_documents (text : String) (v : Vocabulary) :
    ((∃ rules, ((read text).outcome v).1 = .ok rules) ↔ ∃ doc, DocumentText doc text.toList) ∧
    (read text).Ends v
      (fun rules v' => ∃ doc words, DocumentText doc text.toList ∧
        (∀ other, DocumentText other text.toList → other = doc) ∧
        List.Forall₂ (fun constant word => ConstantWord constant.1 constant.2 word)
          (constantsUnder [] doc) words ∧
        v' = v.encodeAll words ∧
        List.Forall₂ (RuleMeans v') (rulesUnder [] doc) rules)
      (fun _ v' => v' = v) := by
  cases found : document text.toList with
  | ok doc =>
    have written := document_eq_ok.mp found
    have run := outcome_read_ok found v
    obtain ⟨words, named, vocabulary, means⟩ := resolve_means agree_nothing doc v
    refine ⟨iff_of_true ⟨_, congrArg Prod.fst run⟩ ⟨doc, written⟩, ?_⟩
    rw [Step.ends_of_outcome run]
    exact ⟨doc, words, written, fun other written' => written'.unique written, named, vocabulary,
      means⟩
  | error e =>
    have run := outcome_read_error found v
    constructor
    · refine iff_of_false ?_ ?_
      · rintro ⟨rules, same⟩
        rw [run] at same
        cases same
      · rintro ⟨doc, written⟩
        rw [document_eq_ok.mpr written] at found
        cases found
    · unfold Step.Ends
      rw [run]

end RuleText
end TripleInference
