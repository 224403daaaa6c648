import TripleInference.Proofs.RuleText.Scoping

/-!
Which constants of a document come to have the same number as a literal. A literal is numbered with
its quotes, and no name has a quote in it; but an IRI may be spelled with quotes around it, and so
may what a shorthand stands for.
-/
namespace TripleInference

theorem Vocabulary.Lists.eq_iff_of_lookup {v : Vocabulary} {words : List String}
    (lists : v.Lists words) (room : words.length ≤ Vocabulary.capacity) {word word' : String}
    {id id' : TermId} (known : v.lookup word = some id) (known' : v.lookup word' = some id') :
    id' = id ↔ word' = word := by
  constructor
  · rintro rfl
    rw [lists.lookup_iff room] at known known'
    exact Option.some.inj (known'.symm.trans known)
  · rintro rfl
    exact Option.some.inj (known'.symm.trans known)

namespace RuleText

def quoted (content : String) : String := "\"" ++ content ++ "\""

def constantsOf (rules : List Rule) : List TermId :=
  rules.flatMap fun r => r.terms.filterMap Term.constant?

section Writable

theorem PatternsText.writable {ps : List WrittenPattern} {text : List Char}
    (written : PatternsText ps text) : ∀ t ∈ ps.flatMap termsOf, t.Writable := by
  induction written with
  | nil => exact nofun
  | cons pattern _ _ ih =>
    rw [List.flatMap_cons, List.forall_mem_append]
    refine ⟨?_, ih⟩
    cases pattern with
    | mk _ subject _ predicate _ object _ =>
      intro t mem
      simp only [termsOf, List.mem_cons, List.not_mem_nil, or_false] at mem
      rcases mem with rfl | rfl | rfl
      · exact subject
      · exact predicate
      · exact object

theorem WrittenRuleText.writable {r : WrittenRule} {text : List Char}
    (written : WrittenRuleText r text) : ∀ t ∈ ruleTerms r, t.Writable := by
  cases written with
  | mk _ _ left _ right =>
    intro t mem
    have left := left.writable t
    have right := right.writable t
    rw [ruleTerms, List.flatMap_append, List.mem_append] at mem
    unfold leftOf at left
    unfold rightOf at right
    cases direction : r.direction <;> rw [direction] at left right
    · exact mem.elim left right
    · exact mem.elim right left

theorem DocumentText.writable {doc : List Statement} {s : List Char}
    (written : DocumentText doc s) (declared : Declared) :
    ∀ constant ∈ constantsUnder declared doc, constant.2.Writable := by
  induction written generalizing declared with
  | nil => exact nofun
  | @cons st rest before text s _ statement _ ih =>
    cases st with
    | declaration shorthand expansion => exact ih _
    | rule r =>
      rintro ⟨under, t⟩ mem
      rw [constantsUnder, rulesUnder, List.flatMap_cons, List.mem_append] at mem
      rcases mem with here | later
      · obtain ⟨_, isConstant, same⟩ := List.mem_map.mp here
        obtain ⟨-, rfl⟩ := Prod.mk.inj same
        exact WrittenRuleText.writable statement _ (List.mem_filter.mp isConstant).1
      · exact ih declared _ later

end Writable

section Quotes

theorem quoted_injective {content content' : String} (same : quoted content = quoted content') :
    content = content' := by
  rw [quoted, quoted, String.append_left_inj, String.append_right_inj] at same
  exact same

theorem ne_quoted_of_name {before name content : String} (notEmpty : name ≠ "")
    (letters : ∀ c ∈ name.toList, Text.isNameChar c = true) : before ++ name ≠ quoted content := by
  intro same
  have ends : (before ++ name).toList.getLast? = some '"' := by
    rw [same, quoted, String.toList_append]
    exact List.getLast?_concat
  have filled : name.toList ≠ [] := by simpa using notEmpty
  rw [String.toList_append, List.getLast?_append_of_ne_nil _ filled] at ends
  have letter := letters '"' (List.mem_of_getLast? ends)
  rw [isNameChar_eq_false (by decide)] at letter
  cases letter

theorem shorthand_unique {shorthand rest shorthand' rest' : String}
    (same : shorthand ++ ":" ++ rest = shorthand' ++ ":" ++ rest')
    (noColon : ':' ∉ shorthand.toList) (noColon' : ':' ∉ shorthand'.toList) :
    shorthand = shorthand' ∧ rest = rest' := by
  obtain ⟨before, behind⟩ : _ ∧ _ := takeWhile_colon noColon
  obtain ⟨before', behind'⟩ : _ ∧ _ := takeWhile_colon noColon'
  rw [same] at before behind
  exact ⟨String.toList_injective (before.symm.trans before'),
    String.toList_injective (List.cons.inj (behind.symm.trans behind')).2⟩

/-- The constant is spelled as the literal, or with the quotes of the literal as part of what it
says. A name can say so only as a shorthand with nothing behind its colon. -/
def SaysLiteral (declared : Declared) (content : String) : WrittenTerm → Prop
  | .literal text => text = content
  | .iri text => text = quoted content
  | .name word => ∃ shorthand, word = shorthand ++ ":" ∧ ':' ∉ shorthand.toList ∧
      declared.lookup shorthand = some (quoted content)
  | _ => False

theorem ConstantWord.isConstant {declared : Declared} {t : WrittenTerm} {word : String}
    (named : ConstantWord declared t word) : isConstant t = true := by
  cases named <;> rfl

theorem ConstantWord.eq_quoted_iff {declared : Declared} {t : WrittenTerm} {word content : String}
    (named : ConstantWord declared t word) (writable : t.Writable) :
    word = quoted content ↔ SaysLiteral declared content t := by
  cases named with
  | iri => exact Iff.rfl
  | literal => exact ⟨quoted_injective, congrArg quoted⟩
  | @expanded shorthand rest expansion noColon known =>
    obtain ⟨-, -, letters⟩ := writable
    constructor
    · intro same
      by_cases nothing : rest = ""
      · subst nothing
        rw [String.append_empty] at same
        exact ⟨shorthand, String.append_empty, noColon, same ▸ known⟩
      · exact absurd same (ne_quoted_of_name nothing fun c mem => letters c (by simp [mem]))
    · rintro ⟨shorthand', same, noColon', known'⟩
      have same : shorthand ++ ":" ++ rest = shorthand' ++ ":" ++ "" := by
        rw [same, String.append_empty]
      obtain ⟨rfl, rfl⟩ := shorthand_unique same noColon noColon'
      rw [String.append_empty]
      exact Option.some.inj (known.symm.trans known')
  | plain undeclared =>
    obtain ⟨notEmpty, -, letters⟩ := writable
    constructor
    · intro same
      refine absurd (String.empty_append.trans same) (ne_quoted_of_name (fun nothing => ?_) letters)
      exact notEmpty (by simp [nothing])
    · rintro ⟨shorthand, same, noColon, known⟩
      rw [undeclared shorthand "" (by rw [String.append_empty]; exact same) noColon] at known
      cases known

end Quotes

section Numbers
variable {v : Vocabulary} {declared : Declared}

def Received (v : Vocabulary) (constant : Declared × WrittenTerm) (id : TermId) : Prop :=
  ∃ word, ConstantWord constant.1 constant.2 word ∧ v.lookup word = some id

theorem received_of_means {names : List String} {ts : List WrittenTerm} {us : List Term}
    (means : List.Forall₂ (TermMeans v declared names) ts us) :
    List.Forall₂ (fun t => Received v (declared, t)) (ts.filter isConstant)
      (us.filterMap Term.constant?) := by
  induction means with
  | nil => exact .nil
  | cons first _ ih =>
    cases first with
    | var => exact ih
    | wildcard => exact ih
    | constant named known =>
      rw [List.filter_cons_of_pos named.isConstant]
      exact .cons ⟨_, named, known⟩ ih

theorem constantsOf_received {doc : List Statement} {rules : List Rule}
    (means : List.Forall₂ (RuleMeans v) (rulesUnder declared doc) rules) :
    List.Forall₂ (Received v) (constantsUnder declared doc) (constantsOf rules) := by
  refine List.rel_flatMap means fun written r rule => ?_
  exact List.forall₂_map_left_iff.mpr (received_of_means rule.terms)

end Numbers

/-- Among numbered constants, what has the number of a literal says the same. An IRI has to be
spelled with the quotes of the literal; a name has to be a shorthand for that spelling with nothing
behind its colon, so neither a name that is not expanded nor one with something behind its colon
ever has the number. -/
structure LiteralsApart (numbered : List ((Declared × WrittenTerm) × TermId)) : Prop where
  literal : ∀ {declared content id declared' content' id'},
    ((declared, .literal content), id) ∈ numbered →
    ((declared', .literal content'), id') ∈ numbered → (id' = id ↔ content' = content)
  iri : ∀ {declared content id declared' text id'},
    ((declared, .literal content), id) ∈ numbered →
    ((declared', .iri text), id') ∈ numbered → (id' = id ↔ text = quoted content)
  name : ∀ {declared content id declared' word id'},
    ((declared, .literal content), id) ∈ numbered →
    ((declared', .name word), id') ∈ numbered →
    (id' = id ↔ ∃ shorthand, word = shorthand ++ ":" ∧ ':' ∉ shorthand.toList ∧
      declared'.lookup shorthand = some (quoted content))

theorem literalsApart_of_received {v : Vocabulary} {words : List String} (lists : v.Lists words)
    (room : words.length ≤ Vocabulary.capacity) {constants : List (Declared × WrittenTerm)}
    {ids : List TermId} (writable : ∀ constant ∈ constants, constant.2.Writable)
    (received : List.Forall₂ (Received v) constants ids) : LiteralsApart (constants.zip ids) := by
  have alike {declared : Declared} {content : String} {id : TermId}
      (literal : ((declared, .literal content), id) ∈ constants.zip ids)
      {constant : Declared × WrittenTerm} {id' : TermId}
      (mem : (constant, id') ∈ constants.zip ids) :
      id' = id ↔ SaysLiteral constant.1 content constant.2 := by
    obtain ⟨_, ⟨⟩, known⟩ := (List.forall₂_iff_zip.mp received).2 literal
    obtain ⟨word, named, known'⟩ := (List.forall₂_iff_zip.mp received).2 mem
    rw [lists.eq_iff_of_lookup room known known']
    exact named.eq_quoted_iff (writable constant (List.of_mem_zip mem).1)
  exact {
    literal := fun first second => alike first second
    iri := fun first second => alike first second
    name := fun first second => alike first second }

/-- As long as the vocabulary has numbers left, the literals of a text that is read share their
numbers only with what says the same. -/
theorem literals_share_numbers_only_with_quoted_text (text : String) (encodings : List Encoding)
    {rules : List Rule} (reads : ((read text).outcome (Vocabulary.after ∅ encodings)).1 = .ok rules)
    (room : ((read text).outcome (Vocabulary.after ∅ encodings)).2.size ≤ Vocabulary.capacity) :
    ∃ doc, DocumentText doc text.toList ∧
      (constantsOf rules).length = (constantsUnder [] doc).length ∧
      LiteralsApart ((constantsUnder [] doc).zip (constantsOf rules)) := by
  obtain ⟨doc, words, written, lists, means⟩ := exists_document_of_reads reads
  rw [lists.size] at room
  have received := constantsOf_received means
  have apart := literalsApart_of_received lists room (written.writable []) received
  exact ⟨doc, written, received.length_eq.symm, apart⟩

theorem literal_is_apart_from_the_names_of_its_content :
    let text := "@prefix q: <c> . [r: -> (c \"c\" <c>) (q: q:d \"d\")]"
    let rules := [⟨some "r", [], [⟨.constant 0, .constant 1, .constant 0⟩,
      ⟨.constant 0, .constant 2, .constant 3⟩], 0, .forward⟩]
    ((read text).outcome (Vocabulary.after ∅ [])).1 = .ok rules ∧
      ((read text).outcome (Vocabulary.after ∅ [])).2.size ≤ Vocabulary.capacity ∧
      ∃ doc, DocumentText doc text.toList ∧ 6 = (constantsUnder [] doc).length ∧
        LiteralsApart ((constantsUnder [] doc).zip [0, 1, 0, 0, 2, 3]) := by
  intro text rules
  have reads : ((read text).outcome (Vocabulary.after ∅ [])).1 = .ok rules := by decide +kernel
  have room : ((read text).outcome (Vocabulary.after ∅ [])).2.size ≤ Vocabulary.capacity := by
    decide +kernel
  exact ⟨reads, room, literals_share_numbers_only_with_quoted_text text [] reads room⟩

theorem quoted_iri_has_the_number_of_a_literal :
    let text := "@prefix q: <\"c\"> . [r: -> (a \"c\" <\"c\">) (a \"c\" q:)]"
    ∃ doc rules declared, DocumentText doc text.toList ∧
      ((read text).outcome ∅).1 = .ok rules ∧
      constantsUnder [] doc = [(declared, .name "a"), (declared, .literal "c"),
        (declared, .iri "\"c\""), (declared, .name "a"), (declared, .literal "c"),
        (declared, .name "q:")] ∧
      constantsOf rules = [0, 1, 1, 0, 1, 1] := by
  intro text
  refine ⟨[.declaration "q" "\"c\"", .rule ⟨some "r", [],
    [⟨.name "a", .literal "c", .iri "\"c\""⟩, ⟨.name "a", .literal "c", .name "q:"⟩], .forward⟩],
    [⟨some "r", [], [⟨.constant 0, .constant 1, .constant 1⟩,
      ⟨.constant 0, .constant 1, .constant 1⟩], 0, .forward⟩], [("q", "\"c\"")], ?_, ?_, rfl, rfl⟩
  · exact document_eq_ok.mp (by decide +kernel)
  · decide +kernel

end RuleText
end TripleInference
