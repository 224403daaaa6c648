import TripleInference.Proofs.RuleText.Reading

/-!
Whole documents. Reading a document gives the statements that were written, so a text is read when
it is a document, and no text is a document in two ways.
-/
namespace TripleInference
namespace RuleText

section Patterns

theorem PatternsText.first {ps : List WrittenPattern} {text : List Char}
    (written : PatternsText ps text) : ∀ c ∈ text.head?, c = '(' := by
  cases written with
  | nil => exact nofun
  | cons pattern _ _ =>
    cases pattern
    rintro c ⟨⟩
    rfl

theorem PatternsText.first_append {ps : List WrittenPattern} {text : List Char}
    (written : PatternsText ps text) {c : Char} (rest : List Char) :
    ∃ d s, text ++ c :: rest = d :: s ∧ (d = '(' ∨ d = c) := by
  have first := written.first
  cases text with
  | nil => exact ⟨c, rest, rfl, Or.inr rfl⟩
  | cons d text => exact ⟨d, text ++ c :: rest, rfl, Or.inl (first d rfl)⟩

theorem PatternsText.length_le {ps : List WrittenPattern} {text : List Char}
    (written : PatternsText ps text) : ps.length ≤ text.length := by
  induction written with
  | nil => exact Nat.le_refl _
  | cons pattern _ _ ih =>
    cases pattern
    simp only [List.length_cons, List.length_append]
    omega

theorem pattern_eq_none {c : Char} (differs : c ≠ '(') (s : List Char) :
    pattern (c :: s) = none := by
  simp [pattern, expect, differs.symm]

theorem many_pattern_append {ps : List WrittenPattern} {text : List Char}
    (written : PatternsText ps text) {c : Char} (mark : c ∈ "-<]".toList) (rest : List Char)
    {limit : Nat} (enough : ps.length ≤ limit) :
    many pattern skipSeparator limit (text ++ c :: rest) = (ps, c :: rest) := by
  have other : ∀ c ∈ "-<]".toList, c ≠ '(' ∧ c ∈ "()[]<>\"?,@.:-".toList ∧ c ≠ ',' := by
    rw [← List.all_iff_forall_prop]
    decide
  obtain ⟨noBracket, inMarks, noComma⟩ := other c mark
  induction written generalizing limit with
  | nil =>
    cases limit with
    | zero => rfl
    | succ limit => simp [many, pattern_eq_none noBracket]
  | @cons p ps text gap tail first separator later ih =>
    cases limit with
    | zero => exact absurd enough (Nat.not_succ_le_zero _)
    | succ limit =>
      obtain ⟨d, s, begins, opens | ends⟩ := later.first_append (c := c) rest
      all_goals
        have gone : skipSeparator (gap ++ (tail ++ c :: rest)) = tail ++ c :: rest := by
          rw [begins]
          refine separator.skipSeparator_append (solid_mark (by grind)) ?_
          rintro e ⟨⟩
          grind
        simp only [many, List.append_assoc, pattern_append first, gone,
          ih (Nat.le_of_succ_le_succ enough)]

theorem patterns_append {ps : List WrittenPattern} {text : List Char}
    (written : PatternsText ps text) {c : Char} (mark : c ∈ "-<]".toList) (rest : List Char) :
    patterns (text ++ c :: rest) = (ps, c :: rest) := by
  apply many_pattern_append written mark
  rw [List.length_append]
  exact Nat.le_add_right_of_le written.length_le

theorem eq_of_many_pattern {limit : Nat} {s rest : List Char} {ps : List WrittenPattern}
    (reads : many pattern skipSeparator limit s = (ps, rest)) (more : rest ≠ []) :
    ∃ text, PatternsText ps text ∧ s = text ++ rest := by
  induction limit generalizing s ps with
  | zero =>
    cases reads
    exact ⟨[], .nil, rfl⟩
  | succ limit ih =>
    unfold many at reads
    split at reads
    · cases reads
      exact ⟨[], .nil, rfl⟩
    · rename_i p behind first
      obtain ⟨text, written, rfl⟩ := eq_of_pattern first
      cases later : many pattern skipSeparator limit (skipSeparator behind) with
      | mk others rest' =>
        rw [later] at reads
        cases reads
        obtain ⟨tail, written', found⟩ := ih later
        have open' : tail ++ rest ≠ [] := by simp [more]
        obtain ⟨gap, separator, rfl⟩ := Separator.exists_of_skipSeparator found open'
        exact ⟨_, .cons written separator written', by simp⟩

end Patterns

section Rules

theorem ruleName_append {name : Option String} {text : List Char} (written : NameText name text)
    {c : Char} (mark : c ∈ "(-<".toList) (rest : List Char) :
    Solid (text ++ c :: rest) ∧ ∃ behind, ruleName (text ++ c :: rest) = (name, behind) ∧
      skipLayout behind = c :: rest := by
  have other : ∀ c ∈ "(-<".toList, c ∈ "()[]<>\"?,@.:-".toList ∧ Text.isWordChar c = false := by
    rw [← List.all_iff_forall_prop]
    decide +kernel
  obtain ⟨inMarks, noWord⟩ := other c mark
  have solid : Solid (c :: rest) := solid_mark inMarks
  cases written with
  | unnamed =>
    have stop : ∀ d ∈ (c :: rest).head?, Text.isWordChar d = false := by
      rintro d ⟨⟩
      exact noWord
    refine ⟨solid, _, ?_, solid.skipLayout⟩
    simp [ruleName, run_eq_none stop]
  | @named name before after notEmpty all layout layout' =>
    have stop : ∀ d ∈ (before ++ ':' :: (after ++ c :: rest)).head?, Text.isWordChar d = false := by
      cases before with
      | nil =>
        rintro d ⟨⟩
        exact isWordChar_eq_false (by decide)
      | cons e before =>
        rintro d ⟨⟩
        refine Bool.eq_false_iff.mpr fun inWord => ?_
        have inName := isNameChar_of_isWordChar inWord
        rw [layout.first e rfl] at inName
        cases inName
    have colon : skipLayout (before ++ ':' :: (after ++ c :: rest)) =
        ':' :: (after ++ c :: rest) := by
      rw [layout.skipLayout_append]
      exact (solid_mark (by decide)).skipLayout
    constructor
    · obtain ⟨d, cs, letters⟩ := List.exists_cons_of_ne_nil notEmpty
      rw [letters] at all ⊢
      exact solid_cons (isNameChar_of_isWordChar (all d List.mem_cons_self))
    · refine ⟨after ++ c :: rest, ?_, (layout'.skipLayout_append _).trans solid.skipLayout⟩
      simp [ruleName, run_append all notEmpty stop, colon]

theorem eq_of_ruleName {s behind : List Char} {name : Option String}
    (reads : ruleName s = (name, behind)) {after rest : List Char} (layout : Layout after)
    (opens : behind = after ++ rest) :
    ∃ before text, Layout before ∧ NameText name text ∧ s = before ++ (text ++ rest) := by
  unfold ruleName at reads
  split at reads
  · cases reads
    exact ⟨after, [], layout, .unnamed, opens⟩
  · rename_i word tail found
    split at reads
    · rename_i behind' colon
      cases reads
      obtain ⟨rfl, notEmpty, all, -⟩ := eq_of_run found
      obtain ⟨gap, layout', rfl⟩ := Layout.exists_of_skipLayout colon (by simp)
      subst opens
      exact ⟨[], _, .nil, .named notEmpty all layout' layout, by simp⟩
    · cases reads
      exact ⟨after, [], layout, .unnamed, opens⟩

theorem arrow_append (direction : Direction) (s : List Char) :
    arrow (arrowText direction ++ s) = some (direction, s) := by
  cases direction <;> rfl

theorem eq_of_arrow {s rest : List Char} {direction : Direction}
    (reads : arrow s = some (direction, rest)) : s = arrowText direction ++ rest := by
  unfold arrow at reads
  split at reads <;> cases reads <;> rfl

theorem arrowText_first (direction : Direction) :
    ∃ c s, arrowText direction = c :: s ∧ c ∈ "-<".toList := by
  cases direction
  · exact ⟨_, _, rfl, by decide⟩
  · exact ⟨_, _, rfl, by decide⟩

theorem rule_append {r : WrittenRule} {text : List Char} (written : WrittenRuleText r text)
    (rest : List Char) : rule (text ++ rest) = some (r, rest) := by
  cases written with
  | @mk before name left after right layout named writtenLeft layout' writtenRight =>
  obtain ⟨a, as, arrowIs, inArrow⟩ := arrowText_first r.direction
  have fromArrow : ∀ c ∈ "-<".toList, c ∈ "-<]".toList ∧ c ∈ "(-<".toList := by
    rw [← List.all_iff_forall_prop]
    decide
  -- every part stops at the first character of what comes next, which has to be found first
  have leftRead (s : List Char) : patterns (left ++ (arrowText r.direction ++ s)) =
      (leftOf r, arrowText r.direction ++ s) := by
    rw [arrowIs]
    exact patterns_append writtenLeft (fromArrow a inArrow).1 _
  have rightRead : patterns (right ++ ']' :: rest) = (rightOf r, ']' :: rest) :=
    patterns_append writtenRight (by decide) rest
  have afterRead : skipLayout (after ++ (right ++ ']' :: rest)) = right ++ ']' :: rest := by
    obtain ⟨c, s, begins, mark⟩ := writtenRight.first_append (c := ']') rest
    rw [layout'.skipLayout_append, begins]
    exact (solid_mark (by rcases mark with rfl | rfl <;> decide)).skipLayout
  obtain ⟨c, s, begins, mark⟩ := writtenLeft.first_append (c := a)
    (as ++ (after ++ (right ++ ']' :: rest)))
  have opening : c ∈ "(-<".toList := by
    rcases mark with rfl | rfl
    · decide
    · exact (fromArrow c inArrow).2
  have leftIs : left ++ (arrowText r.direction ++ (after ++ (right ++ ']' :: rest))) = c :: s := by
    rw [arrowIs]
    exact begins
  obtain ⟨solid, behind, nameRead, behindRead⟩ := ruleName_append named opening s
  have beforeRead : skipLayout (before ++ (name ++ c :: s)) = name ++ c :: s := by
    rw [layout.skipLayout_append]
    exact solid.skipLayout
  simp only [List.cons_append, List.append_assoc, List.nil_append]
  rw [leftIs]
  simp only [rule, expect, beq_self_eq_true, ↓reduceIte, Option.bind_eq_bind, Option.bind_some,
    beforeRead, nameRead, behindRead]
  rw [← leftIs]
  simp only [leftRead, arrow_append, afterRead, rightRead, expect, beq_self_eq_true, ↓reduceIte,
    Option.bind_some]
  obtain ⟨_, _, _, direction⟩ := r
  cases direction <;> rfl

theorem eq_of_rule {s rest : List Char} {r : WrittenRule} (reads : rule s = some (r, rest)) :
    ∃ text, WrittenRuleText r text ∧ s = text ++ rest := by
  simp only [rule, Option.bind_eq_bind, Option.bind_eq_some_iff, Prod.exists, expect_eq_some]
    at reads
  obtain ⟨s₁, rfl, direction, s₂, arrowRead, s₃, closing, done⟩ := reads
  obtain ⟨name, behind, nameRead⟩ : ∃ name behind, ruleName (skipLayout s₁) = (name, behind) :=
    ⟨_, _, rfl⟩
  obtain ⟨left, tail, leftRead⟩ : ∃ left tail, patterns (skipLayout behind) = (left, tail) :=
    ⟨_, _, rfl⟩
  obtain ⟨right, tail', rightRead⟩ : ∃ right tail', patterns (skipLayout s₂) = (right, tail') :=
    ⟨_, _, rfl⟩
  rw [nameRead] at arrowRead done
  simp only [leftRead, rightRead] at arrowRead closing done
  obtain rfl := eq_of_arrow arrowRead
  obtain ⟨a, as, arrowIs, -⟩ := arrowText_first direction
  obtain ⟨leftText, writtenLeft, leftFound⟩ := eq_of_many_pattern leftRead (by simp [arrowIs])
  obtain ⟨rightText, writtenRight, rightFound⟩ := eq_of_many_pattern rightRead (by simp [closing])
  obtain ⟨gap, layout, behindIs⟩ := Layout.exists_of_skipLayout leftFound (by simp [arrowIs])
  obtain ⟨after, layout', rfl⟩ := Layout.exists_of_skipLayout rightFound (by simp [closing])
  obtain ⟨more, nameText, layoutMore, named, nameFound⟩ := eq_of_ruleName nameRead layout behindIs
  obtain ⟨before, layoutBefore, rfl⟩ := Layout.exists_of_skipLayout nameFound (by simp [arrowIs])
  subst closing
  cases direction <;> cases done
  · exact ⟨_, .mk (layoutBefore.append layoutMore) named writtenLeft layout' writtenRight,
      by simp [arrowText]⟩
  · exact ⟨_, .mk (layoutBefore.append layoutMore) named writtenLeft layout' writtenRight,
      by simp [arrowText]⟩

end Rules

section Declarations

theorem skipBlanks_append {blanks : List Char} (notEmpty : blanks ≠ [])
    (all : ∀ c ∈ blanks, Text.isBlank c = true) {rest : List Char}
    (stop : ∀ c ∈ rest.head?, Text.isBlank c = false) :
    skipBlanks (blanks ++ rest) = some rest := by
  obtain ⟨c, cs, rfl⟩ := List.exists_cons_of_ne_nil notEmpty
  obtain ⟨blank, all⟩ := List.forall_mem_cons.mp all
  simp [skipBlanks, blank, (takeWhile_word all stop).2]

theorem eq_of_skipBlanks {s rest : List Char} (reads : skipBlanks s = some rest) :
    ∃ blanks, blanks ≠ [] ∧ (∀ c ∈ blanks, Text.isBlank c = true) ∧ s = blanks ++ rest := by
  unfold skipBlanks at reads
  split at reads
  · cases reads
  · rename_i c s
    split at reads
    · rename_i blank
      cases reads
      refine ⟨c :: s.takeWhile Text.isBlank, by simp, ?_, by simp⟩
      exact List.forall_mem_cons.mpr ⟨blank, fun d => List.all_eq_true.mp List.all_takeWhile d⟩
    · cases reads

theorem declaration_append {shorthand expansion : String} {text : List Char}
    (written : DeclarationText shorthand expansion text) (rest : List Char) :
    declaration (text ++ rest) = some ((shorthand, expansion), rest) := by
  cases written with
  | @mk blanks before after notEmpty allBlank word layout noClose layout' =>
  simp only [List.append_assoc, List.cons_append, List.nil_append]
  have stop (s : List Char) : ∀ c ∈ (':' :: s).head?, Text.isWordChar c = false := by
    rintro c ⟨⟩
    exact isWordChar_eq_false (by decide)
  have wordFirst (s : List Char) :
      ∀ c ∈ (shorthand.toList ++ ':' :: s).head?, Text.isBlank c = false := by
    cases letters : shorthand.toList with
    | nil =>
      rintro c ⟨⟩
      rfl
    | cons d word' =>
      rintro c ⟨⟩
      have inWord := word d (by rw [letters]; exact List.mem_cons_self)
      have solid : Solid [d] := solid_cons (isNameChar_of_isWordChar inWord)
      exact (solid d rfl).1
  have opening (s : List Char) : skipLayout (before ++ '<' :: s) = '<' :: s := by
    rw [layout.skipLayout_append]
    exact (solid_mark (by decide)).skipLayout
  have ending : skipLayout (after ++ '.' :: rest) = '.' :: rest := by
    rw [layout'.skipLayout_append]
    exact (solid_mark (by decide)).skipLayout
  simp only [declaration, expect_append, Option.bind_eq_bind, Option.bind_some,
    skipBlanks_append notEmpty allBlank (wordFirst _), takeWhile_word word (stop _), expect,
    beq_self_eq_true, ↓reduceIte, opening, closedBy_append noClose, ending, String.ofList_toList]
  rfl

theorem eq_of_declaration {s rest : List Char} {shorthand expansion : String}
    (reads : declaration s = some ((shorthand, expansion), rest)) :
    ∃ text, DeclarationText shorthand expansion text ∧ s = text ++ rest := by
  simp only [declaration, Option.bind_eq_bind, Option.bind_eq_some_iff, Prod.exists, expect_eq_some]
    at reads
  obtain ⟨s₁, rfl, s₂, blanksRead, s₃, colon, s₄, opening, iri, s₅, closing, s₆, ending, done⟩ :=
    reads
  cases done
  obtain ⟨blanks, notEmpty, allBlank, rfl⟩ := eq_of_skipBlanks blanksRead
  obtain ⟨before, layout, rfl⟩ := Layout.exists_of_skipLayout opening (by simp)
  obtain ⟨rfl, noClose⟩ := eq_of_closedBy closing
  obtain ⟨after, layout', rfl⟩ := Layout.exists_of_skipLayout ending (by simp)
  have word : ∀ c ∈ (String.ofList (s₂.takeWhile Text.isWordChar)).toList,
      Text.isWordChar c = true := by
    rw [String.toList_ofList]
    exact fun c mem => List.all_eq_true.mp List.all_takeWhile c mem
  refine ⟨_, .mk notEmpty allBlank word layout noClose layout', ?_⟩
  have split : s₂ = s₂.takeWhile Text.isWordChar ++ s₂.dropWhile Text.isWordChar :=
    List.takeWhile_append_dropWhile.symm
  rw [colon] at split
  rw [String.toList_ofList]
  conv => lhs; rw [split]
  simp

end Declarations

section Documents

theorem declaration_eq_none (s : List Char) : declaration ('[' :: s) = none := rfl

theorem statementText_first {st : Statement} {text : List Char} (written : StatementText st text) :
    ∃ c s, text = c :: s ∧ c ∈ "()[]<>\"?,@.:-".toList := by
  cases st with
  | declaration shorthand expansion =>
    cases written
    exact ⟨'@', _, rfl, by decide⟩
  | rule r =>
    cases written
    exact ⟨'[', _, rfl, by decide⟩

theorem statement_append {st : Statement} {text : List Char} (written : StatementText st text)
    (rest : List Char) : statement (text ++ rest) = some (st, rest) := by
  cases st with
  | declaration shorthand expansion => simp only [statement, declaration_append written]
  | rule r =>
    have noDeclaration : declaration (text ++ rest) = none := by
      cases written
      exact declaration_eq_none _
    simp only [statement, noDeclaration, rule_append written, Option.map_some]

theorem eq_of_statement {s rest : List Char} {st : Statement}
    (reads : statement s = some (st, rest)) : ∃ text, StatementText st text ∧ s = text ++ rest := by
  unfold statement at reads
  split at reads
  · rename_i shorthand expansion behind found
    cases reads
    exact eq_of_declaration found
  · obtain ⟨⟨r, behind⟩, found, same⟩ := Option.map_eq_some_iff.mp reads
    cases same
    exact eq_of_rule found

theorem DocumentText.length_le {doc : List Statement} {s : List Char}
    (written : DocumentText doc s) : doc.length ≤ (skipLayout s).length := by
  induction written with
  | nil => exact Nat.zero_le _
  | @cons st rest before text s layout written _ ih =>
    obtain ⟨c, cs, rfl, mark⟩ := statementText_first written
    have shorter := length_skipLayout_le s
    rw [layout.skipLayout_append, List.cons_append, (solid_mark mark).skipLayout]
    simp only [List.length_cons, List.length_append]
    omega

theorem many_statement_of_written {doc : List Statement} {s : List Char}
    (written : DocumentText doc s) {limit : Nat} (enough : doc.length ≤ limit) :
    many statement skipLayout limit (skipLayout s) = (doc, []) := by
  induction written generalizing limit with
  | nil final =>
    rw [final.skipLayout]
    cases limit <;> rfl
  | @cons st rest before text s layout written later ih =>
    cases limit with
    | zero => exact absurd enough (Nat.not_succ_le_zero _)
    | succ limit =>
      obtain ⟨c, cs, textIs, mark⟩ := statementText_first written
      have solid : skipLayout (text ++ s) = text ++ s := by
        rw [textIs, List.cons_append]
        exact (solid_mark mark).skipLayout
      rw [layout.skipLayout_append, solid]
      simp only [many, statement_append written, ih (Nat.le_of_succ_le_succ enough)]

theorem written_of_skipLayout {s : List Char} (empty : skipLayout s = []) : DocumentText [] s := by
  refine .nil ?_
  rcases skipped_skipLayout s with ⟨layout, isLayout, same⟩ | ⟨-, final⟩
  · rw [empty, List.append_nil] at same
    exact Or.inl (same ▸ isLayout)
  · exact final

theorem written_of_many_statement {limit : Nat} {doc : List Statement} {s : List Char}
    (reads : many statement skipLayout limit (skipLayout s) = (doc, [])) : DocumentText doc s := by
  induction limit generalizing s doc with
  | zero =>
    simp only [many, Prod.mk.injEq] at reads
    rw [← reads.1]
    exact written_of_skipLayout reads.2
  | succ limit ih =>
    unfold many at reads
    split at reads
    · simp only [Prod.mk.injEq] at reads
      rw [← reads.1]
      exact written_of_skipLayout reads.2
    · rename_i st behind first
      obtain ⟨text, written, found⟩ := eq_of_statement first
      obtain ⟨c, cs, textIs, -⟩ := statementText_first written
      obtain ⟨before, layout, rfl⟩ := Layout.exists_of_skipLayout found (by simp [textIs])
      cases later : many statement skipLayout limit (skipLayout behind) with
      | mk others rest =>
        simp only [later, Prod.mk.injEq] at reads
        obtain ⟨rfl, rfl⟩ := reads
        exact .cons layout written (ih later)

theorem document_eq_ok {s : List Char} {doc : List Statement} :
    document s = .ok doc ↔ DocumentText doc s := by
  constructor
  · intro reads
    unfold document at reads
    split at reads
    · rename_i found
      cases reads
      exact written_of_many_statement found
    · cases reads
  · intro written
    have found : statements s = (doc, []) := many_statement_of_written written written.length_le
    rw [document, found]

/-- Nothing need stand between terms that cannot run together, and a comment may end the text. -/
example : (document "[(?x:p<q>),->(_ \"a b\",-)]#end".toList).toOption = some [.rule
    { name := none, direction := .forward
      body := [⟨.var "x", .name ":p", .iri "q"⟩]
      head := [⟨.wildcard, .literal "a b", .name "-"⟩] }] := by
  decide +kernel

theorem DocumentText.unique {s : List Char} {doc doc' : List Statement}
    (written : DocumentText doc s) (written' : DocumentText doc' s) : doc = doc' :=
  Except.ok.inj ((document_eq_ok.mpr written).symm.trans (document_eq_ok.mpr written'))

end Documents

end RuleText
end TripleInference
