import TripleInference.Proofs.RuleText.Meaning

/-!
Where reading stops. A text that is no document has one place up to which it can be read: what
stands before it is a document of its own, and there neither layout nor a statement begins. That
place is what a syntax error names.
-/
namespace TripleInference
namespace RuleText

/-- Statements with layout around them, which ends before something else follows. -/
inductive StatementsText : List Statement → List Char → Prop where
  | nil {s : List Char} : Layout s → StatementsText [] s
  | cons {st : Statement} {rest : List Statement} {before text s : List Char} : Layout before →
    StatementText st text → StatementsText rest s →
    StatementsText (st :: rest) (before ++ (text ++ s))

/-- There is something left, but it begins with no layout and with no statement. -/
structure Stuck (s : List Char) : Prop where
  more : s ≠ []
  noLayout : ∀ layout behind, s = layout ++ behind → Layout layout → layout = []
  noComment : ¬ FinalLayout s
  noStatement : ∀ st text behind, s = text ++ behind → ¬ StatementText st text

/-- The text can be read up to `rest` and no further. -/
structure Stops (s : List Char) (doc : List Statement) (before rest : List Char) : Prop where
  split : s = before ++ rest
  written : StatementsText doc before
  stuck : Stuck rest

theorem StatementsText.document {doc : List Statement} {s : List Char}
    (written : StatementsText doc s) : DocumentText doc s := by
  induction written with
  | nil layout => exact .nil (Or.inl layout)
  | cons layout statement _ ih => exact .cons layout statement ih

section
variable {α : Type} {item : Reader α} {gap : List Char → List Char}

theorem many_stops (shorter : ∀ {s x rest}, item s = some (x, rest) → rest.length < s.length)
    (notLonger : ∀ s, (gap s).length ≤ s.length) {limit : Nat} {s : List Char}
    (enough : s.length ≤ limit) : item (many item gap limit s).2 = none := by
  induction limit generalizing s with
  | zero =>
    rw [Option.eq_none_iff_forall_ne_some]
    rintro ⟨x, rest⟩ reads
    have less := shorter reads
    exact absurd (Nat.le_trans less enough) (Nat.not_succ_le_zero _)
  | succ limit ih =>
    unfold many
    split
    · assumption
    · rename_i x behind reads
      have less := shorter reads
      have gone := notLonger behind
      exact ih (by omega)

theorem many_rest (good : List Char → Prop) (afterGap : ∀ s, good (gap s)) {limit : Nat}
    {s : List Char} (start : good s) : good (many item gap limit s).2 := by
  induction limit generalizing s with
  | zero => exact start
  | succ limit ih =>
    unfold many
    split
    · exact start
    · exact ih (afterGap _)

end

theorem skipLayout_skipLayout (s : List Char) : skipLayout (skipLayout s) = skipLayout s := by
  rcases skipped_skipLayout s with ⟨layout, isLayout, same⟩ | ⟨done, -⟩
  · conv => rhs; rw [same, isLayout.skipLayout_append]
  · rw [done]
    rfl

theorem statement_shortens {s rest : List Char} {st : Statement}
    (reads : statement s = some (st, rest)) : rest.length < s.length := by
  obtain ⟨text, written, rfl⟩ := eq_of_statement reads
  obtain ⟨c, cs, rfl, -⟩ := statementText_first written
  simp only [List.length_append, List.length_cons]
  omega

theorem stuck_iff {s : List Char} :
    Stuck s ↔ s ≠ [] ∧ skipLayout s = s ∧ statement s = none := by
  constructor
  · intro stuck
    refine ⟨stuck.more, ?_, ?_⟩
    · rcases skipped_skipLayout s with ⟨layout, isLayout, same⟩ | ⟨-, final⟩
      · rw [stuck.noLayout layout _ same isLayout] at same
        exact same.symm
      · exact absurd final stuck.noComment
    · rw [Option.eq_none_iff_forall_ne_some]
      rintro ⟨st, rest⟩ reads
      obtain ⟨text, written, same⟩ := eq_of_statement reads
      exact stuck.noStatement st text rest same written
  · rintro ⟨more, solid, noStatement⟩
    refine ⟨more, ?_, ?_, ?_⟩
    · rintro layout behind rfl isLayout
      rw [isLayout.skipLayout_append] at solid
      have gone := length_skipLayout_le behind
      rw [solid, List.length_append] at gone
      exact List.eq_nil_of_length_eq_zero (by omega)
    · intro final
      exact more (solid.symm.trans final.skipLayout)
    · rintro st text behind rfl written
      rw [statement_append written] at noStatement
      cases noStatement

theorem statements_stop (s : List Char) : (statements s).2 = [] ∨ Stuck (statements s).2 := by
  by_cases done : (statements s).2 = []
  · exact Or.inl done
  · refine Or.inr (stuck_iff.mpr ⟨done, ?_, ?_⟩)
    · exact many_rest (fun t => skipLayout t = t) skipLayout_skipLayout (skipLayout_skipLayout s)
    · exact many_stops statement_shortens length_skipLayout_le (Nat.le_refl _)

theorem written_before {limit : Nat} {doc : List Statement} {s rest : List Char}
    (reads : many statement skipLayout limit (skipLayout s) = (doc, rest)) (more : rest ≠ []) :
    ∃ before, StatementsText doc before ∧ s = before ++ rest := by
  have ends {s : List Char} (here : skipLayout s = rest) :
      ∃ before, StatementsText [] before ∧ s = before ++ rest := by
    obtain ⟨layout, isLayout, same⟩ := Layout.exists_of_skipLayout here more
    exact ⟨layout, .nil isLayout, same⟩
  induction limit generalizing s doc with
  | zero =>
    obtain ⟨rfl, here⟩ := Prod.mk.inj reads
    exact ends here
  | succ limit ih =>
    unfold many at reads
    split at reads
    · obtain ⟨rfl, here⟩ := Prod.mk.inj reads
      exact ends here
    · rename_i st behind first
      cases later : many statement skipLayout limit (skipLayout behind) with
      | mk others rest' =>
        simp only [later, Prod.mk.injEq] at reads
        obtain ⟨rfl, rfl⟩ := reads
        obtain ⟨tail, written', rfl⟩ := ih later
        obtain ⟨text, written, found⟩ := eq_of_statement first
        obtain ⟨c, cs, textIs, -⟩ := statementText_first written
        -- a statement was read, so layout is all that had been skipped before it
        obtain ⟨before, layout, rfl⟩ := Layout.exists_of_skipLayout found (by simp [textIs])
        exact ⟨_, .cons layout written written', by simp⟩

theorem many_statement_append {doc : List Statement} {before rest : List Char}
    (written : StatementsText doc before) (stuck : Stuck rest) {limit : Nat}
    (enough : (skipLayout (before ++ rest)).length ≤ limit) :
    many statement skipLayout limit (skipLayout (before ++ rest)) = (doc, rest) := by
  obtain ⟨-, solid, noStatement⟩ := stuck_iff.mp stuck
  induction written generalizing limit with
  | nil layout =>
    rw [layout.skipLayout_append, solid]
    cases limit with
    | zero => rfl
    | succ limit => simp only [many, noStatement]
  | @cons st others before text s layout first _ ih =>
    have begins : skipLayout (before ++ (text ++ s) ++ rest) = text ++ (s ++ rest) := by
      obtain ⟨c, cs, rfl, mark⟩ := statementText_first first
      rw [List.append_assoc, List.append_assoc, layout.skipLayout_append, List.cons_append]
      exact (solid_mark mark).skipLayout
    rw [begins] at enough ⊢
    have takes := statement_append first (s ++ rest)
    have gone := length_skipLayout_le (s ++ rest)
    have less := statement_shortens takes
    cases limit with
    | zero => omega
    | succ limit =>
      have later : many statement skipLayout limit (skipLayout (s ++ rest)) = (others, rest) :=
        ih (by omega)
      simp only [many, takes, later]

theorem Stops.statements_eq {s before rest : List Char} {doc : List Statement}
    (stops : Stops s doc before rest) : statements s = (doc, rest) := by
  rw [stops.split]
  exact many_statement_append stops.written stops.stuck (Nat.le_refl _)

theorem Stops.unique {s before rest before' rest' : List Char} {doc doc' : List Statement}
    (stops : Stops s doc before rest) (stops' : Stops s doc' before' rest') :
    doc' = doc ∧ before' = before ∧ rest' = rest := by
  obtain ⟨rfl, rfl⟩ := Prod.mk.inj (stops'.statements_eq.symm.trans stops.statements_eq)
  exact ⟨rfl, List.append_cancel_right (stops'.split.symm.trans stops.split), rfl⟩

theorem document_eq_error {s : List Char} {e : SyntaxError} :
    document s = .error e ↔
      ∃ doc before rest, Stops s doc before rest ∧ e = ⟨String.ofList (rest.take 40)⟩ := by
  constructor
  · intro fails
    unfold document at fails
    split at fails
    · cases fails
    · rename_i doc rest more reads
      obtain rfl := Except.error.inj fails
      have notDone : rest ≠ [] := more
      have stuck := (statements_stop s).resolve_left (by rwa [reads])
      rw [reads] at stuck
      obtain ⟨before, written, split⟩ := written_before reads notDone
      exact ⟨doc, before, rest, ⟨split, written, stuck⟩, rfl⟩
  · rintro ⟨doc, before, rest, stops, rfl⟩
    rw [document, stops.statements_eq]
    split
    · rename_i same
      exact absurd (congrArg Prod.snd same) stops.stuck.more
    · rename_i same
      obtain ⟨rfl, rfl⟩ := Prod.mk.inj same
      rfl

/-- A text that cannot be read leaves no word in the vocabulary. There is one place up to which it
can be read: what stands before is a document of its own, with layout up to that place, and what
stands there begins with neither layout nor a statement. The message quotes its first forty
characters. -/
theorem syntax_errors_name_the_place_where_reading_stops (text : String) (v : Vocabulary) :
    (read text).Ends v (fun _ _ => ∃ doc, DocumentText doc text.toList)
      (fun e v' => v' = v ∧ ∃ doc before rest, Stops text.toList doc before rest ∧
        DocumentText doc before ∧
        (∀ doc' before' rest', Stops text.toList doc' before' rest' →
          doc' = doc ∧ before' = before ∧ rest' = rest) ∧
        e.message = "rule syntax error: unexpected input near `" ++ String.ofList (rest.take 40) ++
          "`") := by
  cases found : document text.toList with
  | ok doc =>
    have run := outcome_read_ok found v
    rw [Step.ends_of_outcome run]
    exact ⟨doc, document_eq_ok.mp found⟩
  | error e =>
    have run := outcome_read_error found v
    unfold Step.Ends
    rw [run]
    obtain ⟨doc, before, rest, stops, rfl⟩ := document_eq_error.mp found
    exact ⟨rfl, doc, before, rest, stops, stops.written.document, fun _ _ _ => stops.unique, rfl⟩

/-- A comment that a carriage return breaks off is no layout, so reading stops in front of it. -/
example : document "[a: -> (b c d)] # e\n# f\rg".toList = .error ⟨"# f\rg"⟩ := by
  rfl

end RuleText
end TripleInference
