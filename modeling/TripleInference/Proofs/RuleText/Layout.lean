import Mathlib.Data.Bool.AllAny
import TripleInference.Proofs.RuleText.Grammar

/-!
Dropping layout. Whatever layout a text begins with is dropped as a whole, and what is dropped is
layout.
-/
namespace TripleInference
namespace RuleText

theorem isNameChar_eq_false {c : Char} (mark : c ∈ " \t\r\n#()[]<>\"?,@.".toList) :
    Text.isNameChar c = false := by
  revert mark c
  rw [← List.all_iff_forall_prop]
  decide +kernel

theorem isWordChar_eq_false {c : Char} (mark : c ∈ " \t\r\n#()[]<>\"?,@.:-".toList) :
    Text.isWordChar c = false := by
  revert mark c
  rw [← List.all_iff_forall_prop]
  decide +kernel

theorem isNameChar_of_isWordChar {c : Char} (word : Text.isWordChar c = true) :
    Text.isNameChar c = true := by
  simp [Text.isNameChar, word]

theorem isBlank_iff {c : Char} : Text.isBlank c = true ↔ c ∈ " \t\r\n".toList := by
  simp [Text.isBlank, or_assoc]

def Solid (s : List Char) : Prop := ∀ c ∈ s.head?, Text.isBlank c = false ∧ c ≠ '#'

theorem solid_cons {c : Char} {s : List Char} (inName : Text.isNameChar c = true) :
    Solid (c :: s) := by
  rintro d ⟨⟩
  constructor
  · refine Bool.eq_false_iff.mpr fun blank => ?_
    rw [isNameChar_eq_false] at inName
    · cases inName
    · exact List.mem_append_left _ (isBlank_iff.mp blank)
  · rintro rfl
    exact absurd inName (by decide +kernel)

theorem skip_blank {c : Char} {s : List Char} (blank : Text.isBlank c = true) :
    skip none (c :: s) = skip none s := by
  simp [skip, blank]

theorem skip_number {s : List Char} : skip none ('#' :: s) = skip (some ('#' :: s)) s := by
  simp [skip, Text.isBlank]

theorem Solid.skipLayout {s : List Char} (solid : Solid s) : RuleText.skipLayout s = s := by
  cases s with
  | nil => rfl
  | cons c s =>
    obtain ⟨notBlank, notNumber⟩ := solid c rfl
    simp [RuleText.skipLayout, skip, notBlank, notNumber]

theorem OneLine.skip_append {text : List Char} (line : OneLine text) (comment s : List Char) :
    skip (some comment) (text ++ s) = skip (some comment) s := by
  induction text with
  | nil => rfl
  | cons c text ih =>
    obtain ⟨⟨notFeed, notReturn⟩, line⟩ := List.forall_mem_cons.mp line
    simp only [List.cons_append, skip, notFeed, notReturn, beq_iff_eq, ↓reduceIte]
    exact ih line

theorem skip_lineEnd {lineEnd : List Char} (ends : lineEnd = ['\n'] ∨ lineEnd = ['\r', '\n'])
    (comment s : List Char) : skip (some comment) (lineEnd ++ s) = skip none s := by
  rcases ends with rfl | rfl
  · simp [skip]
  · simp [skip, Text.isBlank]

theorem Layout.skipLayout_append {layout : List Char} (isLayout : Layout layout) (s : List Char) :
    skipLayout (layout ++ s) = skipLayout s := by
  induction isLayout with
  | nil => rfl
  | blank blank _ ih => exact (skip_blank blank).trans ih
  | @comment text lineEnd layout line ends _ ih =>
    rw [List.cons_append, skipLayout, skip_number, List.append_assoc, List.append_assoc,
      line.skip_append, skip_lineEnd ends]
    exact ih

theorem FinalLayout.skipLayout {s : List Char} (isLayout : FinalLayout s) :
    skipLayout s = [] := by
  rcases isLayout with isLayout | ⟨before, text, isLayout, line, rfl⟩
  · rw [← s.append_nil, isLayout.skipLayout_append]
    rfl
  · rw [isLayout.skipLayout_append, RuleText.skipLayout, skip_number, ← text.append_nil,
      line.skip_append]
    simp [skip]

theorem Layout.append {s t : List Char} (first : Layout s) (second : Layout t) :
    Layout (s ++ t) := by
  induction first with
  | nil => exact second
  | blank blank _ ih => exact .blank blank ih
  | comment line ends _ ih =>
    rw [List.cons_append, List.append_assoc, List.append_assoc]
    exact .comment line ends ih

theorem FinalLayout.after {s t : List Char} (first : Layout s) (second : FinalLayout t) :
    FinalLayout (s ++ t) := by
  rcases second with second | ⟨before, text, second, line, rfl⟩
  · exact Or.inl (first.append second)
  · exact Or.inr ⟨s ++ before, text, first.append second, line, (List.append_assoc ..).symm⟩

/-- A text that was cut down to `rest` began with layout, or was nothing but layout. -/
def Skipped (s rest : List Char) : Prop :=
  (∃ layout, Layout layout ∧ s = layout ++ rest) ∨ rest = [] ∧ FinalLayout s

theorem Skipped.after {layout s rest : List Char} (isLayout : Layout layout)
    (skipped : Skipped s rest) : Skipped (layout ++ s) rest := by
  rcases skipped with ⟨more, isMore, rfl⟩ | ⟨done, final⟩
  · exact Or.inl ⟨layout ++ more, isLayout.append isMore, (List.append_assoc ..).symm⟩
  · exact Or.inr ⟨done, final.after isLayout⟩

theorem Skipped.layout {s rest : List Char} (skipped : Skipped s rest) (more : rest ≠ []) :
    ∃ layout, Layout layout ∧ s = layout ++ rest :=
  skipped.resolve_right fun done => more done.1

theorem skipped_comment {s : List Char} {limit : Nat} (short : s.length < limit)
    (later : ∀ t : List Char, t.length < limit → Skipped t (skip none t)) {text : List Char}
    (line : OneLine text) :
    Skipped ('#' :: (text ++ s)) (skip (some ('#' :: (text ++ s))) s) := by
  have unfinished {comment : List Char} : Skipped comment comment := Or.inl ⟨[], .nil, rfl⟩
  -- the comment read so far grows, so `text` is general in the induction
  induction s generalizing text with
  | nil =>
    refine Or.inr ⟨by simp [skip], Or.inr ⟨[], text, .nil, line, by simp⟩⟩
  | cons c s ih =>
    have ended {lineEnd t : List Char} (ends : lineEnd = ['\n'] ∨ lineEnd = ['\r', '\n'])
        (shorter : t.length < limit) :
        Skipped ('#' :: (text ++ (lineEnd ++ t))) (skip none t) := by
      have comment : Layout ('#' :: (text ++ (lineEnd ++ []))) := .comment line ends .nil
      simpa using (later t shorter).after comment
    rw [List.length_cons] at short
    by_cases feed : c = '\n'
    · subst feed
      rw [show skip (some ('#' :: (text ++ '\n' :: s))) ('\n' :: s) = skip none s from
        skip_lineEnd (Or.inl rfl) _ s]
      exact ended (Or.inl rfl) (by omega)
    by_cases ret : c = '\r'
    · subst ret
      match s with
      | [] => simpa [skip] using unfinished
      | d :: s =>
        by_cases feed : d = '\n'
        · subst feed
          rw [List.length_cons] at short
          rw [show skip (some ('#' :: (text ++ '\r' :: '\n' :: s))) ('\r' :: '\n' :: s) =
            skip none s from skip_lineEnd (Or.inr rfl) _ s]
          exact ended (Or.inr rfl) (by omega)
        · simpa [skip, feed] using unfinished
    · have longer : OneLine (text ++ [c]) := by
        intro d mem
        rcases List.mem_append.mp mem with mem | mem
        · exact line d mem
        · obtain rfl := List.mem_singleton.mp mem
          exact ⟨feed, ret⟩
      have rest := ih (by omega) longer
      simpa [skip, feed, ret] using rest

theorem skipped_skipLayout (s : List Char) : Skipped s (skipLayout s) := by
  -- a comment takes many characters at once, so the induction is on a bound of the length
  suffices within : ∀ limit, ∀ t : List Char, t.length < limit → Skipped t (skip none t) from
    within _ s (Nat.lt_succ_self _)
  intro limit
  induction limit with
  | zero => exact fun t short => absurd short (Nat.not_lt_zero _)
  | succ limit ih =>
    intro t short
    cases t with
    | nil => exact Or.inl ⟨[], .nil, rfl⟩
    | cons c t =>
      have shorter : t.length < limit := Nat.lt_of_succ_lt_succ short
      by_cases blank : Text.isBlank c = true
      · rw [skip_blank blank]
        exact (ih t shorter).after (.blank blank .nil)
      by_cases number : c = '#'
      · subst number
        rw [skip_number]
        have noText : OneLine [] := nofun
        exact skipped_comment shorter ih noText
      · have solid : Solid (c :: t) := by
          rintro d ⟨⟩
          exact ⟨Bool.eq_false_iff.mpr blank, number⟩
        exact Or.inl ⟨[], .nil, solid.skipLayout.symm⟩

theorem length_skipLayout_le (s : List Char) : (skipLayout s).length ≤ s.length := by
  rcases skipped_skipLayout s with ⟨layout, -, same⟩ | ⟨done, -⟩
  · conv => rhs; rw [same]
    simp
  · simp [done]

theorem Layout.exists_of_skipLayout {s rest : List Char} (skips : skipLayout s = rest)
    (more : rest ≠ []) : ∃ layout, Layout layout ∧ s = layout ++ rest :=
  (skips ▸ skipped_skipLayout s : Skipped s rest).layout more

theorem Separator.skipSeparator_append {gap s : List Char} (separator : Separator gap)
    (solid : Solid s) (noComma : ∀ c ∈ s.head?, c ≠ ',') : skipSeparator (gap ++ s) = s := by
  rcases separator with isLayout | ⟨before, after, isLayout, isLayout', rfl⟩
  · rw [skipSeparator, isLayout.skipLayout_append, solid.skipLayout]
    split
    · exact absurd rfl (noComma ',' rfl)
    · rfl
  · have comma : Solid (',' :: (after ++ s)) := by
      rintro c ⟨⟩
      exact ⟨rfl, by decide⟩
    rw [skipSeparator, List.append_assoc, isLayout.skipLayout_append, List.cons_append,
      comma.skipLayout]
    exact (isLayout'.skipLayout_append s).trans solid.skipLayout

theorem Separator.exists_of_skipSeparator {s rest : List Char} (skips : skipSeparator s = rest)
    (more : rest ≠ []) : ∃ gap, Separator gap ∧ s = gap ++ rest := by
  unfold skipSeparator at skips
  split at skips
  · rename_i behind comma
    obtain ⟨before, isLayout, rfl⟩ := Layout.exists_of_skipLayout comma (by simp)
    obtain ⟨after, isLayout', rfl⟩ := Layout.exists_of_skipLayout skips more
    exact ⟨before ++ ',' :: after, Or.inr ⟨before, after, isLayout, isLayout', rfl⟩, by simp⟩
  · obtain ⟨layout, isLayout, same⟩ := Layout.exists_of_skipLayout skips more
    exact ⟨layout, Or.inl isLayout, same⟩

end RuleText
end TripleInference
