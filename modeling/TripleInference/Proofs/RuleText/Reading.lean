import TripleInference.Proofs.RuleText.Layout

/-!
The readers accept the grammar and nothing else. For each part of a document there are two lemmas:
the reader takes the part from the front of a text that begins with it, and whatever the reader
takes from a text is such a part.
-/
namespace TripleInference
namespace RuleText

theorem expect_eq_some {cs s rest : List Char} : expect cs s = some rest ↔ s = cs ++ rest := by
  induction cs generalizing s with
  | nil => simp [expect]
  | cons c cs ih =>
    cases s with
    | nil => simp [expect]
    | cons d s =>
      simp only [expect, beq_iff_eq, List.cons_append, List.cons.injEq]
      split
      · rename_i same
        subst same
        rw [ih]
        simp
      · rename_i differ
        simp [Ne.symm differ]

theorem expect_append (cs s : List Char) : expect cs (cs ++ s) = some s := expect_eq_some.mpr rfl

section
variable {kind : Char → Bool} {word rest : List Char}

theorem takeWhile_word (all : ∀ c ∈ word, kind c = true) (stop : ∀ c ∈ rest.head?, kind c = false) :
    (word ++ rest).takeWhile kind = word ∧ (word ++ rest).dropWhile kind = rest := by
  rw [List.takeWhile_append_of_pos all, List.dropWhile_append_of_pos all]
  cases rest with
  | nil => simp
  | cons c rest => simp [stop c rfl]

theorem dropWhile_stops (kind : Char → Bool) (s : List Char) :
    ∀ c ∈ (s.dropWhile kind).head?, kind c = false := by
  intro c mem
  have first := List.head?_dropWhile_not kind s
  rw [Option.mem_def.mp mem] at first
  exact first

theorem run_append (all : ∀ c ∈ word, kind c = true) (some : word ≠ [])
    (stop : ∀ c ∈ rest.head?, kind c = false) :
    run kind (word ++ rest) = .some (String.ofList word, rest) := by
  obtain ⟨taken, dropped⟩ := takeWhile_word all stop
  unfold run
  rw [taken, dropped]
  split
  · exact absurd rfl some
  · rfl

theorem run_eq_none (stop : ∀ c ∈ rest.head?, kind c = false) : run kind rest = none := by
  have nothing : rest.takeWhile kind = [] := by
    cases rest with
    | nil => rfl
    | cons c rest => simp [stop c rfl]
  unfold run
  rw [nothing]

theorem eq_of_run {s rest : List Char} {word : String} (reads : run kind s = some (word, rest)) :
    s = word.toList ++ rest ∧ word.toList ≠ [] ∧ (∀ c ∈ word.toList, kind c = true) ∧
      ∀ c ∈ rest.head?, kind c = false := by
  unfold run at reads
  split at reads
  · cases reads
  · rename_i notEmpty
    cases reads
    rw [String.toList_ofList]
    refine ⟨List.takeWhile_append_dropWhile.symm, notEmpty, ?_, dropWhile_stops kind s⟩
    exact List.all_eq_true.mp List.all_takeWhile

end

section
variable {close : Char}

theorem closedBy_append {text : List Char} (noClose : close ∉ text) (rest : List Char) :
    closedBy close (text ++ close :: rest) = some (String.ofList text, rest) := by
  have all : ∀ c ∈ text, (c != close) = true := by
    intro c mem
    exact bne_iff_ne.mpr (ne_of_mem_of_not_mem mem noClose)
  have stop : ∀ c ∈ (close :: rest).head?, (c != close) = false := by simp
  obtain ⟨taken, dropped⟩ := takeWhile_word all stop
  rw [closedBy, taken, dropped]

theorem eq_of_closedBy {s rest : List Char} {text : String}
    (reads : closedBy close s = some (text, rest)) :
    s = text.toList ++ close :: rest ∧ close ∉ text.toList := by
  unfold closedBy at reads
  split at reads
  · cases reads
  · rename_i c behind found
    cases reads
    have closes : c = close := by
      have stops := dropWhile_stops (· != close) s c (by rw [found]; rfl)
      simpa using stops
    rw [String.toList_ofList]
    constructor
    · subst closes
      rw [← found]
      exact List.takeWhile_append_dropWhile.symm
    · intro mem
      have other := List.all_eq_true.mp List.all_takeWhile close mem
      simp at other

end

theorem term_of_isNameChar {s : List Char} (first : ∀ c ∈ s.head?, Text.isNameChar c = true) :
    term s = (run Text.isNameChar s).map fun (word, s) =>
      (if word = "_" then .wildcard else .name word, s) := by
  have marks : ∀ c ∈ ['?', '<', '"'], Text.isNameChar c = false := by
    rw [← List.all_iff_forall_prop]
    decide +kernel
  unfold term
  split
  · exact absurd (first '?' rfl) (by simp [marks])
  · exact absurd (first '<' rfl) (by simp [marks])
  · exact absurd (first '"' rfl) (by simp [marks])
  · rfl

theorem term_token {t : WrittenTerm} (writable : t.Writable) {rest : List Char}
    (stop : ∀ c ∈ rest.head?, t.extendedBy c = false) :
    term (t.token ++ rest) = some (t, rest) := by
  cases t with
  | var word =>
    obtain ⟨notEmpty, all⟩ := writable
    simp [WrittenTerm.token, term, run_append all notEmpty stop]
  | wildcard =>
    have all : ∀ c ∈ ['_'], Text.isNameChar c = true := by
      rw [← List.all_iff_forall_prop]
      decide +kernel
    rw [WrittenTerm.token, term_of_isNameChar (by simpa using all), run_append all (by simp) stop]
    rfl
  | name word =>
    obtain ⟨notEmpty, notWildcard, all⟩ := writable
    have first : ∀ c ∈ (word.toList ++ rest).head?, Text.isNameChar c = true := by
      obtain ⟨c, cs, letters⟩ := List.exists_cons_of_ne_nil notEmpty
      rw [letters] at all ⊢
      rintro d ⟨⟩
      exact all c List.mem_cons_self
    have other : word ≠ "_" := by
      rintro rfl
      exact notWildcard rfl
    rw [WrittenTerm.token, term_of_isNameChar first, run_append all notEmpty stop,
      String.ofList_toList]
    simp [other]
  | iri text => simp [WrittenTerm.token, term, closedBy_append writable]
  | literal text => simp [WrittenTerm.token, term, closedBy_append writable]

theorem eq_of_term {s rest : List Char} {t : WrittenTerm} (reads : term s = some (t, rest)) :
    t.Writable ∧ s = t.token ++ rest ∧ ∀ c ∈ rest.head?, t.extendedBy c = false := by
  unfold term at reads
  split at reads <;> obtain ⟨⟨word, behind⟩, found, same⟩ := Option.map_eq_some_iff.mp reads
  · cases same
    obtain ⟨rfl, notEmpty, all, stop⟩ := eq_of_run found
    exact ⟨⟨notEmpty, all⟩, rfl, stop⟩
  · cases same
    obtain ⟨rfl, noClose⟩ := eq_of_closedBy found
    exact ⟨noClose, by simp [WrittenTerm.token], fun _ _ => rfl⟩
  · cases same
    obtain ⟨rfl, noClose⟩ := eq_of_closedBy found
    exact ⟨noClose, by simp [WrittenTerm.token], fun _ _ => rfl⟩
  · obtain ⟨rfl, notEmpty, all, stop⟩ := eq_of_run found
    cases same
    by_cases wildcard : word = "_"
    · subst wildcard
      exact ⟨trivial, rfl, stop⟩
    · rw [if_neg wildcard]
      refine ⟨⟨notEmpty, fun single => wildcard ?_, all⟩, rfl, stop⟩
      rw [← String.ofList_toList (s := word), single]

theorem extendedBy_eq_false (t : WrittenTerm) {c : Char} (other : Text.isNameChar c = false) :
    t.extendedBy c = false := by
  cases t with
  | var word =>
    refine Bool.eq_false_iff.mpr fun belongs => ?_
    rw [isNameChar_of_isWordChar belongs] at other
    cases other
  | wildcard => exact other
  | name word => exact other
  | iri text => rfl
  | literal text => rfl

theorem solid_mark {c : Char} {s : List Char} (mark : c ∈ "()[]<>\"?,@.:-".toList) :
    Solid (c :: s) := by
  have solid : ∀ d ∈ "()[]<>\"?,@.:-".toList, Text.isBlank d = false ∧ d ≠ '#' := by
    rw [← List.all_iff_forall_prop]
    decide +kernel
  rintro d ⟨⟩
  exact solid c mark

theorem token_first {t : WrittenTerm} (writable : t.Writable) :
    ∃ c cs, t.token = c :: cs ∧ c ≠ ',' ∧ ∀ s, Solid (c :: s) := by
  have named {c : Char} (name : Text.isNameChar c = true) : c ≠ ',' ∧ ∀ s, Solid (c :: s) := by
    refine ⟨?_, fun s => solid_cons name⟩
    rintro rfl
    exact absurd name (by decide +kernel)
  cases t with
  | var word => exact ⟨_, _, rfl, by decide, fun s => solid_mark (by decide)⟩
  | wildcard => exact ⟨_, _, rfl, named (by decide +kernel)⟩
  | name word =>
    obtain ⟨notEmpty, -, all⟩ := writable
    obtain ⟨c, cs, letters⟩ := List.exists_cons_of_ne_nil notEmpty
    exact ⟨c, cs, letters, named (all c (by simp [letters]))⟩
  | iri text => exact ⟨_, _, rfl, by decide, fun s => solid_mark (by decide)⟩
  | literal text => exact ⟨_, _, rfl, by decide, fun s => solid_mark (by decide)⟩

theorem Layout.first {gap : List Char} (layout : Layout gap) :
    ∀ c ∈ gap.head?, Text.isNameChar c = false := by
  cases layout with
  | nil => exact nofun
  | blank blank _ =>
    rintro c ⟨⟩
    exact isNameChar_eq_false (List.mem_append_left _ (isBlank_iff.mp blank))
  | comment _ _ _ =>
    rintro c ⟨⟩
    exact isNameChar_eq_false (by decide)

theorem Layout.first_append {gap : List Char} (layout : Layout gap) {c : Char} (s : List Char)
    (mark : Text.isNameChar c = false) :
    ∀ d ∈ (gap ++ c :: s).head?, Text.isNameChar d = false := by
  cases gap with
  | nil =>
    rintro d ⟨⟩
    exact mark
  | cons e gap =>
    rintro d ⟨⟩
    exact layout.first e rfl

theorem Separator.first {gap : List Char} (separator : Separator gap) :
    ∀ c ∈ gap.head?, Text.isNameChar c = false := by
  rcases separator with layout | ⟨before, after, layout, -, rfl⟩
  · exact layout.first
  · exact layout.first_append after (isNameChar_eq_false (by decide))

theorem Between.stop {t u : WrittenTerm} {gap : List Char} (between : Between t u gap)
    (writable : u.Writable) (s : List Char) :
    ∀ c ∈ (gap ++ (u.token ++ s)).head?, t.extendedBy c = false := by
  cases gap with
  | nil =>
    obtain ⟨c, cs, token, -⟩ := token_first writable
    have apart := between.apart rfl
    rw [token] at apart ⊢
    exact apart
  | cons d gap =>
    rintro c ⟨⟩
    exact extendedBy_eq_false t (between.separator.first d rfl)

theorem Between.skipSeparator_append {t u : WrittenTerm} {gap : List Char}
    (between : Between t u gap) (writable : u.Writable) (s : List Char) :
    skipSeparator (gap ++ (u.token ++ s)) = u.token ++ s := by
  obtain ⟨c, cs, token, noComma, solid⟩ := token_first writable
  rw [token]
  refine between.separator.skipSeparator_append (solid _) ?_
  rintro d ⟨⟩
  exact noComma

theorem pattern_append {p : WrittenPattern} {text : List Char} (written : PatternText p text)
    (rest : List Char) : pattern (text ++ rest) = some (p, rest) := by
  cases written with
  | @mk before first second after layout subject between predicate between' object layout' =>
  simp only [List.cons_append, List.append_assoc, List.nil_append]
  obtain ⟨c, cs, token, -, solid⟩ := token_first subject
  have opening (s : List Char) :
      skipLayout (before ++ (p.subject.token ++ s)) = p.subject.token ++ s := by
    rw [layout.skipLayout_append, token]
    exact (solid _).skipLayout
  have closing : skipLayout (after ++ ')' :: rest) = ')' :: rest := by
    rw [layout'.skipLayout_append]
    exact (solid_mark (by decide)).skipLayout
  have stop : ∀ d ∈ (after ++ ')' :: rest).head?, p.object.extendedBy d = false := fun d mem =>
    extendedBy_eq_false _ (layout'.first_append rest (isNameChar_eq_false (by decide)) d mem)
  simp only [pattern, expect, beq_self_eq_true, ↓reduceIte, Option.bind_eq_bind, Option.bind_some,
    opening, term_token subject (between.stop predicate _),
    between.skipSeparator_append predicate, term_token predicate (between'.stop object _),
    between'.skipSeparator_append object, term_token object stop, closing]
  rfl

theorem token_append_ne_nil {t : WrittenTerm} (writable : t.Writable) (s : List Char) :
    t.token ++ s ≠ [] := by
  obtain ⟨c, cs, token, -⟩ := token_first writable
  simp [token]

/-- Two terms that were read one after the other had a gap between them that keeps them apart. -/
theorem exists_between {t u : WrittenTerm} {s behind : List Char} (writable : u.Writable)
    (stop : ∀ c ∈ s.head?, t.extendedBy c = false) (found : skipSeparator s = u.token ++ behind) :
    ∃ gap, Between t u gap ∧ s = gap ++ (u.token ++ behind) := by
  obtain ⟨gap, separator, rfl⟩ :=
    Separator.exists_of_skipSeparator found (token_append_ne_nil writable _)
  refine ⟨gap, ⟨separator, ?_⟩, rfl⟩
  rintro rfl
  obtain ⟨c, cs, token, -⟩ := token_first writable
  rw [token] at stop ⊢
  exact stop

theorem eq_of_pattern {s rest : List Char} {p : WrittenPattern}
    (reads : pattern s = some (p, rest)) : ∃ text, PatternText p text ∧ s = text ++ rest := by
  simp only [pattern, Option.bind_eq_bind, Option.bind_eq_some_iff, Prod.exists, expect_eq_some]
    at reads
  obtain ⟨s₁, rfl, subject, s₂, first, predicate, s₃, second, object, s₄, third, s₅, closing,
    done⟩ := reads
  cases done
  obtain ⟨subjectOk, found₁, stop₁⟩ := eq_of_term first
  obtain ⟨predicateOk, found₂, stop₂⟩ := eq_of_term second
  obtain ⟨objectOk, found₃, -⟩ := eq_of_term third
  obtain ⟨before, layout, rfl⟩ :=
    Layout.exists_of_skipLayout found₁ (token_append_ne_nil subjectOk _)
  obtain ⟨gap, between, rfl⟩ := exists_between predicateOk stop₁ found₂
  obtain ⟨gap', between', rfl⟩ := exists_between objectOk stop₂ found₃
  obtain ⟨after, layout', rfl⟩ := Layout.exists_of_skipLayout closing (by simp)
  refine ⟨_, .mk layout subjectOk between predicateOk between' objectOk layout', ?_⟩
  simp

end RuleText
end TripleInference
