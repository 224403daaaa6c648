import Mathlib.Data.List.Induction
import Mathlib.Data.List.Nodup
import TripleInference.Proofs.Network.Acceptance
import TripleInference.Proofs.RuleText.Meaning

/-!
The variables of the rules that were read. They are numbered without gaps in the order in which the
text names them first, so no rule that was read lacks room for one of them.
-/
namespace TripleInference

theorem eraseDups_map {α β : Type} [DecidableEq α] [DecidableEq β] {f : α → β} {l : List α}
    (injective : ∀ x ∈ l, ∀ y ∈ l, f x = f y → x = y) :
    (l.map f).eraseDups = l.eraseDups.map f := by
  induction l using List.reverseRecOn with
  | nil => rfl
  | append_singleton xs x ih =>
    have here : x ∈ xs ++ [x] := List.mem_append_right _ List.mem_cons_self
    have known : f x ∈ xs.map f ↔ x ∈ xs := by
      refine ⟨fun mem => ?_, List.mem_map_of_mem⟩
      obtain ⟨y, old, same⟩ := List.mem_map.mp mem
      exact injective y (List.mem_append_left _ old) x here same ▸ old
    have ih := ih fun y old z old' =>
      injective y (List.mem_append_left _ old) z (List.mem_append_left _ old')
    rw [List.map_append, List.map_singleton, eraseDups_concat, eraseDups_concat, ih]
    simp only [known]
    split
    · rfl
    · rw [List.map_append, List.map_singleton]

theorem nodup_eraseDups {α : Type} [DecidableEq α] (l : List α) : l.eraseDups.Nodup := by
  induction l using List.reverseRecOn with
  | nil => exact List.nodup_nil
  | append_singleton xs x ih =>
    rw [eraseDups_concat]
    split
    · exact ih
    · rename_i new
      exact List.nodup_append_comm.mp
        (List.nodup_cons.mpr ⟨fun old => new (List.mem_eraseDups.mp old), ih⟩)

theorem map_idxOf_self {α : Type} [DecidableEq α] {l : List α} (distinct : l.Nodup) :
    l.map l.idxOf = List.range l.length := by
  apply List.ext_getElem
  · simp
  · intro i inside _
    rw [List.length_map] at inside
    simp [distinct.idxOf_getElem i inside]

theorem Vocabulary.Lists.decode_isSome {v : Vocabulary} {words : List String} {word : String}
    {id : TermId} (lists : v.Lists words) (known : v.lookup word = some id) :
    (v.decode id).isSome := by
  obtain ⟨i, here, rfl⟩ := (lists.numbers word id).mp known
  have inside := (List.getElem?_eq_some_iff.mp here).1
  have small : (UInt32.ofNat i).toNat ≤ i := by
    rw [UInt32.toNat_ofNat']
    exact Nat.mod_le _ _
  rw [lists.decode, List.getElem?_eq_getElem (Nat.lt_of_le_of_lt small inside)]
  rfl

theorem CompiledRules.head_fault_of_compile {rules : List Rule} {ignoreBackward : Bool}
    {failure : Failure} (room : ∀ r ∈ rules, r.checkRoom = .ok ())
    (refused : compile rules ignoreBackward = .error failure) :
    ∃ r ∈ rules, (∃ index, failure = .rule (.unboundHeadVariable r.label index)) ∨
      failure = .rule (.wildcardInHead r.label) := by
  obtain ⟨before, r, after, fault, rfl, -, -, checked, rfl⟩ := compile_eq_error.mp refused
  have mem : r ∈ before ++ r :: after := List.mem_append_right _ List.mem_cons_self
  refine ⟨r, mem, ?_⟩
  cases Rule.check_eq_error.mp checked with
  | outOfRange first inside outside =>
    have roomy := room r mem
    rw [Rule.checkRoom, Rule.find?_ordinals.mpr ⟨_, _, first, inside, outside⟩] at roomy
    cases roomy
  | unboundHead => exact Or.inl ⟨_, rfl⟩
  | wildcardInHead => exact Or.inr rfl

namespace RuleText

/-- A rule keeps the slots it was written with. Its variables are numbered in the order in which
they come first, body before head and slot by slot. -/
structure WellScoped (v : Vocabulary) (written : WrittenRule) (r : Rule) : Prop where
  body : r.body.length = written.body.length
  head : r.head.length = written.head.length
  order : r.ordinals.eraseDups = List.range r.numVars
  numVars : r.numVars = (variableNames written).length
  /-- Two slots have the same variable exactly if they were written with the same name. -/
  alike : ∀ i j : Nat,
    (∃ index, r.terms[i]? = some (.var index) ∧ r.terms[j]? = some (.var index)) ↔
      ∃ name, (ruleTerms written)[i]? = some (.var name) ∧
        (ruleTerms written)[j]? = some (.var name)
  room : r.checkRoom = .ok ()
  constants : ∀ id, .constant id ∈ r.terms → (v.decode id).isSome

variable {v : Vocabulary} {declared : Declared} {names words : List String}

theorem var_iff_written {ts : List WrittenTerm} {us : List Term} (distinct : names.Nodup)
    (means : List.Forall₂ (TermMeans v declared names) ts us) (i index : Nat) :
    us[i]? = some (.var index) ↔
      ∃ name, names[index]? = some name ∧ ts[i]? = some (.var name) := by
  induction means generalizing i with
  | nil => simp
  | @cons t u ts us first _ ih =>
    cases i with
    | succ i => exact ih i
    | zero =>
      simp only [List.getElem?_cons_zero, Option.some.injEq]
      cases first with
      | @var name place found =>
        simp only [Term.var.injEq, WrittenTerm.var.injEq]
        constructor
        · rintro rfl
          exact ⟨name, found, rfl⟩
        · rintro ⟨_, found', rfl⟩
          obtain ⟨inside, here⟩ := List.getElem?_eq_some_iff.mp found
          obtain ⟨inside', here'⟩ := List.getElem?_eq_some_iff.mp found'
          exact distinct.getElem_inj_iff.mp (here.trans here'.symm)
      | wildcard => simp
      | constant named => cases named <;> simp

theorem ordinals_eq_map {ts : List WrittenTerm} {us : List Term} (distinct : names.Nodup)
    (means : List.Forall₂ (TermMeans v declared names) ts us) :
    us.filterMap Term.ordinal? = (ts.filterMap varName?).map names.idxOf := by
  induction means with
  | nil => rfl
  | cons first _ ih =>
    cases first with
    | @var name index found =>
      obtain ⟨inside, here⟩ := List.getElem?_eq_some_iff.mp found
      have place : names.idxOf name = index := here ▸ distinct.idxOf_getElem index inside
      simp [Term.ordinal?, varName?, ih, place]
    | wildcard => exact ih
    | constant named => cases named <;> exact ih

theorem TermMeans.decode_isSome {t : WrittenTerm} {id : TermId}
    (means : TermMeans v declared names t (.constant id)) (lists : v.Lists words) :
    (v.decode id).isSome := by
  cases means with
  | constant _ known => exact lists.decode_isSome known

theorem RuleMeans.terms {written : Declared × WrittenRule} {r : Rule}
    (means : RuleMeans v written r) :
    List.Forall₂ (TermMeans v written.1 (variableNames written.2)) (ruleTerms written.2)
      r.terms := by
  refine List.rel_flatMap (List.rel_append means.body means.head) fun p q pattern => ?_
  exact .cons pattern.subject (.cons pattern.predicate (.cons pattern.object .nil))

theorem RuleMeans.order {written : Declared × WrittenRule} {r : Rule}
    (means : RuleMeans v written r) : r.ordinals.eraseDups = List.range r.numVars := by
  have distinct : (variableNames written.2).Nodup := nodup_eraseDups _
  have injective : ∀ x ∈ (ruleTerms written.2).filterMap varName?,
      ∀ y ∈ (ruleTerms written.2).filterMap varName?,
        (variableNames written.2).idxOf x = (variableNames written.2).idxOf y → x = y :=
    fun x mem y _ => (List.idxOf_inj (List.mem_eraseDups.mpr mem)).mp
  calc r.ordinals.eraseDups
      = (((ruleTerms written.2).filterMap varName?).map
          (variableNames written.2).idxOf).eraseDups := by
        rw [r.ordinals_eq_filterMap, ordinals_eq_map distinct means.terms]
    _ = (variableNames written.2).map (variableNames written.2).idxOf := eraseDups_map injective
    _ = List.range r.numVars := by rw [map_idxOf_self distinct, means.numVars]

theorem RuleMeans.wellScoped {written : Declared × WrittenRule} {r : Rule}
    (means : RuleMeans v written r) (lists : v.Lists words) : WellScoped v written.2 r where
  body := means.body.length_eq.symm
  head := means.head.length_eq.symm
  order := means.order
  numVars := means.numVars
  alike i j := by
    have distinct : (variableNames written.2).Nodup := nodup_eraseDups _
    simp only [var_iff_written distinct means.terms]
    constructor
    · rintro ⟨index, ⟨name, found, first⟩, ⟨name', found', second⟩⟩
      obtain rfl := Option.some.inj (found.symm.trans found')
      exact ⟨name, first, second⟩
    · rintro ⟨name, first, second⟩
      have listed : name ∈ variableNames written.2 :=
        List.mem_eraseDups.mpr (List.mem_filterMap.mpr ⟨_, List.mem_of_getElem? first, rfl⟩)
      obtain ⟨index, found⟩ := List.mem_iff_getElem?.mp listed
      exact ⟨index, ⟨name, found, first⟩, ⟨name, found, second⟩⟩
  room := Rule.checkRoom_eq_ok.mpr fun i mem => by
    rwa [← List.mem_eraseDups, means.order, List.mem_range] at mem
  constants id mem := by
    obtain ⟨i, inside, same⟩ := List.getElem_of_mem mem
    have term := means.terms.get (means.terms.length_eq ▸ inside) inside
    rw [List.get_eq_getElem, List.get_eq_getElem, same] at term
    exact term.decode_isSome lists

/-- The rules that are read from a text are well scoped. So a list of them is refused only for a
head variable that the body of its rule lacks or for a wildcard in a head. -/
theorem read_rules_are_well_scoped (text : String) (encodings : List Encoding) {rules : List Rule}
    (reads : ((read text).outcome (Vocabulary.after ∅ encodings)).1 = .ok rules) :
    (∃ doc, DocumentText doc text.toList ∧
      List.Forall₂ (WellScoped ((read text).outcome (Vocabulary.after ∅ encodings)).2)
        ((rulesUnder [] doc).map (·.2)) rules) ∧
    ∀ chosen ⊆ rules, ∀ ignoreBackward failure,
      CompiledRules.compile chosen ignoreBackward = .error failure →
      ∃ r ∈ chosen, (∃ index, failure = .rule (.unboundHeadVariable r.label index)) ∨
        failure = .rule (.wildcardInHead r.label) := by
  obtain ⟨doc, words, written, lists, means⟩ := exists_document_of_reads reads
  have wellScoped := means.imp fun _ _ rule => rule.wellScoped lists
  refine ⟨⟨doc, written, List.forall₂_map_left_iff.mpr wellScoped⟩, ?_⟩
  intro chosen taken ignoreBackward failure refused
  refine CompiledRules.head_fault_of_compile (fun r mem => ?_) refused
  obtain ⟨i, inside, same⟩ := List.getElem_of_mem (taken mem)
  exact same ▸ (wellScoped.get (wellScoped.length_eq ▸ inside) inside).room

theorem names_keep_their_ordinals_in_the_head :
    let text := "[r: (?a same ?z) <- (?b p ?x) (?x p ?a) (_ p ?b)]"
    let v := Vocabulary.after ∅ [.word "p"]
    let rules := [⟨some "r", [⟨.var 0, .constant 0, .var 1⟩, ⟨.var 1, .constant 0, .var 2⟩,
      ⟨.wildcard, .constant 0, .var 0⟩], [⟨.var 2, .constant 1, .var 3⟩], 4, .backward⟩]
    ((read text).outcome v).1 = .ok rules ∧
      (∃ doc, DocumentText doc text.toList ∧
        List.Forall₂ (WellScoped ((read text).outcome v).2) ((rulesUnder [] doc).map (·.2)) rules) ∧
      CompiledRules.compile rules false = .error (.rule (.unboundHeadVariable "r" 3)) := by
  intro text v rules
  have reads : ((read text).outcome v).1 = .ok rules := by decide +kernel
  obtain ⟨wellScoped, -⟩ := read_rules_are_well_scoped text [.word "p"] reads
  refine ⟨reads, wellScoped, CompiledRules.compile_eq_error.mpr ?_⟩
  exact ⟨[], _, [], _, rfl, by simp, by simp [Rule.Runs], by decide +kernel, rfl⟩

end RuleText
end TripleInference
