import TripleInference.Proofs.Network.Compiled

/-!
Compiling a list of rules succeeds exactly when the active ones are well formed. The network then
is made of their chains, one behind the other, and the table of their filters.
-/
namespace TripleInference

namespace Rule

def Runs (ignoreBackward : Bool) (r : Rule) : Prop := ignoreBackward = true → r.direction = .forward

theorem runs_iff {ignoreBackward : Bool} {r : Rule} :
    r.Runs ignoreBackward ↔ (ignoreBackward && r.isBackward) = false := by
  cases ignoreBackward <;> cases direction : r.direction <;> simp [Runs, isBackward, direction]

end Rule

namespace NetworkBuilder

def place (b : NetworkBuilder) (rule : RuleId × Rule) : NetworkBuilder :=
  (b.fileRule rule.2 b.network.size).withNodes
    (b.network.nodes.toList ++ Network.chain rule.1 rule.2 b.network.size)

/-- The rules of a list that are not left out, numbered from `id` on. -/
def numbered (ignoreBackward : Bool) (rules : List Rule) (id : RuleId) : List (RuleId × Rule) :=
  ((rules.zipIdx id).filter fun (r, _) => !(ignoreBackward && r.isBackward)).map Prod.swap

theorem numbered_cons (ignoreBackward : Bool) (r : Rule) (rest : List Rule) (id : RuleId) :
    numbered ignoreBackward (r :: rest) id =
      (if ignoreBackward && r.isBackward then [] else [(id, r)]) ++
        numbered ignoreBackward rest (id + 1) := by
  unfold numbered
  rw [List.zipIdx_cons, List.filter_cons]
  cases out : ignoreBackward && r.isBackward <;> simp [out]

theorem mem_numbered {ignoreBackward : Bool} {rules : List Rule} {rule : RuleId × Rule} :
    rule ∈ numbered ignoreBackward rules 0 ↔
      rules[rule.1]? = some rule.2 ∧ (ignoreBackward && rule.2.isBackward) = false := by
  rw [numbered, List.mem_map]
  constructor
  · rintro ⟨⟨r, id⟩, mem, rfl⟩
    obtain ⟨listed, stays⟩ := List.mem_filter.mp mem
    exact ⟨List.mem_zipIdx_iff_getElem?.mp listed, (Bool.not_eq_true' _).mp stays⟩
  · rintro ⟨listed, stays⟩
    refine ⟨rule.swap, List.mem_filter.mpr ⟨?_, (Bool.not_eq_true' _).mpr stays⟩, rule.swap_swap⟩
    exact List.mem_zipIdx_iff_getElem?.mpr listed

theorem outcome_discard_buildRule (id : RuleId) (r : Rule) (b : NetworkBuilder) :
    (discard (buildRule id r) : Step Failure NetworkBuilder PUnit).outcome b =
      match r.check with
      | .ok _ => (.ok ⟨⟩, b.place (id, r))
      | .error fault => (.error (.rule fault), b) := by
  change (buildRule id r >>= fun _ => pure PUnit.unit).outcome b = _
  rw [Step.outcome_bind]
  cases checked : r.check with
  | ok _ =>
    obtain ⟨terminal, built⟩ := outcome_buildRule id (Rule.check_eq_ok.mp checked) b
    rw [built]
    rfl
  | error fault => rw [outcome_buildRule_of_fault id checked b]

theorem forall_numbered {ignoreBackward : Bool} {rules : List Rule} {id : RuleId}
    {property : Rule → Prop} :
    (∀ rule ∈ numbered ignoreBackward rules id, property rule.2) ↔
      ∀ r ∈ rules, r.Runs ignoreBackward → property r := by
  induction rules generalizing id with
  | nil => simp [numbered]
  | cons r rest ih =>
    rw [numbered_cons, List.forall_mem_append, ih, List.forall_mem_cons, Rule.runs_iff]
    cases ignoreBackward && r.isBackward <;> simp

theorem buildRules_eq (ignoreBackward : Bool) (rules : List Rule) (id : RuleId) :
    buildRules ignoreBackward rules id =
      (numbered ignoreBackward rules id).forM fun rule => discard (buildRule rule.1 rule.2) := by
  induction rules generalizing id with
  | nil => rfl
  | cons r rest ih =>
    rw [buildRules, numbered_cons, ih]
    cases ignoreBackward && r.isBackward <;> rfl

theorem outcome_forM_buildRule {placed : List (RuleId × Rule)}
    (wellFormed : ∀ rule ∈ placed, rule.2.WellFormed) (rest : List (RuleId × Rule))
    (b : NetworkBuilder) :
    ((placed ++ rest).forM fun rule => discard (buildRule rule.1 rule.2)).outcome b =
      (rest.forM fun rule => discard (buildRule rule.1 rule.2)).outcome (placed.foldl place b) := by
  induction placed generalizing b with
  | nil => rfl
  | cons rule placed ih =>
    obtain ⟨first, later⟩ := List.forall_mem_cons.mp wellFormed
    change (discard (buildRule rule.1 rule.2) >>= fun _ => (placed ++ rest).forM _).outcome b = _
    rw [Step.outcome_bind, outcome_discard_buildRule, Rule.check_eq_ok.mpr first]
    exact ih later _

theorem outcome_buildRules {ignoreBackward : Bool} {rules : List Rule}
    (wellFormed : ∀ r ∈ rules, r.Runs ignoreBackward → r.WellFormed) (id : RuleId)
    (b : NetworkBuilder) :
    (buildRules ignoreBackward rules id).outcome b =
      (.ok (), (numbered ignoreBackward rules id).foldl place b) := by
  have placed : ∀ rule ∈ numbered ignoreBackward rules id, rule.2.WellFormed :=
    forall_numbered.mpr wellFormed
  have run := outcome_forM_buildRule placed [] b
  rwa [List.append_nil, ← buildRules_eq] at run

theorem outcome_buildRules_of_fault {ignoreBackward : Bool} {before : List Rule} {r : Rule}
    (wellFormed : ∀ q ∈ before, q.Runs ignoreBackward → q.WellFormed)
    (runs : r.Runs ignoreBackward) {fault : RuleFault} (checked : r.check = .error fault)
    (after : List Rule) (id : RuleId) (b : NetworkBuilder) :
    (buildRules ignoreBackward (before ++ r :: after) id).outcome b =
      (.error (.rule fault), (numbered ignoreBackward before id).foldl place b) := by
  have split : numbered ignoreBackward (before ++ r :: after) id =
      numbered ignoreBackward before id ++ (id + before.length, r) ::
        numbered ignoreBackward after (id + before.length + 1) := by
    rw [numbered, List.zipIdx_append, List.filter_append, List.map_append]
    change _ ++ numbered ignoreBackward (r :: after) (id + before.length) = _
    rw [numbered_cons, Rule.runs_iff.mp runs]
    rfl
  rw [buildRules_eq, split, outcome_forM_buildRule (forall_numbered.mpr wellFormed)]
  change (discard (buildRule (id + before.length) r) >>= fun _ => _).outcome _ = _
  rw [Step.outcome_bind, outcome_discard_buildRule, checked]

theorem wellFormed_or_first_fault (ignoreBackward : Bool) (rules : List Rule) :
    (∀ r ∈ rules, r.Runs ignoreBackward → r.WellFormed) ∨
    ∃ before r after fault, rules = before ++ r :: after ∧
      (∀ q ∈ before, q.Runs ignoreBackward → q.WellFormed) ∧ r.Runs ignoreBackward ∧
      r.check = .error fault := by
  induction rules with
  | nil => simp
  | cons r rest ih =>
    by_cases first : r.Runs ignoreBackward → r.WellFormed
    · rcases ih with all | ⟨before, q, after, fault, rfl, wellFormed, stop⟩
      · exact Or.inl (List.forall_mem_cons.mpr ⟨first, all⟩)
      · exact Or.inr ⟨r :: before, q, after, fault, rfl,
          List.forall_mem_cons.mpr ⟨first, wellFormed⟩, stop⟩
    · obtain ⟨runs, bad⟩ := Classical.not_imp.mp first
      cases checked : r.check with
      | ok _ => exact absurd (Rule.check_eq_ok.mp checked) bad
      | error fault => exact Or.inr ⟨[], r, rest, fault, rfl, by simp, runs, checked⟩

end NetworkBuilder

namespace CompiledRules

theorem compile_of_fault {ignoreBackward : Bool} {before : List Rule} {r : Rule}
    (wellFormed : ∀ q ∈ before, q.Runs ignoreBackward → q.WellFormed)
    (runs : r.Runs ignoreBackward) {fault : RuleFault} (checked : r.check = .error fault)
    (after : List Rule) :
    compile (before ++ r :: after) ignoreBackward = .error (.rule fault) := by
  rw [compile, NetworkBuilder.outcome_buildRules_of_fault wellFormed runs checked after 0 ∅]

theorem compile_eq_ok {rules : List Rule} {ignoreBackward : Bool} {c : CompiledRules} :
    compile rules ignoreBackward = .ok c ↔
      (∀ rule ∈ NetworkBuilder.numbered ignoreBackward rules 0, rule.2.WellFormed) ∧
        c = ((NetworkBuilder.numbered ignoreBackward rules 0).foldl NetworkBuilder.place ∅).finish
          rules ignoreBackward := by
  rw [NetworkBuilder.forall_numbered]
  rcases NetworkBuilder.wellFormed_or_first_fault ignoreBackward rules with
    all | ⟨before, r, after, fault, rfl, wellFormed, runs, checked⟩
  · rw [compile, NetworkBuilder.outcome_buildRules all]
    simp only [Except.ok.injEq]
    exact ⟨fun same => ⟨all, same.symm⟩, fun same => same.2.symm⟩
  · rw [compile_of_fault wellFormed runs checked]
    refine iff_of_false nofun fun ⟨all, _⟩ => ?_
    cases checked.symm.trans (Rule.check_eq_ok.mpr (all r (by simp) runs))

theorem compile_eq_error {rules : List Rule} {ignoreBackward : Bool} {failure : Failure} :
    compile rules ignoreBackward = .error failure ↔
      ∃ before r after fault, rules = before ++ r :: after ∧
        (∀ q ∈ before, q.Runs ignoreBackward → q.WellFormed) ∧ r.Runs ignoreBackward ∧
        r.check = .error fault ∧ failure = .rule fault := by
  constructor
  · intro rejects
    rcases NetworkBuilder.wellFormed_or_first_fault ignoreBackward rules with
      all | ⟨before, r, after, fault, rfl, wellFormed, runs, checked⟩
    · rw [compile, NetworkBuilder.outcome_buildRules all] at rejects
      cases rejects
    · rw [compile_of_fault wellFormed runs checked] at rejects
      exact ⟨before, r, after, fault, rfl, wellFormed, runs, checked,
        (Except.error.inj rejects).symm⟩
  · rintro ⟨before, r, after, fault, rfl, wellFormed, runs, checked, rfl⟩
    exact compile_of_fault wellFormed runs checked after

theorem fault_of_compile {rules : List Rule} {ignoreBackward : Bool} {failure : Failure}
    (rejects : compile rules ignoreBackward = .error failure) : ∃ fault, failure = .rule fault := by
  obtain ⟨before, r, after, fault, -, -, -, -, same⟩ := compile_eq_error.mp rejects
  exact ⟨fault, same⟩

end CompiledRules

def Pattern.fileKey (p : Pattern) : TermId := p.predicate.constant?.getD FilterTable.openKey

namespace FilterTable

theorem mem_get_insert {x : FilterTable} {p q : TermId} {filter pos : NodeId} :
    pos ∈ (x.insert p filter).get q ↔ pos ∈ x.get q ∨ (p = q ∧ pos = filter) := by
  rw [get_insert]
  split
  · rename_i same
    subst same
    simp
  · rename_i differs
    simp [differs]

theorem mem_candidates {x : FilterTable} {p : Pattern} {pos : NodeId} {v : Valuation} {t : Triple}
    (filed : pos ∈ x.get p.fileKey) (fits : p.Matches v t) : pos ∈ x.candidates t.predicate := by
  unfold candidates openFilters
  rw [List.mem_append]
  unfold Pattern.fileKey at filed
  cases predicate : p.predicate.constant? with
  | none => exact Or.inr (by simpa [predicate] using filed)
  | some q =>
    rw [predicate, Option.getD_some, ← fits.predicate_eq predicate] at filed
    by_cases isOpen : t.predicate = openKey
    · rw [isOpen] at filed
      exact Or.inr filed
    · rw [if_neg isOpen]
      exact Or.inl filed

theorem get_of_mem_candidates {x : FilterTable} {predicate : TermId} {pos : NodeId}
    (mem : pos ∈ x.candidates predicate) : ∃ key, pos ∈ x.get key := by
  unfold candidates openFilters at mem
  rcases List.mem_append.mp mem with mem | mem
  · split at mem
    · cases mem
    · exact ⟨predicate, mem⟩
  · exact ⟨openKey, mem⟩

end FilterTable

namespace NetworkBuilder

theorem table_fileClause (b : NetworkBuilder) (p : Pattern) (pos : NodeId) :
    (b.fileClause p pos).table = b.table.insert p.fileKey pos := by
  unfold fileClause Pattern.fileKey
  cases p.predicate <;> rfl

theorem mem_get_fileTail {b : NetworkBuilder} {rest : List Pattern} {pos x : Nat} {key : TermId} :
    x ∈ (b.fileTail rest pos).table.get key ↔ x ∈ b.table.get key ∨
      ∃ k p, rest[k]? = some p ∧ p.fileKey = key ∧ x = pos + 3 * k := by
  induction rest generalizing b pos with
  | nil => simp [fileTail]
  | cons p rest ih =>
    rw [fileTail, ih, table_fileClause, FilterTable.mem_get_insert, or_assoc]
    apply or_congr_right
    constructor
    · rintro (⟨same, rfl⟩ | ⟨k, q, here, same, rfl⟩)
      · exact ⟨0, p, rfl, same, rfl⟩
      · exact ⟨k + 1, q, here, same, by omega⟩
    · rintro ⟨k, q, here, same, rfl⟩
      cases k with
      | zero =>
        obtain rfl : p = q := by simpa using here
        exact Or.inl ⟨same, rfl⟩
      | succ k => exact Or.inr ⟨k, q, here, same, by omega⟩

theorem mem_get_fileRule {b : NetworkBuilder} {r : Rule} {base x : Nat} {key : TermId} :
    x ∈ (b.fileRule r base).table.get key ↔ x ∈ b.table.get key ∨
      ∃ k p, r.body[k]? = some p ∧ p.fileKey = key ∧ x = base + (3 * k - 2) := by
  unfold fileRule
  cases r.body with
  | nil => simp
  | cons p rest =>
    simp only []
    rw [mem_get_fileTail, table_fileClause, FilterTable.mem_get_insert, or_assoc]
    apply or_congr_right
    constructor
    · rintro (⟨same, rfl⟩ | ⟨k, q, here, same, rfl⟩)
      · exact ⟨0, p, rfl, same, rfl⟩
      · exact ⟨k + 1, q, here, same, by omega⟩
    · rintro ⟨k, q, here, same, rfl⟩
      cases k with
      | zero =>
        obtain rfl : p = q := by simpa using here
        exact Or.inl ⟨same, rfl⟩
      | succ k => exact Or.inr ⟨k, q, here, same, by omega⟩

structure KnowsPredicates (clauses : List Pattern) (b : NetworkBuilder) : Prop where
  isOpen : b.openPredicate = true ↔ ∃ p ∈ clauses, p.predicate.constant? = none
  closed : b.openPredicate = false →
    ∀ q, q ∈ b.predicates ↔ ∃ p ∈ clauses, p.predicate.constant? = some q

theorem KnowsPredicates.fileClause {clauses : List Pattern} {b : NetworkBuilder}
    (knows : KnowsPredicates clauses b) (p : Pattern) (pos : NodeId) :
    KnowsPredicates (clauses ++ [p]) (b.fileClause p pos) := by
  unfold NetworkBuilder.fileClause
  cases predicate : p.predicate with
  | constant id =>
    constructor
    · simp only [knows.isOpen, List.mem_append, List.mem_singleton]
      constructor
      · rintro ⟨q, mem, noConstant⟩
        exact ⟨q, Or.inl mem, noConstant⟩
      · rintro ⟨q, mem | rfl, noConstant⟩
        · exact ⟨q, mem, noConstant⟩
        · simp [predicate, Term.constant?] at noConstant
    · intro closed q
      have closed : b.openPredicate = false := closed
      simp only [closed, Bool.false_eq_true, ↓reduceIte, Std.ExtTreeSet.mem_insert,
        knows.closed closed q, Std.LawfulEqOrd.compare_eq_iff_eq, List.mem_append,
        List.mem_singleton]
      constructor
      · rintro (rfl | ⟨q', mem, constant⟩)
        · exact ⟨p, Or.inr rfl, by simp [predicate, Term.constant?]⟩
        · exact ⟨q', Or.inl mem, constant⟩
      · rintro ⟨q', mem | rfl, constant⟩
        · exact Or.inr ⟨q', mem, constant⟩
        · exact Or.inl (by simpa [predicate, Term.constant?] using constant)
  | var i => exact ⟨by simp [predicate, Term.constant?], by simp⟩
  | wildcard => exact ⟨by simp [predicate, Term.constant?], by simp⟩

theorem KnowsPredicates.fileTail {clauses : List Pattern} {b : NetworkBuilder}
    (knows : KnowsPredicates clauses b) (rest : List Pattern) (pos : Nat) :
    KnowsPredicates (clauses ++ rest) (b.fileTail rest pos) := by
  induction rest generalizing clauses b pos with
  | nil => simpa [NetworkBuilder.fileTail] using knows
  | cons p rest ih =>
    have := ih (knows.fileClause p pos) (pos + 3)
    rwa [List.append_assoc, List.singleton_append] at this

theorem KnowsPredicates.fileRule {clauses : List Pattern} {b : NetworkBuilder}
    (knows : KnowsPredicates clauses b) (r : Rule) (base : Nat) :
    KnowsPredicates (clauses ++ r.body) (b.fileRule r base) := by
  unfold NetworkBuilder.fileRule
  cases r.body with
  | nil => simpa using knows
  | cons p rest =>
    have := (knows.fileClause p base).fileTail rest (base + 1)
    rwa [List.append_assoc, List.singleton_append] at this

end NetworkBuilder

theorem Network.HoldsAt.filter {n : Network} {id : RuleId} {r : Rule} {base k : Nat} {p : Pattern}
    (holds : n.HoldsAt base (Network.chain id r base)) (here : r.body[k]? = some p) :
    ∃ target, n.nodes[base + (3 * k - 2)]? = some (.filter
      { ClauseFilter.ofPattern id k p r.numVars with continuation := some target }) := by
  cases k with
  | zero => exact ⟨_, (holds.chain here).1⟩
  | succ k =>
    have inside : k + 1 < r.body.length := (List.getElem?_eq_some_iff.mp here).1
    obtain ⟨q, keys, here', -, joint, -⟩ := (holds.laid (Nat.le_of_lt inside)).joint inside
    obtain rfl : p = q := Option.some.inj (here.symm.trans here')
    have place : base + (3 * (k + 1) - 2) = base + 1 + 3 * k + 0 := by omega
    rw [place]
    exact ⟨_, joint 0 _ rfl⟩

namespace NetworkBuilder

structure Built (done : List (RuleId × Rule)) (b : NetworkBuilder) : Prop where
  seat : ∀ pos < b.network.size, ∃ rule ∈ done, b.network.Seat rule.1 rule.2 pos
  filed : ∀ key pos, pos ∈ b.table.get key → ∃ f, b.network.nodes[pos]? = some (.filter f)
  clause : ∀ rule ∈ done, ∀ k p, rule.2.body[k]? = some p →
    ∃ pos ∈ b.table.get p.fileKey, ∃ f, b.network.nodes[pos]? = some (.filter f) ∧
      f.rule = rule.1 ∧ f.clause = k
  predicates : KnowsPredicates (done.flatMap (·.2.body)) b

theorem built_empty : Built [] ∅ where
  seat pos inside := absurd inside (Nat.not_lt_zero _)
  filed key pos mem := by
    change pos ∈ (FilterTable.empty).get key at mem
    simp [FilterTable.get, FilterTable.empty] at mem
  clause rule mem := by cases mem
  predicates := by
    constructor
    · change false = true ↔ _
      simp
    · intro _ q
      change q ∈ (∅ : Std.ExtTreeSet TermId) ↔ _
      simp

theorem grows_place (b : NetworkBuilder) (rule : RuleId × Rule) :
    b.network.Grows (b.place rule).network := Network.grows_behind _ _

theorem holdsAt_place (b : NetworkBuilder) (rule : RuleId × Rule) :
    (b.place rule).network.HoldsAt b.network.size
      (Network.chain rule.1 rule.2 b.network.size) := Network.holdsAt_behind _ _

theorem Built.place {done : List (RuleId × Rule)} {b : NetworkBuilder} (built : Built done b)
    (rule : RuleId × Rule) : Built (done ++ [rule]) (b.place rule) where
  seat pos inside := by
    -- nodes there were keep their seats; the others are those of the new chain
    rcases Nat.lt_or_ge pos b.network.size with old | new
    · obtain ⟨other, mem, seat⟩ := built.seat pos old
      exact ⟨other, List.mem_append_left _ mem, seat.mono (b.grows_place rule)⟩
    · have size : (b.place rule).network.size =
          b.network.size + (Network.chain rule.1 rule.2 b.network.size).length :=
        Network.size_behind _ _
      have seat := (b.holdsAt_place rule).seat (i := pos - b.network.size) (by omega)
      rw [Nat.add_sub_cancel' new] at seat
      exact ⟨rule, List.mem_append_right _ List.mem_cons_self, seat⟩
  filed key pos mem := by
    rcases mem_get_fileRule.mp mem with old | ⟨k, p, here, -, rfl⟩
    · obtain ⟨f, node⟩ := built.filed key pos old
      exact ⟨f, b.grows_place rule _ _ node⟩
    · obtain ⟨target, node⟩ := (b.holdsAt_place rule).filter here
      exact ⟨_, node⟩
  clause other mem k p here := by
    rcases List.mem_append.mp mem with old | new
    · obtain ⟨pos, filed, f, node, known⟩ := built.clause other old k p here
      exact ⟨pos, mem_get_fileRule.mpr (Or.inl filed), f, b.grows_place rule _ _ node, known⟩
    · rw [List.mem_singleton.mp new] at here ⊢
      obtain ⟨target, node⟩ := (b.holdsAt_place rule).filter here
      exact ⟨_, mem_get_fileRule.mpr (Or.inr ⟨k, p, here, rfl, rfl⟩), _, node, rfl, rfl⟩
  predicates := by
    rw [List.flatMap_append, List.flatMap_singleton]
    exact ⟨(built.predicates.fileRule rule.2 b.network.size).isOpen,
      (built.predicates.fileRule rule.2 b.network.size).closed⟩

theorem Built.foldl {done : List (RuleId × Rule)} {b : NetworkBuilder} (built : Built done b)
    (rules : List (RuleId × Rule)) : Built (done ++ rules) (rules.foldl NetworkBuilder.place b) := by
  induction rules generalizing done b with
  | nil => simpa using built
  | cons rule rules ih =>
    rw [← List.singleton_append, ← List.append_assoc]
    exact ih (built.place rule)

end NetworkBuilder

namespace CompiledRules

structure Compiled (c : CompiledRules) : Prop where
  wellFormed : ∀ rule ∈ c.active, rule.2.WellFormed
  numbered : ∀ rule ∈ c.active, c.rule? rule.1 = some rule.2
  seat : ∀ pos < c.network.size, ∃ rule ∈ c.active, c.network.Seat rule.1 rule.2 pos
  filed : ∀ key pos, pos ∈ c.table.get key → ∃ f, c.network.nodes[pos]? = some (.filter f)
  clause : ∀ rule ∈ c.active, ∀ k p, rule.2.body[k]? = some p →
    ∃ pos ∈ c.table.get p.fileKey, ∃ f, c.network.nodes[pos]? = some (.filter f) ∧
      f.rule = rule.1 ∧ f.clause = k
  openPredicate : c.predicatesUsed = none ↔
    ∃ rule ∈ c.active, ∃ p ∈ rule.2.body, p.predicate.constant? = none
  predicates : ∀ used ∈ c.predicatesUsed, ∀ q, q ∈ used ↔
    ∃ rule ∈ c.active, ∃ p ∈ rule.2.body, p.predicate.constant? = some q

theorem rule?_of_mem_active {c : CompiledRules} {rule : RuleId × Rule} (mem : rule ∈ c.active) :
    c.rule? rule.1 = some rule.2 := (NetworkBuilder.mem_numbered.mp mem).1

theorem exists_mem_bodies {rules : List (RuleId × Rule)} {P : Pattern → Prop} :
    (∃ p ∈ rules.flatMap (·.2.body), P p) ↔ ∃ rule ∈ rules, ∃ p ∈ rule.2.body, P p := by
  simp only [List.mem_flatMap]
  constructor
  · rintro ⟨p, ⟨rule, active, mem⟩, holds⟩
    exact ⟨rule, active, p, mem, holds⟩
  · rintro ⟨rule, active, p, mem, holds⟩
    exact ⟨p, ⟨rule, active, mem⟩, holds⟩

theorem compiled_of_compile {rules : List Rule} {ignoreBackward : Bool} {c : CompiledRules}
    (run : compile rules ignoreBackward = .ok c) : c.Compiled := by
  obtain ⟨wellFormed, rfl⟩ := compile_eq_ok.mp run
  have built := NetworkBuilder.built_empty.foldl (NetworkBuilder.numbered ignoreBackward rules 0)
  rw [List.nil_append] at built
  generalize (NetworkBuilder.numbered ignoreBackward rules 0).foldl NetworkBuilder.place ∅ = b
    at built
  refine ⟨wellFormed, fun _ => rule?_of_mem_active, built.seat, built.filed, built.clause, ?_, ?_⟩
  · refine Iff.trans ?_ (built.predicates.isOpen.trans exists_mem_bodies)
    simp [NetworkBuilder.finish]
  · intro used some q
    simp only [NetworkBuilder.finish] at some
    split at some
    · cases some
    · rename_i closed
      obtain rfl := Option.some.inj some
      exact (built.predicates.closed (Bool.eq_false_iff.mpr closed) q).trans exists_mem_bodies

end CompiledRules
end TripleInference
