import TripleInference.Proofs.Engine.Calls

/-!
How often rules fire in a pass. While a pass works on a triple, a rule counts once, in however many
matches of its body the triple takes part. Whether it counts once for each triple that activates it
then rests on no triple coming off the agenda twice.
-/
namespace TripleInference

namespace CompiledRules

/-- The rules that have a match of their body in which the triple matches a clause and facts match
the others. -/
def activated (c : CompiledRules) (facts : Set Triple) (t : Triple) : Set RuleId :=
  {id | ∃ r, (id, r) ∈ c.active ∧ ∃ k values, r.MatchedAt facts k t values}

def knownNext (c : CompiledRules) (facts : Set Triple) (t : Triple) : Set Triple :=
  {u | c.Derives facts t u} ∪ facts

def knownAfter (c : CompiledRules) : Set Triple → List Triple → Set Triple
  | facts, [] => facts
  | facts, t :: rest => c.knownAfter (c.knownNext facts t) rest

/-- The pairs of a rule and a triple that activates it when it is worked on. -/
def activations (c : CompiledRules) : Set Triple → List Triple → Set (RuleId × Triple)
  | _, [] => ∅
  | facts, t :: rest =>
    (·, t) '' c.activated facts t ∪ c.activations (c.knownNext facts t) rest

/-- The number of such pairs, where a triple counts again each time it is worked on. -/
noncomputable def activationCount (c : CompiledRules) : Set Triple → List Triple → Nat
  | _, [] => 0
  | facts, t :: rest =>
    (c.activated facts t).ncard + c.activationCount (c.knownNext facts t) rest

section
variable {c : CompiledRules} {facts : Set Triple} {t : Triple} {id : RuleId}

theorem finite_activated (c : CompiledRules) (facts : Set Triple) (t : Triple) :
    (c.activated facts t).Finite := by
  apply (c.active.map (·.1)).finite_toSet.subset
  rintro id ⟨r, active, -⟩
  exact List.mem_map.mpr ⟨(id, r), active, rfl⟩

theorem exists_clause_of_activated (activated : id ∈ c.activated facts t) :
    ∃ r, (id, r) ∈ c.active ∧
      ∃ p ∈ r.body, ∀ q, p.predicate.constant? = some q → t.predicate = q := by
  obtain ⟨r, active, k, values, matched⟩ := activated
  obtain ⟨p, clause, u, rfl, fits⟩ := matched.trigger
  exact ⟨r, active, p, List.mem_of_getElem? clause, fun q => fits.predicate_eq⟩

theorem finite_activations (c : CompiledRules) (facts : Set Triple) (worked : List Triple) :
    (c.activations facts worked).Finite := by
  induction worked generalizing facts with
  | nil => exact Set.finite_empty
  | cons t rest ih => exact ((c.finite_activated facts t).image _).union (ih _)

theorem mem_of_mem_activations {worked : List Triple}
    (mem : (id, t) ∈ c.activations facts worked) :
    t ∈ worked ∧ ∃ facts, id ∈ c.activated facts t := by
  induction worked generalizing facts with
  | nil => cases mem
  | cons u rest ih =>
    rcases mem with ⟨id', activated, same⟩ | later
    · obtain ⟨rfl, rfl⟩ := Prod.mk.inj same
      exact ⟨List.mem_cons_self, facts, activated⟩
    · exact (ih later).imp_left (List.mem_cons_of_mem u)

theorem ncard_activated_image (c : CompiledRules) (facts : Set Triple) (t : Triple) :
    ((·, t) '' c.activated facts t).ncard = (c.activated facts t).ncard :=
  Set.ncard_image_of_injective _ fun _ _ same => (Prod.mk.inj same).1

theorem activationCount_eq_ncard (facts : Set Triple) {worked : List Triple}
    (distinct : worked.Nodup) :
    c.activationCount facts worked = (c.activations facts worked).ncard := by
  induction worked generalizing facts with
  | nil => exact (Set.ncard_empty _).symm
  | cons t rest ih =>
    obtain ⟨other, distinct⟩ := List.nodup_cons.mp distinct
    have disjoint : Disjoint ((·, t) '' c.activated facts t)
        (c.activations (c.knownNext facts t) rest) := by
      rw [Set.disjoint_left]
      rintro _ ⟨id, -, rfl⟩ later
      exact other (mem_of_mem_activations later).1
    rw [activationCount, activations, Set.ncard_union_eq disjoint
      ((c.finite_activated facts t).image _) (c.finite_activations _ rest),
      ncard_activated_image, ih _ distinct]

end

end CompiledRules

namespace Pass

section
variable {R D : Type}

def counted (p : Pass R D) : Set RuleId := {id | id ∈ p.agenda.fired}

structure Fires (p p' : Pass R D) (rules : Set RuleId) : Prop where
  finite : rules.Finite
  firings : p'.engine.firings = p.engine.firings + (rules \ p.counted).ncard
  counted : p'.counted = rules ∪ p.counted

variable {p p' p'' : Pass R D} {rules more : Set RuleId}

theorem fires_nothing (firings : p'.engine.firings = p.engine.firings)
    (fired : p'.agenda.fired = p.agenda.fired) : Fires p p' ∅ where
  finite := Set.finite_empty
  firings := by rw [firings, Set.empty_sdiff, Set.ncard_empty, Nat.add_zero]
  counted := by rw [Pass.counted, fired, Set.empty_union, Pass.counted]

theorem Fires.trans (first : Fires p p' rules) (later : Fires p' p'' more) :
    Fires p p'' (rules ∪ more) where
  finite := first.finite.union later.finite
  firings := by
    -- what fires first has been counted by the time the rest fires
    have disjoint : Disjoint (rules \ p.counted) (more \ p'.counted) := by
      rw [Set.disjoint_left, first.counted]
      exact fun id here there => there.2 (Or.inl here.1)
    have split : (rules ∪ more) \ p.counted =
        (rules \ p.counted) ∪ (more \ p'.counted) := by
      ext id
      rw [first.counted]
      simp only [Set.mem_sdiff, Set.mem_union]
      tauto
    rw [split, Set.ncard_union_eq disjoint first.finite.sdiff later.finite.sdiff, later.firings,
      first.firings, Nat.add_assoc]
  counted := by
    rw [later.counted, first.counted, Set.union_left_comm, Set.union_assoc]

theorem countFiring_fires (rule : RuleId) (r : Rule) (trigger : Option Triple) (p : Pass R D)
    {bad : Failure → Pass R D → Prop} :
    (countFiring rule r trigger).Ends p (fun _ p' => Fires p p' {rule}) bad := by
  rw [countFiring, Step.ends_modify]
  unfold Agenda.noteFired
  simp only [Std.ExtTreeSet.contains_iff_mem]
  by_cases before : rule ∈ p.agenda.fired
  · have old : {rule} ⊆ p.counted := Set.singleton_subset_iff.mpr before
    rw [if_pos before]
    refine ⟨Set.finite_singleton rule, ?_, (Set.union_eq_right.mpr old).symm⟩
    rw [Set.sdiff_eq_empty.mpr old, Set.ncard_empty]
    rfl
  · have alone : {rule} \ p.counted = {rule} :=
      sdiff_eq_left.mpr (Set.disjoint_singleton_left.mpr before)
    rw [if_neg before]
    refine ⟨Set.finite_singleton rule, ?_, ?_⟩
    · rw [alone, Set.ncard_singleton, Engine.firings_traceRecord]
    · ext id
      simp only [counted, Set.mem_ofPred_eq, Set.mem_union, Set.mem_singleton_iff,
        Std.ExtTreeSet.mem_insert, Std.LawfulEqOrd.compare_eq_iff_eq]
      exact or_congr_left eq_comm

end

variable {R D : Type} [TripleSource R] [TripleSink D] {p : Pass R D}

theorem conclude_preserves_fired (fired : Std.ExtTreeSet RuleId) (r : Rule) (a : BodyMatch)
    (trigger : Option Triple) (ts : List Triple) :
    (conclude r a trigger ts : Step Failure (Pass R D) (List Triple)).Preserves
      fun p => p.agenda.fired = fired := by
  have elsewhere {α : Type} (m : Step Failure (Engine R D) α) :
      (onEngine m).Preserves fun p => p.agenda.fired = fired :=
    Step.preserves_within_elsewhere fun _ _ same => same
  have enqueues (t : Triple) : (enqueue t : Step Failure (Pass R D) Unit).Preserves
      fun p => p.agenda.fired = fired := Step.preserves_modify fun _ same => same
  have changes (change : Engine R D → Engine R D) : (modifyEngine change).Preserves
      fun p => p.agenda.fired = fired := Step.preserves_modify fun _ same => same
  induction ts with
  | nil => exact Step.preserves_pure _
  | cons t rest ih =>
    refine (elsewhere _).bind fun known => ?_
    split
    · exact ih
    · refine (elsewhere _).discard.bind fun _ => (enqueues t).bind fun _ => ?_
      exact (changes _).bind fun _ => ih.bind fun _ => Step.preserves_pure _

theorem fire_fires (c : CompiledRules) (trigger : Option Triple) (a : BodyMatch) (p : Pass R D) :
    (fire c trigger a).Ends p (fun _ p' => Fires p p' {a.rule}) fun _ _ => True := by
  unfold fire
  cases c.rule? a.rule with
  | none => trivial
  | some r =>
    simp only []
    rw [Step.ends_bind, Step.ends_ofExcept]
    cases r.instantiate a.bindings with
    | error fault => trivial
    | ok conclusions =>
      simp only []
      rw [Step.ends_bind]
      refine (countFiring_fires a.rule r trigger p).imp fun _ p₁ fires => ?_
      refine (((conclude_preserves (Engine.keptByConclusions_firings p₁.engine.firings) r a
        trigger conclusions).ends rfl).and ((conclude_preserves_fired p₁.agenda.fired r a trigger
        conclusions).ends rfl)).mono ?_ fun _ _ _ => trivial
      rintro _ p₂ ⟨firings, fired⟩
      rw [← Set.union_empty {a.rule}]
      exact fires.trans (fires_nothing firings fired)

theorem fireAll_fires (c : CompiledRules) (trigger : Option Triple) (ms : List BodyMatch)
    (p : Pass R D) :
    (fireAll c trigger ms).Ends p (fun _ p' => Fires p p' {id | ∃ a ∈ ms, a.rule = id})
      fun _ _ => True := by
  induction ms generalizing p with
  | nil =>
    have none : {id | ∃ a ∈ ([] : List BodyMatch), a.rule = id} = ∅ := by simp
    rw [none]
    exact fires_nothing rfl rfl
  | cons a rest ih =>
    have split : {id | ∃ b ∈ a :: rest, b.rule = id} =
        {a.rule} ∪ {id | ∃ b ∈ rest, b.rule = id} := by
      ext id
      simp [eq_comm]
    rw [fireAll, Step.ends_bind, split]
    refine (fire_fires c trigger a p).imp fun _ p₁ first => ?_
    rw [Step.ends_bind]
    exact (ih p₁).imp fun _ p₂ later => first.trans later

variable [LawfulSource R] [LawfulSink D] {c : CompiledRules} {t : Triple}

theorem work_counts (compiled : c.Compiled) (sound : p.engine.graph.Sound)
    (memory : p.agenda.memory = ∅) (fired : p.agenda.fired = ∅) :
    (work c t).Ends p (fun _ p' => p'.engine.firings =
      p.engine.firings + (c.activated p.engine.graph.known t).ncard) fun _ _ => True := by
  have silent : (matchTriple c t : Step Failure (Pass R D) _).Preserves fun p' =>
      p'.engine.firings = p.engine.firings ∧ p'.agenda.fired = p.agenda.fired :=
    Step.preserves_within_elsewhere fun _ _ same => same
  rw [work, Step.ends_bind]
  refine ((matchTriple_yields compiled t sound).and (silent.ends ⟨rfl, rfl⟩)).mono ?_
    fun _ _ _ => trivial
  rintro ms p₁ ⟨⟨-, yielded, complete⟩, firings, same⟩
  have rules : {id | ∃ a ∈ ms, a.rule = id} = c.activated p.engine.graph.known t := by
    ext id
    constructor
    · rintro ⟨a, mem, rfl⟩
      obtain ⟨pos, yields⟩ := yielded a mem
      obtain ⟨r, f, active, -, matched⟩ := compiled.yields yields
      exact ⟨r, active, f.clause, a.bindings.values, matched⟩
    · rintro ⟨r, active, k, values, matched⟩
      obtain ⟨pos, candidate, yields⟩ := compiled.yields_of_matchedAt active matched
      obtain ⟨a, mem, number, -⟩ := complete memory pos candidate id values yields
      exact ⟨a, mem, number⟩
  -- no rule has fired yet for the triple in hand
  have fresh : p₁.counted = ∅ := by simp [counted, same, fired]
  refine (fireAll_fires c (some t) ms p₁).imp fun _ p₂ fires => ?_
  rw [fires.firings, rules, fresh, Set.sdiff_empty, firings]

theorem Works.knownNext {p₁ p₂ : Pass R D} {new : List Triple} (works : Works c t p p₁ p₂ new) :
    p₂.engine.graph.known = c.knownNext p.engine.graph.known t := by
  rw [works.adds.known_wanted, works.graph, CompiledRules.knownNext]

theorem settle_counts (compiled : c.Compiled) (limit : Nat) (sound : p.engine.graph.Sound) :
    (settle c limit).Ends p
      (fun worked p' => p'.engine.graph.known = c.knownAfter p.engine.graph.known worked ∧
        p'.engine.firings =
          p.engine.firings + c.activationCount p.engine.graph.known worked)
      fun _ _ => True := by
  induction limit generalizing p with
  | zero => exact ⟨rfl, rfl⟩
  | succ limit ih =>
    cases pending : p.agenda.pending with
    | nil => exact (settle_ends_nil pending).mpr ⟨rfl, rfl⟩
    | cons t tail =>
      let p₁ : Pass R D := ⟨p.engine.traceRecord (.processing t), p.agenda.next.2⟩
      have graph : p₁.engine.graph = p.engine.graph := Engine.graph_traceRecord _ _
      have firings : p₁.engine.firings = p.engine.firings := Engine.firings_traceRecord _ _
      have counts := work_counts compiled (p := p₁) (t := t) (graph ▸ sound) p.agenda.next_forgets.1
        p.agenda.next_forgets.2
      rw [settle_ends_cons pending]
      refine ((work_next_ends compiled sound pending).and counts).mono ?_ fun _ _ _ => trivial
      rintro new p₂ ⟨works, counted⟩
      -- the rest of the agenda meets what is known by then
      refine (ih works.adds.sound).imp ?_
      rintro worked p₃ ⟨known, later⟩
      rw [works.knownNext] at known later
      refine ⟨known, ?_⟩
      rw [later, counted, graph, firings, CompiledRules.activationCount, Nat.add_assoc]

/-- What a pass has counted that began with `start` while it knew `facts`, and had counted `before`
by then. What it has worked on after `start` is new. -/
structure Counts (c : CompiledRules) (facts : Set Triple) (start worked : List Triple)
    (before : Nat) (e : Engine R D) : Prop where
  queue : ∃ new, worked = start ++ new ∧ new.Nodup ∧ ∀ u ∈ new, u ∉ facts
  known : e.graph.known = c.knownAfter facts worked
  firings : e.firings = before + c.activationCount facts worked

structure CountsOnce (c : CompiledRules) (facts : Set Triple) (start worked : List Triple)
    (before : Nat) (e : Engine R D) : Prop extends Counts c facts start worked before e where
  distinct : worked.Nodup
  once : e.firings = before + (c.activations facts worked).ncard

section
variable {facts : Set Triple} {start worked : List Triple} {before : Nat} {e : Engine R D}

theorem Counts.once (counts : Counts c facts start worked before e) (distinct : worked.Nodup) :
    CountsOnce c facts start worked before e where
  toCounts := counts
  distinct := distinct
  once := by rw [counts.firings, CompiledRules.activationCount_eq_ncard facts distinct]

theorem Counts.nodup (counts : Counts c facts start worked before e) (distinct : start.Nodup)
    (known : ∀ u ∈ start, u ∈ facts) : worked.Nodup := by
  obtain ⟨new, rfl, nodup, fresh⟩ := counts.queue
  refine List.nodup_append.mpr ⟨distinct, nodup, fun u here v there same => ?_⟩
  exact fresh v there (same ▸ known u here)

end

theorem settleAll_counts (compiled : c.Compiled) (sound : p.engine.graph.Sound) :
    (settleAll c).Ends p
      (fun worked p' => Counts c p.engine.graph.known p.agenda.pending worked p.engine.firings
        p'.engine) (Aborts R D) := by
  have along : (settleAll c).Ends p
      (fun worked p' => p'.engine.graph.known = c.knownAfter p.engine.graph.known worked ∧
        p'.engine.firings =
          p.engine.firings + c.activationCount p.engine.graph.known worked)
      fun _ _ => True := by
    rw [settleAll, Step.ends_bind, Step.ends_get]
    exact settle_counts compiled _ sound
  refine ((settleAll_ends compiled sound).and along).mono ?_ fun _ _ failed => failed.1
  rintro worked p' ⟨⟨done, limit, new, settles⟩, known, firings⟩
  exact ⟨⟨new, settles.worked_eq done, settles.nodup, settles.fresh⟩, known, firings⟩

end Pass

namespace Engine

section
variable {R D : Type} [TripleSink D]

theorem assertAxiom_counts (id : RuleId) (r : Rule) (p : Pass R D) :
    (assertAxiom id r).Ends p (fun _ p' => p'.engine.firings = p.engine.firings + 1)
      fun _ _ => True := by
  have quiet := assertHead_preserves (R := R) (D := D)
    (keptByDeductions_firings (p.engine.firings + 1)) id r
  rw [assertAxiom, Step.ends_bind, Step.ends_ofExcept]
  cases r.instantiate (.ofSize r.numVars) with
  | error fault => trivial
  | ok heads =>
    simp only []
    rw [Pass.modifyEngine, Step.ends_bind, Step.ends_modify]
    exact ((Step.Preserves.forM quiet heads).ends rfl).mono (fun _ _ same => same)
      fun _ _ _ => trivial

theorem forM_assertAxiom_counts (rules : List (RuleId × Rule)) (p : Pass R D) :
    (rules.forM fun (id, r) => assertAxiom id r).Ends p
      (fun _ p' => p'.engine.firings = p.engine.firings + rules.length) fun _ _ => True := by
  induction rules generalizing p with
  | nil => rfl
  | cons rule rest ih =>
    change (assertAxiom rule.1 rule.2 >>= fun _ => rest.forM _).Ends p _ _
    rw [Step.ends_bind]
    refine (assertAxiom_counts rule.1 rule.2 p).imp fun _ p₁ first => ?_
    refine (ih p₁).imp fun _ p₂ later => ?_
    rw [later, first, List.length_cons]
    omega

end

section
variable {R D : Type} [TripleSource R] [LawfulSource R] [TripleSink D] [LawfulSink D]
  {c : CompiledRules} {e : Engine R D}

theorem assertAxioms_counts (compiled : c.Compiled) (installed : e.compiled = some c)
    (sound : e.graph.Sound) :
    assertAxioms.Ends e
      (fun worked e' => Pass.Counts c (c.axiomHeads ∪ e.graph.known) c.assertedHeads worked
        (e.firings + c.activeAxioms.length) e') (Aborts R D) := by
  rw [assertAxioms_ends_iff installed]
  refine ((forM_activeAxioms_ends compiled (p := ⟨e, ∅⟩) sound).and
    (forM_assertAxiom_counts _ ⟨e, ∅⟩)).mono ?_ fun _ _ failed => failed.1
  rintro _ p ⟨asserts, firings⟩
  have pending : p.agenda.pending = c.assertedHeads := asserts.pending
  have known : p.engine.graph.known = c.axiomHeads ∪ e.graph.known := by
    rw [← compiled.setOf_assertedHeads, asserts.starts.known]
  refine (Pass.settleAll_counts compiled asserts.sound).imp fun worked p' counts => ?_
  rw [pending, known, firings] at counts
  exact ⟨counts.queue, counts.known, counts.firings⟩

theorem load_counts (compiled : c.Compiled) (installed : e.compiled = some c)
    (sound : e.graph.Sound) :
    load.Ends e (fun worked e' => ∃ start, (∀ t, t ∈ start ↔ t ∈ e.graph.rawFacts ∧ c.Scans t) ∧
      Pass.CountsOnce c e.graph.known start worked e.firings e') (Aborts R D) := by
  apply loadBy_ends_of Pass.settleAll installed sound
  case idle =>
    intro g same noRaw
    have counts : Pass.Counts c e.graph.known [] [] e.firings
        { e with graph := g, phase := .ready } :=
      ⟨⟨[], rfl, List.nodup_nil, fun u mem => by cases mem⟩, same.known, rfl⟩
    exact ⟨[], by simp [noRaw], counts.once List.nodup_nil⟩
  case go =>
    intro g found same distinct mem_iff
    have pending : ((∅ : Agenda).enqueueAll found).pending = found := by
      rw [Agenda.pending_enqueueAll]
      rfl
    refine (Pass.settleAll_counts compiled same.sound).imp fun worked p' settled => ?_
    have counts : Pass.Counts c g.known ((∅ : Agenda).enqueueAll found).pending worked e.firings
        { p'.engine with phase := .ready } := ⟨settled.queue, settled.known, settled.firings⟩
    rw [pending, same.known] at counts
    exact ⟨found, mem_iff,
      counts.once (counts.nodup distinct fun t mem => Or.inl ((mem_iff t).mp mem).1)⟩
  case stop => exact fun error g failed same => ⟨failed, ⟨error, rfl⟩, same.sound⟩

theorem applyOnce_counts (compiled : c.Compiled) (t : Triple) (installed : e.compiled = some c)
    (sound : e.graph.Sound) :
    (applyOnce t).Ends e
      (fun _ e' => Pass.CountsOnce c e.graph.known [t] [t] e.firings e') (Aborts R D) := by
  rw [applyOnce, Step.ends_bind, requireCompiled_ends installed, pass_ends]
  refine ((Pass.work_ends compiled t (p := ⟨e, ∅⟩) sound rfl).and
    (Pass.work_counts compiled sound rfl rfl)).mono ?_ fun _ _ failed => failed.1
  rintro new p ⟨adds, firings⟩
  have counts : Pass.Counts c e.graph.known [t] [t] e.firings p.engine :=
    ⟨⟨[], rfl, List.nodup_nil, fun u mem => by cases mem⟩, adds.known_wanted, firings⟩
  exact counts.once (List.nodup_singleton t)

end

theorem add_counts {R D : Type} [TripleSink R] [EmptyCollection R] [LawfulStore R] [TripleSink D]
    [LawfulSink D] {c : CompiledRules} {e : Engine R D} (compiled : c.Compiled) (t : Triple)
    (installed : e.compiled = some c) (sound : e.graph.Sound) :
    (add t).Ends e (fun worked e' =>
      Pass.CountsOnce c ({t} ∪ e.graph.known) [t] worked e.firings e') (Aborts R D) := by
  apply addBy_ends_of Pass.settleAll installed sound
  · intro g stores
    rw [pass_ends, Pass.enqueue, Step.ends_bind, Step.ends_modify]
    refine (Pass.settleAll_counts compiled stores.sound).imp fun worked p settled => ?_
    have counts : Pass.Counts c g.known ((∅ : Agenda).enqueue t).pending worked e.firings
        p.engine := settled
    have distinct := counts.nodup (List.nodup_singleton t) stores.pending_known
    rw [stores.known] at counts
    exact counts.once distinct
  · exact fun error g failed sound' _ _ => ⟨failed, ⟨error, rfl⟩, sound'⟩

/-- In memory, the firings of a single step, of an addition and of a loading pass are the pairs of a
rule and a triple that was worked on and activated it, however many clauses the triple matches and
in however many ways. So are those of an axiom pass beyond the one for each axiom if no head is
asserted twice. A head that is asserted again is worked on again, and the rules that it activates
count again. -/
theorem rules_fire_once_for_each_activating_triple {rules : List Rule} {ignoreBackward : Bool}
    {c : CompiledRules} (compiles : CompiledRules.compile rules ignoreBackward = .ok c)
    {e : Engine FactIndex FactIndex} (installed : e.compiled = some c) (sound : e.graph.Sound) :
    (∀ t, ∃ new e', (applyOnce t).outcome e = (.ok new, e') ∧
      Pass.CountsOnce c e.graph.known [t] [t] e.firings e') ∧
    (∀ t, ∃ worked e', (add t).outcome e = (.ok worked, e') ∧
      Pass.CountsOnce c ({t} ∪ e.graph.known) [t] worked e.firings e') ∧
    (∃ worked e', load.outcome e = (.ok worked, e') ∧
      ∃ start, (∀ t ∈ start, t ∈ e.graph.rawFacts) ∧
        (∀ t ∈ e.graph.rawFacts, c.Relevant t → t ∈ start) ∧
        Pass.CountsOnce c e.graph.known start worked e.firings e') ∧
    ∃ worked e', assertAxioms.outcome e = (.ok worked, e') ∧
      Pass.Counts c (c.axiomHeads ∪ e.graph.known) c.assertedHeads worked
        (e.firings + c.activeAxioms.length) e' ∧
      (c.assertedHeads.Nodup →
        Pass.CountsOnce c (c.axiomHeads ∪ e.graph.known) c.assertedHeads worked
          (e.firings + c.activeAxioms.length) e') := by
  have compiled := CompiledRules.compiled_of_compile compiles
  refine ⟨fun t => (applyOnce_counts compiled t installed sound).result not_aborts,
    fun t => (add_counts compiled t installed sound).result not_aborts,
    ?_, ?_⟩
  · obtain ⟨worked, e', run, start, mem_iff, counts⟩ :=
      (load_counts compiled installed sound).result not_aborts
    refine ⟨worked, e', run, start, fun t mem => ((mem_iff t).mp mem).1, fun t raw relevant => ?_,
      counts⟩
    exact (mem_iff t).mpr ⟨raw, compiled.scans_of_relevant relevant⟩
  obtain ⟨worked, e', run, counts⟩ :=
    (assertAxioms_counts compiled installed sound).result not_aborts
  refine ⟨worked, e', run, counts, fun distinct => ?_⟩
  refine counts.once (counts.nodup distinct fun t mem => Or.inl ?_)
  exact compiled.setOf_assertedHeads ▸ mem

theorem loop_fires_transitivity_once :
    ∃ c start worked e', CompiledRules.compile [.transitive 5] true = .ok c ∧
      load.outcome (ofCompiled (MemoryGraph.withRaw [⟨1, 5, 1⟩]) c .standard) = (.ok worked, e') ∧
      Pass.CountsOnce c {⟨1, 5, 1⟩} start worked 0 e' ∧ e'.firings = 1 := by
  obtain ⟨c, compiles⟩ : ∃ c, CompiledRules.compile [.transitive 5] true = .ok c := ⟨_, rfl⟩
  obtain ⟨sound, rawFacts, undeduced⟩ := MemoryGraph.withRaw_sound [⟨1, 5, 1⟩]
  have known : (MemoryGraph.withRaw [⟨1, 5, 1⟩]).known = {⟨1, 5, 1⟩} := by
    rw [InferenceGraph.known, rawFacts, undeduced, Set.union_empty]
    exact Set.ext fun t => List.mem_singleton
  have fired : (load.outcome (ofCompiled (MemoryGraph.withRaw [⟨1, 5, 1⟩]) c
      .standard)).2.firings = 1 := by
    obtain ⟨-, rfl⟩ := CompiledRules.compile_eq_ok.mp compiles
    decide +kernel
  obtain ⟨worked, e', run, start, -, -, counts⟩ :=
    (rules_fire_once_for_each_activating_triple compiles
      (e := ofCompiled (MemoryGraph.withRaw [⟨1, 5, 1⟩]) c .standard) rfl sound).2.2.1
  rw [run] at fired
  exact ⟨c, start, worked, e', compiles, run, known ▸ counts, fired⟩

def oneHeadTwice : List Rule :=
  [.unconditional [⟨.constant 5, .constant 1, .constant 6⟩],
    .unconditional [⟨.constant 5, .constant 1, .constant 6⟩], .inclusion 1 2]

theorem head_of_two_axioms_activates_a_rule_twice :
    ∃ c worked e', CompiledRules.compile oneHeadTwice true = .ok c ∧
      assertAxioms.outcome (ofCompiled MemoryGraph.withoutRaw c .standard) = (.ok worked, e') ∧
      c.activations (c.axiomHeads ∪ MemoryGraph.withoutRaw.known) worked ⊆ {(2, ⟨5, 1, 6⟩)} ∧
      c.activeAxioms.length +
        (c.activations (c.axiomHeads ∪ MemoryGraph.withoutRaw.known) worked).ncard <
          e'.firings := by
  obtain ⟨c, compiles⟩ : ∃ c, CompiledRules.compile oneHeadTwice true = .ok c := ⟨_, rfl⟩
  have ran : (assertAxioms.outcome (ofCompiled MemoryGraph.withoutRaw c .standard)).1.toOption =
        some [⟨5, 1, 6⟩, ⟨5, 1, 6⟩, ⟨5, 2, 6⟩] ∧
      (assertAxioms.outcome (ofCompiled MemoryGraph.withoutRaw c .standard)).2.firings = 4 ∧
      c.activeAxioms.length = 2 := by
    obtain ⟨-, rfl⟩ := CompiledRules.compile_eq_ok.mp compiles
    decide +kernel
  have bodies : ∀ rule ∈ c.active, ∀ p ∈ rule.2.body,
      rule.1 = 2 ∧ p.predicate.constant? = some 1 := by
    obtain ⟨-, rfl⟩ := CompiledRules.compile_eq_ok.mp compiles
    decide +kernel
  obtain ⟨worked, e', run, -⟩ := (assertAxioms_counts (CompiledRules.compiled_of_compile compiles)
    (e := ofCompiled MemoryGraph.withoutRaw c .standard) rfl
    MemoryGraph.withoutRaw_sound.1).result not_aborts
  rw [run] at ran
  obtain rfl : [⟨5, 1, 6⟩, ⟨5, 1, 6⟩, ⟨5, 2, 6⟩] = worked := (Option.some.inj ran.1).symm
  have single : c.activations (c.axiomHeads ∪ MemoryGraph.withoutRaw.known)
      [⟨5, 1, 6⟩, ⟨5, 1, 6⟩, ⟨5, 2, 6⟩] ⊆ {(2, ⟨5, 1, 6⟩)} := by
    rintro ⟨id, t⟩ activation
    obtain ⟨mem, facts, activated⟩ := CompiledRules.mem_of_mem_activations activation
    obtain ⟨r, active, p, clause, agrees⟩ := CompiledRules.exists_clause_of_activated activated
    obtain ⟨rfl, predicate⟩ := bodies (id, r) active p clause
    have heads : ∀ w ∈ [⟨5, 1, 6⟩, ⟨5, 1, 6⟩, (⟨5, 2, 6⟩ : Triple)],
        w.predicate = 1 → w = ⟨5, 1, 6⟩ := by decide
    rw [Set.mem_singleton_iff, heads t mem (agrees 1 predicate)]
  refine ⟨c, _, e', compiles, run, single, ?_⟩
  have few := Set.ncard_le_ncard single (Set.finite_singleton _)
  have fired : e'.firings = 4 := ran.2.1
  have axioms : c.activeAxioms.length = 2 := ran.2.2
  rw [Set.ncard_singleton] at few
  omega

end Engine
end TripleInference
