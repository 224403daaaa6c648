import TripleInference.Proofs.Engine.Budget

/-!
What the calls of an engine do to its graph. Each of them runs passes: one that begins with the
heads of the axioms, one that begins with the raw facts some clause can match, one that begins with
the fact that is added.
-/
namespace TripleInference

namespace CompiledRules

/-- The fact has a predicate that is used, if a used predicate can be told from others. -/
def Scans (c : CompiledRules) (t : Triple) : Prop := ∀ used ∈ c.predicatesUsed, t.predicate ∈ used

theorem Compiled.scans_of_relevant {c : CompiledRules} (compiled : c.Compiled) {t : Triple}
    (relevant : c.Relevant t) : c.Scans t := by
  intro used isUsed
  obtain ⟨rule, active, p, clause, v, fits⟩ := relevant
  have closed : p.predicate.constant? ≠ none := by
    intro isOpen
    have none := compiled.openPredicate.mpr ⟨rule, active, p, clause, isOpen⟩
    rw [none] at isUsed
    cases isUsed
  obtain ⟨q, constant⟩ := Option.ne_none_iff_exists'.mp closed
  rw [fits.predicate_eq constant, compiled.predicates used isUsed q]
  exact ⟨rule, active, p, clause, constant⟩

end CompiledRules

/-- A pass that began with the facts of `start` has worked on `worked` and has taken the graph from
`g` to `g'`. -/
structure Advances {R D : Type} [TripleSource R] [LawfulSource R] [TripleSource D] [LawfulSource D]
    (c : CompiledRules) (g g' : InferenceGraph R D) (start : Set Triple) (worked : List Triple) :
    Prop where
  sound : g'.Sound
  hasRaw : g'.raw.isSome = g.raw.isSome
  rawFacts : g'.rawFacts = g.rawFacts
  deduced : ∀ t ∈ g'.deduced, t ∈ g.deduced ∨ t ∈ worked
  known : g.known ⊆ g'.known
  covers : ∀ t ∈ start, t ∈ worked
  workedKnown : ∀ t ∈ worked, t ∈ g'.known
  inside : ∀ facts : Set Triple, (∀ t ∈ facts, ∀ u, c.Derives facts t u → u ∈ facts) →
    g.known ⊆ facts → start ⊆ facts → g'.known ⊆ facts
  closed : ∀ t ∈ worked, ∀ u, c.Derives g'.known t u → u ∈ g'.known

theorem advances_nothing {R D : Type} [TripleSource R] [LawfulSource R] [TripleSource D]
    [LawfulSource D] {c : CompiledRules} {g g' : InferenceGraph R D}
    (same : InferenceGraph.Same g g') : Advances c g g' ∅ [] where
  sound := same.sound
  hasRaw := same.hasRaw
  rawFacts := same.rawFacts
  deduced t mem := Or.inl (same.deduced ▸ mem)
  known := same.known.symm.subset
  covers t mem := absurd mem (Set.notMem_empty t)
  workedKnown t mem := by cases mem
  inside facts _ known _ := by rwa [same.known]
  closed t mem := by cases mem

namespace Pass

variable {R D : Type} [TripleSource R] [LawfulSource R] [TripleSink D] [LawfulSink D]

structure Starts (g : InferenceGraph R D) (p : Pass R D) (start : List Triple) : Prop where
  sound : p.engine.graph.Sound
  hasRaw : p.engine.graph.raw.isSome = g.raw.isSome
  rawFacts : p.engine.graph.rawFacts = g.rawFacts
  deduced : ∀ t ∈ p.engine.graph.deduced, t ∈ g.deduced ∨ t ∈ start
  known : p.engine.graph.known = {t | t ∈ start} ∪ g.known
  pending : p.agenda.pending = start

theorem Settles.advances {c : CompiledRules} {limit : Nat} {g : InferenceGraph R D}
    {p p' : Pass R D} {start worked new : List Triple} (starts : Starts g p start)
    (settles : Settles c limit p p' worked new) (done : p'.agenda.pending = []) :
    Advances c g p'.engine.graph {t | t ∈ start} worked := by
  have queue : worked = start ++ new := by rw [settles.worked_eq done, starts.pending]
  have pending : ∀ t ∈ p.agenda.pending, t ∈ p.engine.graph.known := by
    intro t mem
    rw [starts.known]
    exact Or.inl (starts.pending ▸ mem)
  refine ⟨settles.sound, settles.hasRaw.trans starts.hasRaw,
    settles.rawFacts.trans starts.rawFacts, ?_, ?_, ?_, ?_, ?_, ?_⟩
  · intro t mem
    rw [settles.deduced] at mem
    rw [queue, List.mem_append]
    rcases mem with here | before
    · exact Or.inr (Or.inr here)
    · exact (starts.deduced t before).imp_right Or.inl
  · refine Set.Subset.trans ?_ settles.subset
    rw [starts.known]
    exact Set.subset_union_right
  · intro t mem
    rw [queue]
    exact List.mem_append_left _ mem
  · exact settles.worked_known done pending
  · intro facts closed known startInside
    have known' : p.engine.graph.known ⊆ facts := by
      rw [starts.known]
      exact Set.union_subset startInside known
    rw [settles.known]
    refine Set.union_subset (settles.inside facts closed known' ?_) known'
    rw [starts.pending]
    exact startInside
  · exact settles.closed pending done

theorem settleAll_advances {c : CompiledRules} (compiled : c.Compiled) {g : InferenceGraph R D}
    {p : Pass R D} {start : List Triple} (starts : Starts g p start) :
    (settleAll c).Ends p
      (fun worked p' => Advances c g p'.engine.graph {t | t ∈ start} worked ∧
        p'.engine.compiled = p.engine.compiled) (Aborts R D) := by
  apply (settleAll_ends compiled starts.sound).imp
  exact fun worked p' ⟨done, limit, new, settles⟩ =>
    ⟨settles.advances starts done, settles.compiled⟩

structure Asserts (p p' : Pass R D) (heads : List Triple) : Prop where
  sound : p'.engine.graph.Sound
  hasRaw : p'.engine.graph.raw.isSome = p.engine.graph.raw.isSome
  rawFacts : p'.engine.graph.rawFacts = p.engine.graph.rawFacts
  deduced : p'.engine.graph.deduced = {t | t ∈ heads} ∪ p.engine.graph.deduced
  pending : p'.agenda.pending = p.agenda.pending ++ heads
  compiled : p'.engine.compiled = p.engine.compiled

theorem asserts_nothing {p p' : Pass R D} (sound : p.engine.graph.Sound)
    (graph : p'.engine.graph = p.engine.graph) (agenda : p'.agenda = p.agenda)
    (compiled : p'.engine.compiled = p.engine.compiled) : Asserts p p' [] where
  sound := graph ▸ sound
  hasRaw := by rw [graph]
  rawFacts := by rw [graph]
  deduced := by simp [graph]
  pending := by simp [agenda]
  compiled := compiled

theorem Asserts.trans {p p' p'' : Pass R D} {heads heads' : List Triple}
    (first : Asserts p p' heads) (later : Asserts p' p'' heads') :
    Asserts p p'' (heads ++ heads') where
  sound := later.sound
  hasRaw := later.hasRaw.trans first.hasRaw
  rawFacts := later.rawFacts.trans first.rawFacts
  deduced := by
    rw [later.deduced, first.deduced]
    ext t
    simp only [Set.mem_union, Set.mem_ofPred_eq, List.mem_append]
    tauto
  pending := by rw [later.pending, first.pending, List.append_assoc]
  compiled := later.compiled.trans first.compiled

theorem Asserts.starts {e : Engine R D} {p : Pass R D} {heads : List Triple}
    (asserts : Asserts ⟨e, ∅⟩ p heads) : Starts e.graph p heads where
  sound := asserts.sound
  hasRaw := asserts.hasRaw
  rawFacts := asserts.rawFacts
  deduced t mem := by
    rw [asserts.deduced] at mem
    exact mem.symm
  known := by
    rw [InferenceGraph.known, asserts.rawFacts, asserts.deduced, InferenceGraph.known,
      Set.union_left_comm]
  pending := asserts.pending

end Pass

namespace Engine

section
variable {R D : Type}

theorem pass_ends {α : Type} {m : Step Failure (Pass R D) α} {e : Engine R D}
    {good : α → Engine R D → Prop} {bad : Failure → Engine R D → Prop} :
    (pass m).Ends e good bad ↔
      m.Ends ⟨e, ∅⟩ (fun a p => good a p.engine) (fun failure p => bad failure p.engine) := by
  rw [pass, Step.ends_within]
  rfl

theorem requireCompiled_outcome {c : CompiledRules} {e : Engine R D}
    (installed : e.compiled = some c) :
    (requireCompiled : Step Failure (Engine R D) CompiledRules).outcome e = (.ok c, e) := by
  unfold Step.outcome requireCompiled
  rw [installed]

theorem requireCompiled_outcome_none {e : Engine R D} (missing : e.compiled = none) :
    (requireCompiled : Step Failure (Engine R D) CompiledRules).outcome e =
      (.error .notCompiled, e) := by
  unfold Step.outcome requireCompiled
  rw [missing]

theorem requireCompiled_ends {c : CompiledRules} {e : Engine R D} (installed : e.compiled = some c)
    {good : CompiledRules → Engine R D → Prop} {bad : Failure → Engine R D → Prop} :
    (requireCompiled : Step Failure (Engine R D) CompiledRules).Ends e good bad ↔ good c e := by
  rw [Step.Ends, requireCompiled_outcome installed]

theorem requireCompiled_fails {α : Type} {e : Engine R D} (missing : e.compiled = none)
    {next : CompiledRules → Step Failure (Engine R D) α} {good : α → Engine R D → Prop}
    {bad : Failure → Engine R D → Prop} :
    (requireCompiled >>= next).Ends e good bad ↔ bad .notCompiled e := by
  rw [Step.ends_bind, Step.Ends, requireCompiled_outcome_none missing]

def Runs (e : Engine R D) (ignoreBackward : Bool) (c : CompiledRules) : Prop :=
  e.compiled = some c ∨
    e.compiled = none ∧ CompiledRules.compile e.rules ignoreBackward = .ok c

theorem ensureCompiled_ends {c : CompiledRules} {e : Engine R D} {ignoreBackward : Bool}
    (runs : e.Runs ignoreBackward c) {bad : Failure → Engine R D → Prop} :
    (ensureCompiled ignoreBackward).Ends e
      (fun _ e' => ∃ journal, e' = { e with compiled := some c, journal }) bad := by
  unfold Step.Ends Step.outcome ensureCompiled
  rcases runs with installed | ⟨missing, compiles⟩
  · rw [installed]
    exact ⟨e.journal, by rw [← installed]⟩
  · rw [missing, compiles]
    exact ⟨_, rfl⟩

theorem ensureCompiled_fails {e : Engine R D} {ignoreBackward : Bool} {failure : Failure}
    (missing : e.compiled = none)
    (rejects : CompiledRules.compile e.rules ignoreBackward = .error failure)
    {good : Unit → Engine R D → Prop} {bad : Failure → Engine R D → Prop} :
    (ensureCompiled ignoreBackward).Ends e good bad ↔ bad failure e := by
  unfold Step.Ends Step.outcome ensureCompiled
  rw [missing, rejects]

end

variable {R D : Type} [TripleSource R] [LawfulSource R] [TripleSink D] [LawfulSink D]
  {c : CompiledRules}

theorem assertHead_ends (id : RuleId) (r : Rule) (t : Triple) {p : Pass R D}
    (sound : p.engine.graph.Sound) :
    (assertHead id r t).Ends p (fun _ p' => Pass.Asserts p p' [t]) (Pass.Aborts R D) := by
  rw [assertHead, Step.ends_bind, Pass.onGraph_ends]
  refine (InferenceGraph.add_ends sound t).mono ?_ ?_
  · intro added graph ⟨_, deduces⟩
    have asserts (p' : Pass R D) (graph' : p'.engine.graph = graph)
        (compiled : p'.engine.compiled = p.engine.compiled)
        (agenda : p'.agenda = p.agenda.enqueue t) : Pass.Asserts p p' [t] := by
      subst graph'
      refine ⟨deduces.sound, deduces.hasRaw, deduces.rawFacts, ?_, ?_, compiled⟩
      · rw [deduces.deduced]
        ext u
        simp
      · rw [agenda, Agenda.pending_enqueue]
    cases added with
    | true => exact asserts _ (by simp) (by simp) rfl
    | false => exact asserts _ rfl rfl rfl
  · exact fun e graph ⟨failed, same⟩ => ⟨failed, ⟨e, rfl⟩, same.sound⟩

theorem forM_assertHead_ends (id : RuleId) (r : Rule) (ts : List Triple) {p : Pass R D}
    (sound : p.engine.graph.Sound) :
    (ts.forM (assertHead id r)).Ends p (fun _ p' => Pass.Asserts p p' ts) (Pass.Aborts R D) := by
  induction ts generalizing p with
  | nil => exact Pass.asserts_nothing sound rfl rfl rfl
  | cons t rest ih =>
    change (assertHead id r t >>= fun _ => rest.forM (assertHead id r)).Ends p _ _
    rw [Step.ends_bind]
    apply (assertHead_ends id r t sound).imp
    intro _ p' first
    exact (ih first.sound).imp fun _ _ later => first.trans later

theorem assertAxiom_ends (compiled : c.Compiled) {rule : RuleId × Rule} (active : rule ∈ c.active)
    (isAxiom : rule.2.isAxiom = true) {p : Pass R D} (sound : p.engine.graph.Sound) :
    (assertAxiom rule.1 rule.2).Ends p
      (fun _ p' => Pass.Asserts p p' rule.2.groundHeads) (Pass.Aborts R D) := by
  obtain ⟨instances, -⟩ := compiled.instantiate_axiom active isAxiom
  rw [assertAxiom, Step.ends_bind, Step.ends_ofExcept, instances]
  simp only []
  rw [Pass.modifyEngine, Step.ends_bind, Step.ends_modify]
  refine (forM_assertHead_ends rule.1 rule.2 rule.2.groundHeads
    (p := { p with engine := { p.engine with firings := p.engine.firings + 1 } }) sound).imp ?_
  intro _ p' asserts
  refine (Pass.asserts_nothing sound ?_ ?_ ?_).trans asserts <;> rfl

theorem forM_assertAxiom_ends (compiled : c.Compiled) {rules : List (RuleId × Rule)}
    (axioms : ∀ rule ∈ rules, rule ∈ c.active ∧ rule.2.isAxiom = true) {p : Pass R D}
    (sound : p.engine.graph.Sound) :
    (rules.forM fun (id, r) => assertAxiom id r).Ends p
      (fun _ p' => Pass.Asserts p p' (rules.flatMap fun rule : RuleId × Rule =>
        rule.2.groundHeads)) (Pass.Aborts R D) := by
  induction rules generalizing p with
  | nil => exact Pass.asserts_nothing sound rfl rfl rfl
  | cons rule rest ih =>
    obtain ⟨active, isAxiom⟩ := axioms rule List.mem_cons_self
    change (assertAxiom rule.1 rule.2 >>= fun _ =>
      rest.forM fun (id, r) => assertAxiom id r).Ends p _ _
    rw [Step.ends_bind]
    apply (assertAxiom_ends compiled active isAxiom sound).imp
    intro _ p' first
    refine (ih (fun other mem => axioms other (List.mem_cons_of_mem _ mem)) first.sound).imp ?_
    exact fun _ p'' later => first.trans later

theorem forM_activeAxioms_ends (compiled : c.Compiled) {p : Pass R D}
    (sound : p.engine.graph.Sound) :
    (c.activeAxioms.forM fun (id, r) => assertAxiom id r).Ends p
      (fun _ p' => Pass.Asserts p p' c.assertedHeads) (Pass.Aborts R D) :=
  forM_assertAxiom_ends compiled (fun _ mem => List.mem_filter.mp mem) sound

omit [LawfulSource R] [LawfulSink D] in
theorem assertAxioms_ends_iff {e : Engine R D} (installed : e.compiled = some c)
    {good : List Triple → Engine R D → Prop} {bad : Failure → Engine R D → Prop} :
    assertAxioms.Ends e good bad ↔
      (c.activeAxioms.forM fun (id, r) => assertAxiom id r).Ends ⟨e, ∅⟩
        (fun _ p => (Pass.settleAll c).Ends p
          (fun worked p' => good worked
            { p'.engine with axiomsDone := true, phase := .axiomsProcessed })
          (fun failure p' => bad failure p'.engine))
        (fun failure p => bad failure p.engine) := by
  rw [assertAxioms, Step.ends_bind, requireCompiled_ends installed, Step.ends_bind, pass_ends,
    Step.ends_bind]
  rfl

theorem assertAxioms_ends (compiled : c.Compiled) {e : Engine R D} (installed : e.compiled = some c)
    (sound : e.graph.Sound) :
    assertAxioms.Ends e
      (fun worked e' => Advances c e.graph e'.graph c.axiomHeads worked ∧ e'.compiled = some c)
      (Aborts R D) := by
  rw [assertAxioms_ends_iff installed]
  apply (forM_activeAxioms_ends compiled (p := ⟨e, ∅⟩) sound).imp
  intro _ p asserts
  apply (Pass.settleAll_advances compiled asserts.starts).imp
  intro worked p' ⟨advances, kept⟩
  rw [compiled.setOf_assertedHeads] at advances
  exact ⟨advances, kept.trans (asserts.compiled.trans installed)⟩

omit [TripleSink D] [LawfulSink D] in
theorem mapM_find_ends {predicates : List TermId} (distinct : predicates.Nodup) {raw : R}
    (sound : LawfulSource.sound raw) :
    (predicates.mapM fun q => (TripleSource.find (.withPredicate q) :
        Step StoreError R (List Triple))).Ends raw
      (fun found r => (∀ t, t ∈ found.flatten ↔
          t ∈ LawfulSource.facts raw ∧ t.predicate ∈ predicates) ∧ found.flatten.Nodup ∧
        LawfulSource.sound r ∧ LawfulSource.facts r = LawfulSource.facts raw)
      (fun _ r => LawfulSource.fails R ∧ LawfulSource.sound r ∧
        LawfulSource.facts r = LawfulSource.facts raw) := by
  induction predicates generalizing raw with
  | nil =>
    rw [List.mapM_nil, Step.ends_pure]
    exact ⟨by simp, List.nodup_nil, sound, rfl⟩
  | cons q rest ih =>
    obtain ⟨other, distinct⟩ := List.nodup_cons.mp distinct
    rw [List.mapM_cons, Step.ends_bind]
    apply (LawfulSource.find_ends sound (.withPredicate q)).imp
    intro ts r ended
    obtain ⟨answered, sound', kept⟩ := ended
    rw [Step.ends_bind]
    have fits (t : Triple) : (Lookup.withPredicate q).fits t = true ↔ t.predicate = q := by
      simp only [Lookup.withPredicate, Lookup.fits, Option.all_none, Option.all_some,
        Bool.true_and, Bool.and_true, beq_iff_eq]
      exact eq_comm
    refine (ih distinct sound').mono ?_ ?_
    · intro found r' ended
      obtain ⟨mem_iff, nodup, sound'', kept'⟩ := ended
      rw [Step.ends_pure]
      refine ⟨fun t => ?_, ?_, sound'', kept'.trans kept⟩
      · rw [List.flatten_cons, List.mem_append, answered.mem_iff, mem_iff, kept, List.mem_cons,
          fits, ← and_or_left]
      · rw [List.flatten_cons, List.nodup_append]
        refine ⟨answered.nodup, nodup, fun t mem u mem' same => other ?_⟩
        rw [← (fits t).mp ((answered.mem_iff t).mp mem).2, same]
        exact ((mem_iff u).mp mem').2
    · intro _ r' ended
      obtain ⟨failed, sound'', kept'⟩ := ended
      exact ⟨failed, sound'', kept'.trans kept⟩

omit [TripleSink D] [LawfulSink D] in
theorem scan_ends (c : CompiledRules) {raw : R} (sound : LawfulSource.sound raw) :
    (scan c : Step StoreError R (List Triple)).Ends raw
      (fun found r => (found.Nodup ∧ ∀ t, t ∈ found ↔ t ∈ LawfulSource.facts raw ∧ c.Scans t) ∧
        LawfulSource.sound r ∧ LawfulSource.facts r = LawfulSource.facts raw)
      (fun _ r => LawfulSource.fails R ∧ LawfulSource.sound r ∧
        LawfulSource.facts r = LawfulSource.facts raw) := by
  unfold scan
  cases used : c.predicatesUsed with
  | none =>
    apply (LawfulSource.find_ends sound .all).imp
    intro ts r ⟨answered, kept⟩
    refine ⟨⟨answered.nodup, fun t => ?_⟩, kept⟩
    simp [answered.mem_iff, Lookup.fits_all, CompiledRules.Scans, used]
  | some predicates =>
    simp only []
    rw [Step.ends_bind]
    have distinct : predicates.toList.Nodup :=
      Std.ExtTreeSet.distinct_toList.imp fun differ same => differ (by simp [same])
    apply (mapM_find_ends distinct sound).imp
    intro found r ⟨mem_iff, nodup, kept⟩
    rw [Step.ends_pure]
    refine ⟨⟨nodup, fun t => ?_⟩, kept⟩
    simp [mem_iff, CompiledRules.Scans, used]

theorem onGraph_ends {R D α : Type} {m : Step StoreError (InferenceGraph R D) α}
    {e : Engine R D} {good : α → Engine R D → Prop} {bad : Failure → Engine R D → Prop} :
    (onGraph m).Ends e good bad ↔ m.Ends e.graph (fun a graph => good a { e with graph })
      (fun error graph => bad (.store error) { e with graph }) := by
  rw [onGraph, Step.ends_within]

def loadBy {α : Type} (settle : CompiledRules → Step Failure (Pass R D) (List α)) :
    Step Failure (Engine R D) (List α) := do
  let rules ← requireCompiled
  match ← onGraph (InferenceGraph.onRaw (scan rules)) with
  | none =>
    modify fun e => { e with phase := .ready }
    return []
  | some facts =>
    modify (·.report (.rawQueued facts.length rules.openPredicate))
    let worked ← pass do
      modify fun p => { p with agenda := p.agenda.enqueueAll facts }
      settle rules
    modify fun e => { e with phase := .ready }
    return worked

omit [LawfulSource R] [LawfulSink D] in
theorem loadBy_settleAll :
    (loadBy Pass.settleAll : Step Failure (Engine R D) (List Triple)) = load := rfl

theorem loadBy_ends_of {α : Type} (settle : CompiledRules → Step Failure (Pass R D) (List α))
    {e : Engine R D} (installed : e.compiled = some c)
    (sound : e.graph.Sound) {good : List α → Engine R D → Prop}
    {bad : Failure → Engine R D → Prop}
    (idle : ∀ g, InferenceGraph.Same e.graph g → e.graph.rawFacts = ∅ →
      good [] { e with graph := g, phase := .ready })
    (go : ∀ g found, InferenceGraph.Same e.graph g → found.Nodup →
      (∀ t, t ∈ found ↔ t ∈ e.graph.rawFacts ∧ c.Scans t) →
      (settle c).Ends
        ⟨{ e with graph := g }.report (.rawQueued found.length c.openPredicate),
          (∅ : Agenda).enqueueAll found⟩
        (fun worked p => good worked { p.engine with phase := .ready })
        (fun failure p => bad failure p.engine))
    (stop : ∀ error g, InferenceGraph.MayFail R D → InferenceGraph.Same e.graph g →
      bad (.store error) { e with graph := g }) :
    (loadBy settle).Ends e good bad := by
  rw [loadBy, Step.ends_bind, requireCompiled_ends installed, Step.ends_bind, onGraph_ends]
  refine (InferenceGraph.onRaw_ends sound fun raw hasRaw =>
    scan_ends c (sound.1 raw hasRaw)).mono ?_ ?_
  · intro answer g ended
    obtain ⟨whenRaw, whenNone, same⟩ := ended
    cases hasRaw : e.graph.raw with
    | none =>
      have noRaw : e.graph.rawFacts = ∅ := by rw [InferenceGraph.rawFacts, hasRaw]; rfl
      rw [whenNone hasRaw]
      exact idle g same noRaw
    | some raw =>
      obtain ⟨found, rfl, nodup, mem_iff⟩ := whenRaw raw hasRaw
      have rawFacts : e.graph.rawFacts = LawfulSource.facts raw := by
        rw [InferenceGraph.rawFacts, hasRaw]; rfl
      rw [← rawFacts] at mem_iff
      simp only []
      rw [Step.ends_bind, Step.ends_modify, Step.ends_bind, pass_ends, Step.ends_bind,
        Step.ends_modify]
      exact go g found same nodup mem_iff
  · intro error g ended
    obtain ⟨failed, same⟩ := ended
    exact stop error g (Or.inl failed) same

/-- A pass over the raw facts that some clause can match has taken the graph from `g` to `g'`. -/
def Loads (c : CompiledRules) (g g' : InferenceGraph R D) (worked : List Triple) : Prop :=
  ∃ start, Advances c g g' start worked ∧ start ⊆ g.rawFacts ∧
    ∀ t ∈ g.rawFacts, c.Relevant t → t ∈ start

theorem load_ends (compiled : c.Compiled) {e : Engine R D} (installed : e.compiled = some c)
    (sound : e.graph.Sound) :
    load.Ends e (fun worked e' => Loads c e.graph e'.graph worked ∧ e'.compiled = some c)
      (Aborts R D) := by
  apply loadBy_ends_of Pass.settleAll installed sound
  case idle =>
    intro g same noRaw
    refine ⟨⟨∅, advances_nothing same, Set.empty_subset _, ?_⟩, installed⟩
    rw [noRaw]
    exact fun t absent => absurd absent (Set.notMem_empty t)
  case go =>
    intro g found same _ mem_iff
    have inRaw (t : Triple) (mem : t ∈ found) : t ∈ e.graph.rawFacts := ((mem_iff t).mp mem).1
    have complete (t : Triple) (raw : t ∈ e.graph.rawFacts) (relevant : c.Relevant t) :
        t ∈ found := (mem_iff t).mpr ⟨raw, compiled.scans_of_relevant relevant⟩
    have known : g.known = {t | t ∈ found} ∪ e.graph.known := by
      rw [same.known]
      exact (Set.union_eq_right.mpr fun t mem => Or.inl (inRaw t mem)).symm
    have starts (p : Pass R D) (graph : p.engine.graph = g)
        (agenda : p.agenda = (∅ : Agenda).enqueueAll found) : Pass.Starts e.graph p found := by
      subst graph
      refine ⟨same.sound, same.hasRaw, same.rawFacts, fun t mem => ?_, known, ?_⟩
      · exact Or.inl (same.deduced ▸ mem)
      · rw [agenda, Agenda.pending_enqueueAll]
        rfl
    apply (Pass.settleAll_advances compiled (starts _ rfl rfl)).imp
    intro worked p' ended
    obtain ⟨advances, kept⟩ := ended
    exact ⟨⟨_, advances, inRaw, complete⟩, kept.trans installed⟩
  case stop => exact fun error g failed same => ⟨failed, ⟨error, rfl⟩, same.sound⟩

omit [LawfulSource R] [LawfulSink D] in
theorem init_ends_of {ignoreBackward : Bool} {e : Engine R D} (runs : e.Runs ignoreBackward c)
    {good : Unit → Engine R D → Prop} {bad : Failure → Engine R D → Prop}
    (go : ∀ journal, assertAxioms.Ends { e with compiled := some c, journal }
      (fun _ e₂ => ∀ firings r, load.Ends ({ e₂ with axiomFirings := some firings }.report r)
        (fun _ => good ⟨⟩)
        (fun failure e₃ => bad failure { e₃ with phase := .uninitialized, axiomsDone := false }))
      (fun failure e₂ => bad failure { e₂ with phase := .uninitialized, axiomsDone := false })) :
    (init ignoreBackward).Ends e good bad := by
  rw [init_ends_iff]
  apply (ensureCompiled_ends runs).imp
  rintro _ e₁ ⟨journal, rfl⟩
  exact (go journal).imp fun worked e₂ later => later _ _

theorem init_ends {ignoreBackward : Bool} (compiled : c.Compiled) {e : Engine R D}
    (runs : e.Runs ignoreBackward c) (sound : e.graph.Sound) :
    (init ignoreBackward).Ends e
      (fun _ e' => ∃ g worked worked', Advances c e.graph g c.axiomHeads worked ∧
        Loads c g e'.graph worked' ∧ e'.compiled = some c) (Aborts R D) := by
  apply init_ends_of runs
  intro journal
  apply (assertAxioms_ends compiled (e := { e with compiled := some c, journal }) rfl sound).imp
  intro worked e₂ ended firings r
  obtain ⟨advances, installed⟩ := ended
  apply (load_ends compiled (e := report { e₂ with axiomFirings := some firings } r) installed
    advances.sound).imp
  intro worked' e₃ ended
  obtain ⟨loads, installed'⟩ := ended
  exact ⟨e₂.graph, worked, worked', advances, loads, installed'⟩

theorem delete_ends (t : Triple) {e : Engine R D} (sound : e.graph.Sound) :
    (delete t).Ends e
      (fun _ e' => ∃ g deleted, InferenceGraph.Drops t e.graph g ∧
        e' = { e with graph := g }.report (.deleted t deleted))
      (fun failure e' => Aborts R D failure e' ∧
        ∃ g, InferenceGraph.Same e.graph g ∧ e' = { e with graph := g }) := by
  rw [delete, Step.ends_bind, onGraph_ends]
  refine (InferenceGraph.delete_ends sound t).mono ?_ ?_
  · intro deleted g ended
    rw [Step.ends_modify]
    exact ⟨g, deleted, ended.2, rfl⟩
  · intro error g ended
    obtain ⟨failed, same⟩ := ended
    exact ⟨⟨failed, ⟨error, rfl⟩, same.sound⟩, g, same, rfl⟩

theorem applyOnce_ends (compiled : c.Compiled) (t : Triple) {e : Engine R D}
    (installed : e.compiled = some c) (sound : e.graph.Sound) :
    (applyOnce t).Ends e
      (fun new e' => ∃ p, Pass.Adds ⟨e, ∅⟩ p {u | c.Derives e.graph.known t u} new ∧ p.engine = e')
      (Aborts R D) := by
  rw [applyOnce, Step.ends_bind, requireCompiled_ends installed, pass_ends]
  exact (Pass.work_ends compiled t (p := ⟨e, ∅⟩) sound rfl).imp
    fun new p adds => ⟨p, adds, rfl⟩

section
variable {R D : Type} [TripleSink R] [EmptyCollection R] [LawfulStore R] [TripleSink D]
  [LawfulSink D] {c : CompiledRules} {t : Triple} {e : Engine R D}

structure Stores (t : Triple) (g h : InferenceGraph R D) : Prop where
  sound : h.Sound
  rawFacts : ∀ u, u ∈ h.rawFacts ↔ u ∈ g.rawFacts ∨ u = t ∧ t ∉ g.known
  deduced : h.deduced = g.deduced

theorem Stores.known {g h : InferenceGraph R D} (stores : Stores t g h) :
    h.known = {t} ∪ g.known := by
  ext u
  have absorbed : t ∈ g.known → u = t → u ∈ g.known := fun old same => same ▸ old
  rw [InferenceGraph.known, Set.mem_union, stores.rawFacts, stores.deduced, Set.mem_union,
    Set.mem_singleton_iff]
  simp only [InferenceGraph.known, Set.mem_union] at absorbed ⊢
  tauto

theorem Stores.pending_known {g h : InferenceGraph R D} (stores : Stores t g h) :
    ∀ u ∈ ((∅ : Agenda).enqueue t).pending, u ∈ h.known := by
  intro u mem
  rw [Agenda.pending_enqueue] at mem
  rw [stores.known]
  exact Or.inl (List.mem_singleton.mp mem)

def addBy {R D : Type} [TripleSink R] [EmptyCollection R] [TripleSink D] {α : Type}
    (settle : CompiledRules → Step Failure (Pass R D) α) (t : Triple) :
    Step Failure (Engine R D) α := do
  let rules ← requireCompiled
  unless ← onGraph (InferenceGraph.contains t) do
    discard <| onGraph (InferenceGraph.assertRaw t)
  pass do
    Pass.enqueue t
    settle rules

omit [LawfulStore R] [LawfulSink D] in
theorem addBy_settleAll (t : Triple) :
    (addBy Pass.settleAll t : Step Failure (Engine R D) (List Triple)) = add t := rfl

theorem addBy_ends_of {α : Type} (settle : CompiledRules → Step Failure (Pass R D) α)
    (installed : e.compiled = some c) (sound : e.graph.Sound)
    {good : α → Engine R D → Prop} {bad : Failure → Engine R D → Prop}
    (go : ∀ g, Stores t e.graph g →
      (pass (Pass.enqueue t >>= fun _ => settle c)).Ends { e with graph := g } good bad)
    (stop : ∀ error g, InferenceGraph.MayFail R D → g.Sound → g.rawFacts = e.graph.rawFacts →
      g.deduced = e.graph.deduced → bad (.store error) { e with graph := g }) :
    (addBy settle t).Ends e good bad := by
  rw [addBy, Step.ends_bind, requireCompiled_ends installed, Step.ends_bind, onGraph_ends]
  refine (InferenceGraph.contains_ends sound t).mono ?_ ?_
  · intro found g ended
    obtain ⟨found_iff, same⟩ := ended
    split
    · rename_i yes
      have known : t ∈ e.graph.known := found_iff.mp yes
      exact go g ⟨same.sound, fun u => by simp [same.rawFacts, known], same.deduced⟩
    · rename_i no
      have unknown : t ∉ e.graph.known := fun mem => no (found_iff.mpr mem)
      rw [Step.ends_bind, Step.ends_discard, onGraph_ends]
      refine (InferenceGraph.assertRaw_ends same.sound t).mono ?_ ?_
      · intro added g' ended
        obtain ⟨-, rawFacts, deduced, -, sound'⟩ := ended
        refine go g' ⟨sound', fun u => ?_, deduced.trans same.deduced⟩
        rw [rawFacts, same.rawFacts]
        simp [unknown, or_comm]
      · intro error g' ended
        obtain ⟨failed, rawFacts, deduced, sound'⟩ := ended
        exact stop error g' failed sound' (rawFacts.trans same.rawFacts)
          (deduced.trans same.deduced)
  · intro error g ended
    obtain ⟨failed, same⟩ := ended
    exact stop error g failed same.sound same.rawFacts same.deduced

theorem add_settles (compiled : c.Compiled) (t : Triple) (installed : e.compiled = some c)
    (sound : e.graph.Sound) :
    (add t).Ends e
      (fun worked e' => ∃ g limit p new, Stores t e.graph g ∧
        Pass.Settles c limit ⟨{ e with graph := g }, (∅ : Agenda).enqueue t⟩ p worked new ∧
        p.agenda.pending = [] ∧ p.engine = e') (Aborts R D) := by
  apply addBy_ends_of Pass.settleAll installed sound
  · intro g stores
    rw [pass_ends, Pass.enqueue, Step.ends_bind, Step.ends_modify]
    apply (Pass.settleAll_ends compiled stores.sound).imp
    intro worked p ended
    obtain ⟨done, limit, new, settles⟩ := ended
    exact ⟨g, limit, p, new, stores, settles, done, rfl⟩
  · exact fun error g failed sound' _ _ => ⟨failed, ⟨error, rfl⟩, sound'⟩

theorem add_ends (compiled : c.Compiled) (t : Triple) {e : Engine R D}
    (installed : e.compiled = some c) (sound : e.graph.Sound) :
    (add t).Ends e
      (fun worked e' => ∃ g : InferenceGraph R D, Advances c g e'.graph {t} worked ∧
        (∀ u, u ∈ g.rawFacts ↔ u ∈ e.graph.rawFacts ∨ u = t ∧ t ∉ e.graph.known) ∧
        g.deduced = e.graph.deduced ∧ e'.compiled = some c) (Aborts R D) := by
  apply (add_settles compiled t installed sound).imp
  intro worked e' ended
  obtain ⟨g, limit, p, new, stores, settles, done, rfl⟩ := ended
  have single : {u | u ∈ [t]} = ({t} : Set Triple) := by
    ext u
    simp
  have known : g.known = {u | u ∈ [t]} ∪ g.known := by
    rw [single, stores.known, ← Set.union_assoc, Set.union_self]
  have starts : Pass.Starts g ⟨{ e with graph := g }, (∅ : Agenda).enqueue t⟩ [t] :=
    ⟨stores.sound, rfl, rfl, fun _ => Or.inl, known, Agenda.pending_enqueue ∅ t⟩
  exact ⟨g, single ▸ settles.advances starts done, stores.rawFacts, stores.deduced,
    settles.compiled.trans installed⟩

end

end Engine
end TripleInference
