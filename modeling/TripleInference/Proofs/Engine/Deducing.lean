import TripleInference.Proofs.Engine.Calls

/-!
What is kept of an engine as long as every deduction has its reason. The matches of a triple are
found before any of them fires, so whatever they rest on is known when their conclusions are
asserted; wherever a call is cut short, this has held of all it deduced.
-/
namespace TripleInference

theorem forall_split_concat {α : Type} {P : List α → α → Prop} {xs : List α} {x : α}
    (before : ∀ earlier y later, xs = earlier ++ y :: later → P earlier y) (last : P xs x) :
    ∀ earlier y later, xs ++ [x] = earlier ++ y :: later → P earlier y := by
  intro earlier y later split
  rcases List.eq_nil_or_concat later with rfl | ⟨later, z, rfl⟩
  · obtain ⟨rfl, same⟩ := List.append_inj' split rfl
    obtain rfl := List.singleton_inj.mp same
    exact last
  · rw [List.concat_eq_append, ← List.cons_append, ← List.append_assoc] at split
    exact before earlier y later (List.append_inj' split rfl).1

namespace CompiledRules

/-- The record applies an active rule to backed facts. Under the bindings it names, they match the
whole body; the trigger is one of them. An axiom needs no facts. -/
def Explains (c : CompiledRules) (backed : Set Triple) (d : Derivation) : Prop :=
  ∃ r, (d.rule, r) ∈ c.active ∧ d.ruleName = r.label ∧
    r.Concludes (.ofValues d.bindings) d.conclusion ∧
    (∀ p ∈ r.body, ∃ f ∈ backed, p.Matches (.ofValues d.bindings) f) ∧
    match d.trigger with
    | none => r.isAxiom = true ∧ d.bindings = []
    | some t => t ∈ backed ∧ ∃ p ∈ r.body, p.Matches (.ofValues d.bindings) t

variable {c : CompiledRules} {backed backed' : Set Triple} {d : Derivation}

theorem Explains.mono (explains : c.Explains backed d) (subset : backed ⊆ backed') :
    c.Explains backed' d := by
  obtain ⟨r, active, named, concludes, body, trigger⟩ := explains
  refine ⟨r, active, named, concludes, fun p mem => ?_, ?_⟩
  · obtain ⟨f, known, fits⟩ := body p mem
    exact ⟨f, subset known, fits⟩
  · cases started : d.trigger with
    | none => simpa [started] using trigger
    | some t =>
      rw [started] at trigger
      exact ⟨subset trigger.1, trigger.2⟩

end CompiledRules

namespace Engine

variable {R D : Type} [TripleSource R] [LawfulSource R] [TripleSink D] [LawfulSink D]

def stage (e : Engine R D) : Phase × Bool := (e.phase, e.axiomsDone)

/-- The engine has been at work, but has neither gained nor lost a fact, and recorded nothing. -/
structure Quiet (e e' : Engine R D) : Prop where
  graph : InferenceGraph.Same e.graph e'.graph
  setup : e'.setup = e.setup
  stage : e'.stage = e.stage
  derivations : e'.derivations = e.derivations
  firings : e.firings ≤ e'.firings

theorem quiet_read {e : Engine R D} {g : InferenceGraph R D}
    (same : InferenceGraph.Same e.graph g) : Quiet e { e with graph := g } :=
  ⟨same, rfl, rfl, rfl, Nat.le_refl _⟩

theorem quiet_traceRecord {e : Engine R D} (sound : e.graph.Sound) (r : LogRecord) :
    Quiet e (e.traceRecord r) := by
  unfold traceRecord
  split <;> exact ⟨.refl sound, rfl, rfl, rfl, Nat.le_refl _⟩

/-- A pass that works from `own` and from known facts keeps `here`: reading and tracing do, and so
does the deduction of an unknown fact that has a trigger and rests on these facts. -/
structure KeptByDeducing (c : CompiledRules) (own : Set Triple) (here : Engine R D → Prop) :
    Prop where
  sound : ∀ {e}, here e → e.graph.Sound
  quiet : ∀ {e e'}, here e → Quiet e e' → here e'
  deduce : ∀ {e d t g}, here e → d.trigger = some t → d.conclusion ∉ e.graph.known →
    c.Explains (own ∪ e.graph.known) d → InferenceGraph.Deduces {d.conclusion} e.graph g →
      here ({ e with graph := g }.recordDerivation d)

structure KeptByAsserting (c : CompiledRules) (here : Engine R D → Prop) : Prop
    extends KeptByDeducing c ∅ here where
  assert : ∀ {e d g}, here e → d.trigger = none → d.conclusion ∉ e.graph.deduced →
    c.Explains ∅ d → InferenceGraph.Deduces {d.conclusion} e.graph g →
      here ({ e with graph := g }.recordDerivation d)
  proceed : ∀ {e} phase axiomsDone, here e → here { e with phase, axiomsDone }

end Engine

namespace Pass

open Engine (KeptByDeducing)

variable {R D : Type} [TripleSource R] [LawfulSource R] [TripleSink D] [LawfulSink D]
  {c : CompiledRules} {p : Pass R D} {own facts : Set Triple} {t : Triple}
  {here : Engine R D → Prop}

def Grounded (c : CompiledRules) (facts : Set Triple) (t : Triple) (a : BodyMatch) : Prop :=
  ∃ r heads, c.rule? a.rule = some r ∧ r.instantiate a.bindings = .ok heads ∧
    ∀ u ∈ heads, c.Explains facts ⟨a.rule, r.label, u, some t, a.bindings.values⟩

theorem grounded_of_yields {around : Set Triple} (compiled : c.Compiled) (subset : around ⊆ facts)
    (known : t ∈ facts) {a : BodyMatch} {pos : NodeId}
    (yields : c.Yields around (t, pos) a.rule a.bindings.values) : Grounded c facts t a := by
  obtain ⟨r, heads, numbered, instances, mem_iff⟩ := compiled.instantiate_of_yields yields
  obtain ⟨r', f, active, -, matched⟩ := compiled.yields yields
  obtain rfl : r' = r := Option.some.inj ((compiled.numbered _ active).symm.trans numbered)
  have body : ∀ q ∈ r'.body, ∃ f ∈ facts, q.Matches (.ofValues a.bindings.values) f := by
    intro q mem
    obtain ⟨j, here⟩ := List.mem_iff_getElem?.mp mem
    obtain ⟨q', here', f, stored, fits⟩ :=
      (matched.mono subset).supports known (List.getElem?_eq_some_iff.mp here).1
    obtain rfl : q = q' := Option.some.inj (here.symm.trans here')
    exact ⟨f, stored, fits⟩
  obtain ⟨q, here, u, rfl, fits⟩ := matched.trigger
  exact ⟨r', heads, numbered, instances, fun u mem => ⟨r', active, rfl, (mem_iff u).mp mem, body,
    known, q, List.mem_of_getElem? here, fits⟩⟩

theorem conclude_kept (kept : KeptByDeducing c own here) {r : Rule} {a : BodyMatch}
    (ts : List Triple)
    (explains : ∀ u ∈ ts, c.Explains facts ⟨a.rule, r.label, u, some t, a.bindings.values⟩)
    (start : here p.engine) (known : facts ⊆ own ∪ p.engine.graph.known) :
    (conclude r a (some t) ts).Ends p
      (fun _ p' => here p'.engine ∧ facts ⊆ own ∪ p'.engine.graph.known)
      (fun _ p' => here p'.engine) := by
  induction ts generalizing p with
  | nil => exact ⟨start, known⟩
  | cons u rest ih =>
    obtain ⟨first, later⟩ := List.forall_mem_cons.mp explains
    rw [conclude, Step.ends_bind, onGraph_ends]
    refine (InferenceGraph.contains_ends (kept.sound start) u).mono ?_ ?_
    · intro found g ended
      obtain ⟨found_iff, same⟩ := ended
      have read := kept.quiet start (Engine.quiet_read same)
      have known' : facts ⊆ own ∪ g.known := same.known ▸ known
      split
      · exact ih later read known'
      · rename_i missed
        have unknown : u ∉ g.known := fun mem => missed (found_iff.mpr (same.known ▸ mem))
        rw [Step.ends_bind, Step.ends_discard, onGraph_ends]
        refine (InferenceGraph.add_ends same.sound u).mono ?_ ?_
        · intro added h ended
          obtain ⟨-, deduces⟩ := ended
          rw [enqueue, Step.ends_bind, Step.ends_modify, modifyEngine, Step.ends_bind,
            Step.ends_modify, Step.ends_bind]
          have recorded := kept.deduce read rfl unknown (first.mono known') deduces
          have traced := kept.quiet recorded
            (Engine.quiet_traceRecord (kept.sound recorded) (.deduced u))
          refine (ih later traced ?_).imp fun _ _ ended => ended
          rw [Engine.graph_traceRecord, Engine.graph_recordDerivation, deduces.known]
          exact known'.trans (Set.union_subset_union_right own Set.subset_union_right)
        · exact fun error h ended => kept.quiet read (Engine.quiet_read ended.2)
    · exact fun error g ended => kept.quiet start (Engine.quiet_read ended.2)

theorem countFiring_kept (kept : KeptByDeducing c own here) {rule : RuleId} {r : Rule}
    {trigger : Option Triple} (start : here p.engine) :
    (countFiring rule r trigger).Ends p
      (fun _ p' => here p'.engine ∧ p'.engine.graph = p.engine.graph)
      (fun _ p' => here p'.engine) := by
  rw [countFiring, Step.ends_modify]
  split
  · have counted : here { p.engine with firings := p.engine.firings + 1 } :=
      kept.quiet start ⟨.refl (kept.sound start), rfl, rfl, rfl, Nat.le_succ _⟩
    exact ⟨kept.quiet counted (Engine.quiet_traceRecord (kept.sound counted) _),
      Engine.graph_traceRecord _ _⟩
  · exact ⟨start, rfl⟩

theorem fire_kept (kept : KeptByDeducing c own here) {a : BodyMatch}
    (grounded : Grounded c facts t a) (start : here p.engine)
    (known : facts ⊆ own ∪ p.engine.graph.known) :
    (fire c (some t) a).Ends p
      (fun _ p' => here p'.engine ∧ facts ⊆ own ∪ p'.engine.graph.known)
      (fun _ p' => here p'.engine) := by
  obtain ⟨r, heads, numbered, instances, explains⟩ := grounded
  rw [fire, numbered]
  simp only []
  rw [Step.ends_bind, Step.ends_ofExcept, instances]
  simp only []
  rw [Step.ends_bind]
  apply (countFiring_kept kept start).imp
  intro _ p' ended
  obtain ⟨counted, same⟩ := ended
  exact conclude_kept kept heads explains counted (same ▸ known)

theorem fireAll_kept (kept : KeptByDeducing c own here) {ms : List BodyMatch}
    (grounded : ∀ a ∈ ms, Grounded c facts t a) (start : here p.engine)
    (known : facts ⊆ own ∪ p.engine.graph.known) :
    (fireAll c (some t) ms).Ends p (fun _ p' => here p'.engine) (fun _ p' => here p'.engine) := by
  induction ms generalizing p with
  | nil => exact start
  | cons a rest ih =>
    obtain ⟨first, later⟩ := List.forall_mem_cons.mp grounded
    rw [fireAll, Step.ends_bind]
    apply (fire_kept kept first start known).imp
    intro new p' ended
    obtain ⟨fired, known'⟩ := ended
    rw [Step.ends_bind]
    exact (ih later fired known').imp fun _ _ ended => ended

theorem matchTriple_kept (compiled : c.Compiled) (kept : KeptByDeducing c own here)
    (start : here p.engine) (known : t ∈ own ∪ p.engine.graph.known) :
    (matchTriple c t).Ends p
      (fun ms p' => here p'.engine ∧ p.engine.graph.known ⊆ p'.engine.graph.known ∧
        ∀ a ∈ ms, Grounded c (own ∪ p.engine.graph.known) t a)
      (fun _ p' => here p'.engine) := by
  have silent : (matchTriple c t : Step Failure (Pass R D) _).Preserves fun p' =>
      (p'.engine.setup, p'.engine.stage, p'.engine.derivations, p'.engine.firings) =
        (p.engine.setup, p.engine.stage, p.engine.derivations, p.engine.firings) :=
    Step.preserves_within_elsewhere fun _ _ same => same
  have quiet {p' : Pass R D} (same : InferenceGraph.Same p.engine.graph p'.engine.graph)
      (others : (p'.engine.setup, p'.engine.stage, p'.engine.derivations, p'.engine.firings) =
        (p.engine.setup, p.engine.stage, p.engine.derivations, p.engine.firings)) :
      here p'.engine := by
    simp only [Prod.mk.injEq] at others
    obtain ⟨setup, stage, derivations, firings⟩ := others
    exact kept.quiet start ⟨same, setup, stage, derivations, firings.ge⟩
  refine ((matchTriple_yields compiled t (kept.sound start)).and (silent.ends rfl)).mono ?_ ?_
  · intro ms p' ended
    obtain ⟨⟨adds, yielded, -⟩, others⟩ := ended
    refine ⟨quiet adds.same others, adds.subset, fun a mem => ?_⟩
    obtain ⟨pos, yields⟩ := yielded a mem
    exact grounded_of_yields compiled Set.subset_union_right known yields
  · exact fun failure p' ended => quiet ended.1.2 ended.2

/-- The matches of a triple rest on facts that are known before any of them fires. -/
theorem work_kept (compiled : c.Compiled) (kept : KeptByDeducing c own here)
    (start : here p.engine) (known : t ∈ own ∪ p.engine.graph.known) :
    (work c t).Ends p (fun _ p' => here p'.engine) (fun _ p' => here p'.engine) := by
  rw [work, Step.ends_bind]
  apply (matchTriple_kept compiled kept start known).imp
  intro ms p' ended
  obtain ⟨read, subset, grounded⟩ := ended
  exact fireAll_kept kept grounded read (Set.union_subset_union_right own subset)

theorem settle_kept (compiled : c.Compiled) (kept : KeptByDeducing c own here) (limit : Nat)
    (start : here p.engine) (pending : ∀ u ∈ p.agenda.pending, u ∈ p.engine.graph.known) :
    (settle c limit).Ends p (fun _ p' => here p'.engine) (fun _ p' => here p'.engine) := by
  induction limit generalizing p with
  | zero => exact start
  | succ limit ih =>
    cases queue : p.agenda.pending with
    | nil =>
      rw [settle_ends_nil queue]
      exact start
    | cons t rest =>
      have traced := kept.quiet start (Engine.quiet_traceRecord (kept.sound start) (.processing t))
      have first : t ∈ p.engine.graph.known := pending t (queue ▸ List.mem_cons_self)
      have known : t ∈ own ∪ (p.engine.traceRecord (.processing t)).graph.known := by
        rw [Engine.graph_traceRecord]
        exact Or.inr first
      rw [settle_ends_cons queue]
      refine ((work_kept compiled kept (p := ⟨_, p.agenda.next.2⟩) traced known).and
        (work_next_ends compiled (kept.sound start) queue)).mono ?_ fun _ _ ended => ended.1
      intro new p₂ ended
      obtain ⟨worked, works⟩ := ended
      exact ih worked (works.pending_known pending)

theorem settleAll_kept (compiled : c.Compiled) (kept : KeptByDeducing c own here)
    (start : here p.engine) (pending : ∀ u ∈ p.agenda.pending, u ∈ p.engine.graph.known) :
    (settleAll c).Ends p (fun _ p' => here p'.engine) (fun _ p' => here p'.engine) := by
  rw [settleAll, Step.ends_bind, Step.ends_get]
  exact settle_kept compiled kept _ start pending

end Pass

namespace Engine

variable {R D : Type} [TripleSource R] [LawfulSource R] [TripleSink D] [LawfulSink D]
  {c : CompiledRules} {e : Engine R D} {p : Pass R D} {here : Engine R D → Prop}

theorem assertHead_kept (kept : KeptByAsserting c here) {id : RuleId} {r : Rule} {t : Triple}
    (explains : c.Explains ∅ ⟨id, r.label, t, none, []⟩) (start : here p.engine) :
    (assertHead id r t).Ends p (fun _ p' => here p'.engine) (fun _ p' => here p'.engine) := by
  rw [assertHead, Step.ends_bind, Pass.onGraph_ends]
  refine (InferenceGraph.add_ends (kept.sound start) t).mono ?_ ?_
  · intro added g ended
    obtain ⟨added_iff, deduces⟩ := ended
    cases added with
    | true => exact kept.assert start rfl (added_iff.mp rfl) explains deduces
    | false =>
      have old : t ∈ p.engine.graph.deduced := by
        by_contra new
        exact Bool.false_ne_true (added_iff.mpr new)
      have same : g.deduced = p.engine.graph.deduced := by
        rw [deduces.deduced]
        exact Set.union_eq_right.mpr (Set.singleton_subset_iff.mpr old)
      exact kept.quiet start (quiet_read ⟨deduces.hasRaw, deduces.rawFacts, same, deduces.sound⟩)
  · exact fun error g ended => kept.quiet start (quiet_read ended.2)

theorem assertAxiom_kept (compiled : c.Compiled) (kept : KeptByAsserting c here)
    {rule : RuleId × Rule} (active : rule ∈ c.active) (isAxiom : rule.2.isAxiom = true)
    (start : here p.engine) :
    (assertAxiom rule.1 rule.2).Ends p (fun _ p' => here p'.engine)
      (fun _ p' => here p'.engine) := by
  obtain ⟨instances, mem_iff⟩ := compiled.instantiate_axiom active isAxiom
  have noBody : rule.2.body = [] := List.isEmpty_iff.mp isAxiom
  have explains : ∀ t ∈ rule.2.groundHeads, c.Explains ∅ ⟨rule.1, rule.2.label, t, none, []⟩ := by
    intro t mem
    refine ⟨rule.2, active, rfl, (mem_iff t).mp mem, ?_, isAxiom, rfl⟩
    simp [noBody]
  rw [assertAxiom, Step.ends_bind, Step.ends_ofExcept, instances]
  simp only []
  rw [Pass.modifyEngine, Step.ends_bind, Step.ends_modify]
  apply Step.forM_ends
  · exact fun t mem p' before => assertHead_kept kept (explains t mem) before
  · exact kept.quiet start ⟨.refl (kept.sound start), rfl, rfl, rfl, Nat.le_succ _⟩

theorem forM_assertAxiom_kept (compiled : c.Compiled) (kept : KeptByAsserting c here)
    {rules : List (RuleId × Rule)}
    (axioms : ∀ rule ∈ rules, rule ∈ c.active ∧ rule.2.isAxiom = true) (start : here p.engine) :
    (rules.forM fun (id, r) => assertAxiom id r).Ends p (fun _ p' => here p'.engine)
      (fun _ p' => here p'.engine) := by
  apply Step.forM_ends
  · intro rule mem p' before
    obtain ⟨active, isAxiom⟩ := axioms rule mem
    exact assertAxiom_kept compiled kept active isAxiom before
  · exact start

theorem assertAxioms_kept (compiled : c.Compiled) (kept : KeptByAsserting c here)
    (installed : e.compiled = some c) (start : here e) :
    assertAxioms.Ends e (fun _ => here) (fun _ => here) := by
  rw [assertAxioms_ends_iff installed]
  refine ((forM_assertAxiom_kept compiled kept (fun _ mem => List.mem_filter.mp mem)
    (p := ⟨e, ∅⟩) start).and (forM_activeAxioms_ends compiled (p := ⟨e, ∅⟩)
    (kept.sound start))).mono ?_ fun _ _ ended => ended.1
  intro _ p ended
  obtain ⟨before, asserts⟩ := ended
  have pending : ∀ u ∈ p.agenda.pending, u ∈ p.engine.graph.known := by
    intro u mem
    rw [asserts.starts.pending] at mem
    rw [asserts.starts.known]
    exact Or.inl mem
  apply (Pass.settleAll_kept compiled kept.toKeptByDeducing before pending).imp
  exact fun worked p' settled => kept.proceed .axiomsProcessed true settled

theorem load_kept (compiled : c.Compiled) (kept : KeptByDeducing c ∅ here)
    (installed : e.compiled = some c) (start : here e) :
    load.Ends e (fun _ e' => ∃ e₁, here e₁ ∧ e' = { e₁ with phase := .ready })
      (fun _ => here) := by
  apply loadBy_ends_of Pass.settleAll installed (kept.sound start)
  case idle => exact fun g same _ => ⟨_, kept.quiet start (quiet_read same), rfl⟩
  case go =>
    intro g found same _ mem_iff
    have read : here ({ e with graph := g }.report (.rawQueued found.length c.openPredicate)) :=
      kept.quiet start ⟨same, rfl, rfl, rfl, Nat.le_refl _⟩
    have pending : ∀ u ∈ ((∅ : Agenda).enqueueAll found).pending, u ∈ g.known := by
      intro u mem
      rw [Agenda.pending_enqueueAll] at mem
      rw [same.known]
      exact Or.inl ((mem_iff u).mp mem).1
    apply (Pass.settleAll_kept compiled kept (p := ⟨_, _⟩) read pending).imp
    exact fun worked p' settled => ⟨p'.engine, settled, rfl⟩
  case stop => exact fun error g _ same => kept.quiet start (quiet_read same)

theorem init_kept {ignoreBackward : Bool} (compiled : c.Compiled) (kept : KeptByAsserting c here)
    (runs : e.Runs ignoreBackward c)
    (start : ∀ journal, here { e with compiled := some c, journal }) :
    (init ignoreBackward).Ends e (fun _ => here)
      (fun _ e' => here e' ∧ e'.stage = (.uninitialized, false)) := by
  have reset {e' : Engine R D} (before : here e') :
      here { e' with phase := .uninitialized, axiomsDone := false } :=
    kept.proceed .uninitialized false before
  apply init_ends_of runs
  intro journal
  refine ((assertAxioms_kept compiled kept rfl (start journal)).and
    ((assertAxioms_preserves (keptByCalls_setup _)).ends rfl)).mono ?_
      fun _ _ ended => ⟨reset ended.1, rfl⟩
  intro _ e₂ ended firings r
  obtain ⟨asserted, setup⟩ := ended
  let e₃ := report { e₂ with axiomFirings := some firings } r
  have counted : here e₃ :=
    kept.quiet asserted ⟨.refl (kept.sound asserted), rfl, rfl, rfl, Nat.le_refl _⟩
  have installed : e₃.compiled = some c := compiled_of_setup setup
  refine (load_kept compiled kept.toKeptByDeducing installed counted).mono ?_
    fun _ _ before => ⟨reset before, rfl⟩
  intro _ e₄ ended
  obtain ⟨e₅, loaded, rfl⟩ := ended
  exact kept.proceed .ready e₅.axiomsDone loaded

theorem applyOnce_kept {t : Triple} (compiled : c.Compiled) (kept : KeptByDeducing c {t} here)
    (installed : e.compiled = some c) (start : here e) :
    (applyOnce t).Ends e (fun _ => here) (fun _ => here) := by
  rw [applyOnce, Step.ends_bind, requireCompiled_ends installed, pass_ends]
  exact Pass.work_kept compiled kept (p := ⟨e, ∅⟩) start (Or.inl rfl)

end Engine

namespace Engine

variable {R D : Type} [TripleSink R] [EmptyCollection R] [LawfulStore R] [TripleSink D]
  [LawfulSink D] {c : CompiledRules} {e : Engine R D} {own : Set Triple} {here : Engine R D → Prop}

theorem add_kept {t : Triple} (compiled : c.Compiled) (kept : KeptByDeducing c own here)
    (installed : e.compiled = some c) (sound : e.graph.Sound)
    (stored : ∀ g, Stores t e.graph g → here { e with graph := g })
    (stopped : ∀ g : InferenceGraph R D, g.Sound → g.rawFacts = e.graph.rawFacts →
      g.deduced = e.graph.deduced → here { e with graph := g }) :
    (add t).Ends e (fun _ => here) (fun _ => here) := by
  apply addBy_ends_of Pass.settleAll installed sound
  case go =>
    intro g stores
    rw [pass_ends, Pass.enqueue, Step.ends_bind, Step.ends_modify]
    exact Pass.settleAll_kept compiled kept (p := ⟨_, _⟩) (stored g stores) stores.pending_known
  case stop => exact fun error g _ sound' rawFacts deduced => stopped g sound' rawFacts deduced

end Engine
end TripleInference
