import TripleInference.Engine.Run
import TripleInference.Proofs.Keeping

/-!
What the requests of an engine leave alone. A pass works on the graph, counts firings, records
derivations and reports; nothing else of its engine changes. Only its owner changes the rules, the
settings and whether derivations are recorded; compiled rules are installed by an initialisation
that finds none.
-/
namespace TripleInference

namespace Engine

variable {R D : Type}

/-- What no pass changes. -/
def setup (e : Engine R D) : List Rule × EngineSettings × Bool × Option CompiledRules :=
  (e.rules, e.settings, e.recording, e.compiled)

theorem compiled_of_setup {e e' : Engine R D} (same : e'.setup = e.setup) :
    e'.compiled = e.compiled := congrArg (·.2.2.2) same

theorem recording_of_setup {e e' : Engine R D} (same : e'.setup = e.setup) :
    e'.recording = e.recording := congrArg (·.2.2.1) same

section
variable {α : Type} (part : Engine R D → α)

theorem part_recordDerivation
    (apart : ∀ (e : Engine R D) derivations, part { e with derivations } = part e)
    (e : Engine R D) (d : Derivation) : part (e.recordDerivation d) = part e := by
  unfold recordDerivation
  split
  · exact apart ..
  · rfl

theorem part_traceRecord (apart : ∀ (e : Engine R D) journal, part { e with journal } = part e)
    (e : Engine R D) (r : LogRecord) : part (e.traceRecord r) = part e := by
  unfold traceRecord
  split
  · exact apart ..
  · rfl

end

section
variable (e : Engine R D) (d : Derivation) (r : LogRecord)

theorem setup_recordDerivation : (e.recordDerivation d).setup = e.setup :=
  part_recordDerivation setup (fun _ _ => rfl) e d

@[simp] theorem graph_recordDerivation : (e.recordDerivation d).graph = e.graph :=
  part_recordDerivation Engine.graph (fun _ _ => rfl) e d

@[simp] theorem compiled_recordDerivation : (e.recordDerivation d).compiled = e.compiled :=
  part_recordDerivation Engine.compiled (fun _ _ => rfl) e d

@[simp] theorem firings_recordDerivation : (e.recordDerivation d).firings = e.firings :=
  part_recordDerivation Engine.firings (fun _ _ => rfl) e d

@[simp] theorem graph_traceRecord : (e.traceRecord r).graph = e.graph :=
  part_traceRecord Engine.graph (fun _ _ => rfl) e r

@[simp] theorem compiled_traceRecord : (e.traceRecord r).compiled = e.compiled :=
  part_traceRecord Engine.compiled (fun _ _ => rfl) e r

@[simp] theorem firings_traceRecord : (e.traceRecord r).firings = e.firings :=
  part_traceRecord Engine.firings (fun _ _ => rfl) e r

end

structure KeptByNotes (here : Engine R D → Prop) : Prop where
  report : ∀ {e} {r : LogRecord}, r.level ≠ .trace → here e → here (e.report r)
  fired : ∀ {e} rule trigger, here e → here (e.traceRecord (.fired rule trigger))
  deduced : ∀ {e} t, here e → here (e.traceRecord (.deduced t))
  derivation : ∀ {e} d, here e → here (e.recordDerivation d)

structure KeptByAllPasses (here : Engine R D → Prop) : Prop where
  journal : ∀ {e} journal, here e → here { e with journal }
  derivations : ∀ {e} derivations, here e → here { e with derivations }
  graph : ∀ {e} graph, here e → here { e with graph }
  firing : ∀ {e}, here e → here { e with firings := e.firings + 1 }

theorem keptByAllPasses_part {α : Type} (part : Engine R D → α)
    (apart : ∀ (e : Engine R D) graph firings derivations journal,
      part { e with graph, firings, derivations, journal } = part e) (value : α) :
    KeptByAllPasses fun e => part e = value where
  graph {e} graph same := (apart e graph e.firings e.derivations e.journal).trans same
  journal {e} journal same := (apart e e.graph e.firings e.derivations journal).trans same
  derivations {e} derivations same :=
    (apart e e.graph e.firings derivations e.journal).trans same
  firing {e} same := (apart e e.graph (e.firings + 1) e.derivations e.journal).trans same

theorem keptByAllPasses_firings (count : Nat) :
    KeptByAllPasses fun e : Engine R D => count ≤ e.firings where
  graph _ counted := counted
  journal _ counted := counted
  derivations _ counted := counted
  firing counted := Nat.le_succ_of_le counted

variable {here : Engine R D → Prop}

theorem recordDerivation_keeps (kept : ∀ {e} derivations, here e → here { e with derivations })
    {e : Engine R D} (d : Derivation) (start : here e) : here (e.recordDerivation d) := by
  unfold Engine.recordDerivation
  split
  · exact kept _ start
  · exact start

theorem traceRecord_keeps (kept : ∀ {e} journal, here e → here { e with journal })
    {e : Engine R D} (r : LogRecord) (start : here e) : here (e.traceRecord r) := by
  unfold Engine.traceRecord
  split
  · exact kept _ start
  · exact start

theorem keptByNotes_of_parts (journal : ∀ {e} journal, here e → here { e with journal })
    (derivations : ∀ {e} derivations, here e → here { e with derivations }) : KeptByNotes here where
  report _ := journal _
  fired _ _ := traceRecord_keeps journal _
  deduced _ := traceRecord_keeps journal _
  derivation := recordDerivation_keeps derivations

theorem KeptByAllPasses.and {here' : Engine R D → Prop} (kept : KeptByAllPasses here)
    (kept' : KeptByAllPasses here') : KeptByAllPasses fun e => here e ∧ here' e where
  graph graph both := ⟨kept.graph graph both.1, kept'.graph graph both.2⟩
  journal journal both := ⟨kept.journal journal both.1, kept'.journal journal both.2⟩
  derivations derivations both :=
    ⟨kept.derivations derivations both.1, kept'.derivations derivations both.2⟩
  firing both := ⟨kept.firing both.1, kept'.firing both.2⟩

theorem KeptByAllPasses.toKeptByNotes (kept : KeptByAllPasses here) : KeptByNotes here :=
  keptByNotes_of_parts kept.journal kept.derivations

theorem onGraph_preserves {α : Type} (kept : ∀ {e} graph, here e → here { e with graph })
    (m : Step StoreError (InferenceGraph R D) α) : (onGraph m).Preserves here :=
  Step.preserves_within_elsewhere fun graph _ => kept graph

structure KeptByDeductions [TripleSink D] (here : Engine R D → Prop) : Prop
    extends KeptByNotes here where
  deducing : ∀ t, (onGraph (InferenceGraph.onDeductions (TripleSink.add t)) :
    Step Failure (Engine R D) Bool).Preserves here

theorem keptByDeductions_firings [TripleSink D] (count : Nat) :
    KeptByDeductions fun e : Engine R D => e.firings = count where
  toKeptByNotes := keptByNotes_of_parts (fun _ counted => counted) fun _ counted => counted
  deducing _ := onGraph_preserves (fun _ counted => counted) _

section
variable [TripleSource R] [TripleSink D]

structure KeptByConclusions (here : Engine R D → Prop) : Prop extends KeptByDeductions here where
  knowing : ∀ t, (onGraph (InferenceGraph.contains t) :
    Step Failure (Engine R D) Bool).Preserves here

structure KeptByFirings (here : Engine R D → Prop) : Prop extends KeptByConclusions here where
  firing : ∀ {e}, here e → here { e with firings := e.firings + 1 }

/-- Whatever a pass over these rules does to its engine keeps `here`. -/
structure KeptByPasses (c : CompiledRules) (here : Engine R D → Prop) : Prop
    extends KeptByFirings here where
  processing : ∀ {e} t, here e → here (e.traceRecord (.processing t))
  matching : ∀ t, (Pass.matchTriple c t : Step Failure (Pass R D) (List BodyMatch)).Preserves
    fun p => here p.engine
  scanning : (onGraph (InferenceGraph.onRaw (scan c)) :
    Step Failure (Engine R D) (Option (List Triple))).Preserves here

/-- Passes over the rules that are installed keep `here`, and it does not matter either how far the
initialisation has got. -/
structure KeptByCalls (here : Engine R D → Prop) : Prop extends KeptByNotes here where
  passes : ∀ {e c}, here e → e.compiled = some c → KeptByPasses c here
  proceed : ∀ {e} phase axiomsDone, here e → here { e with phase, axiomsDone }

theorem KeptByAllPasses.over (kept : KeptByAllPasses here) (c : CompiledRules) :
    KeptByPasses c here where
  toKeptByNotes := kept.toKeptByNotes
  deducing _ := onGraph_preserves kept.graph _
  knowing _ := onGraph_preserves kept.graph _
  firing := kept.firing
  processing _ := traceRecord_keeps kept.journal _
  matching _ := Step.preserves_within_elsewhere fun d _ start =>
    kept.journal d.journal (kept.graph d.graph start)
  scanning := onGraph_preserves kept.graph _

theorem KeptByAllPasses.calls (kept : KeptByAllPasses here)
    (proceed : ∀ {e} phase axiomsDone, here e → here { e with phase, axiomsDone }) :
    KeptByCalls here where
  toKeptByNotes := kept.toKeptByNotes
  passes _ _ := kept.over _
  proceed := proceed

theorem keptByCalls_setup (e : Engine R D) :
    KeptByCalls fun e' : Engine R D => e'.setup = e.setup :=
  (keptByAllPasses_part setup (fun _ _ _ _ _ => rfl) e.setup).calls fun _ _ same => same

theorem keptByConclusions_firings (count : Nat) :
    KeptByConclusions fun e : Engine R D => e.firings = count where
  toKeptByDeductions := keptByDeductions_firings count
  knowing _ := onGraph_preserves (fun _ counted => counted) _

end

theorem requireCompiled_ends_self {e : Engine R D} :
    (requireCompiled : Step Failure (Engine R D) CompiledRules).Ends e
      (fun c e' => e' = e ∧ e.compiled = some c) (fun _ e' => e' = e) := by
  unfold Step.Ends Step.outcome requireCompiled
  cases e.compiled <;> simp

end Engine

namespace Pass

open Engine (KeptByConclusions KeptByFirings KeptByPasses)

variable {R D α : Type} {here : Engine R D → Prop}

theorem onEngine_preserves {m : Step Failure (Engine R D) α} (kept : m.Preserves here) :
    (onEngine m).Preserves fun p => here p.engine :=
  kept.within (fun _ start => start) fun _ _ _ reached => reached

theorem modifyEngine_preserves {change : Engine R D → Engine R D}
    (kept : ∀ e, here e → here (change e)) :
    (modifyEngine change).Preserves fun p => here p.engine :=
  Step.preserves_modify fun p => kept p.engine

theorem enqueue_preserves (t : Triple) :
    (enqueue t : Step Failure (Pass R D) Unit).Preserves fun p => here p.engine :=
  Step.preserves_modify fun _ start => start

theorem next_preserves :
    (next : Step Failure (Pass R D) (Option Triple)).Preserves fun p => here p.engine :=
  fun _ start => start

variable [TripleSource R] [TripleSink D] {c : CompiledRules}

theorem countFiring_preserves (kept : KeptByFirings here) (rule : RuleId) (r : Rule)
    (trigger : Option Triple) :
    (countFiring rule r trigger : Step Failure (Pass R D) Unit).Preserves
      fun p => here p.engine := by
  apply Step.preserves_modify
  intro p start
  split
  · exact kept.fired _ _ (kept.firing start)
  · exact start

theorem conclude_preserves (kept : KeptByConclusions here) (r : Rule) (a : BodyMatch)
    (trigger : Option Triple) (ts : List Triple) :
    (conclude r a trigger ts : Step Failure (Pass R D) (List Triple)).Preserves
      fun p => here p.engine := by
  induction ts with
  | nil => exact Step.preserves_pure _
  | cons t rest ih =>
    apply (onEngine_preserves (kept.knowing t)).bind
    intro known
    split
    · exact ih
    · apply (onEngine_preserves (kept.deducing t)).discard.bind
      intro _
      apply (enqueue_preserves t).bind
      intro _
      refine (modifyEngine_preserves fun e start => ?_).bind fun _ =>
        ih.bind fun _ => Step.preserves_pure _
      exact kept.deduced _ (kept.derivation _ start)

theorem fire_preserves (kept : KeptByFirings here) (trigger : Option Triple) (a : BodyMatch) :
    (fire c trigger a : Step Failure (Pass R D) (List Triple)).Preserves
      fun p => here p.engine := by
  unfold fire
  split
  · exact Step.preserves_throw _
  · refine Step.Preserves.bind (Step.preserves_ofExcept _ _) fun conclusions => ?_
    apply (countFiring_preserves kept _ _ _).bind
    intro _
    exact conclude_preserves kept.toKeptByConclusions _ _ _ _

theorem fireAll_preserves (kept : KeptByFirings here) (trigger : Option Triple)
    (ms : List BodyMatch) :
    (fireAll c trigger ms : Step Failure (Pass R D) (List Triple)).Preserves
      fun p => here p.engine := by
  induction ms with
  | nil => exact Step.preserves_pure _
  | cons a rest ih =>
    apply (fire_preserves kept trigger a).bind
    intro _
    exact ih.bind fun _ => Step.preserves_pure _

theorem work_preserves (kept : KeptByFirings here) {t : Triple}
    (matching : (matchTriple c t : Step Failure (Pass R D) (List BodyMatch)).Preserves
      fun p => here p.engine) :
    (work c t : Step Failure (Pass R D) (List Triple)).Preserves fun p => here p.engine :=
  matching.bind fun ms => fireAll_preserves kept (some t) ms

theorem settle_preserves (kept : KeptByPasses c here) (limit : Nat) :
    (settle c limit : Step Failure (Pass R D) (List Triple)).Preserves fun p => here p.engine := by
  induction limit with
  | zero => exact Step.preserves_pure _
  | succ limit ih =>
    apply next_preserves.bind
    intro first
    cases first with
    | none => exact Step.preserves_pure _
    | some t =>
      apply (modifyEngine_preserves fun e => kept.processing t).bind
      intro _
      apply (work_preserves kept.toKeptByFirings (kept.matching t)).discard.bind
      intro _
      exact ih.bind fun _ => Step.preserves_pure _

theorem settleAll_preserves (kept : KeptByPasses c here) :
    (settleAll c : Step Failure (Pass R D) (List Triple)).Preserves fun p => here p.engine :=
  Step.preserves_get.bind fun _ => settle_preserves kept _

end Pass

namespace Engine

section
variable {R D α : Type} {here : Engine R D → Prop}

theorem pass_preserves {m : Step Failure (Pass R D) α}
    (kept : m.Preserves fun p => here p.engine) : (pass m).Preserves here :=
  kept.within (fun _ start => start) fun _ _ _ reached => reached

variable [TripleSink D]

theorem delete_preserves (kept : KeptByNotes here) {t : Triple}
    (deleting : (onGraph (InferenceGraph.onDeductions (TripleSink.delete t)) :
      Step Failure (Engine R D) Bool).Preserves here) :
    (delete t : Step Failure (Engine R D) Unit).Preserves here :=
  deleting.bind fun _ => Step.preserves_modify fun _ => kept.report (by simp [LogRecord.level])

theorem assertHead_preserves (kept : KeptByDeductions here) (id : RuleId) (r : Rule)
    (t : Triple) :
    (assertHead id r t : Step Failure (Pass R D) Unit).Preserves fun p => here p.engine := by
  apply (Pass.onEngine_preserves (kept.deducing t)).bind
  intro added
  split
  · exact (Pass.modifyEngine_preserves fun _ => kept.derivation _).bind fun _ =>
      Pass.enqueue_preserves t
  · exact Pass.enqueue_preserves t

variable [TripleSource R] {c : CompiledRules}

theorem assertAxiom_preserves (kept : KeptByFirings here) (id : RuleId) (r : Rule) :
    (assertAxiom id r : Step Failure (Pass R D) Unit).Preserves fun p => here p.engine := by
  refine Step.Preserves.bind (Step.preserves_ofExcept _ _) fun heads => ?_
  refine (Pass.modifyEngine_preserves fun _ => kept.firing).bind fun _ => ?_
  exact Step.Preserves.forM (assertHead_preserves kept.toKeptByDeductions id r) heads

theorem forM_assertAxiom_preserves (kept : KeptByFirings here) (rules : List (RuleId × Rule)) :
    (rules.forM fun (id, r) => assertAxiom id r :
      Step Failure (Pass R D) Unit).Preserves fun p => here p.engine := by
  refine Step.Preserves.forM ?_ rules
  rintro ⟨id, r⟩
  exact assertAxiom_preserves kept id r

theorem assertAxioms_ends_processed {e : Engine R D}
    (kept : ∀ {c}, e.compiled = some c → KeptByPasses c here) (start : here e) :
    assertAxioms.Ends e
      (fun _ e' => ∃ e₁, here e₁ ∧ e' = { e₁ with axiomsDone := true, phase := .axiomsProcessed })
      (fun _ => here) := by
  rw [assertAxioms, Step.ends_bind]
  refine requireCompiled_ends_self.mono ?_ fun _ _ same => same ▸ start
  rintro c _ ⟨rfl, installed⟩
  rw [Step.ends_bind]
  refine Step.Ends.imp (Step.Preserves.ends (pass_preserves ?_) start) fun worked e₂ done => ?_
  · exact (forM_assertAxiom_preserves (kept installed).toKeptByFirings _).bind
      fun _ => Pass.settleAll_preserves (kept installed)
  · exact ⟨e₂, done, rfl⟩

theorem load_ends_ready {e : Engine R D}
    (kept : ∀ {c}, e.compiled = some c → KeptByPasses c here) (start : here e) :
    load.Ends e (fun _ e' => ∃ e₁, here e₁ ∧ e' = { e₁ with phase := .ready })
      (fun _ => here) := by
  rw [load, Step.ends_bind]
  refine requireCompiled_ends_self.mono ?_ fun _ _ same => same ▸ start
  rintro c _ ⟨rfl, installed⟩
  have kept := kept installed
  rw [Step.ends_bind]
  refine (kept.scanning.ends start).imp fun found e₂ start => ?_
  cases found with
  | none => exact ⟨e₂, start, rfl⟩
  | some facts =>
    have passed : (pass do
        modify fun p => { p with agenda := p.agenda.enqueueAll facts }
        Pass.settleAll c : Step Failure (Engine R D) (List Triple)).Preserves here := by
      refine pass_preserves (Step.Preserves.bind ?_ fun _ => Pass.settleAll_preserves kept)
      exact Step.preserves_modify fun _ start => start
    simp only []
    rw [Step.ends_bind, Step.ends_modify, Step.ends_bind]
    have reported := kept.report (r := .rawQueued facts.length c.openPredicate)
      (by simp [LogRecord.level]) start
    exact (passed.ends reported).imp fun worked e₃ done => ⟨e₃, done, rfl⟩

theorem assertAxioms_preserves (kept : KeptByCalls here) :
    (assertAxioms : Step Failure (Engine R D) (List Triple)).Preserves here := by
  intro e start
  refine Step.Ends.final ((assertAxioms_ends_processed (kept.passes start) start).imp ?_)
  rintro _ _ ⟨e₁, done, rfl⟩
  exact kept.proceed .axiomsProcessed true done

theorem load_preserves (kept : KeptByCalls here) :
    (load : Step Failure (Engine R D) (List Triple)).Preserves here := by
  intro e start
  refine Step.Ends.final ((load_ends_ready (kept.passes start) start).imp ?_)
  rintro _ _ ⟨e₁, done, rfl⟩
  exact kept.proceed .ready e₁.axiomsDone done

theorem applyOnce_preserves (kept : ∀ {e c}, here e → e.compiled = some c → KeptByPasses c here)
    (t : Triple) : (applyOnce t : Step Failure (Engine R D) (List Triple)).Preserves here := by
  intro e start
  apply Step.Ends.final
  rw [applyOnce, Step.ends_bind]
  refine requireCompiled_ends_self.mono ?_ fun _ _ same => same ▸ start
  rintro c _ ⟨rfl, installed⟩
  have kept := kept start installed
  exact (pass_preserves (Pass.work_preserves kept.toKeptByFirings (kept.matching t))).ends start

end

section
variable {R D : Type} [TripleSink R] [EmptyCollection R] [TripleSink D] {here : Engine R D → Prop}

theorem add_preserves (kept : ∀ {e c}, here e → e.compiled = some c → KeptByPasses c here)
    (t : Triple) (storing : (onGraph (InferenceGraph.assertRaw t) :
      Step Failure (Engine R D) Bool).Preserves here) :
    (add t : Step Failure (Engine R D) (List Triple)).Preserves here := by
  intro e start
  apply Step.Ends.final
  rw [add, Step.ends_bind]
  refine requireCompiled_ends_self.mono ?_ fun _ _ same => same ▸ start
  rintro c _ ⟨rfl, installed⟩
  have kept := kept start installed
  have rest : (pass (Pass.enqueue t >>= fun _ => Pass.settleAll c) :
      Step Failure (Engine R D) (List Triple)).Preserves here :=
    pass_preserves ((Pass.enqueue_preserves t).bind fun _ => Pass.settleAll_preserves kept)
  refine Step.Preserves.ends ((kept.knowing t).bind fun known => ?_) start
  split
  · exact rest
  · exact storing.discard.bind fun _ => rest

end

section
variable {R D : Type} [TripleSource R] [TripleSink D]

/-- Once rules are there, an initialisation is an axiom pass and a loading pass, with the number of
firings noted in between if none was noted before. -/
theorem init_ends_iff {ignoreBackward : Bool} {e : Engine R D} {good : Unit → Engine R D → Prop}
    {bad : Failure → Engine R D → Prop} :
    (init ignoreBackward).Ends e good bad ↔
      (ensureCompiled ignoreBackward).Ends e
        (fun _ e₁ => assertAxioms.Ends e₁
          (fun _ e₂ => load.Ends
            ({ e₂ with axiomFirings := some (e₂.axiomFirings.getD e₂.firings) }.report
              (.axiomsFired (e₂.axiomFirings.getD e₂.firings)))
            (fun _ => good ⟨⟩)
            (fun error e₃ => bad error { e₃ with phase := .uninitialized, axiomsDone := false }))
          (fun error e₂ => bad error { e₂ with phase := .uninitialized, axiomsDone := false }))
        (fun error e₁ => bad error { e₁ with phase := .uninitialized, axiomsDone := false }) := by
  rw [init, Step.ends_onFailure, bootstrap, Step.ends_bind]
  simp only [Step.ends_bind, Step.ends_discard, Step.ends_get, Step.ends_set]

theorem init_leaves {here : Engine R D → Prop} (kept : KeptByCalls here)
    (noting : ∀ {e} axiomFirings, here e → here { e with axiomFirings }) {ignoreBackward : Bool}
    {e : Engine R D}
    (begun : (ensureCompiled ignoreBackward).Ends e (fun _ => here) (fun _ => here)) :
    here ((init ignoreBackward).outcome e).2 := by
  have reset {e' : Engine R D} (before : here e') :
      here { e' with phase := .uninitialized, axiomsDone := false } :=
    kept.proceed .uninitialized false before
  apply Step.Ends.final
  rw [init_ends_iff]
  refine begun.mono (fun _ e₁ compiled => ?_) fun _ _ => reset
  refine ((assertAxioms_preserves kept).ends compiled).mono (fun _ e₂ asserted => ?_)
    fun _ _ => reset
  refine ((load_preserves kept).ends ?_).mono (fun _ _ loaded => loaded) fun _ _ => reset
  exact kept.report (by simp [LogRecord.level]) (noting _ asserted)

theorem init_setup (ignoreBackward : Bool) (e : Engine R D) :
    ((init ignoreBackward).outcome e).2.setup = e.setup ∨
      ∃ c, e.compiled = none ∧ CompiledRules.compile e.rules ignoreBackward = .ok c ∧
        ((init ignoreBackward).outcome e).2.setup = (e.setCompiled c).setup := by
  have later (e₁ : Engine R D) (begun : (ensureCompiled ignoreBackward).Ends e
      (fun _ e' => e'.setup = e₁.setup) (fun _ e' => e'.setup = e₁.setup)) :
      ((init ignoreBackward).outcome e).2.setup = e₁.setup :=
    init_leaves (keptByCalls_setup e₁) (fun _ same => same) begun
  unfold Step.Ends Step.outcome ensureCompiled at later
  cases installed : e.compiled with
  | some c =>
    rw [installed] at later
    exact Or.inl (later e rfl)
  | none =>
    rw [installed] at later
    cases compiles : CompiledRules.compile e.rules ignoreBackward with
    | ok c =>
      rw [compiles] at later
      exact Or.inr ⟨c, rfl, rfl, later (e.setCompiled c) rfl⟩
    | error failure =>
      rw [compiles] at later
      exact Or.inl (later e rfl)

end

end Engine
end TripleInference
