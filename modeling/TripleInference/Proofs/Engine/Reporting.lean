import TripleInference.Proofs.Engine.Operation
import TripleInference.Proofs.Network.Reporting

/-!
What engines report that are told not to trace. The switch silences the records of working and
firing, but not those of a descent, which does not see it: each triple that is worked on is reported
with every clause that it matches.
-/
namespace TripleInference

theorem CompiledRules.reports_eq_nil_iff {c : CompiledRules} (compiled : c.Compiled) {t : Triple} :
    c.reports t = [] ↔ ¬ c.Relevant t := by
  rw [List.eq_nil_iff_forall_not_mem]
  simp only [CompiledRules.mem_reports_iff compiled]
  constructor
  · rintro none ⟨rule, active, p, mem, fits⟩
    obtain ⟨k, here⟩ := List.mem_iff_getElem?.mp mem
    exact none _ ⟨rule, active, k, p, here, fits, rfl⟩
  · rintro irrelevant _ ⟨rule, active, k, p, here, fits, -⟩
    exact irrelevant ⟨rule, active, p, List.mem_of_getElem? here, fits⟩

namespace Engine

section
variable {R D : Type}

def traces (e : Engine R D) : List LogRecord := e.journal.toList.filter (·.level = .trace)

def reports (e : Engine R D) (t : Triple) : List LogRecord := (e.compiled.map (·.reports t)).getD []

def Appends (e : Engine R D) (records : List LogRecord) (e' : Engine R D) : Prop :=
  ∃ graph journal, e' = { e with graph, journal } ∧
    journal.toList = e.journal.toList ++ records

theorem appends_report (e : Engine R D) (r : LogRecord) : e.Appends [r] (e.report r) :=
  ⟨e.graph, _, rfl, Array.toList_push ..⟩

/-- The engine does not trace; these are its rules and its finest records. -/
structure Untraced (compiled : Option CompiledRules) (traces : List LogRecord) (e : Engine R D) :
    Prop where
  trace : e.settings.trace = false
  compiled : e.compiled = compiled
  traces : e.traces = traces

variable {compiled : Option CompiledRules} {traces : List LogRecord}

theorem traceRecord_of_not_tracing {e : Engine R D} (silent : e.tracing = false) (r : LogRecord) :
    e.traceRecord r = e := by
  unfold traceRecord
  simp [silent]

theorem Untraced.not_tracing {e : Engine R D} (untraced : Untraced compiled traces e) :
    e.tracing = false := by
  rw [tracing, untraced.trace, Bool.false_and]

theorem Untraced.append {e e' : Engine R D} {records : List LogRecord}
    (untraced : Untraced compiled traces e) (appends : e.Appends records e') :
    Untraced compiled (traces ++ records.filter (·.level = .trace)) e' := by
  obtain ⟨graph, journal, rfl, grown⟩ := appends
  refine ⟨untraced.trace, untraced.compiled, ?_⟩
  rw [← untraced.traces, Engine.traces, Engine.traces, grown, List.filter_append]

theorem Untraced.report {e : Engine R D} {r : LogRecord} (coarse : r.level ≠ .trace)
    (untraced : Untraced compiled traces e) : Untraced compiled traces (e.report r) := by
  simpa [coarse] using untraced.append (e.appends_report r)

theorem Untraced.traceRecord {e : Engine R D} (untraced : Untraced compiled traces e)
    (r : LogRecord) : Untraced compiled traces (e.traceRecord r) := by
  rwa [traceRecord_of_not_tracing untraced.not_tracing]

theorem Untraced.onGraph {e : Engine R D} (untraced : Untraced compiled traces e)
    (graph : InferenceGraph R D) : Untraced compiled traces { e with graph } :=
  { untraced with }

theorem keptByNotes_untraced :
    KeptByNotes (Untraced (R := R) (D := D) compiled traces) where
  report := Untraced.report
  fired _ _ start := start.traceRecord _
  deduced _ start := start.traceRecord _
  derivation := recordDerivation_keeps fun _ start => { start with }

/-- Besides the traces before, the engine has reported some triples, the last of them perhaps in
part. -/
def BreaksOff (c : CompiledRules) (traces : List LogRecord) (e : Engine R D) : Prop :=
  ∃ (triples : List Triple) (part : List LogRecord),
    part <+: triples.flatMap c.reports ∧ Untraced (some c) (traces ++ part) e

variable {c : CompiledRules} {e : Engine R D}

theorem Untraced.breaksOff_here (untraced : Untraced (some c) traces e) : e.BreaksOff c traces :=
  ⟨[], [], List.prefix_rfl, by rwa [List.append_nil]⟩

theorem BreaksOff.behind (triples : List Triple)
    (broken : e.BreaksOff c (traces ++ triples.flatMap c.reports)) : e.BreaksOff c traces := by
  obtain ⟨later, part, here, untraced⟩ := broken
  refine ⟨triples ++ later, triples.flatMap c.reports ++ part, ?_, ?_⟩
  · rw [List.flatMap_append]
    exact (List.prefix_append_right_inj _).mpr here
  · rwa [← List.append_assoc]

variable [TripleSource R] [TripleSink D]

theorem keptByFirings_untraced :
    KeptByFirings (Untraced (R := R) (D := D) compiled traces) where
  toKeptByNotes := keptByNotes_untraced
  deducing _ := onGraph_preserves (fun _ start => start.onGraph _) _
  knowing _ := onGraph_preserves (fun _ start => start.onGraph _) _
  firing start := { start with }

end

end Engine

namespace Pass

open Engine (Untraced BreaksOff keptByFirings_untraced)

variable {R D : Type} [TripleSource R] [TripleSink D] {c : CompiledRules}
  {traces : List LogRecord}

theorem matchTriple_appends (t : Triple) (p : Pass R D) :
    (matchTriple c t).Ends p (fun _ p' => p.engine.Appends (c.reports t) p'.engine)
      (fun _ p' => ∃ part, part <+: c.reports t ∧ p.engine.Appends part p'.engine) := by
  rw [matchTriple, Step.ends_within]
  refine (Descent.offerAll_reports t _).mono ?_ ?_
  · exact fun _ d grown => ⟨d.graph, d.journal, rfl, grown⟩
  · rintro _ d ⟨part, begins, grown⟩
    exact ⟨part, begins, d.graph, d.journal, rfl, grown⟩

theorem matchTriple_reports (t : Triple) {p : Pass R D}
    (untraced : Untraced (some c) traces p.engine) :
    (matchTriple c t).Ends p
      (fun _ p' => Untraced (some c) (traces ++ c.reports t) p'.engine)
      (fun _ p' => p'.engine.BreaksOff c traces) := by
  -- matches are of the finest level
  have finest {part : List LogRecord} (begins : part <+: c.reports t) :
      part.filter (·.level = .trace) = part := by
    refine List.filter_eq_self.mpr fun r mem => ?_
    obtain ⟨k, rule, rfl⟩ := CompiledRules.exists_of_mem_reports (begins.subset mem)
    rfl
  refine (matchTriple_appends t p).mono (fun _ p' appends => ?_) ?_
  · simpa only [finest List.prefix_rfl] using untraced.append appends
  · rintro _ p' ⟨part, begins, appends⟩
    refine ⟨[t], part, by simpa using begins, ?_⟩
    simpa only [finest begins] using untraced.append appends

theorem work_reports (t : Triple) {p : Pass R D}
    (untraced : Untraced (some c) traces p.engine) :
    (work c t).Ends p
      (fun _ p' => Untraced (some c) (traces ++ c.reports t) p'.engine)
      (fun _ p' => p'.engine.BreaksOff c traces) := by
  rw [work, Step.ends_bind]
  refine (matchTriple_reports t untraced).imp fun ms p₁ reported => ?_
  have fires : (fireAll c (some t) ms : Step Failure (Pass R D) (List Triple)).Preserves
      fun p => Untraced (some c) (traces ++ c.reports t) p.engine :=
    fireAll_preserves keptByFirings_untraced (some t) ms
  refine (fires.ends reported).mono (fun _ _ same => same) fun _ p₂ same => ?_
  exact ⟨[t], c.reports t, by simp, same⟩

theorem settle_reports (limit : Nat) {p : Pass R D}
    (untraced : Untraced (some c) traces p.engine) :
    (settle c limit).Ends p
      (fun worked p' => Untraced (some c) (traces ++ worked.flatMap c.reports) p'.engine)
      (fun _ p' => p'.engine.BreaksOff c traces) := by
  induction limit generalizing p traces with
  | zero => simpa [settle] using untraced
  | succ limit ih =>
    cases pending : p.agenda.pending with
    | nil =>
      rw [settle_ends_nil pending, List.flatMap_nil, List.append_nil]
      exact untraced
    | cons t rest =>
      rw [settle_ends_cons pending]
      refine (work_reports t (untraced.traceRecord (.processing t))).imp fun _ p₁ first => ?_
      refine (ih first).mono ?_ fun _ p₂ broken => ?_
      · intro worked p₂ later
        rwa [List.flatMap_cons, ← List.append_assoc]
      · exact BreaksOff.behind [t] (by simpa using broken)

theorem settleAll_reports {p : Pass R D} (untraced : Untraced (some c) traces p.engine) :
    (settleAll c).Ends p
      (fun worked p' => Untraced (some c) (traces ++ worked.flatMap c.reports) p'.engine)
      (fun _ p' => p'.engine.BreaksOff c traces) := by
  rw [settleAll, Step.ends_bind, Step.ends_get]
  exact settle_reports _ untraced

end Pass

namespace Engine

variable {compiled : Option CompiledRules} {traces : List LogRecord}

section
variable {R D : Type} [TripleSource R] [TripleSink D] {c : CompiledRules} {e : Engine R D}

theorem assertAxioms_reports (untraced : Untraced (some c) traces e) :
    assertAxioms.Ends e
      (fun worked => Untraced (some c) (traces ++ worked.flatMap c.reports))
      (fun _ => BreaksOff c traces) := by
  rw [assertAxioms_ends_iff untraced.compiled]
  refine ((forM_assertAxiom_preserves keptByFirings_untraced _).ends untraced).mono
    (fun _ p asserted => ?_) fun _ p => Untraced.breaksOff_here
  refine (Pass.settleAll_reports asserted).imp fun worked p' reported => ?_
  exact { reported with }

theorem load_reports (untraced : Untraced (some c) traces e) :
    load.Ends e
      (fun worked => Untraced (some c) (traces ++ worked.flatMap c.reports))
      (fun _ => BreaksOff c traces) := by
  have scans : (onGraph (InferenceGraph.onRaw (scan c)) :
      Step Failure (Engine R D) (Option (List Triple))).Preserves (Untraced (some c) traces) :=
    onGraph_preserves (fun _ start => start.onGraph _) _
  rw [load, Step.ends_bind, requireCompiled_ends untraced.compiled, Step.ends_bind]
  refine (scans.ends untraced).mono (fun found e₁ scanned => ?_) fun _ _ => Untraced.breaksOff_here
  cases found with
  | none =>
    change Untraced (some c) (traces ++ []) _
    rw [List.append_nil]
    exact { scanned with }
  | some facts =>
    have queued := scanned.report (r := .rawQueued facts.length c.openPredicate)
      (by simp [LogRecord.level])
    simp only []
    rw [Step.ends_bind, Step.ends_modify, Step.ends_bind, pass_ends, Step.ends_bind,
      Step.ends_modify]
    refine (Pass.settleAll_reports queued).imp fun worked p reported => ?_
    exact { reported with }

theorem applyOnce_reports (t : Triple) (untraced : Untraced (some c) traces e) :
    (applyOnce t).Ends e (fun _ => Untraced (some c) (traces ++ c.reports t))
      (fun _ => BreaksOff c traces) := by
  rw [applyOnce, Step.ends_bind, requireCompiled_ends untraced.compiled, pass_ends]
  exact Pass.work_reports t untraced

omit [TripleSource R] in
theorem delete_untraced (t : Triple) :
    (delete t : Step Failure (Engine R D) Unit).Preserves (Untraced compiled traces) :=
  delete_preserves keptByNotes_untraced (onGraph_preserves (fun _ start => start.onGraph _) _)

def bootstrapNoting (ignoreBackward : Bool) : Step Failure (Engine R D) (List Triple) := do
  ensureCompiled ignoreBackward
  let asserted ← assertAxioms
  let e ← get
  let axiomFirings := e.axiomFirings.getD e.firings
  set ({ e with axiomFirings := some axiomFirings }.report (.axiomsFired axiomFirings))
  return asserted ++ (← load)

def initNoting (ignoreBackward : Bool) : Step Failure (Engine R D) (List Triple) :=
  (bootstrapNoting ignoreBackward).onFailure fun e =>
    { e with phase := .uninitialized, axiomsDone := false }

theorem discard_bootstrapNoting (ignoreBackward : Bool) :
    discard (bootstrapNoting ignoreBackward) =
      (bootstrap ignoreBackward : Step Failure (Engine R D) Unit) := by
  have discards {α : Type} (m : Step Failure (Engine R D) α) :
      discard m = m >>= fun _ => pure PUnit.unit := map_eq_pure_bind _ m
  simp only [discards, bootstrapNoting, bootstrap, bind_assoc, pure_bind]

theorem init_ends_noting {ignoreBackward : Bool} {e : Engine R D} {good : Engine R D → Prop}
    {bad : Failure → Engine R D → Prop} :
    (init ignoreBackward).Ends e (fun _ => good) bad ↔
      (initNoting ignoreBackward).Ends e (fun _ => good) bad := by
  rw [init, initNoting, Step.ends_onFailure, Step.ends_onFailure, ← discard_bootstrapNoting,
    Step.ends_discard]

end

section
variable {R D : Type} {e : Engine R D}

theorem ensureCompiled_reports (ignoreBackward : Bool)
    (untraced : e.settings.trace = false) :
    (ensureCompiled ignoreBackward).Ends e
      (fun _ e' => ∃ c, Untraced (some c) e.traces e') (fun _ => Untraced none e.traces) := by
  unfold Step.Ends Step.outcome ensureCompiled
  cases installed : e.compiled with
  | some c => exact ⟨c, untraced, installed, rfl⟩
  | none =>
    cases CompiledRules.compile e.rules ignoreBackward with
    | ok c =>
      have kept : Untraced none e.traces e := ⟨untraced, installed, rfl⟩
      have reported := kept.report (r := c.summary)
        (by simp [CompiledRules.summary, LogRecord.level])
      exact ⟨c, reported.trace, rfl, reported.traces⟩
    | error failure => exact ⟨untraced, installed, rfl⟩

def Reported (traces : List LogRecord) (triples : List Triple) (e : Engine R D) : Prop :=
  Untraced e.compiled (traces ++ triples.flatMap e.reports) e

def ReportedInPart (traces : List LogRecord) (e : Engine R D) : Prop :=
  ∃ (triples : List Triple) (part : List LogRecord),
    part <+: triples.flatMap e.reports ∧ Untraced e.compiled (traces ++ part) e

theorem reports_of_compiled {c : CompiledRules} (installed : e.compiled = some c) :
    e.reports = c.reports := by
  unfold reports
  rw [installed]
  rfl

theorem exists_of_mem_reports {t : Triple} {r : LogRecord} (mem : r ∈ e.reports t) :
    ∃ k rule, r = .matched t k rule := by
  cases installed : e.compiled with
  | none => simp [reports, installed] at mem
  | some c =>
    rw [reports_of_compiled installed] at mem
    exact CompiledRules.exists_of_mem_reports mem

theorem Untraced.reported {c : CompiledRules} {triples : List Triple}
    (untraced : Untraced (some c) (traces ++ triples.flatMap c.reports) e) :
    e.Reported traces triples := by
  rw [Reported, reports_of_compiled untraced.compiled, untraced.compiled]
  exact untraced

theorem Untraced.reported_nil (untraced : Untraced compiled traces e) : e.Reported traces [] := by
  rw [Reported, List.flatMap_nil, List.append_nil, untraced.compiled]
  exact untraced

theorem Untraced.reportedInPart (untraced : Untraced compiled traces e) :
    e.ReportedInPart traces :=
  ⟨[], [], List.prefix_rfl, untraced.reported_nil⟩

theorem BreaksOff.reportedInPart {c : CompiledRules} (broken : e.BreaksOff c traces) :
    e.ReportedInPart traces := by
  obtain ⟨triples, part, here, untraced⟩ := broken
  refine ⟨triples, part, ?_, ?_⟩
  · rwa [reports_of_compiled untraced.compiled]
  · rwa [untraced.compiled]

end

section
variable {R D : Type} [TripleSource R] [TripleSink D]

theorem initNoting_reports (ignoreBackward : Bool) {e : Engine R D}
    (untraced : e.settings.trace = false) :
    (initNoting ignoreBackward).Ends e (Reported e.traces)
      (fun _ => ReportedInPart e.traces) := by
  -- putting the engine back to its first phase reports nothing
  have reset {e' : Engine R D} (broken : e'.ReportedInPart e.traces) :
      ReportedInPart e.traces { e' with phase := .uninitialized, axiomsDone := false } := by
    obtain ⟨triples, part, here, kept⟩ := broken
    exact ⟨triples, part, here, { kept with }⟩
  rw [initNoting, Step.ends_onFailure, bootstrapNoting, Step.ends_bind]
  refine (ensureCompiled_reports ignoreBackward untraced).mono ?_
    fun _ _ kept => reset kept.reportedInPart
  rintro _ e₁ ⟨c, start⟩
  rw [Step.ends_bind]
  refine (assertAxioms_reports start).mono (fun asserted e₂ done => ?_)
    fun _ _ broken => reset broken.reportedInPart
  rw [Step.ends_bind, Step.ends_get, Step.ends_bind, Step.ends_set, Step.ends_bind]
  have noted : Untraced (some c) (e.traces ++ asserted.flatMap c.reports)
      { e₂ with axiomFirings := some (e₂.axiomFirings.getD e₂.firings) } :=
    { done with }
  refine (load_reports (noted.report (by simp [LogRecord.level]))).mono (fun worked e₃ loaded => ?_)
    fun _ _ broken => reset (broken.behind asserted).reportedInPart
  rw [List.append_assoc, ← List.flatMap_append] at loaded
  exact loaded.reported

end

section
variable {R D : Type} [TripleSink R] [EmptyCollection R] [TripleSink D] {c : CompiledRules}
  {e : Engine R D}

theorem add_reports (t : Triple) (untraced : Untraced (some c) traces e) :
    (add t).Ends e
      (fun worked => Untraced (some c) (traces ++ worked.flatMap c.reports))
      (fun _ => BreaksOff c traces) := by
  have goesOn {e₁ : Engine R D} (untraced : Untraced (some c) traces e₁) :
      (pass do Pass.enqueue t; Pass.settleAll c).Ends e₁
        (fun worked => Untraced (some c) (traces ++ worked.flatMap c.reports))
        (fun _ => BreaksOff c traces) := by
    rw [pass_ends, Pass.enqueue, Step.ends_bind, Step.ends_modify]
    exact Pass.settleAll_reports untraced
  have onGraph_untraced {α : Type} (m : Step StoreError (InferenceGraph R D) α) :
      (onGraph m).Preserves (Untraced (some c) traces) :=
    onGraph_preserves (fun _ start => start.onGraph _) m
  rw [add, Step.ends_bind, requireCompiled_ends untraced.compiled, Step.ends_bind]
  refine ((onGraph_untraced _).ends untraced).mono (fun known e₁ looked => ?_)
    fun _ _ => Untraced.breaksOff_here
  cases known with
  | true => exact goesOn looked
  | false =>
    simp only [Bool.false_eq_true, if_false]
    rw [Step.ends_bind, Step.ends_discard]
    exact ((onGraph_untraced _).ends looked).mono (fun _ _ => goesOn)
      fun _ _ => Untraced.breaksOff_here

def Operation.performNoting : Operation R D → Step Failure (Engine R D) (List Triple)
  | .request (.call (.init ignoreBackward)) => initNoting ignoreBackward
  | .initAsConfigured => do initNoting (← get).settings.ignoreBackward
  | .request (.applyOnce t) => do discard (applyOnce t); return [t]
  | operation => operation.perform

theorem Operation.perform_ends_noting (operation : Operation R D) {good : Engine R D → Prop}
    {bad : Failure → Engine R D → Prop} :
    operation.perform.Ends e (fun _ => good) bad ↔
      operation.performNoting.Ends e (fun _ => good) bad := by
  cases operation with
  | request asked =>
    cases asked with
    | call call =>
      cases call with
      | init ignoreBackward =>
        change (init ignoreBackward >>= fun _ => pure []).Ends e _ _ ↔ _
        rw [Step.ends_bind]
        exact init_ends_noting
      | _ => rfl
    | applyOnce t =>
      change (applyOnce t).Ends e _ _ ↔ (discard (applyOnce t) >>= fun _ => pure [t]).Ends e _ _
      rw [Step.ends_bind, Step.ends_discard]
      rfl
    | delete t => rfl
  | initAsConfigured =>
    change (Engine.initAsConfigured >>= fun _ => pure []).Ends e _ _ ↔ _
    rw [Step.ends_bind]
    exact init_ends_noting
  | _ => rfl

theorem Operation.performNoting_reports (operation : Operation R D)
    (untraced : e.settings.trace = false) :
    operation.performNoting.Ends e (Reported e.traces) fun _ => ReportedInPart e.traces := by
  have start : Untraced e.compiled e.traces e := ⟨untraced, rfl, rfl⟩
  have ended {c : CompiledRules} {m : Step Failure (Engine R D) (List Triple)}
      (ends : m.Ends e (fun worked => Untraced (some c) (e.traces ++ worked.flatMap c.reports))
        fun _ => BreaksOff c e.traces) :
      m.Ends e (Reported e.traces) fun _ => ReportedInPart e.traces :=
    ends.mono (fun _ _ => Untraced.reported) fun _ _ => BreaksOff.reportedInPart
  cases operation with
  | request asked =>
    cases asked with
    | call call =>
      cases call with
      | init ignoreBackward => exact initNoting_reports ignoreBackward untraced
      | load =>
        cases installed : e.compiled with
        | none => exact (requireCompiled_fails installed).mpr start.reportedInPart
        | some c => exact ended (load_reports ⟨untraced, installed, rfl⟩)
      | add t =>
        cases installed : e.compiled with
        | none => exact (requireCompiled_fails installed).mpr start.reportedInPart
        | some c => exact ended (add_reports t ⟨untraced, installed, rfl⟩)
    | applyOnce t =>
      change (discard (Engine.applyOnce t) >>= fun _ => pure [t]).Ends e _ _
      rw [Step.ends_bind, Step.ends_discard]
      cases installed : e.compiled with
      | none => exact (requireCompiled_fails installed).mpr start.reportedInPart
      | some c =>
        refine (applyOnce_reports t ⟨untraced, installed, rfl⟩).mono (fun _ e' reported => ?_)
          fun _ _ => BreaksOff.reportedInPart
        rw [← List.flatMap_singleton c.reports t] at reported
        exact reported.reported
    | delete t =>
      change (Engine.delete t >>= fun _ => pure []).Ends e _ _
      rw [Step.ends_bind]
      exact ((delete_untraced t).ends start).mono (fun _ _ => Untraced.reported_nil)
        fun _ _ => Untraced.reportedInPart
  | initAsConfigured => exact initNoting_reports _ untraced
  | install c =>
    have kept : Untraced (some c) e.traces (e.setCompiled c) := ⟨untraced, rfl, rfl⟩
    exact kept.reported_nil
  | record recording =>
    have kept : Untraced e.compiled e.traces (e.setRecording recording) := ⟨untraced, rfl, rfl⟩
    exact kept.reported_nil
  | edit change => exact (start.onGraph (change e.graph)).reported_nil

def Event.worked (x : Event R D) : Except Failure (List Triple) :=
  (x.operation.performNoting.outcome x.before).1

structure Event.ReportsMatches (x : Event R D) (records : List LogRecord) : Prop where
  appended : x.after.traces = x.before.traces ++ records
  matched : ∀ r ∈ records, ∃ t k rule, r = .matched t k rule
  whole : ∀ triples, x.worked = .ok triples → records = triples.flatMap x.after.reports
  begun : x.Fails → ∃ triples : List Triple, records <+: triples.flatMap x.after.reports
  /-- No record is made exactly if no clause of the rules can match any of the triples. -/
  silent_iff : ∀ c triples, x.after.compiled = some c → c.Compiled → x.worked = .ok triples →
    (records = [] ↔ ∀ t ∈ triples, ¬ c.Relevant t)

namespace Event

variable {x : Event R D}

theorem reports_of_untraced (untraced : x.before.settings.trace = false) :
    (x.Succeeds ∧ ∃ triples, x.worked = .ok triples ∧
        x.after.Reported x.before.traces triples) ∨
      (x.Fails ∧ (∃ failure, x.worked = .error failure) ∧
        x.after.ReportedInPart x.before.traces) := by
  have noted : x.operation.perform.Ends x.before
      (fun _ e' => ∃ triples, x.worked = .ok triples ∧ e'.Reported x.before.traces triples)
      (fun _ e' => (∃ failure, x.worked = .error failure) ∧
        e'.ReportedInPart x.before.traces) := by
    rw [x.operation.perform_ends_noting]
    refine (Step.ends_self.and (x.operation.performNoting_reports untraced)).mono ?_ ?_
    · rintro triples _ ⟨run, reported⟩
      exact ⟨triples, congrArg Prod.fst run, reported⟩
    · rintro failure _ ⟨run, reported⟩
      exact ⟨⟨failure, congrArg Prod.fst run⟩, reported⟩
  rcases cases_of_ends noted with ⟨answer, ok, ended⟩ | ⟨failure, failed, broken⟩
  · exact Or.inl ⟨⟨answer, ok⟩, ended⟩
  · exact Or.inr ⟨⟨failure, failed⟩, broken⟩

theorem reportsMatches (untraced : x.before.settings.trace = false) :
    ∃ records, x.ReportsMatches records := by
  have matches_only {triples : List Triple} :
      ∀ r ∈ triples.flatMap x.after.reports, ∃ t k rule, r = .matched t k rule := by
    intro r mem
    obtain ⟨t, -, here⟩ := List.mem_flatMap.mp mem
    exact ⟨t, exists_of_mem_reports here⟩
  rcases reports_of_untraced untraced with
    ⟨succeeds, triples, worked, reported⟩ |
    ⟨fails, ⟨failure, worked⟩, triples, part, here, reported⟩
  · have same (triples') (worked' : x.worked = .ok triples') : triples' = triples :=
      Except.ok.inj (worked'.symm.trans worked)
    exact ⟨triples.flatMap x.after.reports, {
      appended := reported.traces
      matched := matches_only
      whole := fun triples' worked' => by rw [same triples' worked']
      begun := fun fails => absurd fails succeeds.not_fails
      silent_iff := fun c triples' installed compiled worked' => by
        rw [same triples' worked', List.flatMap_eq_nil_iff, reports_of_compiled installed]
        exact forall₂_congr fun t _ => CompiledRules.reports_eq_nil_iff compiled }⟩
  · have noResult (triples') (worked' : x.worked = .ok triples') : False := by
      rw [worked'] at worked
      cases worked
    exact ⟨part, {
      appended := reported.traces
      matched := fun r mem => matches_only r (here.subset mem)
      whole := fun triples' worked' => (noResult triples' worked').elim
      begun := fun _ => ⟨triples, here⟩
      silent_iff := fun c triples' _ _ worked' => (noResult triples' worked').elim }⟩

end Event

/-- Over every run of an engine that is not to trace, failed operations included, each operation
adds nothing at the finest level but records of matches. They are those of the triples that it works
on, one for each clause that the triple matches; where it fails, they begin as those of some
triples. -/
theorem untraced_engines_report_matches_and_nothing_else {e : Engine R D}
    (untraced : e.settings.trace = false) (operations : List (Operation R D)) :
    ∀ x ∈ e.history operations, ∃ records, x.ReportsMatches records := by
  induction operations generalizing e with
  | nil => exact fun x mem => absurd mem List.not_mem_nil
  | cons operation rest ih =>
    rw [history, List.forall_mem_cons]
    refine ⟨Event.reportsMatches untraced, ih ?_⟩
    rw [Event.settings_after]
    exact untraced

end

def silenced : Engine FactIndex FactIndex :=
  ofRules MemoryGraph.withoutRaw [.inclusion 1 2] .standard

theorem silenced_addition_reports_one_match :
    silenced.settings.trace = false ∧
      ∃ x ∈ silenced.history [.request (.call (.init true)), .request (.call (.add ⟨5, 1, 6⟩))],
        x.worked = .ok [⟨5, 1, 6⟩, ⟨5, 2, 6⟩] ∧ x.ReportsMatches [.matched ⟨5, 1, 6⟩ 0 0] := by
  let x : Event FactIndex FactIndex :=
    ⟨.request (.call (.add ⟨5, 1, 6⟩)), silenced.performed [.request (.call (.init true))]⟩
  have mem : x ∈ silenced.history
      [.request (.call (.init true)), .request (.call (.add ⟨5, 1, 6⟩))] :=
    List.mem_cons_of_mem _ List.mem_cons_self
  have ran : x.worked.toOption = some [⟨5, 1, 6⟩, ⟨5, 2, 6⟩] ∧
      [⟨5, 1, 6⟩, ⟨5, 2, 6⟩].flatMap x.after.reports = [.matched ⟨5, 1, 6⟩ 0 0] := by
    decide +kernel
  have worked : x.worked = .ok [⟨5, 1, 6⟩, ⟨5, 2, 6⟩] := by
    obtain ⟨ran, -⟩ := ran
    cases here : x.worked with
    | ok triples =>
      rw [here] at ran
      exact congrArg _ (Option.some.inj ran)
    | error failure =>
      rw [here] at ran
      cases ran
  obtain ⟨records, reports⟩ := untraced_engines_report_matches_and_nothing_else rfl _ x mem
  refine ⟨rfl, x, mem, worked, ?_⟩
  rw [← ran.2, ← reports.whole _ worked]
  exact reports

theorem silenced_engine_reports_at_the_finest_level :
    silenced.settings.trace = false ∧ silenced.traces = [] ∧
      (silenced.performed [.request (.call (.init true)),
        .request (.call (.add ⟨5, 1, 6⟩))]).traces = [.matched ⟨5, 1, 6⟩ 0 0] := by
  decide +kernel

end Engine
end TripleInference
