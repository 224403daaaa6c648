import TripleInference.Proofs.Engine.Lifecycle
import TripleInference.Proofs.Engine.Reporting

/-!
Tracing while axioms are asserted. An axiom pass leaves it alone whether the axioms have been
asserted before; only its end says so. So the pass traces exactly if the engine traced when the
initialisation was called, that is, if the one before it has succeeded.
-/
namespace TripleInference

namespace LogRecord

/-- The record is made only while an engine traces. -/
def isGated : LogRecord → Bool
  | .processing _ | .fired .. | .deduced _ => true
  | _ => false

def processed? : LogRecord → Option Triple
  | .processing t => some t
  | _ => none

theorem isGated_of_level {r : LogRecord} (coarse : r.level ≠ .trace) : r.isGated = false := by
  cases r <;> simp_all [level, isGated]

theorem processed?_of_not_gated {r : LogRecord} (notGated : r.isGated = false) :
    r.processed? = none := by
  cases r <;> simp_all [isGated, processed?]

end LogRecord

namespace Engine

section
variable {R D : Type}

def gated (e : Engine R D) : List LogRecord := e.journal.toList.filter (·.isGated)

def processed (e : Engine R D) : List Triple := e.journal.toList.filterMap (·.processed?)

/-- What tracing has come to since `begun`, after work on some triples. An engine that did not
trace then has made no record that waits for tracing; one that did has reported these triples. -/
structure TracesAs (begun : Engine R D) (worked : List Triple) (e : Engine R D) : Prop where
  axiomsDone : e.axiomsDone = begun.axiomsDone
  tracing : e.tracing = begun.tracing
  silent : begun.tracing = false → e.gated = begun.gated
  loud : begun.tracing = true → e.processed = begun.processed ++ worked

theorem TracesAs.refl (e : Engine R D) : TracesAs e [] e :=
  ⟨rfl, rfl, fun _ => rfl, fun _ => (List.append_nil _).symm⟩

variable {begun e : Engine R D} {worked : List Triple}

theorem TracesAs.append {e' : Engine R D} {records : List LogRecord}
    (traces : TracesAs begun worked e) (appends : e.Appends records e')
    (notGated : ∀ r ∈ records, r.isGated = false) : TracesAs begun worked e' := by
  obtain ⟨graph, journal, rfl, grown⟩ := appends
  constructor
  case axiomsDone => exact traces.axiomsDone
  case tracing => exact traces.tracing
  case silent =>
    intro off
    have none : records.filter (·.isGated) = [] :=
      List.filter_eq_nil_iff.mpr fun r mem => by simp [notGated r mem]
    rw [← traces.silent off, gated, gated, grown, List.filter_append, none, List.append_nil]
  case loud =>
    intro on
    have none : records.filterMap (·.processed?) = [] := List.filterMap_eq_nil_iff.mpr
      fun r mem => LogRecord.processed?_of_not_gated (notGated r mem)
    rw [← traces.loud on, processed, processed, grown, List.filterMap_append, none,
      List.append_nil]

theorem TracesAs.traceRecord (traces : TracesAs begun worked e) (r : LogRecord) :
    TracesAs begun (worked ++ r.processed?.toList) (e.traceRecord r) := by
  have same := traces.tracing
  cases on : e.tracing with
  | false =>
    rw [traceRecord_of_not_tracing on]
    exact ⟨traces.axiomsDone, same, traces.silent, fun tracing => by simp [← same, on] at tracing⟩
  | true =>
    have pushed : e.traceRecord r = e.report r := if_pos on
    rw [pushed]
    refine ⟨traces.axiomsDone, same, fun off => by simp [← same, on] at off, fun tracing => ?_⟩
    rw [← List.append_assoc, ← traces.loud tracing, processed, processed, Engine.report,
      Array.toList_push, List.filterMap_append]
    cases here : r.processed? <;> simp [here]

theorem keptByNotes_tracesAs : KeptByNotes (TracesAs begun worked) where
  report coarse traces := traces.append (appends_report _ _)
    (List.forall_mem_singleton.mpr (LogRecord.isGated_of_level coarse))
  fired rule trigger traces := by
    simpa [LogRecord.processed?] using traces.traceRecord (.fired rule trigger)
  deduced t traces := by simpa [LogRecord.processed?] using traces.traceRecord (.deduced t)
  derivation := recordDerivation_keeps fun _ traces => { traces with }

variable [TripleSource R] [TripleSink D]

theorem keptByFirings_tracesAs : KeptByFirings (TracesAs begun worked) where
  toKeptByNotes := keptByNotes_tracesAs
  deducing _ := onGraph_preserves (fun _ traces => { traces with }) _
  knowing _ := onGraph_preserves (fun _ traces => { traces with }) _
  firing traces := { traces with }

end

end Engine

namespace Pass

open Engine (TracesAs keptByFirings_tracesAs)

variable {R D : Type} [TripleSource R] [TripleSink D] {begun : Engine R D} {c : CompiledRules}
  {worked : List Triple}

theorem matchTriple_tracesAs (t : Triple) :
    (matchTriple c t : Step Failure (Pass R D) (List BodyMatch)).Preserves
      fun p => TracesAs begun worked p.engine := by
  intro p traces
  have notGated {part : List LogRecord} (begins : part <+: c.reports t) :
      ∀ r ∈ part, r.isGated = false := by
    intro r mem
    obtain ⟨k, rule, rfl⟩ := CompiledRules.exists_of_mem_reports (begins.subset mem)
    rfl
  have ends : (matchTriple c t).Ends p (fun _ p' => TracesAs begun worked p'.engine)
      (fun _ p' => TracesAs begun worked p'.engine) := by
    refine (matchTriple_appends t p).mono ?_ ?_
    · exact fun _ p' appends => traces.append appends (notGated List.prefix_rfl)
    · rintro _ p' ⟨part, begins, appends⟩
      exact traces.append appends (notGated begins)
  exact ends.final

theorem settle_tracesAs (limit : Nat) {p : Pass R D} (traces : TracesAs begun worked p.engine) :
    (settle c limit).Ends p (fun more p' => TracesAs begun (worked ++ more) p'.engine)
      (fun _ p' => ∃ more, TracesAs begun (worked ++ more) p'.engine) := by
  induction limit generalizing p worked with
  | zero => simpa [settle] using traces
  | succ limit ih =>
    cases pending : p.agenda.pending with
    | nil =>
      rw [settle_ends_nil pending, List.append_nil]
      exact traces
    | cons t rest =>
      have works : (work c t : Step Failure (Pass R D) (List Triple)).Preserves
          fun p => TracesAs begun (worked ++ [t]) p.engine :=
        work_preserves keptByFirings_tracesAs (matchTriple_tracesAs t)
      have reported : TracesAs begun (worked ++ [t]) (p.engine.traceRecord (.processing t)) :=
        traces.traceRecord (.processing t)
      rw [settle_ends_cons pending]
      refine (works.ends reported).mono (fun _ p₁ first => ?_)
        fun _ p₁ first => ⟨[t], first⟩
      refine (ih first).mono ?_ ?_
      · intro more p₂ later
        rwa [List.append_cons]
      · rintro _ p₂ ⟨more, later⟩
        refine ⟨t :: more, ?_⟩
        rwa [List.append_cons]

end Pass

namespace Engine

section
variable {R D : Type}

theorem ensureCompiled_tracesAs (ignoreBackward : Bool) {begun : Engine R D}
    {worked : List Triple} :
    (ensureCompiled ignoreBackward : Step Failure (Engine R D) Unit).Preserves
      (TracesAs begun worked) := by
  intro e traces
  unfold Step.outcome ensureCompiled
  split
  · exact traces
  · split
    · rename_i c _
      have reported := keptByNotes_tracesAs.report (r := c.summary)
        (by simp [CompiledRules.summary, LogRecord.level]) traces
      exact { reported with }
    · exact traces

variable [TripleSource R] [TripleSink D]

/-- An initialisation that is cut short in its axiom pass, when so many axioms have been asserted
and so many triples worked on. -/
def initUpTo (ignoreBackward : Bool) (axioms limit : Nat) :
    Step Failure (Engine R D) (List Triple) := do
  ensureCompiled ignoreBackward
  let rules ← requireCompiled
  pass do
    (rules.activeAxioms.take axioms).forM fun (id, r) => assertAxiom id r
    Pass.settle rules limit

theorem initUpTo_tracesAs (ignoreBackward : Bool) (axioms limit : Nat) (e : Engine R D) :
    (initUpTo ignoreBackward axioms limit).Ends e (TracesAs e)
      (fun _ e' => ∃ worked, TracesAs e worked e') := by
  rw [initUpTo, Step.ends_bind]
  refine ((ensureCompiled_tracesAs ignoreBackward).ends (.refl e)).mono (fun _ e₁ start => ?_)
    fun _ _ traces => ⟨[], traces⟩
  rw [Step.ends_bind]
  refine requireCompiled_ends_self.mono ?_ fun _ _ same => ⟨[], same ▸ start⟩
  rintro c _ ⟨rfl, -⟩
  rw [pass_ends, Step.ends_bind]
  refine ((forM_assertAxiom_preserves keptByFirings_tracesAs _).ends start).mono
    (fun _ p asserted => ?_) fun _ _ traces => ⟨[], traces⟩
  exact Pass.settle_tracesAs limit asserted

theorem exists_initUpTo_eq (ignoreBackward : Bool) (e : Engine R D) :
    ∃ axioms limit, (ensureCompiled ignoreBackward >>= fun _ => assertAxioms).outcome e =
      (do
        let worked ← initUpTo ignoreBackward axioms limit
        modify fun e => { e with axiomsDone := true, phase := .axiomsProcessed }
        return worked : Step Failure (Engine R D) (List Triple)).outcome e := by
  rcases begins : (ensureCompiled ignoreBackward).outcome e with ⟨failure | _, e₁⟩
  · exact ⟨0, 0, by simp only [initUpTo, Step.outcome_bind, begins]⟩
  · cases installed : e₁.compiled with
    | none =>
      have missing := requireCompiled_outcome_none installed
      exact ⟨0, 0, by simp only [initUpTo, assertAxioms, Step.outcome_bind, begins, missing]⟩
    | some c =>
      have required := requireCompiled_outcome installed
      -- how much work there is shows once the axioms are asserted
      rcases asserts : (c.activeAxioms.forM fun (id, r) => assertAxiom id r).outcome
        (⟨e₁, ∅⟩ : Pass R D) with ⟨failure | _, p⟩
      · refine ⟨c.activeAxioms.length, 0, ?_⟩
        rw [CompiledRules.activeAxioms] at asserts
        simp only [initUpTo, assertAxioms, Step.outcome_bind, begins, required, pass,
          Step.outcome_within, CompiledRules.activeAxioms, List.take_length, asserts]
      · obtain ⟨limit, all⟩ : ∃ limit, (Pass.settleAll c).outcome p =
            (Pass.settle c limit).outcome p :=
          ⟨_, by rw [Pass.settleAll, Step.outcome_bind, Step.outcome_get]⟩
        refine ⟨c.activeAxioms.length, limit, ?_⟩
        rw [CompiledRules.activeAxioms] at asserts
        simp only [initUpTo, assertAxioms, Step.outcome_bind, begins, required, pass,
          Step.outcome_within, CompiledRules.activeAxioms, List.take_length, asserts, all]

theorem assertAxioms_tracesAs (ignoreBackward : Bool) (e : Engine R D) :
    (ensureCompiled ignoreBackward >>= fun _ => assertAxioms).Ends e
      (fun worked done => ∃ settled, TracesAs e worked settled ∧
        done = { settled with axiomsDone := true, phase := .axiomsProcessed })
      (fun _ e' => ∃ worked, TracesAs e worked e') := by
  obtain ⟨axioms, limit, same⟩ := exists_initUpTo_eq ignoreBackward e
  unfold Step.Ends
  rw [same]
  change Step.Ends _ _ _ _
  rw [Step.ends_bind]
  exact (initUpTo_tracesAs ignoreBackward axioms limit e).imp fun _ e₁ traces => ⟨e₁, traces, rfl⟩

end

section
variable {R D : Type} [TripleSink R] [EmptyCollection R] [TripleSink D]

/-- After any run of an engine from when it was made, failed operations included, the axioms are
taken for asserted exactly if the last initialisation succeeded. The axiom pass of the next one
leaves that as it is at every moment up to its end, and wherever it fails. If the engine is to trace
and the axioms are taken for asserted, the pass reports the triples it works on; otherwise it makes
no record that waits for tracing. -/
theorem axiom_passes_trace_only_after_a_success {e : Engine R D} (made : e.Made)
    (operations : List (Operation R D)) (ignoreBackward : Bool) :
    let reached := e.performed operations
    (reached.axiomsDone = true ↔ Since (fun x => x.Initialises ∧ x.Succeeds)
      (fun x => x.Initialises) (e.history operations)) ∧
    reached.tracing = (e.settings.trace && reached.axiomsDone) ∧
    (∀ axioms limit, (initUpTo ignoreBackward axioms limit).Ends reached (TracesAs reached)
      (fun _ e' => ∃ worked, TracesAs reached worked e')) ∧
    (ensureCompiled ignoreBackward >>= fun _ => assertAxioms).Ends reached
      (fun worked done => ∃ settled, TracesAs reached worked settled ∧
        done = { settled with axiomsDone := true, phase := .axiomsProcessed })
      (fun _ e' => ∃ worked, TracesAs reached worked e') := by
  intro reached
  refine ⟨(made.lifecycle operations).axiomsDone_iff, ?_,
    fun axioms limit => initUpTo_tracesAs ignoreBackward axioms limit reached,
    assertAxioms_tracesAs ignoreBackward reached⟩
  rw [tracing, settings_performed]

end

def tracingAxiom : Engine FactIndex FactIndex :=
  ofRules MemoryGraph.withoutRaw [.unconditional [⟨.constant 5, .constant 1, .constant 6⟩]]
    ⟨false, true, true⟩

theorem second_axiom_pass_reports_its_work :
    tracingAxiom.Made ∧ ∃ settled,
      TracesAs (tracingAxiom.performed [.request (.call (.init true))]) [⟨5, 1, 6⟩] settled ∧
      settled.processed = [⟨5, 1, 6⟩] := by
  have made : tracingAxiom.Made := .ofRules _ _ _
  have ran : ((ensureCompiled true >>= fun _ => assertAxioms).outcome
        (tracingAxiom.performed [.request (.call (.init true))])).1.toOption = some [⟨5, 1, 6⟩] ∧
      (tracingAxiom.performed [.request (.call (.init true))]).tracing = true ∧
      (tracingAxiom.performed [.request (.call (.init true))]).processed = [] := by
    decide +kernel
  obtain ⟨-, -, -, whole⟩ :=
    axiom_passes_trace_only_after_a_success made [.request (.call (.init true))] true
  -- the engine is not to be computed again
  generalize tracingAxiom.performed [.request (.call (.init true))] = reached at ran whole ⊢
  obtain ⟨ran, tracing, unreported⟩ := ran
  rcases run : (ensureCompiled true >>= fun _ => assertAxioms).outcome reached with
    ⟨failure | worked, done⟩
  · rw [run] at ran
    cases ran
  · rw [run] at ran
    obtain rfl : worked = [⟨5, 1, 6⟩] := Option.some.inj ran
    obtain ⟨settled, traces, -⟩ := whole.good_of_outcome run
    refine ⟨made, settled, traces, ?_⟩
    rw [traces.loud tracing, unreported, List.nil_append]

theorem second_axiom_pass_traces :
    let e := tracingAxiom.performed [.request (.call (.init true))]
    e.gated = [] ∧ ((initUpTo true 1 0).outcome e).2.axiomsDone = true ∧
      ((ensureCompiled true >>= fun _ => assertAxioms).outcome e).2.gated =
        [.processing ⟨5, 1, 6⟩] := by
  decide +kernel

end Engine
end TripleInference
