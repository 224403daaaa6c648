import TripleInference.Proofs.Engine.History
import TripleInference.Proofs.Engine.Mirroring

/-!
Ignoring backward rules is the same as not having them, and not ignoring them is the same as having
them in forward notation. No request can tell the difference: neither its answer nor the state it
leaves, in which only the numbers of the rules differ.
-/
namespace TripleInference

theorem Provenance.renumber_congr {f g : RuleId → RuleId} {log : Provenance}
    (same : ∀ d ∈ log.records, f d.rule = g d.rule) : log.renumber f = log.renumber g := by
  have records : log.records.map (Derivation.renumber f) =
      log.records.map (Derivation.renumber g) := by
    apply Array.map_congr_left
    intro d mem
    rw [Derivation.renumber, Derivation.renumber, same d mem]
  rw [renumber, records, renumber]

namespace Engine

def Request.ignoring (ignoreBackward : Bool) : Request → Request
  | .call (.init _) => .call (.init ignoreBackward)
  | request => request

section
variable {R D : Type} [TripleSink R] [EmptyCollection R] [TripleSink D]

/-- The answers to requests made one after the other, failed ones included, each with the state
that it leaves. -/
def transcript (e : Engine R D) : List Request → List (Except Failure (List Triple) × Engine R D)
  | [] => []
  | request :: rest =>
    request.answer.outcome e :: transcript (request.answer.outcome e).2 rest

end

/-- The engines are in the same state, but the second one has other numbers for its rules. In the
log, where rules have left their numbers, the new number stands for the same rule. -/
structure SameBut {R D : Type} (f : RuleId → RuleId) (e e' : Engine R D) : Prop where
  graph : e'.graph = e.graph
  phase : e'.phase = e.phase
  firings : e'.firings = e.firings
  axiomFirings : e'.axiomFirings = e.axiomFirings
  axiomsDone : e'.axiomsDone = e.axiomsDone
  derivations : e'.derivations = e.derivations.renumber f
  sameRule : ∀ d ∈ e.derivations.records,
    ∃ r, e.rules[d.rule]? = some r ∧ e'.rules[f d.rule]? = some r.asForward
  injective : ∀ d ∈ e.derivations.records, ∀ d' ∈ e.derivations.records,
    f d.rule = f d'.rule → d.rule = d'.rule

def AnswersAlike {R D : Type} (f : RuleId → RuleId)
    (x x' : Except Failure (List Triple) × Engine R D) : Prop :=
  x'.1 = x.1 ∧ x.2.SameBut f x'.2

inductive Installed (rules : List Rule) (ignoreBackward : Bool) :
    Option CompiledRules → Option CompiledRules → Prop where
  | missing : Installed rules ignoreBackward none none
  | twins {c c' : CompiledRules} (twins : c.Twins rules ignoreBackward c') :
    Installed rules ignoreBackward (some c) (some c')

structure Mirrors {R D : Type} (rules : List Rule) (ignoreBackward : Bool) (e e' : Engine R D) :
    Prop where
  graph : e'.graph = e.graph
  given : e.rules = rules
  given' : e'.rules = forwardRules ignoreBackward rules
  compiled : Installed rules ignoreBackward e.compiled e'.compiled
  phase : e'.phase = e.phase
  firings : e'.firings = e.firings
  axiomFirings : e'.axiomFirings = e.axiomFirings
  axiomsDone : e'.axiomsDone = e.axiomsDone
  recording : e'.recording = e.recording
  derivations : e'.derivations = e.derivations.renumber (rank ignoreBackward rules)
  stay : ∀ d ∈ e.derivations.records, Stays rules ignoreBackward d.rule

section
variable {R D : Type} {rules : List Rule} {ignoreBackward : Bool} {e e' : Engine R D}

theorem Mirrors.recordDerivation (mirrors : e.Mirrors rules ignoreBackward e') {d : Derivation}
    (stays : Stays rules ignoreBackward d.rule) :
    (e.recordDerivation d).Mirrors rules ignoreBackward
      (e'.recordDerivation (d.renumber (rank ignoreBackward rules))) := by
  unfold Engine.recordDerivation
  by_cases on : e.recording = true
  · rw [if_pos on, if_pos (mirrors.recording.trans on)]
    refine { mirrors with derivations := ?_, stay := ?_ }
    · rw [mirrors.derivations, Provenance.renumber_record]
    · intro other mem
      rcases Array.mem_push.mp mem with old | rfl
      · exact mirrors.stay other old
      · exact stays
  · rw [if_neg on, if_neg fun on' => on (mirrors.recording.symm.trans on')]
    exact mirrors

theorem requireCompiled_renamed :
    Step.Lockstep (Mirrors rules ignoreBackward)
      (CompiledRules.Renamed (.leavingOut rules ignoreBackward))
      (requireCompiled : Step Failure (Engine R D) CompiledRules) requireCompiled := by
  intro e e' mirrors
  have compiled := mirrors.compiled
  simp only [requireCompiled, Step.outcome]
  generalize e.compiled = k at compiled ⊢
  generalize e'.compiled = k' at compiled ⊢
  cases compiled with
  | missing => exact .fails mirrors
  | twins twins => exact .ends twins.renamed mirrors

theorem ensureCompiled_lockstep (rules : List Rule) (ignoreBackward ignoreBackward' : Bool) :
    Step.Lockstep (Mirrors rules ignoreBackward) Eq
      (ensureCompiled ignoreBackward : Step Failure (Engine R D) Unit)
      (ensureCompiled ignoreBackward') := by
  intro e e' mirrors
  have compiled := mirrors.compiled
  simp only [ensureCompiled, Step.outcome, mirrors.given, mirrors.given']
  generalize first : e.compiled = k at compiled ⊢
  generalize second : e'.compiled = k' at compiled ⊢
  cases compiled with
  | twins twins => exact .ends rfl mirrors
  | missing =>
    rcases CompiledRules.compile_forwardRules ignoreBackward ignoreBackward' rules with
      ⟨c, c', compiles, compiles', twins⟩ | ⟨failure, faulty, faulty'⟩
    · rw [compiles, compiles']
      exact .ends rfl { mirrors with compiled := .twins twins }
    · rw [faulty, faulty']
      exact .fails mirrors

theorem mirroring_mirrors (rules : List Rule) (ignoreBackward : Bool) :
    Mirroring (.leavingOut rules ignoreBackward)
      (Mirrors (R := R) (D := D) rules ignoreBackward) where
  graph_eq mirrors := mirrors.graph
  axiomFirings_eq mirrors := by rw [mirrors.axiomFirings, mirrors.firings]
  required := requireCompiled_renamed
  graph mirrors _ := { mirrors with graph := rfl }
  journal mirrors _ _ := { mirrors with }
  derivation mirrors _ stays := mirrors.recordDerivation stays
  firing mirrors := { mirrors with firings := congrArg (· + 1) mirrors.firings }
  noting mirrors _ := { mirrors with axiomFirings := rfl }
  phase mirrors _ := { mirrors with phase := rfl }
  axiomsDone mirrors _ := { mirrors with axiomsDone := rfl }

theorem mirrors_ofRules (graph : InferenceGraph R D) (settings : EngineSettings) :
    (ofRules graph rules settings).Mirrors rules ignoreBackward
      (ofRules graph (forwardRules ignoreBackward rules) settings) where
  graph := rfl
  given := rfl
  given' := rfl
  compiled := .missing
  phase := rfl
  firings := rfl
  axiomFirings := rfl
  axiomsDone := rfl
  recording := rfl
  derivations := congrArg (Provenance.mk · ∅) Array.map_empty.symm
  stay d mem := by cases mem; contradiction

theorem Mirrors.sameBut (mirrors : e.Mirrors rules ignoreBackward e') {f : RuleId → RuleId}
    (same : ∀ id, Stays rules ignoreBackward id → f id = rank ignoreBackward rules id) :
    e.SameBut f e' where
  graph := mirrors.graph
  phase := mirrors.phase
  firings := mirrors.firings
  axiomFirings := mirrors.axiomFirings
  axiomsDone := mirrors.axiomsDone
  derivations := mirrors.derivations.trans
    (Provenance.renumber_congr fun d mem => (same _ (mirrors.stay d mem)).symm)
  sameRule d mem := by
    obtain ⟨r, numbered⟩ := mirrors.stay d mem
    have numbered' : (rank ignoreBackward rules d.rule, r.asForward) ∈
        NetworkBuilder.numbered false (forwardRules ignoreBackward rules) 0 := by
      rw [numbered_forwardRules]
      exact List.mem_map_of_mem numbered
    rw [mirrors.given, mirrors.given', same _ (mirrors.stay d mem)]
    exact ⟨r, (NetworkBuilder.mem_numbered.mp numbered).1,
      (NetworkBuilder.mem_numbered.mp numbered').1⟩
  injective d mem d' mem' equal := by
    rw [same _ (mirrors.stay d mem), same _ (mirrors.stay d' mem')] at equal
    exact rank_injective (mirrors.stay d mem) (mirrors.stay d' mem') equal

variable [TripleSink R] [EmptyCollection R] [TripleSink D]

theorem Request.answer_lockstep (request : Request) :
    Step.Lockstep (Mirrors rules ignoreBackward) Eq
      ((request.ignoring ignoreBackward).answer : Step Failure (Engine R D) (List Triple))
      request.answer := by
  have mirroring := mirroring_mirrors (R := R) (D := D) rules ignoreBackward
  cases request with
  | call call =>
    cases call with
    | init ignoreBackward' =>
      exact (init_lockstep mirroring (ensureCompiled_lockstep rules ignoreBackward
        ignoreBackward')).bind_eq fun _ => Step.lockstep_pure rfl
    | load => exact load_lockstep mirroring
    | add t => exact add_lockstep mirroring t
  | delete t =>
    exact (Engine.delete_lockstep mirroring t).bind_eq fun _ => Step.lockstep_pure rfl
  | applyOnce t => exact Engine.applyOnce_lockstep mirroring t

theorem transcript_alike (mirrors : e.Mirrors rules ignoreBackward e') {f : RuleId → RuleId}
    (same : ∀ id, Stays rules ignoreBackward id → f id = rank ignoreBackward rules id)
    (requests : List Request) :
    List.Forall₂ (AnswersAlike f) (e.transcript (requests.map (.ignoring ignoreBackward)))
      (e'.transcript requests) := by
  induction requests generalizing e e' with
  | nil => exact List.Forall₂.nil
  | cons request rest ih =>
    have together := request.answer_lockstep e e' mirrors
    exact List.Forall₂.cons ⟨together.results.symm, together.states.sameBut same⟩
      (ih together.states)

/-- An engine that ignores backward rules answers every request as an engine without them, and an
engine that does not ignore them as if they were forward rules; the states after each request differ
in the numbers of the rules at most. Ignored rules need not even be well formed. -/
theorem ignoring_backward_rules_is_leaving_them_out (graph : InferenceGraph R D) (rules : List Rule)
    (settings : EngineSettings) (requests : List Request) :
    List.Forall₂ (AnswersAlike (rank true rules))
      ((ofRules graph rules settings).transcript (requests.map (.ignoring true)))
      ((ofRules graph (rules.filter (!·.isBackward)) settings).transcript requests) ∧
    List.Forall₂ (AnswersAlike id)
      ((ofRules graph rules settings).transcript (requests.map (.ignoring false)))
      ((ofRules graph (rules.map .asForward) settings).transcript requests) ∧
    ((∃ c, CompiledRules.compile rules true = .ok c) ↔
      ∀ r ∈ rules, r.isBackward = false → r.WellFormed) := by
  refine ⟨?_, ?_, ?_⟩
  · rw [← forwardRules_true]
    exact transcript_alike (mirrors_ofRules graph settings) (fun _ _ => rfl) requests
  · rw [← forwardRules_false]
    refine transcript_alike (mirrors_ofRules graph settings) (fun id stays => ?_) requests
    obtain ⟨r, numbered⟩ := stays
    have listed := (NetworkBuilder.mem_numbered.mp numbered).1
    exact (rank_false (List.getElem?_eq_some_iff.mp listed).1.le).symm
  · simp only [CompiledRules.compile_eq_ok, exists_and_left, exists_eq, and_true]
    constructor
    · intro wellFormed r mem forward
      obtain ⟨id, listed⟩ := List.mem_iff_getElem?.mp mem
      exact wellFormed (id, r) (NetworkBuilder.mem_numbered.mpr ⟨listed, forward⟩)
    · intro wellFormed rule mem
      obtain ⟨listed, forward⟩ := NetworkBuilder.mem_numbered.mp mem
      exact wellFormed rule.2 (List.mem_of_getElem? listed) forward

end

end Engine
end TripleInference
