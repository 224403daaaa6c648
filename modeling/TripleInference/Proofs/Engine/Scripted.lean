import TripleInference.Engine.Run
import TripleInference.Proofs.Network.Compiling
import TripleInference.Proofs.Network.Search
import TripleInference.Proofs.Store.Script

/-!
Everything an engine does with its graph is a script of requests to the two stores: reading while a
triple descends through the network, asserting conclusions, loading raw facts.
-/
namespace TripleInference

open Step

variable {R D : Type}

theorem Failure.store_ne_wiring (error : StoreError) (fault : WiringFault) :
    Failure.store error ≠ .wiring fault := by simp

theorem Failure.store_ne_rule (error : StoreError) (fault : RuleFault) :
    Failure.store error ≠ .rule fault := by simp

theorem scripted_wiringFault {σ α R D : Type} [TripleSink R] [EmptyCollection R] [TripleSink D]
    [OverGraph σ (InferenceGraph R D)] (fault : WiringFault) :
    Scripted Failure.store (throw (.wiring fault) : Step Failure σ α) :=
  scripted_throw fun error => Failure.store_ne_wiring error fault

instance {G : Type} : OverGraph (Descent G) G where
  withGraph d graph := { d with graph }

instance : OverGraph (Engine R D) (InferenceGraph R D) where
  withGraph e graph := { e with graph }

instance : OverGraph (Pass R D) (InferenceGraph R D) where
  withGraph p graph := { p with engine := { p.engine with graph } }

namespace Engine

theorem withGraph_traceRecord (e : Engine R D) (r : LogRecord) (g : InferenceGraph R D) :
    (OverGraph.withGraph e g).traceRecord r = OverGraph.withGraph (e.traceRecord r) g := by
  unfold traceRecord
  change (if e.tracing then _ else _) = _
  split <;> rfl

theorem withGraph_recordDerivation (e : Engine R D) (d : Derivation) (g : InferenceGraph R D) :
    (OverGraph.withGraph e g).recordDerivation d =
      OverGraph.withGraph (e.recordDerivation d) g := by
  unfold recordDerivation
  change (if e.recording then _ else _) = _
  split <;> rfl

end Engine

variable [TripleSink R] [EmptyCollection R] [TripleSink D]

namespace InferenceGraph

theorem scripted_find (l : Lookup) :
    Scripted id (find l : Step StoreError (InferenceGraph R D) (List Triple)) := by
  apply (scripted_onDeductions (.find l)).bind
  intro deduced
  apply (scripted_onRaw (.find l)).bind
  intro asserted
  cases asserted with
  | none => exact scripted_pure _
  | some asserted => exact scripted_pure _

theorem scripted_contains (t : Triple) :
    Scripted id (contains t : Step StoreError (InferenceGraph R D) Bool) := by
  apply (scripted_onDeductions (.contains t)).bind
  intro deduced
  cases deduced with
  | true => exact scripted_pure _
  | false => exact (scripted_onRaw (.contains t)).bind fun _ => scripted_pure _

end InferenceGraph

namespace Descent

theorem scripted_lookup (l : Lookup) :
    Scripted Failure.store (Descent.find l : Step Failure (InferenceGraph R D) (List Triple)) :=
  (InferenceGraph.scripted_find l).within (fun _ _ => Failure.store.inj) (fun _ _ => rfl)
    fun _ _ _ _ => rfl

theorem scripted_search (r : Rule) (clauses : List Nat) (b : Bindings) (found : Array Bindings) :
    Scripted Failure.store
      (search r clauses b found : Step Failure (InferenceGraph R D) _) := by
  induction clauses generalizing b found with
  | nil => exact scripted_pure _
  | cons clause rest ih =>
    cases here : r.body[clause]? with
    | none =>
      simp only [search, here]
      exact scripted_wiringFault _
    | some p =>
      rw [search_cons here]
      refine (scripted_lookup _).bind fun ts => scripted_foldlM (fun so t => ?_) ts _
      unfold tryFact
      rcases so.1.unify p t with ⟨fits, c⟩
      cases fits with
      | false => exact scripted_pure _
      | true => exact (ih c so.2).bind fun _ => scripted_pure _

theorem scripted_join (c : CompiledRules) (id : NodeId) (q : JoinQueue) (b : Bindings) :
    Scripted Failure.store (join c id q b :
      Step Failure (Descent (InferenceGraph R D)) (NodeId × List Bindings)) := by
  have remembered : Scripted Failure.store
      (remember id b : Step Failure (Descent (InferenceGraph R D)) Bool) :=
    scripted_of_blind (fun _ _ => rfl) nofun
  have searched (r : Rule) (clauses : List Nat) (probed : Bindings) :
      Scripted Failure.store (onGraph (search r clauses probed #[]) :
        Step Failure (Descent (InferenceGraph R D)) _) :=
    (scripted_search r clauses probed #[]).within Function.injective_id (fun _ _ => rfl)
      fun _ _ _ _ => rfl
  apply (scripted_ofExcept Failure.store_ne_wiring _).bind
  intro sibling
  cases q.continuation with
  | none => exact scripted_wiringFault _
  | some target =>
    apply remembered.bind
    intro isNew
    cases isNew with
    | false => exact scripted_pure _
    | true =>
      apply (scripted_ofExcept Failure.store_ne_wiring _).bind
      intro probed
      cases c.rule? q.rule with
      | none => exact scripted_wiringFault _
      | some r => exact (searched r _ probed).bind fun _ => scripted_pure _

theorem scripted_deliver (c : CompiledRules) (hops : Nat) (id : NodeId) (b : Bindings) :
    Scripted Failure.store
      (deliver c hops id b : Step Failure (Descent (InferenceGraph R D)) Unit) := by
  induction hops generalizing id b with
  | zero => exact scripted_wiringFault _
  | succ hops ih =>
    apply (scripted_ofExcept Failure.store_ne_wiring _).bind
    intro node
    cases node with
    | filter f => exact scripted_wiringFault _
    | terminal rule => exact scripted_modify fun _ _ => rfl
    | queue q => exact (scripted_join c id q b).bind fun _ => scripted_forM (ih _) _

theorem scripted_offer (c : CompiledRules) (t : Triple) (id : NodeId) :
    Scripted Failure.store
      (offer c t id : Step Failure (Descent (InferenceGraph R D)) Bool) := by
  apply (scripted_ofExcept Failure.store_ne_wiring _).bind
  intro f
  cases f.test t with
  | none => exact scripted_pure _
  | some b =>
    refine (scripted_modify fun _ _ => rfl).bind fun _ => ?_
    cases f.continuation with
    | none => exact scripted_wiringFault _
    | some target => exact (scripted_deliver c _ target b).bind fun _ => scripted_pure _

theorem scripted_offerAll (c : CompiledRules) (t : Triple) :
    Scripted Failure.store
      (offerAll c t : Step Failure (Descent (InferenceGraph R D)) (List BodyMatch)) :=
  (scripted_forM (fun id => (scripted_offer c t id).discard) _).bind fun _ =>
    scripted_get_bind (fun _ _ => rfl) fun _ => scripted_pure _

end Descent

namespace Engine

theorem scripted_onGraph {α : Type} {m : Step StoreError (InferenceGraph R D) α}
    (scripted : Scripted id m) : Scripted Failure.store (onGraph m) :=
  scripted.within (fun _ _ => Failure.store.inj) (fun _ _ => rfl) fun _ _ _ _ => rfl

theorem scripted_requireCompiled :
    Scripted Failure.store (requireCompiled : Step Failure (Engine R D) CompiledRules) := by
  apply scripted_of_blind
  · intro e g
    cases installed : e.compiled <;>
      simp only [requireCompiled, Step.outcome, OverGraph.withGraph, installed]
  · intro e error
    simp only [requireCompiled, Step.outcome]
    cases e.compiled <;> simp

theorem scripted_ensureCompiled (ignoreBackward : Bool) :
    Scripted Failure.store (ensureCompiled ignoreBackward : Step Failure (Engine R D) Unit) := by
  apply scripted_of_blind
  · intro e g
    cases installed : e.compiled with
    | some c => simp only [ensureCompiled, Step.outcome, OverGraph.withGraph, installed]
    | none =>
      cases compiles : CompiledRules.compile e.rules ignoreBackward with
      | ok c =>
        simp only [ensureCompiled, Step.outcome, OverGraph.withGraph, installed, compiles]
        rfl
      | error failure =>
        simp only [ensureCompiled, Step.outcome, OverGraph.withGraph, installed, compiles]
  · intro e error
    simp only [ensureCompiled, Step.outcome]
    cases e.compiled with
    | some c => simp
    | none =>
      cases compiles : CompiledRules.compile e.rules ignoreBackward with
      | ok c => simp
      | error failure =>
        obtain ⟨fault, rfl⟩ := CompiledRules.fault_of_compile compiles
        simp

end Engine

namespace Pass

theorem scripted_onEngine {α : Type} {m : Step Failure (Engine R D) α}
    (scripted : Scripted Failure.store m) : Scripted Failure.store (onEngine m) :=
  scripted.within Function.injective_id (fun _ _ => rfl) fun _ _ _ _ => rfl

theorem scripted_modifyEngine {change : Engine R D → Engine R D}
    (blind : ∀ e g, change (OverGraph.withGraph e g) = OverGraph.withGraph (change e) g) :
    Scripted Failure.store (modifyEngine change) :=
  scripted_modify fun p g => congrArg (Pass.mk · p.agenda) (blind p.engine g)

theorem scripted_countFiring (id : RuleId) (r : Rule) (trigger : Option Triple) :
    Scripted Failure.store (countFiring id r trigger : Step Failure (Pass R D) Unit) := by
  apply scripted_modify
  intro p g
  simp only [OverGraph.withGraph]
  rcases p.agenda.noteFired id with ⟨isNew, agenda⟩
  cases isNew with
  | false => rfl
  | true =>
    exact congrArg (Pass.mk · agenda) (Engine.withGraph_traceRecord
      { p.engine with firings := p.engine.firings + 1 } (.fired r.label trigger) g)

theorem scripted_conclude (r : Rule) (a : BodyMatch) (trigger : Option Triple) (ts : List Triple) :
    Scripted Failure.store
      (conclude r a trigger ts : Step Failure (Pass R D) (List Triple)) := by
  induction ts with
  | nil => exact scripted_pure _
  | cons t rest ih =>
    apply (scripted_onEngine (Engine.scripted_onGraph (InferenceGraph.scripted_contains t))).bind
    intro known
    cases known with
    | true => exact ih
    | false =>
      have added : Scripted Failure.store (onEngine (Engine.onGraph
          (InferenceGraph.onDeductions (TripleSink.add t))) : Step Failure (Pass R D) Bool) :=
        scripted_onEngine (Engine.scripted_onGraph (InferenceGraph.scripted_onDeductions (.add t)))
      apply added.discard.bind
      intro _
      refine Scripted.bind (scripted_modify fun _ _ => rfl) fun _ => ?_
      refine Scripted.bind (scripted_modifyEngine fun e g => ?_) fun _ =>
        ih.bind fun _ => scripted_pure _
      rw [Engine.withGraph_recordDerivation, Engine.withGraph_traceRecord]

theorem scripted_fire (c : CompiledRules) (trigger : Option Triple) (a : BodyMatch) :
    Scripted Failure.store (fire c trigger a : Step Failure (Pass R D) (List Triple)) := by
  unfold fire
  split
  · exact scripted_wiringFault _
  · apply (scripted_ofExcept Failure.store_ne_rule _).bind
    intro conclusions
    exact (scripted_countFiring _ _ _).bind fun _ => scripted_conclude _ _ _ conclusions

theorem scripted_fireAll (c : CompiledRules) (trigger : Option Triple) (ms : List BodyMatch) :
    Scripted Failure.store (fireAll c trigger ms : Step Failure (Pass R D) (List Triple)) := by
  induction ms with
  | nil => exact scripted_pure _
  | cons a rest ih =>
    exact (scripted_fire c trigger a).bind fun _ => ih.bind fun _ => scripted_pure _

theorem scripted_work (c : CompiledRules) (t : Triple) :
    Scripted Failure.store (work c t : Step Failure (Pass R D) (List Triple)) := by
  have matched : Scripted Failure.store
      (matchTriple c t : Step Failure (Pass R D) (List BodyMatch)) :=
    (Descent.scripted_offerAll c t).within Function.injective_id (fun _ _ => rfl)
      fun _ _ _ _ => rfl
  exact matched.bind fun ms => scripted_fireAll c (some t) ms

theorem scripted_next :
    Scripted Failure.store (next : Step Failure (Pass R D) (Option Triple)) := by
  apply scripted_of_blind
  · exact fun _ _ => rfl
  · intro p error
    simp [next, Step.outcome]

theorem scripted_settle (c : CompiledRules) (limit : Nat) :
    Scripted Failure.store (settle c limit : Step Failure (Pass R D) (List Triple)) := by
  induction limit with
  | zero => exact scripted_pure _
  | succ limit ih =>
    apply scripted_next.bind
    intro first
    cases first with
    | none => exact scripted_pure _
    | some t =>
      refine Scripted.bind (scripted_modifyEngine fun e g => ?_) fun _ =>
        (scripted_work c t).discard.bind fun _ => ih.bind fun _ => scripted_pure _
      exact Engine.withGraph_traceRecord e _ g

theorem scripted_settleAll (c : CompiledRules) :
    Scripted Failure.store (settleAll c : Step Failure (Pass R D) (List Triple)) := by
  unfold settleAll
  apply scripted_get_bind
  · intro p g
    have agenda : (OverGraph.withGraph p g).agenda = p.agenda := rfl
    rw [agenda]
  · exact fun p => scripted_settle c (p.agenda.size + tripleCount)

end Pass

namespace Engine

theorem scripted_pass {α : Type} {m : Step Failure (Pass R D) α}
    (scripted : Scripted Failure.store m) : Scripted Failure.store (pass m) :=
  scripted.within Function.injective_id (fun _ _ => rfl) fun _ _ _ _ => rfl

theorem scripted_delete (t : Triple) :
    Scripted Failure.store (delete t : Step Failure (Engine R D) Unit) :=
  (scripted_onGraph (InferenceGraph.scripted_onDeductions (.delete t))).bind fun _ =>
    scripted_modify fun _ _ => rfl

theorem scripted_assertHead (id : RuleId) (r : Rule) (t : Triple) :
    Scripted Failure.store (assertHead id r t : Step Failure (Pass R D) Unit) := by
  have queued : Scripted Failure.store (Pass.enqueue t : Step Failure (Pass R D) Unit) :=
    scripted_modify fun _ _ => rfl
  apply (Pass.scripted_onEngine (scripted_onGraph
    (InferenceGraph.scripted_onDeductions (.add t)))).bind
  intro added
  cases added with
  | false => exact queued
  | true =>
    refine Scripted.bind (Pass.scripted_modifyEngine fun e g => ?_) fun _ => queued
    exact withGraph_recordDerivation e _ g

theorem scripted_assertAxiom (id : RuleId) (r : Rule) :
    Scripted Failure.store (assertAxiom id r : Step Failure (Pass R D) Unit) :=
  (scripted_ofExcept Failure.store_ne_rule _).bind fun heads =>
    Scripted.bind (Pass.scripted_modifyEngine fun _ _ => rfl) fun _ =>
      scripted_forM (scripted_assertHead id r) heads

theorem scripted_assertAxioms :
    Scripted Failure.store (assertAxioms : Step Failure (Engine R D) (List Triple)) := by
  apply scripted_requireCompiled.bind
  intro c
  refine Scripted.bind (scripted_pass ?_) fun worked => ?_
  · refine Scripted.bind (scripted_forM ?_ _) fun _ => Pass.scripted_settleAll c
    rintro ⟨id, r⟩
    exact scripted_assertAxiom id r
  · exact Scripted.bind (scripted_modify fun _ _ => rfl) fun _ => scripted_pure worked

theorem scripted_scan (c : CompiledRules) :
    Scripted id (InferenceGraph.onRaw (scan c) :
      Step StoreError (InferenceGraph R D) (Option (List Triple))) := by
  unfold scan
  cases c.predicatesUsed with
  | none => exact InferenceGraph.scripted_onRaw (.find .all)
  | some predicates =>
    refine InferenceGraph.scripted_onRaw_bind ?_ fun found =>
      InferenceGraph.scripted_onRaw_pure found.flatten
    induction predicates.toList with
    | nil => exact InferenceGraph.scripted_onRaw_pure []
    | cons q rest ih =>
      rw [List.mapM_cons]
      refine InferenceGraph.scripted_onRaw_bind
        (InferenceGraph.scripted_onRaw (.find (.withPredicate q))) fun ts => ?_
      exact InferenceGraph.scripted_onRaw_bind ih fun found =>
        InferenceGraph.scripted_onRaw_pure (ts :: found)

theorem scripted_load :
    Scripted Failure.store (load : Step Failure (Engine R D) (List Triple)) := by
  have ready (worked : List Triple) : Scripted Failure.store
      (do modify fun e => { e with phase := .ready }; return worked :
        Step Failure (Engine R D) (List Triple)) :=
    Scripted.bind (scripted_modify fun _ _ => rfl) fun _ => scripted_pure worked
  apply scripted_requireCompiled.bind
  intro c
  apply (scripted_onGraph (scripted_scan c)).bind
  intro found
  cases found with
  | none => exact ready []
  | some facts =>
    refine Scripted.bind (scripted_modify fun _ _ => rfl) fun _ => ?_
    refine Scripted.bind (scripted_pass ?_) ready
    exact Scripted.bind (scripted_modify fun _ _ => rfl) fun _ => Pass.scripted_settleAll c

theorem scripted_init (ignoreBackward : Bool) :
    Scripted Failure.store (init ignoreBackward : Step Failure (Engine R D) Unit) := by
  refine Scripted.onFailure ?_ fun _ _ => rfl
  apply (scripted_ensureCompiled ignoreBackward).bind
  intro _
  apply scripted_assertAxioms.discard.bind
  intro _
  exact scripted_get_set (fun _ _ => rfl) scripted_load.discard

theorem scripted_applyOnce (t : Triple) :
    Scripted Failure.store (applyOnce t : Step Failure (Engine R D) (List Triple)) :=
  scripted_requireCompiled.bind fun c => scripted_pass (Pass.scripted_work c t)

theorem scripted_add (t : Triple) :
    Scripted Failure.store (add t : Step Failure (Engine R D) (List Triple)) := by
  apply scripted_requireCompiled.bind
  intro c
  have rest : Scripted Failure.store (pass (Pass.enqueue t >>= fun _ => Pass.settleAll c) :
      Step Failure (Engine R D) (List Triple)) :=
    scripted_pass (Scripted.bind (scripted_modify fun _ _ => rfl) fun _ =>
      Pass.scripted_settleAll c)
  apply (scripted_onGraph (InferenceGraph.scripted_contains t)).bind
  intro known
  cases known with
  | true => exact rest
  | false =>
    exact (scripted_onGraph (InferenceGraph.scripted_assertRaw t)).discard.bind fun _ => rest

end Engine
end TripleInference
