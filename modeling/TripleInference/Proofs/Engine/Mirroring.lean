import TripleInference.Engine.Run
import TripleInference.Proofs.Network.Mirroring

/-!
Two engines that do the same, call by call and in lockstep. How far they may differ is said by a
relation between them: it may ignore what they report, and the one may have other numbers for the
rules than the other. All that the calls ask of it is that changing both engines alike keeps it.
-/
namespace TripleInference

def Derivation.renumber (f : RuleId → RuleId) (d : Derivation) : Derivation :=
  { d with rule := f d.rule }

def Provenance.renumber (f : RuleId → RuleId) (log : Provenance) : Provenance :=
  { log with records := log.records.map (.renumber f) }

theorem Provenance.renumber_record (f : RuleId → RuleId) (log : Provenance) (d : Derivation) :
    (log.record d).renumber f = (log.renumber f).record (d.renumber f) := by
  simp [record, renumber, Derivation.renumber]

namespace Agenda

structure Mirrors (n : Renaming) (a a' : Agenda) : Prop where
  front : a'.front = a.front
  back : a'.back = a.back
  memory : a'.memory = a.memory
  fired : ∀ id, n.stays id → (n.number id ∈ a'.fired ↔ id ∈ a.fired)

variable {n : Renaming} {a a' : Agenda}

theorem mirrors_fresh (front back : List Triple) :
    Mirrors n ⟨front, back, ∅, ∅⟩ ⟨front, back, ∅, ∅⟩ :=
  ⟨rfl, rfl, rfl, fun _ _ => by simp⟩

theorem Mirrors.enqueue (mirrors : Mirrors n a a') (t : Triple) :
    Mirrors n (a.enqueue t) (a'.enqueue t) :=
  { mirrors with back := congrArg (t :: ·) mirrors.back }

theorem Mirrors.enqueueAll (mirrors : Mirrors n a a') (ts : List Triple) :
    Mirrors n (a.enqueueAll ts) (a'.enqueueAll ts) := by
  induction ts generalizing a a' with
  | nil => exact mirrors
  | cons t ts ih => exact ih (mirrors.enqueue t)

theorem Mirrors.size (mirrors : Mirrors n a a') : a'.size = a.size := by
  rw [Agenda.size, mirrors.front, mirrors.back, Agenda.size]

theorem Mirrors.next (mirrors : Mirrors n a a') :
    a'.next.1 = a.next.1 ∧ Mirrors n a.next.2 a'.next.2 := by
  unfold Agenda.next
  rw [mirrors.front, mirrors.back]
  cases a.front with
  | cons t front => exact ⟨rfl, mirrors_fresh _ _⟩
  | nil =>
    cases a.back.reverse with
    | cons t front => exact ⟨rfl, mirrors_fresh _ _⟩
    | nil => exact ⟨rfl, mirrors_fresh _ _⟩

structure Abreast (n : Renaming) (a a' : Agenda) : Prop where
  memory : a'.memory = a.memory
  fired : ∀ id, n.stays id → (n.number id ∈ a'.fired ↔ id ∈ a.fired)

theorem Abreast.noteFired (abreast : Abreast n a a') {id : RuleId} (stays : n.stays id) :
    (a'.noteFired (n.number id)).1 = (a.noteFired id).1 ∧
      Abreast n (a.noteFired id).2 (a'.noteFired (n.number id)).2 := by
  have counted := abreast.fired id stays
  unfold Agenda.noteFired
  simp only [Std.ExtTreeSet.contains_iff_mem, counted]
  split
  · exact ⟨rfl, abreast⟩
  · refine ⟨rfl, { abreast with fired := fun other stays' => ?_ }⟩
    simp only [Std.ExtTreeSet.mem_insert, Std.LawfulEqOrd.compare_eq_iff_eq,
      abreast.fired other stays']
    constructor
    · rintro (same | before)
      · exact Or.inl (n.injective stays stays' same)
      · exact Or.inr before
    · rintro (rfl | before)
      · exact Or.inl rfl
      · exact Or.inr before

def queue (a : Agenda) : List Triple × List Triple := (a.front, a.back)

theorem queue_noteFired (a : Agenda) (id : RuleId) : (a.noteFired id).2.queue = a.queue := by
  unfold noteFired
  split <;> rfl

def GrowAlike (differ : List Triple × List Triple → List Triple × List Triple → Prop) : Prop :=
  ∀ {a a' : Agenda} (t : Triple), differ a.queue a'.queue →
    differ (a.enqueue t).queue (a'.enqueue t).queue

end Agenda

namespace Engine

variable {R D : Type}

/-- The relation is kept by whatever the calls of an engine change, if they change both engines
alike. -/
structure Mirroring (n : Renaming) (rel : Engine R D → Engine R D → Prop) : Prop where
  graph_eq : ∀ {e e'}, rel e e' → e'.graph = e.graph
  axiomFirings_eq : ∀ {e e'}, rel e e' →
    e'.axiomFirings.getD e'.firings = e.axiomFirings.getD e.firings
  required : Step.Lockstep rel (CompiledRules.Renamed n) requireCompiled requireCompiled
  graph : ∀ {e e'}, rel e e' → ∀ g, rel { e with graph := g } { e' with graph := g }
  journal : ∀ {e e'}, rel e e' → ∀ j j', rel { e with journal := j } { e' with journal := j' }
  derivation : ∀ {e e'}, rel e e' → ∀ {d : Derivation}, n.stays d.rule →
    rel (e.recordDerivation d) (e'.recordDerivation (d.renumber n.number))
  firing : ∀ {e e'}, rel e e' →
    rel { e with firings := e.firings + 1 } { e' with firings := e'.firings + 1 }
  noting : ∀ {e e'}, rel e e' → ∀ firings,
    rel { e with axiomFirings := some firings } { e' with axiomFirings := some firings }
  phase : ∀ {e e'}, rel e e' → ∀ phase, rel { e with phase } { e' with phase }
  axiomsDone : ∀ {e e'}, rel e e' → ∀ axiomsDone, rel { e with axiomsDone } { e' with axiomsDone }

section
variable {n : Renaming} {rel : Engine R D → Engine R D → Prop} {e e' : Engine R D}

theorem Mirroring.report (mirroring : Mirroring n rel) (related : rel e e') (r r' : LogRecord) :
    rel (e.report r) (e'.report r') := mirroring.journal related _ _

theorem Mirroring.traceRecord (mirroring : Mirroring n rel) (related : rel e e')
    (r r' : LogRecord) : rel (e.traceRecord r) (e'.traceRecord r') := by
  unfold Engine.traceRecord
  split <;> split
  · exact mirroring.report related r r'
  · exact mirroring.journal related _ _
  · exact mirroring.journal related _ _
  · exact related

theorem requireCompiled_lockstep (same : ∀ {e e'}, rel e e' → e'.compiled = e.compiled) :
    Step.Lockstep rel (CompiledRules.Renamed .refl) requireCompiled requireCompiled := by
  intro e e' related
  simp only [requireCompiled, Step.outcome, same related]
  cases e.compiled with
  | none => exact .fails related
  | some c => exact .ends (CompiledRules.renamed_refl c) related

theorem onGraph_lockstep {α : Type} (mirroring : Mirroring n rel)
    (m : Step StoreError (InferenceGraph R D) α) :
    Step.Lockstep rel Eq (onGraph m) (onGraph m) :=
  Step.lockstep_within_eq m Failure.store (fun _ _ related => (mirroring.graph_eq related).symm)
    fun _ _ related graph => mirroring.graph related graph

end

end Engine

namespace Pass

variable {R D α : Type} {n : Renaming} {rel : Engine R D → Engine R D → Prop}

structure Mirrors (n : Renaming) (rel : Engine R D → Engine R D → Prop) (p p' : Pass R D) :
    Prop where
  engine : rel p.engine p'.engine
  agenda : p.agenda.Mirrors n p'.agenda

structure Abreast (n : Renaming) (rel : Engine R D → Engine R D → Prop)
    (differ : List Triple × List Triple → List Triple × List Triple → Prop) (p p' : Pass R D) :
    Prop where
  engine : rel p.engine p'.engine
  hand : p.agenda.Abreast n p'.agenda
  queue : differ p.agenda.queue p'.agenda.queue

theorem mirrors_eq : Mirrors n rel = Abreast n rel Eq := by
  funext p p'
  refine propext ⟨fun mirrors => ?_, fun abreast => ?_⟩
  · obtain ⟨engine, front, back, memory, fired⟩ := mirrors
    exact ⟨engine, ⟨memory, fired⟩, Prod.ext front.symm back.symm⟩
  · obtain ⟨engine, ⟨memory, fired⟩, queue⟩ := abreast
    exact ⟨engine, (Prod.mk.inj queue).1.symm, (Prod.mk.inj queue).2.symm, memory, fired⟩

theorem growAlike_eq : Agenda.GrowAlike Eq := fun t same =>
  Prod.ext (Prod.mk.inj same).1 (congrArg (t :: ·) (Prod.mk.inj same).2)

section
variable {differ : List Triple × List Triple → List Triple × List Triple → Prop}

theorem onEngine_abreast {m m' : Step Failure (Engine R D) α} (first : m.Lockstep rel Eq m') :
    Step.Lockstep (Abreast n rel differ) Eq (onEngine m) (onEngine m') :=
  first.within id (fun _ _ abreast => abreast.engine)
    fun _ _ abreast _ _ engine => { abreast with engine }

theorem modifyEngine_abreast {change change' : Engine R D → Engine R D}
    (kept : ∀ e e', rel e e' → rel (change e) (change' e')) :
    Step.Lockstep (Abreast n rel differ) Eq (modifyEngine change) (modifyEngine change') :=
  Step.lockstep_modify fun _ _ abreast => { abreast with engine := kept _ _ abreast.engine }

variable (mirroring : Engine.Mirroring n rel) {c c' : CompiledRules}
include mirroring

theorem countFiring_abreast {id : RuleId} (stays : n.stays id) (r : Rule)
    (trigger : Option Triple) :
    Step.Lockstep (Abreast n rel differ) Eq
      (countFiring id r trigger : Step Failure (Pass R D) Unit)
      (countFiring (n.number id) (n.reword r) trigger) := by
  apply Step.lockstep_modify
  intro p p' abreast
  obtain ⟨flag, hand⟩ := abreast.hand.noteFired stays
  have queue := abreast.queue
  rw [← Agenda.queue_noteFired p.agenda id,
    ← Agenda.queue_noteFired p'.agenda (n.number id)] at queue
  generalize p.agenda.noteFired id = x at flag hand queue ⊢
  generalize p'.agenda.noteFired (n.number id) = x' at flag hand queue ⊢
  obtain ⟨isNew, a⟩ := x
  obtain ⟨isNew', a'⟩ := x'
  obtain rfl : isNew' = isNew := flag
  cases isNew' with
  | true => exact ⟨mirroring.traceRecord (mirroring.firing abreast.engine) _ _, hand, queue⟩
  | false => exact ⟨abreast.engine, hand, queue⟩

theorem matchTriple_abreast [TripleSource R] [TripleSource D] (renamed : c.Renamed n c')
    (t : Triple) :
    Step.Lockstep (Abreast n rel differ)
      (fun ms ms' => ms' = ms.map (.renumber n.number) ∧ ∀ a ∈ ms, n.stays a.rule)
      (matchTriple c t : Step Failure (Pass R D) (List BodyMatch)) (matchTriple c' t) := by
  refine (Descent.offerAll_lockstep renamed t).within id (fun p p' abreast => ?_)
    fun p p' abreast d d' descent => ?_
  · exact ⟨mirroring.graph_eq abreast.engine, abreast.hand.memory, Array.map_empty.symm, by simp⟩
  · refine ⟨?_, ⟨descent.memory, abreast.hand.fired⟩, abreast.queue⟩
    rw [descent.graph]
    exact mirroring.journal (mirroring.graph abreast.engine d.graph) _ _

variable (alike : Agenda.GrowAlike differ) [TripleSource R] [TripleSink D]
include alike

theorem conclude_abreast {a : BodyMatch} (stays : n.stays a.rule) (r : Rule)
    (trigger : Option Triple) (ts : List Triple) :
    Step.Lockstep (Abreast n rel differ) Eq
      (conclude r a trigger ts : Step Failure (Pass R D) (List Triple))
      (conclude (n.reword r) (a.renumber n.number) trigger ts) := by
  induction ts with
  | nil => exact Step.lockstep_pure rfl
  | cons t rest ih =>
    apply (onEngine_abreast (Engine.onGraph_lockstep mirroring _)).bind_eq
    intro known
    cases known with
    | true => exact ih
    | false =>
      apply (onEngine_abreast (Engine.onGraph_lockstep mirroring _)).discard.bind_eq
      intro _
      refine Step.Lockstep.bind_eq (Step.lockstep_modify fun p p' abreast => ?_) fun _ => ?_
      · exact ⟨abreast.engine, ⟨abreast.hand.memory, abreast.hand.fired⟩, alike t abreast.queue⟩
      · refine (modifyEngine_abreast fun e e' related => ?_).bind_eq fun _ =>
          ih.bind_eq fun _ => Step.lockstep_pure rfl
        exact mirroring.traceRecord (mirroring.derivation related stays) _ _

theorem fire_abreast (renamed : c.Renamed n c') {a : BodyMatch} (stays : n.stays a.rule)
    (trigger : Option Triple) :
    Step.Lockstep (Abreast n rel differ) Eq
      (fire c trigger a : Step Failure (Pass R D) (List Triple))
      (fire c' trigger (a.renumber n.number)) := by
  rcases renamed.rule? stays with ⟨r, known, known'⟩ | ⟨unknown, unknown', same⟩
  · simp only [fire, BodyMatch.renumber, known, known']
    apply (Step.lockstep_ofExcept _ _).bind_eq
    intro conclusions
    apply (countFiring_abreast mirroring stays r trigger).bind_eq
    intro _
    exact conclude_abreast mirroring alike stays r trigger conclusions
  · -- both fail over one number
    rw [same] at unknown'
    simp only [fire, BodyMatch.renumber, same, unknown, unknown']
    exact Step.lockstep_throw _

theorem fireAll_abreast (renamed : c.Renamed n c') (trigger : Option Triple)
    {ms : List BodyMatch} (stay : ∀ a ∈ ms, n.stays a.rule) :
    Step.Lockstep (Abreast n rel differ) Eq
      (fireAll c trigger ms : Step Failure (Pass R D) (List Triple))
      (fireAll c' trigger (ms.map (.renumber n.number))) := by
  induction ms with
  | nil => exact Step.lockstep_pure rfl
  | cons a ms ih =>
    obtain ⟨first, later⟩ := List.forall_mem_cons.mp stay
    apply (fire_abreast mirroring alike renamed first trigger).bind_eq
    intro deduced
    exact (ih later).bind_eq fun _ => Step.lockstep_pure rfl

theorem work_abreast (renamed : c.Renamed n c') (t : Triple) :
    Step.Lockstep (Abreast n rel differ) Eq
      (work c t : Step Failure (Pass R D) (List Triple)) (work c' t) := by
  apply (matchTriple_abreast mirroring renamed t).bind
  rintro ms _ ⟨rfl, stay⟩
  exact fireAll_abreast mirroring alike renamed (some t) stay

end

theorem onEngine_lockstep {m m' : Step Failure (Engine R D) α} (first : m.Lockstep rel Eq m') :
    Step.Lockstep (Mirrors n rel) Eq (onEngine m) (onEngine m') := by
  rw [mirrors_eq]
  exact onEngine_abreast first

theorem modifyEngine_lockstep {change change' : Engine R D → Engine R D}
    (kept : ∀ e e', rel e e' → rel (change e) (change' e')) :
    Step.Lockstep (Mirrors n rel) Eq (modifyEngine change) (modifyEngine change') := by
  rw [mirrors_eq]
  exact modifyEngine_abreast kept

theorem enqueue_lockstep (t : Triple) :
    Step.Lockstep (Mirrors n rel) Eq (enqueue t : Step Failure (Pass R D) Unit) (enqueue t) :=
  Step.lockstep_modify fun _ _ mirrors => { mirrors with agenda := mirrors.agenda.enqueue t }

theorem next_lockstep :
    Step.Lockstep (Mirrors n rel) Eq (next : Step Failure (Pass R D) (Option Triple)) next := by
  intro p p' mirrors
  obtain ⟨first, agenda⟩ := mirrors.agenda.next
  exact .ends first.symm { mirrors with agenda }

variable (mirroring : Engine.Mirroring n rel) {c c' : CompiledRules} [TripleSource R]
  [TripleSink D]
include mirroring

theorem work_lockstep (renamed : c.Renamed n c') (t : Triple) :
    Step.Lockstep (Mirrors n rel) Eq
      (work c t : Step Failure (Pass R D) (List Triple)) (work c' t) := by
  rw [mirrors_eq]
  exact work_abreast mirroring growAlike_eq renamed t

theorem settle_lockstep (renamed : c.Renamed n c') (limit : Nat) :
    Step.Lockstep (Mirrors n rel) Eq
      (settle c limit : Step Failure (Pass R D) (List Triple)) (settle c' limit) := by
  induction limit with
  | zero => exact Step.lockstep_pure rfl
  | succ limit ih =>
    apply next_lockstep.bind_eq
    intro first
    cases first with
    | none => exact Step.lockstep_pure rfl
    | some t =>
      refine (modifyEngine_lockstep fun _ _ related =>
        mirroring.traceRecord related _ _).bind_eq fun _ => ?_
      apply (work_lockstep mirroring renamed t).discard.bind_eq
      intro _
      exact ih.bind_eq fun _ => Step.lockstep_pure rfl

theorem settleAll_lockstep (renamed : c.Renamed n c') :
    Step.Lockstep (Mirrors n rel) Eq
      (settleAll c : Step Failure (Pass R D) (List Triple)) (settleAll c') := by
  apply Step.lockstep_get.bind
  intro p p' mirrors
  rw [mirrors.agenda.size]
  exact settle_lockstep mirroring renamed _

end Pass

namespace Engine

section
variable {R D α : Type} {n : Renaming} {rel : Engine R D → Engine R D → Prop}

theorem pass_lockstep {m m' : Step Failure (Pass R D) α}
    (first : m.Lockstep (Pass.Mirrors n rel) Eq m') : Step.Lockstep rel Eq (pass m) (pass m') :=
  first.within id (fun _ _ engine => ⟨engine, Agenda.mirrors_fresh [] []⟩)
    fun _ _ _ _ _ mirrors => mirrors.engine

variable (mirroring : Mirroring n rel) [TripleSink D]
include mirroring

theorem delete_lockstep (t : Triple) :
    Step.Lockstep rel Eq (delete t : Step Failure (Engine R D) Unit) (delete t) :=
  (onGraph_lockstep mirroring _).bind_eq fun _ =>
    Step.lockstep_modify fun _ _ related => mirroring.report related _ _

theorem assertHead_lockstep {id : RuleId} (stays : n.stays id) (r : Rule) (t : Triple) :
    Step.Lockstep (Pass.Mirrors n rel) Eq
      (assertHead id r t : Step Failure (Pass R D) Unit)
      (assertHead (n.number id) (n.reword r) t) := by
  apply (Pass.onEngine_lockstep (onGraph_lockstep mirroring _)).bind_eq
  intro added
  cases added with
  | false => exact Pass.enqueue_lockstep t
  | true =>
    refine (Pass.modifyEngine_lockstep fun e e' related => ?_).bind_eq fun _ =>
      Pass.enqueue_lockstep t
    exact mirroring.derivation related stays

theorem assertAxiom_lockstep {id : RuleId} (stays : n.stays id) (r : Rule) :
    Step.Lockstep (Pass.Mirrors n rel) Eq
      (assertAxiom id r : Step Failure (Pass R D) Unit)
      (assertAxiom (n.number id) (n.reword r)) := by
  apply (Step.lockstep_ofExcept _ _).bind_eq
  intro heads
  exact (Pass.modifyEngine_lockstep fun _ _ => mirroring.firing).bind_eq fun _ =>
    Step.lockstep_forM fun t _ => assertHead_lockstep mirroring stays r t

variable [TripleSource R]

theorem assertAxioms_lockstep :
    Step.Lockstep rel Eq
      (assertAxioms : Step Failure (Engine R D) (List Triple)) assertAxioms := by
  apply mirroring.required.bind
  intro c c' renamed
  have axioms : c'.active.filter (·.2.isAxiom) = (c.active.filter (·.2.isAxiom)).map
      fun rule => (n.number rule.1, n.reword rule.2) := by
    rw [renamed.active, List.filter_map]
    rfl
  refine (pass_lockstep (n := n) ?_).bind_eq fun worked => ?_
  · rw [axioms]
    refine (Step.lockstep_forM_map fun rule mem => ?_).bind_eq fun _ =>
      Pass.settleAll_lockstep mirroring renamed
    have stays := renamed.stays_of_active rule (List.mem_of_mem_filter mem)
    exact assertAxiom_lockstep mirroring stays rule.2
  · refine (Step.lockstep_modify fun e e' related => ?_).bind_eq fun _ => Step.lockstep_pure rfl
    exact mirroring.phase (mirroring.axiomsDone related true) .axiomsProcessed

theorem load_lockstep :
    Step.Lockstep rel Eq (load : Step Failure (Engine R D) (List Triple)) load := by
  have ready (worked : List Triple) :
      Step.Lockstep rel Eq
        (do modify fun e => { e with phase := .ready }; return worked :
          Step Failure (Engine R D) (List Triple))
        (do modify fun e => { e with phase := .ready }; return worked) :=
    (Step.lockstep_modify fun _ _ related => mirroring.phase related .ready).bind_eq fun _ =>
      Step.lockstep_pure rfl
  apply mirroring.required.bind
  intro c c' renamed
  have scans : (scan c' : Step StoreError R (List Triple)) = scan c := by
    rw [scan, scan, renamed.predicatesUsed]
  rw [scans]
  apply (onGraph_lockstep mirroring _).bind_eq
  intro found
  cases found with
  | none => exact ready []
  | some facts =>
    refine (Step.lockstep_modify fun _ _ related =>
      mirroring.report related _ _).bind_eq fun _ => ?_
    refine (pass_lockstep (n := n) ?_).bind_eq ready
    refine (Step.lockstep_modify fun p p' mirrors => ?_).bind_eq fun _ =>
      Pass.settleAll_lockstep mirroring renamed
    exact { mirrors with agenda := mirrors.agenda.enqueueAll facts }

theorem init_lockstep {ignoreBackward ignoreBackward' : Bool}
    (compiling : Step.Lockstep rel Eq (ensureCompiled ignoreBackward)
      (ensureCompiled ignoreBackward')) :
    Step.Lockstep rel Eq (init ignoreBackward : Step Failure (Engine R D) Unit)
      (init ignoreBackward') := by
  refine Step.Lockstep.onFailure ?_ fun e e' related =>
    mirroring.axiomsDone (mirroring.phase related .uninitialized) false
  apply compiling.bind_eq
  intro _
  apply (assertAxioms_lockstep mirroring).discard.bind_eq
  intro _
  apply Step.lockstep_get.bind
  intro e e' related
  rw [mirroring.axiomFirings_eq related]
  refine (Step.lockstep_set ?_).bind_eq fun _ => (load_lockstep mirroring).discard
  exact mirroring.report (mirroring.noting related _) _ _

theorem applyOnce_lockstep (t : Triple) :
    Step.Lockstep rel Eq
      (applyOnce t : Step Failure (Engine R D) (List Triple)) (applyOnce t) :=
  mirroring.required.bind fun _ _ renamed =>
    pass_lockstep (Pass.work_lockstep mirroring renamed t)

end

theorem add_lockstep {R D : Type} [TripleSink R] [EmptyCollection R] [TripleSink D]
    {n : Renaming} {rel : Engine R D → Engine R D → Prop} (mirroring : Mirroring n rel)
    (t : Triple) :
    Step.Lockstep rel Eq (add t : Step Failure (Engine R D) (List Triple)) (add t) := by
  apply mirroring.required.bind
  intro c c' renamed
  have rest : Step.Lockstep rel Eq
      (pass (Pass.enqueue t >>= fun _ => Pass.settleAll c) :
        Step Failure (Engine R D) (List Triple))
      (pass (Pass.enqueue t >>= fun _ => Pass.settleAll c')) :=
    pass_lockstep ((Pass.enqueue_lockstep t).bind_eq fun _ =>
      Pass.settleAll_lockstep mirroring renamed)
  apply (onGraph_lockstep mirroring _).bind_eq
  intro known
  cases known with
  | true => exact rest
  | false => exact (onGraph_lockstep mirroring _).discard.bind_eq fun _ => rest

end Engine
end TripleInference
