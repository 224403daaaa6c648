import TripleInference.Proofs.Engine.Calls
import TripleInference.Proofs.Engine.Mirroring

/-!
Single steps. One of them deduces a single round of consequences of its triple. The addition of a
known fact comes to the same as many of them, where the owner of the engine keeps the queue, applies
the rules to its first triple and appends what that deduces. A single step begins with an empty
agenda, whereas the addition works off one agenda from beginning to end; but the work on a triple
finds neither rules counted nor matches remembered from the triple before, and does not look at what
is pending.
-/
namespace TripleInference

namespace Engine

section
variable {R D : Type} {e e' : Engine R D}

def JournalApart (e e' : Engine R D) : Prop := ∃ journal, e' = { e with journal }

theorem JournalApart.refl (e : Engine R D) : e.JournalApart e := ⟨e.journal, rfl⟩

theorem JournalApart.compiled (apart : e.JournalApart e') : e'.compiled = e.compiled := by
  obtain ⟨journal, rfl⟩ := apart
  rfl

theorem apart_traceRecord (e : Engine R D) (r : LogRecord) :
    (e.traceRecord r).JournalApart e := by
  unfold traceRecord
  split
  · exact ⟨e.journal, rfl⟩
  · exact .refl e

theorem JournalApart.trans {e'' : Engine R D} (first : e.JournalApart e')
    (later : e'.JournalApart e'') : e.JournalApart e'' := by
  obtain ⟨_, rfl⟩ := first
  obtain ⟨journal, rfl⟩ := later
  exact ⟨journal, rfl⟩

theorem mirroring_journalApart : Mirroring .refl (JournalApart (R := R) (D := D)) where
  graph_eq := by rintro e _ ⟨journal, rfl⟩; rfl
  axiomFirings_eq := by rintro e _ ⟨journal, rfl⟩; rfl
  required := requireCompiled_lockstep JournalApart.compiled
  graph := by rintro e _ ⟨journal, rfl⟩ g; exact ⟨journal, rfl⟩
  journal := by rintro e _ ⟨_, rfl⟩ j j'; exact ⟨j', rfl⟩
  derivation := by
    rintro e _ ⟨journal, rfl⟩ d -
    unfold recordDerivation
    split
    · exact ⟨journal, rfl⟩
    · exact ⟨journal, rfl⟩
  firing := by rintro e _ ⟨journal, rfl⟩; exact ⟨journal, rfl⟩
  noting := by rintro e _ ⟨journal, rfl⟩ firings; exact ⟨journal, rfl⟩
  phase := by rintro e _ ⟨journal, rfl⟩ phase; exact ⟨journal, rfl⟩
  axiomsDone := by rintro e _ ⟨journal, rfl⟩ axiomsDone; exact ⟨journal, rfl⟩

variable [TripleSource R] [TripleSink D]

/-- The first triple of the queue is taken, the rules are applied to it once, and what that deduces
is appended, until the queue is empty. These triples are taken in this order. -/
inductive Drains : Engine R D → List Triple → List Triple → Engine R D → Prop where
  | done (e : Engine R D) : Drains e [] [] e
  | step {e e₁ e' : Engine R D} {t : Triple} {queue deduced taken : List Triple}
      (applied : (applyOnce t).outcome e = (.ok deduced, e₁))
      (rest : Drains e₁ (queue ++ deduced) taken e') : Drains e (t :: queue) (t :: taken) e'

theorem Drains.unique {e e' e'' : Engine R D} {queue taken taken' : List Triple}
    (drains : Drains e queue taken e') (other : Drains e queue taken' e'') :
    taken' = taken ∧ e'' = e' := by
  induction drains generalizing taken' e'' with
  | done e =>
    cases other
    exact ⟨rfl, rfl⟩
  | step applied rest ih =>
    cases other with
    | step applied' rest' =>
      cases applied.symm.trans applied'
      obtain ⟨rfl, rfl⟩ := ih rest'
      exact ⟨rfl, rfl⟩

theorem applyOnce_outcome {c : CompiledRules} (installed : e.compiled = some c) (t : Triple) :
    (applyOnce t).outcome e =
      (((Pass.work c t).outcome ⟨e, ∅⟩).1, ((Pass.work c t).outcome ⟨e, ∅⟩).2.engine) := by
  rw [applyOnce, Step.outcome_bind, requireCompiled_outcome installed]
  simp only [pass, Step.outcome_within]
  rcases (Pass.work c t).outcome (⟨e, ∅⟩ : Pass R D) with ⟨_ | new, p⟩ <;> rfl

end

end Engine

namespace Pass

variable {R D : Type} [TripleSource R] [TripleSink D] {c : CompiledRules} {p : Pass R D}
  {e : Engine R D}

/-- The work on a triple that comes off an agenda is a single step, whatever is pending. -/
theorem work_applies (t : Triple) (memory : p.agenda.memory = ∅) (fired : p.agenda.fired = ∅)
    (apart : p.engine.JournalApart e) (installed : p.engine.compiled = some c) :
    (work c t).Ends p
      (fun new p' => ∃ e', (Engine.applyOnce t).outcome e = (.ok new, e') ∧
        p'.engine.JournalApart e') fun _ _ => True := by
  -- the single step has another queue, and nothing else of its agenda is different
  have abreast : Abreast .refl Engine.JournalApart (fun _ _ => True) p ⟨e, ∅⟩ :=
    ⟨apart, ⟨memory.symm, fun id _ => by rw [fired]; rfl⟩, trivial⟩
  have together := work_abreast Engine.mirroring_journalApart (fun _ _ => trivial)
    (CompiledRules.renamed_refl c) t p ⟨e, ∅⟩ abreast
  rw [Engine.applyOnce_outcome (apart.compiled.trans installed)]
  unfold Step.Ends
  generalize (work c t).outcome p = here at together ⊢
  generalize (work c t).outcome ⟨e, ∅⟩ = there at together ⊢
  cases together with
  | ends same related =>
    subst same
    exact ⟨_, rfl, related.engine⟩
  | fails related => trivial

variable [LawfulSource R] [LawfulSink D]

theorem settle_drains (compiled : c.Compiled) (limit : Nat) (sound : p.engine.graph.Sound)
    (installed : p.engine.compiled = some c) (apart : p.engine.JournalApart e) :
    (settle c limit).Ends p
      (fun worked p' => p'.agenda.pending = [] →
        ∃ e', e.Drains p.agenda.pending worked e' ∧ p'.engine.JournalApart e')
      fun _ _ => True := by
  induction limit generalizing p e with
  | zero =>
    intro done
    rw [done]
    exact ⟨e, .done e, apart⟩
  | succ limit ih =>
    cases pending : p.agenda.pending with
    | nil => exact (settle_ends_nil pending).mpr fun _ => ⟨e, .done e, apart⟩
    | cons t tail =>
      let p₁ : Pass R D := ⟨p.engine.traceRecord (.processing t), p.agenda.next.2⟩
      have step := work_applies (p := p₁) t p.agenda.next_forgets.1 p.agenda.next_forgets.2
        ((Engine.apart_traceRecord _ _).trans apart)
        ((Engine.compiled_traceRecord _ _).trans installed)
      rw [settle_ends_cons pending]
      refine ((work_next_ends compiled sound pending).and step).mono ?_ fun _ _ _ => trivial
      rintro new p₂ ⟨works, e₁, applied, apart₁⟩
      -- the pass puts deductions behind what is pending, as a drain does
      have queue : p₂.agenda.pending = tail ++ new := by
        rw [works.adds.pending]
        exact congrArg (· ++ new) (List.cons.inj (works.pending.symm.trans pending)).2
      refine (ih works.adds.sound (works.grows.compiled.trans installed) apart₁).imp ?_
      intro worked p₃ later done
      obtain ⟨e', drains, apart'⟩ := later done
      rw [queue] at drains
      exact ⟨e', .step applied drains, apart'⟩

theorem settleAll_drains (compiled : c.Compiled) (sound : p.engine.graph.Sound)
    (installed : p.engine.compiled = some c) (apart : p.engine.JournalApart e) :
    (settleAll c).Ends p
      (fun worked p' => ∃ e', e.Drains p.agenda.pending worked e' ∧ p'.engine.JournalApart e')
      (Aborts R D) := by
  have along : (settleAll c).Ends p
      (fun worked p' => p'.agenda.pending = [] →
        ∃ e', e.Drains p.agenda.pending worked e' ∧ p'.engine.JournalApart e')
      fun _ _ => True := by
    rw [settleAll, Step.ends_bind, Step.ends_get]
    exact settle_drains compiled _ sound installed apart
  refine ((settleAll_ends compiled sound).and along).mono ?_ fun _ _ failed => failed.1
  rintro worked p' ⟨⟨done, -⟩, drains⟩
  exact drains done

end Pass

namespace Engine

/-- A single step in memory does not fail. It returns, each once, the unknown facts that an instance
of an active rule concludes when the triple matches a clause and facts of the graph as it was match
all others; these are deduced. The triple counts among those facts only if it is stored. -/
theorem single_step_deduces_one_round {rules : List Rule} {ignoreBackward : Bool}
    {c : CompiledRules} (compiles : CompiledRules.compile rules ignoreBackward = .ok c)
    {e : Engine FactIndex FactIndex} (installed : e.compiled = some c) (sound : e.graph.Sound)
    (t : Triple) :
    ∃ new e', (applyOnce t).outcome e = (.ok new, e') ∧ new.Nodup ∧
      (∀ u, u ∈ new ↔ c.FollowsFrom e.graph.known t u ∧ u ∉ e.graph.known) ∧
      e'.graph.deduced = {u | u ∈ new} ∪ e.graph.deduced ∧
      e'.graph.rawFacts = e.graph.rawFacts ∧ e'.graph.raw.isSome = e.graph.raw.isSome := by
  have compiled := CompiledRules.compiled_of_compile compiles
  obtain ⟨new, e', run, p, adds, rfl⟩ :=
    (applyOnce_ends compiled t installed sound).result not_aborts
  refine ⟨new, p.engine, run, adds.nodup, fun u => ?_, adds.deduced, adds.rawFacts, adds.hasRaw⟩
  rw [adds.mem_iff, Set.mem_ofPred_eq, CompiledRules.derives_iff compiled.wellFormed]

theorem unstored_link_is_joined_once :
    ∃ (c : CompiledRules) (new : List Triple) (e' : Engine FactIndex FactIndex),
      CompiledRules.compile [.transitive 5, .inclusion 5 6] true = .ok c ∧
      (applyOnce ⟨2, 5, 3⟩).outcome (ofCompiled (MemoryGraph.withRaw [⟨1, 5, 2⟩]) c .standard) =
        (.ok new, e') ∧
      new = [⟨1, 5, 3⟩, ⟨2, 6, 3⟩] ∧ e'.graph.deduced = {⟨1, 5, 3⟩, ⟨2, 6, 3⟩} := by
  have wellFormed : ∀ rule ∈ NetworkBuilder.numbered true [.transitive 5, .inclusion 5 6] 0,
      rule.2.check = .ok () := by
    decide +kernel
  obtain ⟨c, compiles⟩ : ∃ c, CompiledRules.compile [.transitive 5, .inclusion 5 6] true = .ok c :=
    ⟨_, CompiledRules.compile_eq_ok.mpr
      ⟨fun rule mem => Rule.check_eq_ok.mp (wellFormed rule mem), rfl⟩⟩
  obtain ⟨sound, -, deduced⟩ := MemoryGraph.withRaw_sound [⟨1, 5, 2⟩]
  have ran : ((applyOnce ⟨2, 5, 3⟩).outcome
      (ofCompiled (MemoryGraph.withRaw [⟨1, 5, 2⟩]) c .standard)).1.toOption =
        some [⟨1, 5, 3⟩, ⟨2, 6, 3⟩] := by
    obtain ⟨-, rfl⟩ := CompiledRules.compile_eq_ok.mp compiles
    decide +kernel
  obtain ⟨new, e', run, -, -, grown, -⟩ := single_step_deduces_one_round compiles
    (e := ofCompiled (MemoryGraph.withRaw [⟨1, 5, 2⟩]) c .standard) rfl sound ⟨2, 5, 3⟩
  rw [run] at ran
  obtain rfl := Option.some.inj ran
  refine ⟨c, _, e', compiles, run, rfl, ?_⟩
  have none : (ofCompiled (MemoryGraph.withRaw [⟨1, 5, 2⟩]) c .standard).graph.deduced = ∅ :=
    deduced
  rw [grown, none, Set.union_empty]
  ext u
  simp

/-- In memory, adding a known fact takes the same triples in the same order as draining a queue that
begins with the fact, and leaves the same behind but for what is reported. -/
theorem adding_a_known_fact_drains_a_queue {rules : List Rule} {ignoreBackward : Bool}
    {c : CompiledRules} (compiles : CompiledRules.compile rules ignoreBackward = .ok c)
    {e : Engine FactIndex FactIndex} (installed : e.compiled = some c) (sound : e.graph.Sound)
    {t : Triple} (known : t ∈ e.graph.known) :
    ∃ worked e', (add t).outcome e = (.ok worked, e') ∧
      (∃ e'', e.Drains [t] worked e'') ∧
      ∀ taken e'', e.Drains [t] taken e'' → taken = worked ∧ ∃ journal, e'' = { e' with journal } := by
  have compiled := CompiledRules.compiled_of_compile compiles
  have adds : (add t).Ends e
      (fun worked e' => ∃ e'', e.Drains [t] worked e'' ∧ e'.JournalApart e'') (Aborts _ _) := by
    rw [add, Step.ends_bind, requireCompiled_ends installed, Step.ends_bind, onGraph_ends]
    refine ((InferenceGraph.contains_ends sound t).and (MemoryGraph.contains_reads e.graph t)).mono ?_
      fun _ _ failed => failed.2.elim
    rintro found _ ⟨⟨found_iff, -⟩, rfl⟩
    rw [if_pos (found_iff.mpr known), pass_ends, Pass.enqueue, Step.ends_bind, Step.ends_modify]
    exact Pass.settleAll_drains compiled sound installed (.refl e)
  obtain ⟨worked, e', run, e'', drains, apart⟩ := adds.result not_aborts
  refine ⟨worked, e', run, ⟨e'', drains⟩, fun taken other drains' => ?_⟩
  obtain ⟨rfl, rfl⟩ := drains.unique drains'
  exact ⟨rfl, apart⟩

theorem middle_link_drains_in_four_steps :
    ∃ (c : CompiledRules) (worked : List Triple) (e e' e'' : Engine FactIndex FactIndex),
      CompiledRules.compile [.transitive 5] true = .ok c ∧
      e = ofCompiled (MemoryGraph.withRaw [⟨1, 5, 2⟩, ⟨2, 5, 3⟩, ⟨3, 5, 4⟩]) c ⟨true, false, true⟩ ∧
      (add ⟨2, 5, 3⟩).outcome e = (.ok worked, e') ∧ e.Drains [⟨2, 5, 3⟩] worked e'' ∧
      worked = [⟨2, 5, 3⟩, ⟨2, 5, 4⟩, ⟨1, 5, 3⟩, ⟨1, 5, 4⟩] ∧
      e''.firings = 3 ∧ e''.derivations.size = 3 := by
  obtain ⟨c, compiles⟩ : ∃ c, CompiledRules.compile [.transitive 5] true = .ok c := ⟨_, rfl⟩
  let e := ofCompiled (MemoryGraph.withRaw [⟨1, 5, 2⟩, ⟨2, 5, 3⟩, ⟨3, 5, 4⟩]) c ⟨true, false, true⟩
  have known : (⟨2, 5, 3⟩ : Triple) ∈
      (MemoryGraph.withRaw [⟨1, 5, 2⟩, ⟨2, 5, 3⟩, ⟨3, 5, 4⟩]).known := by
    decide +kernel
  have ran : ((add ⟨2, 5, 3⟩).outcome e).1.toOption =
        some [⟨2, 5, 3⟩, ⟨2, 5, 4⟩, ⟨1, 5, 3⟩, ⟨1, 5, 4⟩] ∧
      ((add ⟨2, 5, 3⟩).outcome e).2.firings = 3 ∧
      ((add ⟨2, 5, 3⟩).outcome e).2.derivations.size = 3 := by
    obtain ⟨-, rfl⟩ := CompiledRules.compile_eq_ok.mp compiles
    decide +kernel
  obtain ⟨worked, e', run, ⟨e'', drains⟩, same⟩ :=
    adding_a_known_fact_drains_a_queue compiles (e := e) rfl (MemoryGraph.withRaw_sound _).1 known
  rw [run] at ran
  obtain ⟨-, journal, rfl⟩ := same worked e'' drains
  exact ⟨c, worked, e, e', _, compiles, rfl, run, drains, Option.some.inj ran.1, ran.2⟩

end Engine
end TripleInference
