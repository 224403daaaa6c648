import TripleInference.Proofs.Engine.Consequence
import TripleInference.Proofs.Engine.Setup

/-!
What a pass makes of one triple. The body matches that the triple takes part in are found before
any of them fires; their conclusions that are not known yet are then asserted, each of them once.
-/
namespace TripleInference

def Engine.Aborts (R D : Type) [TripleSource R] [LawfulSource R] [TripleSource D] [LawfulSource D]
    (failure : Failure) (e : Engine R D) : Prop :=
  InferenceGraph.MayFail R D ∧ failure.OfStore ∧ e.graph.Sound

theorem Engine.not_aborts (failure : Failure) (e : Engine FactIndex FactIndex) :
    ¬ Engine.Aborts FactIndex FactIndex failure e := by
  rintro ⟨inRaw | inDeductions, -⟩
  · exact inRaw
  · exact inDeductions

namespace Pass

def Aborts (R D : Type) [TripleSource R] [LawfulSource R] [TripleSource D] [LawfulSource D]
    (failure : Failure) (p : Pass R D) : Prop := Engine.Aborts R D failure p.engine

theorem not_aborts (failure : Failure) (p : Pass FactIndex FactIndex) :
    ¬ Aborts FactIndex FactIndex failure p := Engine.not_aborts failure p.engine

variable {R D : Type} [TripleSource R] [LawfulSource R] [TripleSink D] [LawfulSink D]

structure Grows (p p' : Pass R D) (new : List Triple) : Prop where
  sound : p'.engine.graph.Sound
  hasRaw : p'.engine.graph.raw.isSome = p.engine.graph.raw.isSome
  rawFacts : p'.engine.graph.rawFacts = p.engine.graph.rawFacts
  deduced : p'.engine.graph.deduced = {t | t ∈ new} ∪ p.engine.graph.deduced
  nodup : new.Nodup
  fresh : ∀ t ∈ new, t ∉ p.engine.graph.known
  compiled : p'.engine.compiled = p.engine.compiled

/-- The pass goes on to assert those of the wanted facts that are not known: it deduces them and
puts them on its agenda. -/
structure Adds (p p' : Pass R D) (wanted : Set Triple) (new : List Triple) : Prop
    extends Grows p p' new where
  pending : p'.agenda.pending = p.agenda.pending ++ new
  mem_iff : ∀ t, t ∈ new ↔ t ∈ wanted ∧ t ∉ p.engine.graph.known

section
variable {p p' p'' : Pass R D} {wanted wanted' : Set Triple} {new new' : List Triple}

theorem Grows.known (grows : Grows p p' new) :
    p'.engine.graph.known = {t | t ∈ new} ∪ p.engine.graph.known := by
  rw [InferenceGraph.known, grows.rawFacts, grows.deduced, InferenceGraph.known,
    Set.union_left_comm]

theorem Grows.subset (grows : Grows p p' new) : p.engine.graph.known ⊆ p'.engine.graph.known := by
  rw [grows.known]
  exact Set.subset_union_right

theorem Grows.trans (first : Grows p p' new) (later : Grows p' p'' new') :
    Grows p p'' (new ++ new') where
  sound := later.sound
  hasRaw := later.hasRaw.trans first.hasRaw
  rawFacts := later.rawFacts.trans first.rawFacts
  deduced := by
    rw [later.deduced, first.deduced]
    ext t
    simp only [Set.mem_union, Set.mem_ofPred_eq, List.mem_append]
    tauto
  nodup := by
    rw [List.nodup_append]
    refine ⟨first.nodup, later.nodup, fun t mem u mem' same => ?_⟩
    have unknown := later.fresh u mem'
    rw [first.known, ← same] at unknown
    exact unknown (Or.inl mem)
  fresh t mem := by
    rcases List.mem_append.mp mem with mem | mem
    · exact first.fresh t mem
    · exact fun old => later.fresh t mem (first.subset old)
  compiled := later.compiled.trans first.compiled

theorem grows_nothing (same : InferenceGraph.Same p.engine.graph p'.engine.graph)
    (compiled : p'.engine.compiled = p.engine.compiled) : Grows p p' [] where
  sound := same.sound
  hasRaw := same.hasRaw
  rawFacts := same.rawFacts
  deduced := by simp [same.deduced]
  nodup := List.nodup_nil
  fresh t mem := by cases mem
  compiled := compiled

theorem Grows.same (grows : Grows p p' []) :
    InferenceGraph.Same p.engine.graph p'.engine.graph where
  hasRaw := grows.hasRaw
  rawFacts := grows.rawFacts
  deduced := by simpa using grows.deduced
  sound := grows.sound

theorem Adds.known_wanted (adds : Adds p p' wanted new) :
    p'.engine.graph.known = wanted ∪ p.engine.graph.known := by
  rw [adds.known]
  ext t
  simp only [Set.mem_union, Set.mem_ofPred_eq, adds.mem_iff]
  by_cases old : t ∈ p.engine.graph.known <;> simp [old]

theorem Adds.congr (adds : Adds p p' wanted new)
    (same : ∀ t, t ∉ p.engine.graph.known → (t ∈ wanted ↔ t ∈ wanted')) :
    Adds p p' wanted' new := by
  refine ⟨adds.toGrows, adds.pending, fun t => ?_⟩
  rw [adds.mem_iff]
  exact and_congr_left fun unknown => same t unknown

theorem Adds.trans (first : Adds p p' wanted new) (later : Adds p' p'' wanted' new') :
    Adds p p'' (wanted ∪ wanted') (new ++ new') where
  toGrows := first.toGrows.trans later.toGrows
  pending := by rw [later.pending, first.pending, List.append_assoc]
  mem_iff t := by
    rw [List.mem_append, first.mem_iff, later.mem_iff, first.known_wanted]
    by_cases old : t ∈ p.engine.graph.known <;> by_cases here : t ∈ wanted <;> simp [old, here]

theorem adds_nothing (same : InferenceGraph.Same p.engine.graph p'.engine.graph)
    (pending : p'.agenda.pending = p.agenda.pending)
    (compiled : p'.engine.compiled = p.engine.compiled) : Adds p p' ∅ [] where
  toGrows := grows_nothing same compiled
  pending := by simp [pending]
  mem_iff t := by simp

theorem adds_one {t : Triple} {g h : InferenceGraph R D}
    (same : InferenceGraph.Same p.engine.graph g) (unknown : t ∉ p.engine.graph.known)
    (deduces : InferenceGraph.Deduces {t} g h) (graph : p'.engine.graph = h)
    (pending : p'.agenda.pending = p.agenda.pending ++ [t])
    (compiled : p'.engine.compiled = p.engine.compiled) : Adds p p' {t} [t] := by
  subst graph
  have fresh : ∀ u ∈ [t], u ∉ p.engine.graph.known := List.forall_mem_singleton.mpr unknown
  refine ⟨⟨deduces.sound, deduces.hasRaw.trans same.hasRaw, deduces.rawFacts.trans same.rawFacts,
    ?_, List.pairwise_singleton _ t, fresh, compiled⟩, pending, fun u => ?_⟩
  · rw [deduces.deduced, same.deduced]
    ext u
    simp
  · exact ⟨fun here => ⟨List.mem_singleton.mp here, fresh u here⟩,
      fun here => List.mem_singleton.mpr here.1⟩

end

omit [TripleSource R] [LawfulSource R] [TripleSink D] [LawfulSink D] in
theorem onGraph_ends {α : Type} {m : Step StoreError (InferenceGraph R D) α} {p : Pass R D}
    {good : α → Pass R D → Prop} {bad : Failure → Pass R D → Prop} :
    (onEngine (Engine.onGraph m)).Ends p good bad ↔ m.Ends p.engine.graph
      (fun a graph => good a { p with engine := { p.engine with graph } })
      (fun e graph => bad (.store e) { p with engine := { p.engine with graph } }) := by
  rw [onEngine, Step.ends_within, Engine.onGraph, Step.ends_within]
  rfl

theorem conclude_ends (r : Rule) (a : BodyMatch) (trigger : Option Triple) (ts : List Triple)
    {p : Pass R D} (sound : p.engine.graph.Sound) :
    (conclude r a trigger ts).Ends p (fun new p' => Adds p p' {t | t ∈ ts} new) (Aborts R D) := by
  induction ts generalizing p with
  | nil =>
    rw [conclude, Step.ends_pure]
    exact (adds_nothing (.refl sound) rfl rfl).congr (by simp)
  | cons t rest ih =>
    rw [conclude, Step.ends_bind, onGraph_ends]
    refine (InferenceGraph.contains_ends sound t).mono ?_ ?_
    · intro found graph ⟨found_iff, same⟩
      have read : Adds p { p with engine := { p.engine with graph } } ∅ [] :=
        adds_nothing same rfl rfl
      split
      · rename_i yes
        apply (ih same.sound).imp
        intro new p' adds
        refine (read.trans adds).congr fun u unknown => ?_
        -- a known conclusion is not asserted again, so leaving it out makes no difference
        have differs : u ≠ t := by
          rintro rfl
          exact unknown (found_iff.mp yes)
        simp [differs]
      · rename_i no
        have unknown : t ∉ p.engine.graph.known := fun mem => no (found_iff.mpr mem)
        rw [Step.ends_bind, Step.ends_discard, onGraph_ends]
        refine (InferenceGraph.add_ends same.sound t).mono ?_ ?_
        · intro added graph' ⟨_, deduces⟩
          rw [enqueue, Step.ends_bind, Step.ends_modify, modifyEngine, Step.ends_bind,
            Step.ends_modify, Step.ends_bind]
          apply (ih (by simpa using deduces.sound)).imp
          intro new p' adds
          rw [Step.ends_pure]
          refine ((adds_one same unknown deduces (by simp) (Agenda.pending_enqueue _ t)
            (by simp)).trans adds).congr fun u _ => ?_
          simp
        · exact fun e graph' ⟨failed, same'⟩ => ⟨failed, ⟨e, rfl⟩, same'.sound⟩
    · exact fun e graph ⟨failed, same⟩ => ⟨failed, ⟨e, rfl⟩, same.sound⟩

def Concludes (c : CompiledRules) (a : BodyMatch) (u : Triple) : Prop :=
  ∃ r, c.rule? a.rule = some r ∧ r.Concludes a.bindings.get? u

def Ready (c : CompiledRules) (a : BodyMatch) : Prop :=
  ∃ r heads, c.rule? a.rule = some r ∧ r.instantiate a.bindings = .ok heads ∧
    ∀ u, u ∈ heads ↔ r.Concludes a.bindings.get? u

theorem countFiring_ends {rule : RuleId} {r : Rule} {trigger : Option Triple} {p : Pass R D}
    (sound : p.engine.graph.Sound) :
    (countFiring rule r trigger).Ends p (fun _ p' => Adds p p' ∅ []) (Aborts R D) := by
  rw [countFiring, Step.ends_modify]
  unfold Agenda.noteFired
  split
  · rename_i agenda counted
    split at counted
    · cases counted
    · cases counted
      exact adds_nothing (by simpa using .refl sound) rfl (by simp)
  · rename_i agenda counted
    split at counted
    · cases counted
      exact adds_nothing (.refl sound) rfl rfl
    · cases counted

theorem fire_ends {c : CompiledRules} {a : BodyMatch} (ready : Ready c a) (trigger : Option Triple)
    {p : Pass R D} (sound : p.engine.graph.Sound) :
    (fire c trigger a).Ends p (fun new p' => Adds p p' {u | Concludes c a u} new)
      (Aborts R D) := by
  obtain ⟨r, heads, numbered, instances, mem_iff⟩ := ready
  rw [fire, numbered]
  simp only []
  rw [Step.ends_bind, Step.ends_ofExcept, instances]
  simp only []
  rw [Step.ends_bind]
  apply (countFiring_ends sound).imp
  intro _ p' counted
  apply (conclude_ends r a trigger heads counted.sound).imp
  intro new p'' adds
  refine (counted.trans adds).congr fun u _ => ?_
  have concludes_iff : Concludes c a u ↔ r.Concludes a.bindings.get? u := by
    constructor
    · rintro ⟨r', numbered', concludes⟩
      obtain rfl : r = r' := Option.some.inj (numbered.symm.trans numbered')
      exact concludes
    · exact fun concludes => ⟨r, numbered, concludes⟩
  simp [mem_iff, concludes_iff]

theorem fireAll_ends {c : CompiledRules} {ms : List BodyMatch} (ready : ∀ a ∈ ms, Ready c a)
    (trigger : Option Triple) {p : Pass R D} (sound : p.engine.graph.Sound) :
    (fireAll c trigger ms).Ends p (fun new p' => Adds p p' {u | ∃ a ∈ ms, Concludes c a u} new)
      (Aborts R D) := by
  induction ms generalizing p with
  | nil =>
    rw [fireAll, Step.ends_pure]
    exact (adds_nothing (.refl sound) rfl rfl).congr (by simp)
  | cons a rest ih =>
    rw [fireAll, Step.ends_bind]
    apply (fire_ends (ready a List.mem_cons_self) trigger sound).imp
    intro new p' first
    rw [Step.ends_bind]
    apply (ih (fun b mem => ready b (List.mem_cons_of_mem _ mem)) first.sound).imp
    intro new' p'' later
    rw [Step.ends_pure]
    exact (first.trans later).congr fun u _ => by simp

omit [TripleSink D] [LawfulSink D] in
theorem graph_reads [TripleSource D] [LawfulSource D] (g : InferenceGraph R D) :
    Reads (InferenceGraph.Same g) g.known g.known (InferenceGraph.MayFail R D) := by
  intro h same l
  refine (InferenceGraph.find_ends same.sound l).mono ?_ ?_
  · intro ts h' ⟨answered, same'⟩
    rw [same.known] at answered
    refine ⟨same.trans same', fun t mem => ((answered.mem_iff t).mp mem).1, ?_⟩
    exact fun t mem fits => (answered.mem_iff t).mpr ⟨mem, fits⟩
  · exact fun _ h' ⟨failed, same'⟩ => ⟨same.trans same', failed⟩

/-- The body matches of a triple are found without changing anything. Each is a match at one of the
filters that the triple is offered to, and none of these is missing if the memory was empty. -/
theorem matchTriple_yields {c : CompiledRules} (compiled : c.Compiled) (t : Triple) {p : Pass R D}
    (sound : p.engine.graph.Sound) :
    (matchTriple c t).Ends p
      (fun ms p' => Adds p p' ∅ [] ∧
        (∀ a ∈ ms, ∃ pos, c.Yields p.engine.graph.known (t, pos) a.rule a.bindings.values) ∧
        (p.agenda.memory = ∅ → ∀ pos ∈ c.table.candidates t.predicate, ∀ rule values,
          c.Yields p.engine.graph.known (t, pos) rule values →
            ∃ a ∈ ms, a.rule = rule ∧ a.bindings.values = values))
      (fun failure p' => Aborts R D failure p' ∧
        InferenceGraph.Same p.engine.graph p'.engine.graph) := by
  rw [matchTriple, Step.ends_within]
  refine (Descent.offerAll_ends compiled (graph_reads p.engine.graph) t
    (InferenceGraph.Same.refl sound)).mono ?_ ?_
  · rintro ms d ⟨same, rfl, offered⟩
    obtain ⟨new, appended, fromCalls⟩ := offered.sound
    refine ⟨adds_nothing same rfl rfl, fun a mem => ?_,
      fun empty pos candidate => offered.complete (Descent.settled_of_empty empty) (t, pos)
        (List.mem_map_of_mem candidate)⟩
    rw [appended] at mem
    obtain ⟨call, listed, yields⟩ := fromCalls a mem
    obtain ⟨pos, -, rfl⟩ := List.mem_map.mp listed
    exact ⟨pos, yields⟩
  · exact fun e d ⟨same, failed, ofStore⟩ => ⟨⟨failed, ofStore, same.sound⟩, same⟩

theorem matchTriple_ends {c : CompiledRules} (compiled : c.Compiled) (t : Triple) {p : Pass R D}
    (sound : p.engine.graph.Sound) :
    (matchTriple c t).Ends p
      (fun ms p' => Adds p p' ∅ [] ∧ (∀ a ∈ ms, Ready c a) ∧
        (∀ u, (∃ a ∈ ms, Concludes c a u) → c.Derives p.engine.graph.known t u) ∧
        (p.agenda.memory = ∅ →
          ∀ u, c.Derives p.engine.graph.known t u → ∃ a ∈ ms, Concludes c a u))
      (Aborts R D) := by
  refine (matchTriple_yields compiled t sound).mono ?_ fun _ _ failed => failed.1
  intro ms p' ⟨adds, yielded, complete⟩
  refine ⟨adds, fun a mem => ?_, ?_, ?_⟩
  · obtain ⟨pos, yields⟩ := yielded a mem
    exact compiled.instantiate_of_yields yields
  · rintro u ⟨a, mem, r', numbered, concludes⟩
    obtain ⟨pos, yields⟩ := yielded a mem
    obtain ⟨r, f, active, -, matched⟩ := compiled.yields yields
    obtain rfl : r = r' := Option.some.inj ((compiled.numbered _ active).symm.trans numbered)
    exact ⟨(a.rule, r), active, f.clause, a.bindings.values, matched, concludes⟩
  · rintro empty u ⟨rule, active, k, values, matched, concludes⟩
    obtain ⟨pos, candidate, yields⟩ := compiled.yields_of_matchedAt active matched
    obtain ⟨a, mem, number, rfl⟩ := complete empty pos candidate rule.1 values yields
    exact ⟨a, mem, rule.2, number ▸ compiled.numbered rule active, concludes⟩

theorem work_ends {c : CompiledRules} (compiled : c.Compiled) (t : Triple) {p : Pass R D}
    (sound : p.engine.graph.Sound) (fresh : p.agenda.memory = ∅) :
    (work c t).Ends p
      (fun new p' => Adds p p' {u | c.Derives p.engine.graph.known t u} new) (Aborts R D) := by
  rw [work, Step.ends_bind]
  apply (matchTriple_ends compiled t sound).imp
  intro ms p' ⟨read, ready, derived, complete⟩
  apply (fireAll_ends ready (some t) read.sound).imp
  intro new p'' adds
  refine (read.trans adds).congr fun u _ => ?_
  rw [Set.mem_union, Set.mem_ofPred_eq, Set.mem_ofPred_eq]
  constructor
  · rintro (none | concludes)
    · exact absurd none (Set.notMem_empty u)
    · exact derived u concludes
  · exact fun derives => Or.inr (complete fresh u derives)

end Pass
end TripleInference
