import TripleInference.Proofs.Engine.Calls
import TripleInference.Proofs.Fact.Canonical

/-!
What an addition does to a graph in any state. Nothing is assumed closed beforehand: deletions and
edits by the owner of the graph may have left gaps. The facts that the call works on have met all
that is known at its end; gaps elsewhere stay as they are.
-/
namespace TripleInference

theorem MemoryGraph.sound_of_reachable {g : MemoryGraph} (raw : ∀ x ∈ g.raw, x.Reachable)
    (deductions : g.deductions.Reachable) : g.Sound :=
  ⟨fun x here => (raw x here).canonical.coherent, deductions.canonical.coherent⟩

namespace Engine

section
variable {R D : Type} [TripleSink R] [EmptyCollection R] [LawfulStore R] [TripleSink D]
  [LawfulSink D]

/-- An addition of `t` has worked on `worked`: on `t` itself and on what it deduced. -/
structure Added (c : CompiledRules) (t : Triple) (e e' : Engine R D) (worked : List Triple) :
    Prop where
  sound : e'.graph.Sound
  rawFacts : ∀ u, u ∈ e'.graph.rawFacts ↔ u ∈ e.graph.rawFacts ∨ u = t ∧ t ∉ e.graph.known
  kept : e.graph.deduced ⊆ e'.graph.deduced
  mem_worked : ∀ u, u ∈ worked ↔ u = t ∨ u ∈ e'.graph.deduced \ e.graph.deduced
  fresh : ∀ u ∈ e'.graph.deduced \ e.graph.deduced, u ∉ e.graph.known
  derived : ∀ u ∈ e'.graph.deduced \ e.graph.deduced, c.Follows e'.graph.known {f | f ∈ worked} u
  closed : ∀ u, c.Follows e'.graph.known {f | f ∈ worked} u → u ∈ e'.graph.known

variable {c : CompiledRules} {t : Triple} {e e' : Engine R D} {worked : List Triple}

theorem Added.subset_known (added : Added c t e e' worked) : e.graph.known ⊆ e'.graph.known := by
  apply Set.union_subset_union
  · intro u stored
    exact (added.rawFacts u).mpr (Or.inl stored)
  · exact added.kept

theorem Added.mem_known (added : Added c t e e' worked) : t ∈ e'.graph.known := by
  by_cases old : t ∈ e.graph.known
  · exact added.subset_known old
  · exact Or.inl ((added.rawFacts t).mpr (Or.inr ⟨rfl, old⟩))

theorem Added.known_subset (added : Added c t e e' worked) :
    e'.graph.known ⊆ e.graph.known ∪ {f | f ∈ worked} := by
  intro u known
  by_cases old : u ∈ e.graph.known
  · exact Or.inl old
  · right
    rw [Set.mem_ofPred_eq, added.mem_worked]
    rcases known with stored | deduced
    · rcases (added.rawFacts u).mp stored with before | here
      · exact absurd (Or.inl before) old
      · exact Or.inl here.1
    · exact Or.inr ⟨deduced, fun before => old (Or.inr before)⟩

theorem Added.worked_known (added : Added c t e e' worked) : {f | f ∈ worked} ⊆ e'.graph.known := by
  intro u mem
  rcases (added.mem_worked u).mp mem with rfl | new
  · exact added.mem_known
  · exact Or.inr new.1

theorem added_of_settles (compiled : c.Compiled) {limit : Nat} {g : InferenceGraph R D}
    {p : Pass R D} {new : List Triple} (stores : Stores t e.graph g)
    (settles : Pass.Settles c limit ⟨{ e with graph := g }, (∅ : Agenda).enqueue t⟩ p worked new)
    (done : p.agenda.pending = []) : Added c t e p.engine worked := by
  -- the agenda began with `t` alone, and what was worked on is what it came to hold
  have queue : worked = t :: new := by
    rw [settles.worked_eq done, Agenda.pending_enqueue]
    rfl
  have unknown : ∀ u ∈ new, u ∉ e.graph.known := by
    intro u mem old
    apply settles.fresh u mem
    exact stores.known ▸ Or.inr old
  have deduced : p.engine.graph.deduced = {u | u ∈ new} ∪ e.graph.deduced := by
    rw [settles.deduced, stores.deduced]
  have newly : ∀ u, u ∈ p.engine.graph.deduced \ e.graph.deduced ↔ u ∈ new := by
    intro u
    rw [deduced, Set.mem_sdiff, Set.mem_union]
    constructor
    · exact fun mem => mem.1.resolve_right mem.2
    · exact fun mem => ⟨Or.inl mem, fun old => unknown u mem (Or.inr old)⟩
  have start : ∀ u ∈ ((∅ : Agenda).enqueue t).pending, u ∈ g.known := stores.pending_known
  have known : {f | f ∈ worked} ⊆ p.engine.graph.known := settles.worked_known done start
  constructor
  case sound => exact settles.sound
  case rawFacts =>
    rw [settles.rawFacts]
    exact stores.rawFacts
  case kept =>
    rw [deduced]
    exact Set.subset_union_right
  case mem_worked =>
    intro u
    rw [newly, queue, List.mem_cons]
  case fresh => exact fun u mem => unknown u ((newly u).mp mem)
  case derived =>
    intro u mem
    exact (CompiledRules.follows_iff compiled.wellFormed known).mpr
      (settles.derived u ((newly u).mp mem))
  case closed =>
    intro u follows
    obtain ⟨f, mem, derives⟩ := (CompiledRules.follows_iff compiled.wellFormed known).mp follows
    exact settles.closed start done f mem u derives

theorem add_adds (compiled : c.Compiled) (t : Triple) (installed : e.compiled = some c)
    (sound : e.graph.Sound) :
    (add t).Ends e (fun worked e' => Added c t e e' worked ∧ e'.compiled = some c)
      (Aborts R D) := by
  apply (add_settles compiled t installed sound).imp
  intro worked e' ended
  obtain ⟨g, limit, p, new, stores, settles, done, rfl⟩ := ended
  exact ⟨added_of_settles compiled stores settles done, settles.compiled.trans installed⟩

end

/-- An addition in memory does not fail, whatever state it finds. It works on its fact and on what
it deduces; whatever a rule concludes from a match that one of these takes part in is known at the
end, and each deduced fact is such a conclusion. -/
theorem addition_closes_locally {rules : List Rule} {ignoreBackward : Bool} {c : CompiledRules}
    (compiles : CompiledRules.compile rules ignoreBackward = .ok c)
    {e : Engine FactIndex FactIndex} (installed : e.compiled = some c) (sound : e.graph.Sound)
    (t : Triple) :
    ∃ worked e', (add t).outcome e = (.ok worked, e') ∧ Added c t e e' worked := by
  have compiled := CompiledRules.compiled_of_compile compiles
  obtain ⟨worked, e', run, added, -⟩ := (add_adds compiled t installed sound).result not_aborts
  exact ⟨worked, e', run, added⟩

theorem addition_joins_an_open_chain :
    ∃ c worked e', CompiledRules.compile [.transitive 5] true = .ok c ∧
      (add ⟨3, 5, 4⟩).outcome
        (ofCompiled (MemoryGraph.withRaw [⟨1, 5, 2⟩, ⟨2, 5, 3⟩]) c .standard) = (.ok worked, e') ∧
      ⟨2, 5, 4⟩ ∈ e'.graph.known := by
  obtain ⟨c, compiles⟩ : ∃ c, CompiledRules.compile [.transitive 5] true = .ok c := ⟨_, rfl⟩
  obtain ⟨sound, rawFacts, -⟩ := MemoryGraph.withRaw_sound [⟨1, 5, 2⟩, ⟨2, 5, 3⟩]
  obtain ⟨worked, e', run, added⟩ := addition_closes_locally compiles
    (e := ofCompiled (MemoryGraph.withRaw [⟨1, 5, 2⟩, ⟨2, 5, 3⟩]) c .standard) rfl sound ⟨3, 5, 4⟩
  have active : (0, Rule.transitive 5) ∈ c.active := by
    obtain ⟨-, rfl⟩ := CompiledRules.compile_eq_ok.mp compiles
    exact List.mem_cons_self
  have before : ⟨2, 5, 3⟩ ∈ e'.graph.known :=
    added.subset_known (Or.inl (rawFacts ▸ List.mem_cons_of_mem _ List.mem_cons_self))
  have here : ⟨3, 5, 4⟩ ∈ {f | f ∈ worked} := (added.mem_worked _).mpr (Or.inl rfl)
  exact ⟨c, worked, e', compiles, run, added.closed _
    (CompiledRules.follows_transitive active before added.mem_known here)⟩

end Engine
end TripleInference
