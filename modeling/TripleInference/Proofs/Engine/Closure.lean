import Mathlib.Order.Bounds.Basic
import TripleInference.Proofs.Engine.Calls

/-!
What an engine has come to know by a run of calls: the least set that has the facts it was given
and is closed under its rules.
-/
namespace TripleInference

section
variable {R D : Type} [TripleSource R] [LawfulSource R] [TripleSource D] [LawfulSource D]
  {c : CompiledRules} {g g' : InferenceGraph R D} {handled start : Set Triple}
  {worked : List Triple}

/-- All that the handled facts derive from one another is known, and no deduced fact is yet to be
handled. -/
structure Handles (c : CompiledRules) (g : InferenceGraph R D) (handled : Set Triple) : Prop where
  known : handled ⊆ g.known
  deduced : g.deduced ⊆ handled
  closed : ∀ t ∈ handled, ∀ u, c.Derives handled t u → u ∈ g.known

theorem Handles.advance (handles : Handles c g handled) (advances : Advances c g g' start worked) :
    Handles c g' (handled ∪ {t | t ∈ worked}) := by
  have known : handled ∪ {t | t ∈ worked} ⊆ g'.known :=
    Set.union_subset (handles.known.trans advances.known) advances.workedKnown
  refine ⟨known, ?_, ?_⟩
  · intro t mem
    exact (advances.deduced t mem).imp_left fun before => handles.deduced before
  · intro t mem u derives
    -- a fact worked on just now has met all that is known; the others were handled together
    rcases derives.by_new_or_old mem (Set.Subset.refl _) with ⟨f, new, derives⟩ | old
    · exact advances.closed f new u (derives.mono known)
    · rcases mem with before | new
      · exact advances.known (handles.closed t before u old)
      · exact advances.closed t new u (derives.mono known)

theorem Handles.closedUnder (wellFormed : ∀ rule ∈ c.active, rule.2.WellFormed)
    (handles : Handles c g handled) (heads : c.axiomHeads ⊆ g.known)
    (raw : ∀ t ∈ g.rawFacts, c.Relevant t → t ∈ handled) : c.ClosedUnder g.known := by
  have relevant : ∀ t ∈ g.known, c.Relevant t → t ∈ handled := by
    rintro t (stored | deduced) matched
    · exact raw t stored matched
    · exact handles.deduced deduced
  refine (CompiledRules.closedUnder_iff wellFormed).mpr ⟨heads, fun t known u derives => ?_⟩
  exact handles.closed t (relevant t known derives.relevant) u (derives.of_relevant relevant)

theorem Advances.known_eq (advances : Advances c g g' start worked) (closed : c.ClosedUnder g.known)
    (known : start ⊆ g.known) : g'.known = g.known := by
  refine Set.Subset.antisymm ?_ advances.known
  exact advances.inside g.known (fun t mem u => closed.mem_of_derives mem) (Set.Subset.refl _) known

end

namespace Engine

inductive Call where
  | init (ignoreBackward : Bool)
  | load
  | add (t : Triple)
deriving DecidableEq, Repr

section
variable {R D : Type} [TripleSink R] [EmptyCollection R] [TripleSink D]

def Call.run : Call → Step Failure (Engine R D) Unit
  | .init ignoreBackward => Engine.init ignoreBackward
  | .load => discard Engine.load
  | .add t => discard (Engine.add t)

end

/-- The engine knows the least closed set that has what it was given. -/
structure Saturated {R D : Type} [TripleSource R] [LawfulSource R] [TripleSource D]
    [LawfulSource D] (c : CompiledRules) (given : Set Triple) (e : Engine R D) : Prop where
  installed : e.compiled = some c
  sound : e.graph.Sound
  least : IsLeast {facts | given ⊆ facts ∧ c.ClosedUnder facts} e.graph.known

section
variable {R D : Type} [TripleSource R] [LawfulSource R] [TripleSink D] [LawfulSink D]
  {c : CompiledRules} {given : Set Triple} {e e' : Engine R D}

theorem Saturated.of_known_eq (saturated : Saturated c given e) (installed : e'.compiled = some c)
    (sound : e'.graph.Sound) (same : e'.graph.known = e.graph.known) : Saturated c given e' :=
  ⟨installed, sound, same ▸ saturated.least⟩

theorem Saturated.closed (saturated : Saturated c given e) : c.ClosedUnder e.graph.known :=
  saturated.least.1.2

theorem init_saturates {ignoreBackward : Bool} (compiled : c.Compiled)
    (runs : e.Runs ignoreBackward c) (sound : e.graph.Sound) (fresh : e.graph.deduced = ∅) :
    (init ignoreBackward).Ends e (fun _ e' => Saturated c e.graph.rawFacts e') (Aborts R D) := by
  apply (init_ends compiled runs sound).imp
  rintro - e' ⟨g, worked, worked', first, ⟨start, later, inRaw, complete⟩, installed⟩
  have given : e.graph.known = e.graph.rawFacts := by
    rw [InferenceGraph.known, fresh, Set.union_empty]
  have nothing : Handles c e.graph ∅ :=
    ⟨Set.empty_subset _, by rw [fresh], fun t mem => absurd mem (Set.notMem_empty t)⟩
  have heads : c.axiomHeads ⊆ e'.graph.known := fun t mem =>
    later.known (first.workedKnown t (first.covers t mem))
  refine ⟨installed, later.sound, ⟨?_, ?_⟩, ?_⟩
  · rw [← given]
    exact first.known.trans later.known
  -- the axioms have been worked on first, then the raw facts that a rule can match
  · apply ((nothing.advance first).advance later).closedUnder compiled.wellFormed heads
    intro t stored relevant
    rw [later.rawFacts] at stored
    exact Or.inr (later.covers t (complete t stored relevant))
  · rintro facts ⟨givenInside, closed⟩
    have derived : ∀ t ∈ facts, ∀ u, c.Derives facts t u → u ∈ facts :=
      fun t mem u => closed.mem_of_derives mem
    have startInside : start ⊆ facts := by
      apply inRaw.trans
      rw [first.rawFacts]
      exact givenInside
    have knownInside := first.inside facts derived (given ▸ givenInside)
      (CompiledRules.axiomHeads_subset closed)
    exact later.inside facts derived knownInside startInside

theorem load_keeps (compiled : c.Compiled) (saturated : Saturated c given e) :
    load.Ends e (fun _ e' => Saturated c given e') (Aborts R D) := by
  apply (load_ends compiled saturated.installed saturated.sound).imp
  rintro worked e' ⟨⟨start, advances, inRaw, -⟩, installed⟩
  have known : start ⊆ e.graph.known := inRaw.trans Set.subset_union_left
  exact saturated.of_known_eq installed advances.sound (advances.known_eq saturated.closed known)

theorem init_keeps (ignoreBackward : Bool) (compiled : c.Compiled)
    (saturated : Saturated c given e) :
    (init ignoreBackward).Ends e (fun _ e' => Saturated c given e') (Aborts R D) := by
  apply (init_ends compiled (Or.inl saturated.installed) saturated.sound).imp
  rintro - e' ⟨g, worked, worked', first, ⟨start, later, inRaw, -⟩, installed⟩
  have same := first.known_eq saturated.closed (CompiledRules.axiomHeads_subset saturated.closed)
  have known : start ⊆ g.known := inRaw.trans Set.subset_union_left
  have same' := later.known_eq (same ▸ saturated.closed) known
  exact saturated.of_known_eq installed later.sound (same'.trans same)

end

section
variable {R D : Type} [TripleSink R] [EmptyCollection R] [LawfulStore R] [TripleSink D]
  [LawfulSink D] {c : CompiledRules} {given : Set Triple} {e : Engine R D}

theorem add_saturates (compiled : c.Compiled) (saturated : Saturated c given e) (t : Triple) :
    (add t).Ends e (fun _ e' => Saturated c ({t} ∪ given) e') (Aborts R D) := by
  apply (add_ends compiled t saturated.installed saturated.sound).imp
  intro worked e' ended
  obtain ⟨g, advances, rawFacts, deduced, installed⟩ := ended
  have before : e.graph.known ⊆ g.known := by
    rintro u (stored | inDeduced)
    · exact Or.inl ((rawFacts u).mpr (Or.inl stored))
    · exact Or.inr (deduced ▸ inDeduced)
  have stored : g.rawFacts ⊆ e.graph.known ∪ {t} := by
    intro u mem
    rcases (rawFacts u).mp mem with old | ⟨new, -⟩
    · exact Or.inl (Or.inl old)
    · exact Or.inr new
  have after : g.known ⊆ e.graph.known ∪ {t} := by
    refine Set.union_subset stored fun u mem => Or.inl (Or.inr ?_)
    rwa [deduced] at mem
  -- what was known had been closed, so none of it has to be worked on again
  have handles : Handles c g e.graph.known := by
    refine ⟨before, ?_, fun f known u derives =>
      before (saturated.closed.mem_of_derives known derives)⟩
    rw [deduced]
    exact Set.subset_union_right
  have known : e.graph.known ⊆ e'.graph.known := before.trans advances.known
  refine ⟨installed, advances.sound, ⟨Set.union_subset ?_ ?_, ?_⟩, ?_⟩
  · exact Set.singleton_subset_iff.mpr (advances.workedKnown t (advances.covers t rfl))
  · exact saturated.least.1.1.trans known
  · refine (handles.advance advances).closedUnder compiled.wellFormed
      ((CompiledRules.axiomHeads_subset saturated.closed).trans known) fun u mem _ => ?_
    rw [advances.rawFacts] at mem
    exact (stored mem).imp_right fun same => advances.covers u same
  · rintro facts ⟨givenInside, closed⟩
    obtain ⟨added, givenInside⟩ := Set.union_subset_iff.mp givenInside
    have old : e.graph.known ⊆ facts := saturated.least.2 ⟨givenInside, closed⟩
    exact advances.inside facts (fun f mem u => closed.mem_of_derives mem)
      (after.trans (Set.union_subset old added)) added

theorem Call.run_saturates (compiled : c.Compiled) (saturated : Saturated c given e)
    (call : Call) :
    call.run.Ends e (fun _ e' => Saturated c ({t | call = .add t} ∪ given) e') (Aborts R D) := by
  cases call with
  | init ignoreBackward => simpa [Call.run] using init_keeps ignoreBackward compiled saturated
  | load => simpa [Call.run] using load_keeps compiled saturated
  | add t =>
    have added : {u | Call.add t = .add u} = ({t} : Set Triple) := by
      ext u
      simp [eq_comm (a := t)]
    rw [added, Call.run, Step.ends_discard]
    exact add_saturates compiled saturated t

theorem forM_run_saturates (compiled : c.Compiled) (saturated : Saturated c given e)
    (calls : List Call) :
    (calls.forM Call.run).Ends e (fun _ e' => Saturated c (given ∪ {t | .add t ∈ calls}) e')
      (Aborts R D) := by
  induction calls generalizing given e with
  | nil =>
    have nothing : given ∪ {t | Call.add t ∈ []} = given := by simp
    rw [nothing]
    exact saturated
  | cons call rest ih =>
    change (call.run >>= fun _ => rest.forM Call.run).Ends e _ _
    rw [Step.ends_bind]
    apply (call.run_saturates compiled saturated).imp
    intro _ e₁ saturated₁
    have split : given ∪ {t | .add t ∈ call :: rest} =
        {t | call = .add t} ∪ given ∪ {t | .add t ∈ rest} := by
      ext t
      simp only [Set.mem_union, Set.mem_ofPred_eq, List.mem_cons, eq_comm (a := call)]
      tauto
    rw [split]
    exact ih saturated₁

end

structure Fresh (c : CompiledRules) (ignoreBackward : Bool) (e : Engine FactIndex FactIndex) :
    Prop where
  runs : e.Runs ignoreBackward c
  sound : e.graph.Sound
  undeduced : e.graph.deduced = ∅

/-- What an engine is given: the raw facts it begins with, and the facts that calls add. -/
def given (e : Engine FactIndex FactIndex) (calls : List Call) : Set Triple :=
  e.graph.rawFacts ∪ {t | .add t ∈ calls}

theorem Fresh.run_saturates {c : CompiledRules} (compiled : c.Compiled)
    {e : Engine FactIndex FactIndex} {first : Bool} (fresh : e.Fresh c first) (calls : List Call) :
    ((.init first :: calls).forM Call.run).Ends e (fun _ e' => Saturated c (e.given calls) e')
      (Aborts FactIndex FactIndex) := by
  change (Engine.init first >>= fun _ => calls.forM Call.run).Ends e _ _
  rw [Step.ends_bind]
  apply (init_saturates compiled fresh.runs fresh.sound fresh.undeduced).imp
  exact fun _ _ saturated => forM_run_saturates compiled saturated calls

/-- After its initialisation and any further calls, none of which fails, an engine knows the least
closed set that has what it was given. How the facts came in makes no difference. -/
theorem calls_reach_least_closed_set {rules : List Rule} {ignoreBackward : Bool}
    {c : CompiledRules} (compiles : CompiledRules.compile rules ignoreBackward = .ok c)
    {e : Engine FactIndex FactIndex} {first : Bool} (fresh : e.Fresh c first)
    (calls : List Call) :
    ∃ e', ((.init first :: calls).forM Call.run).outcome e = (.ok ⟨⟩, e') ∧
      IsLeast {facts | e.given calls ⊆ facts ∧ c.ClosedUnder facts} e'.graph.known ∧
      ∀ (other : Engine FactIndex FactIndex) (first' : Bool) (calls' : List Call)
        (other' : Engine FactIndex FactIndex), other.Fresh c first' →
        other.given calls' = e.given calls →
        ((.init first' :: calls').forM Call.run).outcome other = (.ok ⟨⟩, other') →
          other'.graph.known = e'.graph.known := by
  have compiled := CompiledRules.compiled_of_compile compiles
  obtain ⟨_, e', run, saturated⟩ := (fresh.run_saturates compiled calls).result not_aborts
  refine ⟨e', run, saturated.least, fun other first' calls' other' fresh' same run' => ?_⟩
  have saturated' := (fresh'.run_saturates compiled calls').good_of_outcome run'
  rw [same] at saturated'
  exact saturated'.least.unique saturated.least

theorem chain_closes_over_calls :
    ∃ c e', CompiledRules.compile [.transitive 5] true = .ok c ∧
      ((Call.init true :: [.add ⟨2, 5, 3⟩, .load]).forM Call.run).outcome
        (ofRules (MemoryGraph.withRaw [⟨1, 5, 2⟩]) [.transitive 5] .standard) = (.ok ⟨⟩, e') ∧
      ⟨1, 5, 3⟩ ∈ e'.graph.known := by
  obtain ⟨c, compiles⟩ : ∃ c, CompiledRules.compile [.transitive 5] true = .ok c := ⟨_, rfl⟩
  obtain ⟨sound, rawFacts, undeduced⟩ := MemoryGraph.withRaw_sound [⟨1, 5, 2⟩]
  have fresh : (ofRules (MemoryGraph.withRaw [⟨1, 5, 2⟩]) [.transitive 5] .standard).Fresh c true :=
    ⟨Or.inr ⟨rfl, compiles⟩, sound, undeduced⟩
  obtain ⟨e', run, least, -⟩ :=
    calls_reach_least_closed_set compiles fresh [.add ⟨2, 5, 3⟩, .load]
  obtain ⟨given, closed⟩ := least.1
  have active : (0, Rule.transitive 5) ∈ c.active := by
    cases compiles
    decide +kernel
  have before : ⟨1, 5, 2⟩ ∈ e'.graph.known := given (Or.inl (rawFacts ▸ List.mem_singleton_self _))
  have added : ⟨2, 5, 3⟩ ∈ e'.graph.known := given (Or.inr List.mem_cons_self)
  refine ⟨c, e', compiles, run, closed _ active (fun i => [1, 2, 3].getD i 0) ?_ _ ?_⟩
  · have first : Pattern.Matches (fun i => some ([1, 2, 3].getD i 0))
        ⟨.var 0, .constant 5, .var 1⟩ ⟨1, 5, 2⟩ := by
      intro slot
      cases slot <;> exact Or.inr rfl
    have second : Pattern.Matches (fun i => some ([1, 2, 3].getD i 0))
        ⟨.var 1, .constant 5, .var 2⟩ ⟨2, 5, 3⟩ := by
      intro slot
      cases slot <;> exact Or.inr rfl
    exact List.forall_mem_cons.mpr ⟨⟨_, before, first⟩,
      List.forall_mem_singleton.mpr ⟨_, added, second⟩⟩
  · refine ⟨⟨.var 0, .constant 5, .var 2⟩, List.mem_singleton_self _, fun slot => ?_⟩
    cases slot <;> rfl

end Engine
end TripleInference
