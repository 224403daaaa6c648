import TripleInference.Proofs.Engine.Addition
import TripleInference.Proofs.Engine.History
import TripleInference.Proofs.Engine.Termination

/-!
What can be chained together from one fact, and how much of it an addition makes known. A conclusion
that is known already is not worked on again, so where a gap had been left among the known facts, by
a deletion or by a call that failed, the addition stops short of it.
-/
namespace TripleInference

namespace CompiledRules

/-- The set begins with `t` and has what rules conclude from facts and from its own members, if one
of these that is in `through` matches a body clause. -/
def Chained (c : CompiledRules) (facts through : Set Triple) (t : Triple) (links : Set Triple) :
    Prop := t ∈ links ∧ ∀ u, c.Follows (facts ∪ links) (links ∩ through) u → u ∈ links

def chain (c : CompiledRules) (facts through : Set Triple) (t : Triple) : Set Triple :=
  ⋂₀ {links | c.Chained facts through t links}

variable {c : CompiledRules} {facts through : Set Triple} {t : Triple}

theorem isLeast_chain :
    IsLeast {links | c.Chained facts through t links} (c.chain facts through t) := by
  have inside {links : Set Triple} (chained : c.Chained facts through t links) :
      c.chain facts through t ⊆ links := Set.sInter_subset_of_mem chained
  refine ⟨⟨fun links chained => chained.1, fun u follows links chained => ?_⟩,
    fun links chained => inside chained⟩
  apply chained.2
  exact follows.mono (Set.union_subset_union_right facts (inside chained))
    (Set.inter_subset_inter_left through (inside chained))

theorem chain_inclusion {id : RuleId} {p q x y : TermId}
    (active : (id, Rule.inclusion p q) ∈ c.active) (link : ⟨x, p, y⟩ ∈ c.chain facts through t)
    (passes : ⟨x, p, y⟩ ∈ through) : ⟨x, q, y⟩ ∈ c.chain facts through t :=
  isLeast_chain.1.2 _ (follows_inclusion active (Or.inr link) ⟨link, passes⟩)

end CompiledRules

namespace Engine

variable {R D : Type} [TripleSink R] [EmptyCollection R] [LawfulStore R] [TripleSink D]
  [LawfulSink D] {c : CompiledRules} {t : Triple} {e e' : Engine R D} {worked : List Triple}

theorem Added.chain_through_new (added : Added c t e e' worked) :
    c.chain e'.graph.known ({t} ∪ e.graph.knownᶜ) t ⊆ e'.graph.known := by
  refine CompiledRules.isLeast_chain.2 ⟨added.mem_known, fun u follows => ?_⟩
  rw [Set.union_self] at follows
  apply added.closed
  apply follows.mono (Set.Subset.refl _)
  rintro f ⟨known, same | new⟩
  · exact (added.mem_worked f).mpr (Or.inl same)
  · exact (added.known_subset known).resolve_left new

/-- Where a chain is broken off, facts that were known before have a conclusion that is missing. -/
theorem Added.chain_iff (wellFormed : ∀ rule ∈ c.active, rule.2.WellFormed)
    (added : Added c t e e' worked) :
    c.chain e'.graph.known Set.univ t ⊆ e'.graph.known ↔
      ∀ u, c.Follows e.graph.known (c.chain e'.graph.known Set.univ t ∩ e.graph.known) u →
        u ∈ e'.graph.known := by
  let all := c.chain e'.graph.known Set.univ t
  have closed {facts among : Set Triple} {u : Triple} (follows : c.Follows facts among u)
      (known : facts ⊆ e'.graph.known) (linked : among ⊆ all) : u ∈ all := by
    apply CompiledRules.isLeast_chain.1.2
    apply follows.mono (known.trans Set.subset_union_left)
    exact fun f mem => ⟨linked mem, Set.mem_univ f⟩
  constructor
  · intro inside u follows
    exact inside (closed follows added.subset_known Set.inter_subset_left)
  · intro old
    have linked : all ⊆ all ∩ e'.graph.known := by
      refine CompiledRules.isLeast_chain.2
        ⟨⟨CompiledRules.isLeast_chain.1.1, added.mem_known⟩, fun u follows => ?_⟩
      rw [Set.inter_univ, Set.union_eq_self_of_subset_right Set.inter_subset_right] at follows
      refine ⟨closed follows (Set.Subset.refl _) Set.inter_subset_left, ?_⟩
      obtain ⟨f, ⟨link, known⟩, derives⟩ :=
        (CompiledRules.follows_iff wellFormed Set.inter_subset_right).mp follows
      have worked_closed : ∀ g ∈ worked, c.Derives e'.graph.known g u → u ∈ e'.graph.known := by
        intro g mem derives
        apply added.closed
        exact (CompiledRules.follows_iff wellFormed added.worked_known).mpr ⟨g, mem, derives⟩
      -- a new fact among those that match was worked on itself; without one, the link is older
      rcases derives.by_new_or_old known added.known_subset with ⟨g, mem, derives⟩ | before
      · exact worked_closed g mem derives
      · rcases added.known_subset known with stored | mem
        · apply old
          apply (CompiledRules.follows_iff wellFormed Set.inter_subset_right).mpr
          exact ⟨f, ⟨link, stored⟩, before⟩
        · exact worked_closed f mem derives
    exact linked.trans Set.inter_subset_right

theorem Added.chain_of_closed (wellFormed : ∀ rule ∈ c.active, rule.2.WellFormed)
    (added : Added c t e e' worked) (closed : c.ClosedUnder e.graph.known) :
    c.chain e'.graph.known Set.univ t ⊆ e'.graph.known := by
  refine (added.chain_iff wellFormed).mpr fun u follows => added.subset_known ?_
  obtain ⟨f, known, derives⟩ :=
    (CompiledRules.follows_iff wellFormed Set.inter_subset_right).mp follows
  exact closed.mem_of_derives known.2 derives

/-- Whatever an engine has been through, an addition that returns has followed all chains from its
fact that go on through facts unknown before. It has followed all chains there are just if nothing
is missing that facts known before conclude from a link of them, and so it has if these facts were
closed. -/
theorem addition_follows_chains_through_new_facts (reached : e.Reached)
    (run : (add t).outcome e = (.ok worked, e')) :
    ∃ c, e.compiled = some c ∧
      c.chain e'.graph.known ({t} ∪ e.graph.knownᶜ) t ⊆ e'.graph.known ∧
      (c.chain e'.graph.known Set.univ t ⊆ e'.graph.known ↔
        ∀ u, c.Follows e.graph.known (c.chain e'.graph.known Set.univ t ∩ e.graph.known) u →
          u ∈ e'.graph.known) ∧
      (c.ClosedUnder e.graph.known → c.chain e'.graph.known Set.univ t ⊆ e'.graph.known) := by
  have inOrder := reached.inOrder
  cases installed : e.compiled with
  | none =>
    have fails : (add t).Ends e (fun _ _ => False) fun _ _ => True :=
      (requireCompiled_fails installed).mpr trivial
    exact (fails.good_of_outcome run).elim
  | some c =>
    have compiled := inOrder.compiled installed
    obtain ⟨added, -⟩ :=
      (add_adds compiled t installed inOrder.sound).good_of_outcome run
    exact ⟨c, rfl, added.chain_through_new, added.chain_iff compiled.wellFormed,
      added.chain_of_closed compiled.wellFormed⟩

def afterDeleting (conclusions : List Triple) : Engine FactIndex FactIndex :=
  (ofRules MemoryGraph.withoutRaw [.inclusion 1 2, .inclusion 2 3] .standard).after
    (.call (.init true) :: .call (.add ⟨5, 1, 6⟩) :: conclusions.map .delete)

theorem reached_afterDeleting (conclusions : List Triple) : (afterDeleting conclusions).Reached :=
  (Reached.ofRules _ _ MemoryGraph.withoutRaw_sound.1).after _

theorem deleted_chain_is_followed_again :
    ∃ worked e', (add ⟨5, 1, 6⟩).outcome (afterDeleting [⟨5, 2, 6⟩, ⟨5, 3, 6⟩]) =
      (.ok worked, e') ∧ ⟨5, 3, 6⟩ ∈ e'.graph.known := by
  have unknown : ⟨5, 2, 6⟩ ∉ (afterDeleting [⟨5, 2, 6⟩, ⟨5, 3, 6⟩]).graph.known := by decide +kernel
  have rules : (afterDeleting [⟨5, 2, 6⟩, ⟨5, 3, 6⟩]).compiled.map (·.active) =
      some [(0, .inclusion 1 2), (1, .inclusion 2 3)] := by decide +kernel
  have reached := reached_afterDeleting [⟨5, 2, 6⟩, ⟨5, 3, 6⟩]
  generalize afterDeleting [⟨5, 2, 6⟩, ⟨5, 3, 6⟩] = e at unknown rules reached ⊢
  obtain ⟨c, installed, active⟩ := Option.map_eq_some_iff.mp rules
  have compiled := reached.inOrder.compiled installed
  obtain ⟨worked, e', run⟩ := add_returns compiled installed reached.inOrder.sound ⟨5, 1, 6⟩
  obtain ⟨c', installed', chain, -⟩ := addition_follows_chains_through_new_facts reached run
  obtain rfl : c = c' := Option.some.inj (installed.symm.trans installed')
  have first : ⟨5, 2, 6⟩ ∈ c.chain e'.graph.known ({⟨5, 1, 6⟩} ∪ e.graph.knownᶜ) ⟨5, 1, 6⟩ :=
    CompiledRules.chain_inclusion (active ▸ List.mem_cons_self)
      CompiledRules.isLeast_chain.1.1 (Or.inl rfl)
  have second : ⟨5, 3, 6⟩ ∈ c.chain e'.graph.known ({⟨5, 1, 6⟩} ∪ e.graph.knownᶜ) ⟨5, 1, 6⟩ :=
    CompiledRules.chain_inclusion (active ▸ List.mem_cons_of_mem _ List.mem_cons_self) first
      (Or.inr unknown)
  exact ⟨worked, e', run, chain second⟩

theorem deleted_link_is_not_found_again :
    ∃ c worked e', (afterDeleting [⟨5, 3, 6⟩]).Reached ∧
      (afterDeleting [⟨5, 3, 6⟩]).compiled = some c ∧
      (add ⟨5, 1, 6⟩).outcome (afterDeleting [⟨5, 3, 6⟩]) = (.ok worked, e') ∧
      ⟨5, 3, 6⟩ ∈ c.chain e'.graph.known Set.univ ⟨5, 1, 6⟩ ∧ ⟨5, 3, 6⟩ ∉ e'.graph.known := by
  have missing :
      ⟨5, 3, 6⟩ ∉ ((add ⟨5, 1, 6⟩).outcome (afterDeleting [⟨5, 3, 6⟩])).2.graph.known := by
    decide +kernel
  have rules : (afterDeleting [⟨5, 3, 6⟩]).compiled.map (·.active) =
      some [(0, .inclusion 1 2), (1, .inclusion 2 3)] := by decide +kernel
  have reached := reached_afterDeleting [⟨5, 3, 6⟩]
  generalize afterDeleting [⟨5, 3, 6⟩] = e at missing rules reached ⊢
  obtain ⟨c, installed, active⟩ := Option.map_eq_some_iff.mp rules
  have compiled := reached.inOrder.compiled installed
  obtain ⟨worked, e', run⟩ := add_returns compiled installed reached.inOrder.sound ⟨5, 1, 6⟩
  rw [run] at missing
  have first : ⟨5, 2, 6⟩ ∈ c.chain e'.graph.known Set.univ ⟨5, 1, 6⟩ :=
    CompiledRules.chain_inclusion (active ▸ List.mem_cons_self)
      CompiledRules.isLeast_chain.1.1 (Set.mem_univ _)
  have second : ⟨5, 3, 6⟩ ∈ c.chain e'.graph.known Set.univ ⟨5, 1, 6⟩ :=
    CompiledRules.chain_inclusion (active ▸ List.mem_cons_of_mem _ List.mem_cons_self) first
      (Set.mem_univ _)
  exact ⟨c, worked, e', reached, installed, run, second, missing⟩

end Engine
end TripleInference
