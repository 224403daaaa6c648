import TripleInference.Proofs.Network.Exactness

/-!
What follows from facts by the active rules, said without engine or network: in one step from a
triple and the facts around it, and in the sets that are closed under all rules.
-/
namespace TripleInference

theorem Rule.MatchedAt.supports {r : Rule} {facts : Set Triple} {k : Nat} {t : Triple}
    {values : List (Option TermId)} (matched : r.MatchedAt facts k t values) (known : t ∈ facts)
    {clause : Nat} (inside : clause < r.body.length) :
    r.Supports facts (.ofValues values) clause := by
  by_cases same : clause = k
  · rw [same]
    exact matched.trigger.mono (Set.singleton_subset_iff.mpr known) (Valuation.Below.refl _)
  · exact matched.supported clause inside same

theorem Rule.MatchedAt.swap {r : Rule} {facts : Set Triple} {k j : Nat} {t u : Triple}
    {values : List (Option TermId)} (matched : r.MatchedAt facts k t values) (known : t ∈ facts)
    (supports : r.Supports {u} (.ofValues values) j) : r.MatchedAt facts j u values where
  size := matched.size
  binds := matched.binds
  trigger := supports
  supported _ inside _ := matched.supports known inside

theorem Rule.MatchedAt.mono {r : Rule} {facts more : Set Triple} {k : Nat} {t : Triple}
    {values : List (Option TermId)} (matched : r.MatchedAt facts k t values)
    (subset : facts ⊆ more) : r.MatchedAt more k t values where
  size := matched.size
  binds := matched.binds
  trigger := matched.trigger
  supported clause inside other :=
    (matched.supported clause inside other).mono subset (Valuation.Below.refl _)

namespace Rule

/-- The values of the body variables, in a list with room for all variables. -/
def bodyValues (r : Rule) (v : Valuation) : List (Option TermId) :=
  (List.range r.numVars).map fun i => if i ∈ r.bodyVars then v i else none

theorem WellFormed.ofValues_bodyValues {r : Rule} (wf : r.WellFormed) (v : Valuation) (i : Nat) :
    Valuation.ofValues (r.bodyValues v) i = if i ∈ r.bodyVars then v i else none := by
  rcases Nat.lt_or_ge i r.numVars with inside | outside
  · simp [Valuation.ofValues, bodyValues, inside]
  · have unused : i ∉ r.bodyVars := fun mem => Nat.not_lt_of_le outside (wf.room_of_body mem)
    have beyond : (r.bodyValues v)[i]? = none := List.getElem?_eq_none (by simpa [bodyValues])
    simp [Valuation.ofValues, beyond, unused]

theorem WellFormed.bodyValues_below {r : Rule} (wf : r.WellFormed) (v : Valuation) :
    Valuation.Below (.ofValues (r.bodyValues v)) v := by
  intro i x value
  rw [wf.ofValues_bodyValues] at value
  split at value
  · exact value
  · cases value

theorem WellFormed.isSome_bodyValues {r : Rule} (wf : r.WellFormed) {v : Valuation}
    (total : ∀ i ∈ r.bodyVars, (v i).isSome) (i : Nat) :
    (Valuation.ofValues (r.bodyValues v) i).isSome ↔ i ∈ r.bodyVars := by
  rw [wf.ofValues_bodyValues]
  split
  · rename_i mem
    exact iff_of_true (total i mem) mem
  · rename_i unused
    exact iff_of_false (by simp) unused

theorem WellFormed.supports_bodyValues {r : Rule} (wf : r.WellFormed) {v : Valuation}
    (total : ∀ i ∈ r.bodyVars, (v i).isSome) {facts : Set Triple} {k : Nat}
    (supports : r.Supports facts v k) : r.Supports facts (.ofValues (r.bodyValues v)) k := by
  obtain ⟨p, here, t, mem, fits⟩ := supports
  refine ⟨p, here, t, mem, fits.of_below (wf.bodyValues_below v) fun i var => ?_⟩
  rw [wf.isSome_bodyValues total]
  exact List.mem_flatMap.mpr ⟨p, List.mem_of_getElem? here, var⟩

theorem WellFormed.concludes_bodyValues {r : Rule} (wf : r.WellFormed) {v : Valuation}
    (total : ∀ i ∈ r.bodyVars, (v i).isSome) {u : Triple} (concludes : r.Concludes v u) :
    r.Concludes (.ofValues (r.bodyValues v)) u :=
  wf.concludes_of_below concludes (wf.bodyValues_below v) fun i mem =>
    (wf.isSome_bodyValues total i).mpr mem

theorem WellFormed.matchedAt_bodyValues {r : Rule} (wf : r.WellFormed) {subst : Nat → TermId}
    {facts : Set Triple} {k : Nat} {p : Pattern} {t : Triple} (here : r.body[k]? = some p)
    (fits : p.Matches (fun i => some (subst i)) t)
    (others : ∀ j q, r.body[j]? = some q → j ≠ k →
      ∃ f ∈ facts, q.Matches (fun i => some (subst i)) f) :
    r.MatchedAt facts k t (r.bodyValues fun i => some (subst i)) := by
  have total : ∀ i ∈ r.bodyVars, (some (subst i)).isSome := fun _ _ => rfl
  refine ⟨by simp [bodyValues], wf.isSome_bodyValues total,
    wf.supports_bodyValues total ⟨p, here, t, rfl, fits⟩, fun clause inside other => ?_⟩
  obtain ⟨q, there⟩ := r.exists_clause inside
  exact wf.supports_bodyValues total ⟨q, there, others clause q there other⟩

theorem MatchedAt.exists_substitution {r : Rule} {facts : Set Triple} {k : Nat} {t : Triple}
    {values : List (Option TermId)} (matched : r.MatchedAt facts k t values) :
    ∃ subst : Nat → TermId, Valuation.Below (.ofValues values) (fun i => some (subst i)) ∧
      (∃ p, r.body[k]? = some p ∧ p.Matches (fun i => some (subst i)) t) ∧
      ∀ j q, r.body[j]? = some q → j ≠ k →
        ∃ f ∈ facts, q.Matches (fun i => some (subst i)) f := by
  obtain ⟨subst, below⟩ := Valuation.exists_substitution (.ofValues values)
  obtain ⟨p, here, f, rfl, fits⟩ := matched.trigger
  refine ⟨subst, below, ⟨p, here, fits.mono below⟩, fun j q there other => ?_⟩
  obtain ⟨q', there', fact, mem, fits'⟩ :=
    matched.supported j (List.getElem?_eq_some_iff.mp there).1 other
  obtain rfl : q = q' := Option.some.inj (there.symm.trans there')
  exact ⟨fact, mem, fits'.mono below⟩

theorem MatchedAt.substitution {r : Rule} {facts : Set Triple} {k : Nat} {t : Triple}
    {values : List (Option TermId)} (matched : r.MatchedAt facts k t values) (known : t ∈ facts) :
    ∃ subst : Nat → TermId, Valuation.Below (.ofValues values) (fun i => some (subst i)) ∧
      ∀ p ∈ r.body, ∃ f ∈ facts, p.Matches (fun i => some (subst i)) f := by
  obtain ⟨subst, below, ⟨p, here, fits⟩, others⟩ := matched.exists_substitution
  refine ⟨subst, below, fun q mem => ?_⟩
  obtain ⟨j, there⟩ := List.mem_iff_getElem?.mp mem
  by_cases same : j = k
  · subst same
    obtain rfl : p = q := Option.some.inj (here.symm.trans there)
    exact ⟨t, known, fits⟩
  · exact others j q there same

end Rule

def Rule.inclusion (p q : TermId) : Rule :=
  ofPatterns [⟨.var 0, .constant p, .var 1⟩] [⟨.var 0, .constant q, .var 1⟩]

namespace CompiledRules

/-- An active rule concludes `u` from a body in which `t` matches a clause and facts match the
others. -/
def Derives (c : CompiledRules) (facts : Set Triple) (t u : Triple) : Prop :=
  ∃ rule ∈ c.active, ∃ k values, rule.2.MatchedAt facts k t values ∧
    rule.2.Concludes (.ofValues values) u

def activeAxioms (c : CompiledRules) : List (RuleId × Rule) := c.active.filter (·.2.isAxiom)

def assertedHeads (c : CompiledRules) : List Triple := c.activeAxioms.flatMap (·.2.groundHeads)

def axiomHeads (c : CompiledRules) : Set Triple :=
  {u | ∃ rule ∈ c.active, rule.2.isAxiom = true ∧ rule.2.Concludes (fun _ => none) u}

/-- The facts hold every instance of a head of an active rule whose body clauses are all matched by
facts under the same substitution. The body of an axiom always is. -/
def ClosedUnder (c : CompiledRules) (facts : Set Triple) : Prop :=
  ∀ rule ∈ c.active, ∀ subst : Nat → TermId,
    (∀ p ∈ rule.2.body, ∃ t ∈ facts, p.Matches (fun i => some (subst i)) t) →
      ∀ u, rule.2.Concludes (fun i => some (subst i)) u → u ∈ facts

/-- An instance of an active rule concludes `u`: under one substitution facts match the whole body,
and one of the facts `among` them matches a clause of it. -/
def Follows (c : CompiledRules) (facts among : Set Triple) (u : Triple) : Prop :=
  ∃ rule ∈ c.active, ∃ subst : Nat → TermId,
    (∀ p ∈ rule.2.body, ∃ f ∈ facts, p.Matches (fun i => some (subst i)) f) ∧
    (∃ p ∈ rule.2.body, ∃ f ∈ among, p.Matches (fun i => some (subst i)) f) ∧
    rule.2.Concludes (fun i => some (subst i)) u

/-- An instance of an active rule concludes `u`: under one substitution `t` matches a clause of the
body, and facts match all the others. -/
def FollowsFrom (c : CompiledRules) (facts : Set Triple) (t u : Triple) : Prop :=
  ∃ rule ∈ c.active, ∃ subst : Nat → TermId, ∃ (k : Nat) (p : Pattern), rule.2.body[k]? = some p ∧
    p.Matches (fun i => some (subst i)) t ∧
    (∀ (j : Nat) (q : Pattern), rule.2.body[j]? = some q → j ≠ k →
      ∃ f ∈ facts, q.Matches (fun i => some (subst i)) f) ∧
    rule.2.Concludes (fun i => some (subst i)) u

def Relevant (c : CompiledRules) (t : Triple) : Prop :=
  ∃ rule ∈ c.active, ∃ p ∈ rule.2.body, ∃ v, p.Matches v t

variable {c : CompiledRules} {facts more : Set Triple} {t u : Triple}

theorem Derives.mono (derives : c.Derives facts t u) (subset : facts ⊆ more) :
    c.Derives more t u := by
  obtain ⟨rule, active, k, values, matched, concludes⟩ := derives
  exact ⟨rule, active, k, values, matched.mono subset, concludes⟩

theorem Derives.of_relevant (derives : c.Derives facts t u)
    (relevant : ∀ f ∈ facts, c.Relevant f → f ∈ more) : c.Derives more t u := by
  obtain ⟨rule, active, k, values, matched, concludes⟩ := derives
  refine ⟨rule, active, k, values, ⟨matched.size, matched.binds, matched.trigger, ?_⟩, concludes⟩
  intro clause inside other
  obtain ⟨p, here, f, known, fits⟩ := matched.supported clause inside other
  exact ⟨p, here, f, relevant f known ⟨rule, active, p, List.mem_of_getElem? here, _, fits⟩, fits⟩

theorem Derives.relevant (derives : c.Derives facts t u) : c.Relevant t := by
  obtain ⟨rule, active, k, values, matched, -⟩ := derives
  obtain ⟨p, here, f, rfl, fits⟩ := matched.trigger
  exact ⟨rule, active, p, List.mem_of_getElem? here, _, fits⟩

theorem Derives.by_new_or_old {old new : Set Triple} (derives : c.Derives facts t u)
    (known : t ∈ facts) (split : facts ⊆ old ∪ new) :
    (∃ f ∈ new, c.Derives facts f u) ∨ c.Derives old t u := by
  obtain ⟨rule, active, k, values, matched, concludes⟩ := derives
  by_cases someNew : ∃ j, ∃ f ∈ new, rule.2.Supports {f} (.ofValues values) j
  · obtain ⟨j, f, mem, supports⟩ := someNew
    exact Or.inl ⟨f, mem, rule, active, j, values, matched.swap known supports, concludes⟩
  · refine Or.inr ⟨rule, active, k, values, ?_, concludes⟩
    refine ⟨matched.size, matched.binds, matched.trigger, fun clause inside other => ?_⟩
    obtain ⟨p, here, f, mem, fits⟩ := matched.supported clause inside other
    have notNew : f ∉ new := fun isNew => someNew ⟨clause, f, isNew, p, here, f, rfl, fits⟩
    exact ⟨p, here, f, (split mem).resolve_right notNew, fits⟩

theorem Compiled.setOf_assertedHeads (compiled : c.Compiled) :
    {t | t ∈ c.assertedHeads} = c.axiomHeads := by
  ext t
  simp only [assertedHeads, activeAxioms, axiomHeads, Set.mem_ofPred_eq, List.mem_flatMap,
    List.mem_filter]
  constructor
  · rintro ⟨rule, ⟨active, isAxiom⟩, mem⟩
    exact ⟨rule, active, isAxiom, ((compiled.instantiate_axiom active isAxiom).2 t).mp mem⟩
  · rintro ⟨rule, active, isAxiom, concludes⟩
    exact ⟨rule, ⟨active, isAxiom⟩, ((compiled.instantiate_axiom active isAxiom).2 t).mpr concludes⟩

theorem axiomHeads_subset (closed : c.ClosedUnder facts) : c.axiomHeads ⊆ facts := by
  rintro u ⟨rule, active, isAxiom, concludes⟩
  refine closed rule active (fun _ => 0) ?_ u (concludes.mono nofun)
  rw [List.isEmpty_iff.mp isAxiom]
  simp

theorem Follows.mono {among among' : Set Triple} (follows : c.Follows facts among u)
    (subset : facts ⊆ more) (subset' : among ⊆ among') : c.Follows more among' u := by
  obtain ⟨rule, active, subst, matched, ⟨p, clause, f, mem, fits⟩, concludes⟩ := follows
  refine ⟨rule, active, subst, fun q here => ?_, ⟨p, clause, f, subset' mem, fits⟩, concludes⟩
  obtain ⟨g, known, fits'⟩ := matched q here
  exact ⟨g, subset known, fits'⟩

theorem derives_iff (wellFormed : ∀ rule ∈ c.active, rule.2.WellFormed) :
    c.Derives facts t u ↔ c.FollowsFrom facts t u := by
  constructor
  · rintro ⟨rule, active, k, values, matched, concludes⟩
    obtain ⟨subst, below, ⟨p, here, fits⟩, others⟩ := matched.exists_substitution
    exact ⟨rule, active, subst, k, p, here, fits, others, concludes.mono below⟩
  · rintro ⟨rule, active, subst, k, p, here, fits, others, concludes⟩
    have wf := wellFormed rule active
    exact ⟨rule, active, k, _, wf.matchedAt_bodyValues here fits others,
      wf.concludes_bodyValues (fun _ _ => rfl) concludes⟩

theorem follows_iff (wellFormed : ∀ rule ∈ c.active, rule.2.WellFormed) {among : Set Triple}
    (subset : among ⊆ facts) : c.Follows facts among u ↔ ∃ f ∈ among, c.Derives facts f u := by
  constructor
  · rintro ⟨rule, active, subst, matched, ⟨p, clause, f, mem, fits⟩, concludes⟩
    have wf := wellFormed rule active
    obtain ⟨k, here⟩ := List.mem_iff_getElem?.mp clause
    exact ⟨f, mem, rule, active, k, _,
      wf.matchedAt_bodyValues here fits fun j q there _ => matched q (List.mem_of_getElem? there),
      wf.concludes_bodyValues (fun _ _ => rfl) concludes⟩
  · rintro ⟨f, mem, rule, active, k, values, matched, concludes⟩
    obtain ⟨subst, below, all⟩ := matched.substitution (subset mem)
    obtain ⟨p, here, g, rfl, fits⟩ := matched.trigger
    exact ⟨rule, active, subst, all, ⟨p, List.mem_of_getElem? here, g, mem, fits.mono below⟩,
      concludes.mono below⟩

theorem follows_inclusion {id : RuleId} {p q x y : TermId} {among : Set Triple}
    (active : (id, Rule.inclusion p q) ∈ c.active) (known : ⟨x, p, y⟩ ∈ facts)
    (hit : ⟨x, p, y⟩ ∈ among) : c.Follows facts among ⟨x, q, y⟩ := by
  let subst : Nat → TermId := fun i => [x, y].getD i 0
  have fits : Pattern.Matches (fun i => some (subst i)) ⟨.var 0, .constant p, .var 1⟩
      ⟨x, p, y⟩ := by
    intro slot
    cases slot <;> exact Or.inr rfl
  have yields : Pattern.Yields (fun i => some (subst i)) ⟨.var 0, .constant q, .var 1⟩
      ⟨x, q, y⟩ := by
    intro slot
    cases slot <;> rfl
  exact ⟨_, active, subst, List.forall_mem_singleton.mpr ⟨_, known, fits⟩,
    ⟨_, List.mem_cons_self, _, hit, fits⟩, ⟨_, List.mem_cons_self, yields⟩⟩

theorem follows_transitive {id : RuleId} {p x y z : TermId} {among : Set Triple}
    (active : (id, Rule.transitive p) ∈ c.active) (first : ⟨x, p, y⟩ ∈ facts)
    (second : ⟨y, p, z⟩ ∈ facts) (hit : ⟨y, p, z⟩ ∈ among) : c.Follows facts among ⟨x, p, z⟩ := by
  let subst : Nat → TermId := fun i => [x, y, z].getD i 0
  have fits : Pattern.Matches (fun i => some (subst i)) ⟨.var 0, .constant p, .var 1⟩
      ⟨x, p, y⟩ := by
    intro slot
    cases slot <;> exact Or.inr rfl
  have fits' : Pattern.Matches (fun i => some (subst i)) ⟨.var 1, .constant p, .var 2⟩
      ⟨y, p, z⟩ := by
    intro slot
    cases slot <;> exact Or.inr rfl
  have joined : Pattern.Yields (fun i => some (subst i)) ⟨.var 0, .constant p, .var 2⟩
      ⟨x, p, z⟩ := by
    intro slot
    cases slot <;> rfl
  have body : ∀ q ∈ (Rule.transitive p).body,
      ∃ f ∈ facts, q.Matches (fun i => some (subst i)) f :=
    List.forall_mem_cons.mpr ⟨⟨_, first, fits⟩, List.forall_mem_singleton.mpr ⟨_, second, fits'⟩⟩
  exact ⟨_, active, subst, body, ⟨_, List.mem_cons_of_mem _ List.mem_cons_self, _, hit, fits'⟩,
    ⟨_, List.mem_cons_self, joined⟩⟩

theorem ClosedUnder.mem_of_derives (closed : c.ClosedUnder facts) (known : t ∈ facts)
    (derives : c.Derives facts t u) : u ∈ facts := by
  obtain ⟨rule, active, k, values, matched, concludes⟩ := derives
  obtain ⟨subst, below, all⟩ := matched.substitution known
  exact closed rule active subst all u (concludes.mono below)

theorem closedUnder_iff (wellFormed : ∀ rule ∈ c.active, rule.2.WellFormed) :
    c.ClosedUnder facts ↔
      c.axiomHeads ⊆ facts ∧ ∀ t ∈ facts, ∀ u, c.Derives facts t u → u ∈ facts := by
  constructor
  · intro closed
    exact ⟨axiomHeads_subset closed, fun t known u => closed.mem_of_derives known⟩
  · rintro ⟨heads, closed⟩ rule active subst matched u concludes
    have wf := wellFormed rule active
    have total : ∀ i ∈ rule.2.bodyVars, (some (subst i)).isSome := fun _ _ => rfl
    cases body : rule.2.body with
    | nil =>
      have noVars : rule.2.bodyVars = [] := by rw [Rule.bodyVars, body, List.flatMap_nil]
      refine heads ⟨rule, active, by simp [Rule.isAxiom, body], ?_⟩
      refine wf.concludes_of_below concludes ?_ (by simp [noVars])
      rintro i x ⟨⟩
    | cons p rest =>
      have first : rule.2.body[0]? = some p := by simp [body]
      obtain ⟨t, known, fits⟩ := matched p (by simp [body])
      exact closed t known u ⟨rule, active, 0, _,
        wf.matchedAt_bodyValues first fits fun j q there _ =>
          matched q (List.mem_of_getElem? there),
        wf.concludes_bodyValues total concludes⟩

end CompiledRules
end TripleInference
