import TripleInference.Proofs.Engine.Firing

/-!
Working off an agenda. What comes onto it was unknown before and follows from what was known; once
it is empty, everything that follows from a triple that was worked on is known.
-/
namespace TripleInference

theorem Agenda.next_forgets (a : Agenda) : a.next.2.memory = ∅ ∧ a.next.2.fired = ∅ := by
  unfold Agenda.next
  split
  · exact ⟨rfl, rfl⟩
  · split <;> exact ⟨rfl, rfl⟩

namespace Pass

theorem next_ends {R D : Type} {p : Pass R D} {good : Option Triple → Pass R D → Prop}
    {bad : Failure → Pass R D → Prop} :
    next.Ends p good bad ↔ good p.agenda.next.1 { p with agenda := p.agenda.next.2 } := Iff.rfl

variable {R D : Type} [TripleSource R] [LawfulSource R] [TripleSink D] [LawfulSink D]

/-- What working off an agenda has done after `worked`. -/
structure Settles (c : CompiledRules) (limit : Nat) (p p' : Pass R D) (worked new : List Triple) :
    Prop extends Grows p p' new where
  queue : worked ++ p'.agenda.pending = p.agenda.pending ++ new
  limited : worked.length ≤ limit
  exhausted : p'.agenda.pending = [] ∨ worked.length = limit
  inside : ∀ facts : Set Triple, (∀ t ∈ facts, ∀ u, c.Derives facts t u → u ∈ facts) →
    p.engine.graph.known ⊆ facts → (∀ t ∈ p.agenda.pending, t ∈ facts) → ∀ t ∈ new, t ∈ facts
  derived : ∀ u ∈ new, ∃ t ∈ worked, c.Derives p'.engine.graph.known t u
  closed : (∀ t ∈ p.agenda.pending, t ∈ p.engine.graph.known) → p'.agenda.pending = [] →
    ∀ t ∈ worked, ∀ u, c.Derives p'.engine.graph.known t u → u ∈ p'.engine.graph.known

variable {c : CompiledRules} {limit : Nat} {p p' p₁ p₂ p₃ : Pass R D} {t : Triple}
  {worked new new' : List Triple}

theorem Settles.worked_eq (settles : Settles c limit p p' worked new)
    (done : p'.agenda.pending = []) : worked = p.agenda.pending ++ new := by
  have queue := settles.queue
  rwa [done, List.append_nil] at queue

theorem Settles.worked_known (settles : Settles c limit p p' worked new)
    (done : p'.agenda.pending = [])
    (pending : ∀ t ∈ p.agenda.pending, t ∈ p.engine.graph.known) :
    ∀ t ∈ worked, t ∈ p'.engine.graph.known := by
  intro t mem
  rw [settles.worked_eq done, List.mem_append] at mem
  rw [settles.known]
  exact mem.symm.imp_right (pending t)

theorem settles_nothing (grows : Grows p p' []) (pending : p'.agenda.pending = p.agenda.pending)
    (done : p'.agenda.pending = [] ∨ limit = 0) : Settles c limit p p' [] [] where
  toGrows := grows
  queue := by simp [pending]
  limited := Nat.zero_le _
  exhausted := done.imp_right Eq.symm
  inside _ _ _ _ u mem := by cases mem
  derived u mem := by cases mem
  closed _ _ u mem := by cases mem

structure Works (c : CompiledRules) (t : Triple) (p p₁ p₂ : Pass R D) (new : List Triple) :
    Prop where
  graph : p₁.engine.graph = p.engine.graph
  compiled : p₁.engine.compiled = p.engine.compiled
  pending : p.agenda.pending = t :: p₁.agenda.pending
  adds : Adds p₁ p₂ {u | c.Derives p.engine.graph.known t u} new

theorem Works.grows (works : Works c t p p₁ p₂ new) : Grows p p₂ new := by
  obtain ⟨grows, -, -⟩ := works.adds
  exact ⟨grows.sound, works.graph ▸ grows.hasRaw, works.graph ▸ grows.rawFacts,
    works.graph ▸ grows.deduced, grows.nodup, works.graph ▸ grows.fresh,
    grows.compiled.trans works.compiled⟩

theorem Works.derived (works : Works c t p p₁ p₂ new) {u : Triple} (mem : u ∈ new) :
    c.Derives p.engine.graph.known t u := ((works.adds.mem_iff u).mp mem).1

theorem Works.known (works : Works c t p p₁ p₂ new) {u : Triple}
    (derives : c.Derives p.engine.graph.known t u) : u ∈ p₂.engine.graph.known := by
  rw [works.adds.known_wanted]
  exact Or.inl derives

theorem Works.pending_subset (works : Works c t p p₁ p₂ new) {facts : Set Triple}
    (pending : ∀ u ∈ p.agenda.pending, u ∈ facts) (derived : ∀ u ∈ new, u ∈ facts) :
    ∀ u ∈ p₂.agenda.pending, u ∈ facts := by
  intro u mem
  rw [works.adds.pending, List.mem_append] at mem
  rcases mem with old | here
  · exact pending u (works.pending ▸ List.mem_cons_of_mem t old)
  · exact derived u here

theorem Works.pending_known (works : Works c t p p₁ p₂ new)
    (pending : ∀ u ∈ p.agenda.pending, u ∈ p.engine.graph.known) :
    ∀ u ∈ p₂.agenda.pending, u ∈ p₂.engine.graph.known := by
  apply works.pending_subset
  · exact fun u mem => works.grows.subset (pending u mem)
  · exact fun u mem => works.known (works.derived mem)

theorem Settles.cons_inside (works : Works c t p p₁ p₂ new)
    (later : Settles c limit p₂ p₃ worked new') {facts : Set Triple}
    (closed : ∀ t ∈ facts, ∀ u, c.Derives facts t u → u ∈ facts)
    (known : p.engine.graph.known ⊆ facts) (pending : ∀ t ∈ p.agenda.pending, t ∈ facts) :
    ∀ u ∈ new ++ new', u ∈ facts := by
  have first : t ∈ facts := pending t (works.pending ▸ List.mem_cons_self)
  have derived : ∀ u ∈ new, u ∈ facts := fun u mem =>
    closed t first u ((works.derived mem).mono known)
  have known₂ : p₂.engine.graph.known ⊆ facts := by
    rw [works.grows.known]
    exact Set.union_subset derived known
  intro u mem
  rcases List.mem_append.mp mem with here | here
  · exact derived u here
  · exact later.inside facts closed known₂ (works.pending_subset pending derived) u here

/-- The last of the worked facts in a match triggers it: the others were known by then. -/
theorem Settles.cons_closed (works : Works c t p p₁ p₂ new)
    (later : Settles c limit p₂ p₃ worked new')
    (pending : ∀ t ∈ p.agenda.pending, t ∈ p.engine.graph.known)
    (done : p₃.agenda.pending = []) :
    ∀ f ∈ t :: worked, ∀ u, c.Derives p₃.engine.graph.known f u → u ∈ p₃.engine.graph.known := by
  have known₂ := works.grows.subset
  have known₃ := later.subset
  have laterClosed := later.closed (works.pending_known pending) done
  intro f mem u derives
  rcases List.mem_cons.mp mem with rfl | mem
  · have queue := later.worked_eq done
    rw [works.adds.pending, List.append_assoc] at queue
    have split : p₃.engine.graph.known ⊆ p.engine.graph.known ∪ {g | g ∈ worked} := by
      intro g known
      rw [Set.mem_union, Set.mem_ofPred_eq, queue, List.mem_append, List.mem_append]
      rw [later.known, works.grows.known] at known
      rcases known with byLater | byFirst | old
      · exact Or.inr (Or.inr (Or.inr byLater))
      · exact Or.inr (Or.inr (Or.inl byFirst))
      · exact Or.inl old
    have first : f ∈ p₃.engine.graph.known :=
      known₃ (known₂ (pending f (works.pending ▸ List.mem_cons_self)))
    rcases derives.by_new_or_old first split with ⟨g, again, derives⟩ | derives
    · exact laterClosed g again u derives
    · exact known₃ (works.known derives)
  · exact laterClosed f mem u derives

theorem Settles.cons (works : Works c t p p₁ p₂ new) (later : Settles c limit p₂ p₃ worked new') :
    Settles c (limit + 1) p p₃ (t :: worked) (new ++ new') where
  toGrows := works.grows.trans later.toGrows
  queue := by
    rw [List.cons_append, later.queue, works.adds.pending, works.pending, List.cons_append,
      List.append_assoc]
  limited := Nat.succ_le_succ later.limited
  exhausted := later.exhausted.imp_right fun full => by rw [List.length_cons, full]
  inside _ closed known pending := later.cons_inside works closed known pending
  derived u mem := by
    rcases List.mem_append.mp mem with here | here
    · have known := works.grows.subset.trans later.subset
      exact ⟨t, List.mem_cons_self, (works.derived here).mono known⟩
    · obtain ⟨f, mem', derives⟩ := later.derived u here
      exact ⟨f, List.mem_cons_of_mem t mem', derives⟩
  closed pending done := later.cons_closed works pending done

section
variable {R D : Type} [TripleSource R] [TripleSink D] {c : CompiledRules} {limit : Nat}
  {p : Pass R D} {good : List Triple → Pass R D → Prop} {bad : Failure → Pass R D → Prop}

theorem settle_ends_nil (idle : p.agenda.pending = []) :
    (settle c (limit + 1)).Ends p good bad ↔ good [] { p with agenda := p.agenda.next.2 } := by
  obtain ⟨first, -⟩ := p.agenda.next_eq
  rw [idle] at first
  rw [settle, Step.ends_bind, next_ends, first]
  rfl

theorem settle_ends_cons {t : Triple} {rest : List Triple} (pending : p.agenda.pending = t :: rest) :
    (settle c (limit + 1)).Ends p good bad ↔
      (work c t).Ends ⟨p.engine.traceRecord (.processing t), p.agenda.next.2⟩
        (fun _ p' => (settle c limit).Ends p' (fun worked => good (t :: worked)) bad) bad := by
  obtain ⟨first, -⟩ := p.agenda.next_eq
  rw [pending] at first
  rw [settle, Step.ends_bind, next_ends, first]
  simp only [List.head?_cons]
  rw [modifyEngine, Step.ends_bind, Step.ends_modify, Step.ends_bind, Step.ends_discard]
  simp only [Step.ends_bind, Step.ends_pure]

end

theorem work_next_ends (compiled : c.Compiled) {p : Pass R D} (sound : p.engine.graph.Sound)
    {t : Triple} {rest : List Triple} (pending : p.agenda.pending = t :: rest) :
    (work c t).Ends ⟨p.engine.traceRecord (.processing t), p.agenda.next.2⟩
      (fun new p₂ => Works c t p ⟨p.engine.traceRecord (.processing t), p.agenda.next.2⟩ p₂ new)
      (Aborts R D) := by
  let p₁ : Pass R D := ⟨p.engine.traceRecord (.processing t), p.agenda.next.2⟩
  have graph : p₁.engine.graph = p.engine.graph := by simp [p₁]
  obtain ⟨-, others⟩ := p.agenda.next_eq
  rw [pending] at others
  apply (work_ends compiled t (p := p₁) (graph ▸ sound) p.agenda.next_forgets.1).imp
  exact fun new p₂ adds =>
    ⟨graph, by simp, pending.trans (congrArg (t :: ·) others.symm), graph ▸ adds⟩

theorem settle_ends (compiled : c.Compiled) (limit : Nat) {p : Pass R D}
    (sound : p.engine.graph.Sound) :
    (settle c limit).Ends p (fun worked p' => ∃ new, Settles c limit p p' worked new)
      (Aborts R D) := by
  induction limit generalizing p with
  | zero =>
    rw [settle, Step.ends_pure]
    exact ⟨[], settles_nothing (grows_nothing (.refl sound) rfl) rfl (Or.inr rfl)⟩
  | succ limit ih =>
    cases pending : p.agenda.pending with
    | nil =>
      obtain ⟨-, rest⟩ := p.agenda.next_eq
      rw [pending] at rest
      rw [settle_ends_nil pending]
      refine ⟨[], settles_nothing (grows_nothing (.refl sound) rfl) ?_ (Or.inl rest)⟩
      exact rest.trans pending.symm
    | cons t tail =>
      rw [settle_ends_cons pending]
      apply (work_next_ends compiled sound pending).imp
      intro new p₂ works
      apply (ih works.adds.sound).imp
      intro worked p₃ ⟨new', later⟩
      exact ⟨new ++ new', later.cons works⟩

theorem settle_ends_of_done (limit : Nat) {R D : Type} [TripleSource R] [TripleSink D]
    {p : Pass R D} :
    (settle c limit).Ends p
      (fun worked p' => p'.agenda.pending = [] → ∀ more, limit ≤ more →
        (settle c more).Ends p (fun worked' p'' => worked' = worked ∧
          p''.engine = p'.engine ∧ p''.agenda.pending = []) (fun _ _ => False))
      (fun _ _ => True) := by
  induction limit generalizing p with
  | zero =>
    rw [settle, Step.ends_pure]
    intro done more _
    cases more with
    | zero => exact ⟨rfl, rfl, done⟩
    | succ more =>
      obtain ⟨-, rest⟩ := p.agenda.next_eq
      rw [done] at rest
      exact (settle_ends_nil done).mpr ⟨rfl, rfl, rest⟩
  | succ limit ih =>
    obtain ⟨-, rest⟩ := p.agenda.next_eq
    cases pending : p.agenda.pending with
    | nil =>
      rw [settle_ends_nil pending]
      intro done more enough
      obtain ⟨more, rfl⟩ := Nat.exists_eq_add_one_of_ne_zero (Nat.ne_zero_of_lt enough)
      exact (settle_ends_nil pending).mpr ⟨rfl, rfl, done⟩
    | cons t tail =>
      rw [settle_ends_cons pending]
      refine Step.ends_self.mono ?_ (fun _ _ _ => trivial)
      intro _ p₂ run
      refine ih.mono ?_ (fun _ _ _ => trivial)
      intro worked p₃ stable done more enough
      obtain ⟨more, rfl⟩ := Nat.exists_eq_add_one_of_ne_zero (Nat.ne_zero_of_lt enough)
      rw [settle_ends_cons pending, Step.ends_of_outcome run]
      -- one more unit is taken off on both sides, and the rest is as before
      apply (stable done more (Nat.le_of_succ_le_succ enough)).imp
      exact fun worked' p'' ⟨same, kept⟩ => ⟨congrArg (t :: ·) same, kept⟩

end Pass
end TripleInference
