import TripleInference.Proofs.Engine.Counting

/-!
What a pass takes off its agenda, and what it knows at that moment. To see it, the agenda is worked
off once more, noting with each triple the graph as it stood when the triple came off; without the
notes this is what the engine does. The firings of a call can then be read off the notes alone.
-/
namespace TripleInference

namespace Step

variable {ε δ σ τ α β : Type}

theorem outcome_map (f : α → β) (m : Step ε σ α) (s : σ) :
    (f <$> m).outcome s = ((m.outcome s).1.map f, (m.outcome s).2) := by
  rw [map_eq_pure_bind, outcome_bind]
  rcases m.outcome s with ⟨_ | a, t⟩ <;> rfl

theorem map_within (f : α → β) (part : σ → τ) (put : τ → σ → σ) (widen : ε → δ)
    (m : Step ε τ α) : f <$> m.within part put widen = (f <$> m).within part put widen := by
  funext s
  change (f <$> m.within part put widen).outcome s = ((f <$> m).within part put widen).outcome s
  rw [outcome_map, outcome_within, outcome_within, outcome_map]
  rcases m.outcome (part s) with ⟨_ | a, t⟩ <;> rfl

theorem get_bind_const (m : Step ε σ α) : (get >>= fun _ => m) = m := rfl

end Step

namespace Pass

structure Taken (R D : Type) where
  triple : Triple
  graph : InferenceGraph R D

section
variable {R D : Type} [TripleSource R] [TripleSink D]

def settleTaking (rules : CompiledRules) : Nat → Step Failure (Pass R D) (List (Taken R D))
  | 0 => return []
  | limit + 1 => do
    match ← next with
    | none => return []
    | some t =>
      let graph := (← get).engine.graph
      modifyEngine (·.traceRecord (.processing t))
      discard <| work rules t
      return ⟨t, graph⟩ :: (← settleTaking rules limit)

def settleAllTaking (rules : CompiledRules) : Step Failure (Pass R D) (List (Taken R D)) := do
  settleTaking rules ((← get).agenda.size + tripleCount)

theorem map_settleTaking (c : CompiledRules) (limit : Nat) :
    List.map Taken.triple <$> settleTaking c limit =
      (settle c limit : Step Failure (Pass R D) (List Triple)) := by
  induction limit with
  | zero => exact map_pure _ _
  | succ limit ih =>
    rw [settleTaking, settle, map_bind]
    refine bind_congr fun first => ?_
    cases first with
    | none => exact map_pure _ _
    | some t =>
      -- without the note, the graph is read for nothing
      simp only [map_bind, map_pure, List.map_cons, ← ih, bind_map_left, Step.get_bind_const]

theorem map_settleAllTaking (c : CompiledRules) :
    List.map Taken.triple <$> settleAllTaking c =
      (settleAll c : Step Failure (Pass R D) (List Triple)) := by
  rw [settleAllTaking, settleAll, map_bind]
  exact bind_congr fun p => map_settleTaking c _

theorem settleTaking_ends_nil {c : CompiledRules} {limit : Nat} {p : Pass R D}
    {good : List (Taken R D) → Pass R D → Prop} {bad : Failure → Pass R D → Prop}
    (idle : p.agenda.pending = []) :
    (settleTaking c (limit + 1)).Ends p good bad ↔
      good [] { p with agenda := p.agenda.next.2 } := by
  obtain ⟨first, -⟩ := p.agenda.next_eq
  rw [idle] at first
  rw [settleTaking, Step.ends_bind, next_ends, first]
  rfl

theorem settleTaking_ends_cons {c : CompiledRules} {limit : Nat} {p : Pass R D}
    {good : List (Taken R D) → Pass R D → Prop} {bad : Failure → Pass R D → Prop} {t : Triple}
    {rest : List Triple} (pending : p.agenda.pending = t :: rest) :
    (settleTaking c (limit + 1)).Ends p good bad ↔
      (work c t).Ends ⟨p.engine.traceRecord (.processing t), p.agenda.next.2⟩
        (fun _ p' => (settleTaking c limit).Ends p'
          (fun taken => good (⟨t, p.engine.graph⟩ :: taken)) bad) bad := by
  obtain ⟨first, -⟩ := p.agenda.next_eq
  rw [pending] at first
  rw [settleTaking, Step.ends_bind, next_ends, first]
  simp only [List.head?_cons]
  rw [Step.ends_bind, Step.ends_get, modifyEngine, Step.ends_bind, Step.ends_modify,
    Step.ends_bind, Step.ends_discard]
  simp only [Step.ends_bind, Step.ends_pure]

end

section
variable {R D : Type} [TripleSource R] [LawfulSource R] [TripleSource D] [LawfulSource D]

/-- The pairs of a rule and a triple taken that activated it in the graph as it stood then. -/
def activatedThen (c : CompiledRules) (taken : List (Taken R D)) : Set (RuleId × Triple) :=
  {pair | ∃ x ∈ taken, x.triple = pair.2 ∧ pair.1 ∈ c.activated x.graph.known x.triple}

/-- Every triple was known when it was taken off the agenda, and the graph had come to know by then
what the triples before it had brought along. -/
structure Meets (c : CompiledRules) (facts : Set Triple) (taken : List (Taken R D)) : Prop where
  known : ∀ x ∈ taken, x.triple ∈ x.graph.known
  activated : activatedThen c taken = c.activations facts (taken.map Taken.triple)

variable {c : CompiledRules} {taken : List (Taken R D)}

theorem meets_nothing (facts : Set Triple) : Meets (R := R) (D := D) c facts [] where
  known x mem := by cases mem
  activated := Set.eq_empty_of_forall_notMem fun _ ⟨_, mem, _⟩ => by cases mem

theorem Meets.cons {t : Triple} {g : InferenceGraph R D} (known : t ∈ g.known)
    (later : Meets c (c.knownNext g.known t) taken) : Meets c g.known (⟨t, g⟩ :: taken) where
  known := List.forall_mem_cons.mpr ⟨known, later.known⟩
  activated := by
    rw [List.map_cons, CompiledRules.activations, ← later.activated]
    ext ⟨id, u⟩
    simp only [activatedThen, Set.mem_ofPred_eq, List.exists_mem_cons_iff, Set.mem_union,
      Set.mem_image, Prod.mk.injEq]
    constructor
    · rintro (⟨rfl, here⟩ | later)
      · exact Or.inl ⟨id, here, rfl, rfl⟩
      · exact Or.inr later
    · rintro (⟨_, here, rfl, rfl⟩ | later)
      · exact Or.inl ⟨rfl, here⟩
      · exact Or.inr later

end

section
variable {R D : Type} [TripleSource R] [LawfulSource R] [TripleSink D] [LawfulSink D]
  {c : CompiledRules} {p : Pass R D}

theorem settleTaking_meets (compiled : c.Compiled) (limit : Nat) (sound : p.engine.graph.Sound)
    (pending : ∀ u ∈ p.agenda.pending, u ∈ p.engine.graph.known) :
    (settleTaking c limit).Ends p (fun taken _ => Meets c p.engine.graph.known taken)
      fun _ _ => True := by
  induction limit generalizing p with
  | zero => exact meets_nothing _
  | succ limit ih =>
    cases agenda : p.agenda.pending with
    | nil => exact (settleTaking_ends_nil agenda).mpr (meets_nothing _)
    | cons t tail =>
      rw [settleTaking_ends_cons agenda]
      refine (work_next_ends compiled sound agenda).mono ?_ fun _ _ _ => trivial
      intro new p₂ works
      -- what the work has deduced is known before it is taken
      refine (ih works.adds.sound (works.pending_known pending)).imp ?_
      intro taken _ later
      rw [works.knownNext] at later
      exact later.cons (pending t (agenda ▸ List.mem_cons_self))

theorem settleAllTaking_meets (compiled : c.Compiled) (sound : p.engine.graph.Sound)
    (pending : ∀ u ∈ p.agenda.pending, u ∈ p.engine.graph.known) :
    (settleAllTaking c).Ends p (fun taken _ => Meets c p.engine.graph.known taken)
      fun _ _ => True := by
  rw [settleAllTaking, Step.ends_bind, Step.ends_get]
  exact settleTaking_meets compiled _ sound pending

end

end Pass

namespace Engine

section
variable {R D α β : Type}

theorem map_pass (f : α → β) (m : Step Failure (Pass R D) α) : f <$> pass m = pass (f <$> m) :=
  Step.map_within f _ _ id m

theorem pass_bind_map {γ : Type} (f : α → β) (m : Step Failure (Pass R D) γ)
    (next : γ → Step Failure (Pass R D) α) :
    (pass do f <$> next (← m)) = f <$> pass (m >>= next) := by
  rw [map_pass, map_bind]

theorem map_loadBy [TripleSource R] [TripleSink D] (f : α → β)
    (settle : CompiledRules → Step Failure (Pass R D) (List α)) :
    List.map f <$> loadBy settle = loadBy fun c => List.map f <$> settle c := by
  simp only [loadBy, map_bind]
  refine bind_congr fun c => bind_congr fun found => ?_
  cases found with
  | none => simp only [map_bind, map_pure, List.map_nil]
  | some facts => simp only [map_bind, map_pure, pass_bind_map, bind_map_left]

theorem map_addBy [TripleSink R] [EmptyCollection R] [TripleSink D] (f : α → β)
    (settle : CompiledRules → Step Failure (Pass R D) α) (t : Triple) :
    f <$> addBy settle t = addBy (fun c => f <$> settle c) t := by
  simp only [addBy, map_bind]
  refine bind_congr fun c => bind_congr fun known => ?_
  cases known <;> simp only [pass_bind_map, Bool.false_eq_true, ite_true, ite_false, map_bind]

def loadTaking [TripleSource R] [TripleSink D] :
    Step Failure (Engine R D) (List (Pass.Taken R D)) := loadBy Pass.settleAllTaking

def addTaking [TripleSink R] [EmptyCollection R] [TripleSink D] (t : Triple) :
    Step Failure (Engine R D) (List (Pass.Taken R D)) := addBy Pass.settleAllTaking t

theorem map_loadTaking [TripleSource R] [TripleSink D] :
    List.map Pass.Taken.triple <$> loadTaking =
      (load : Step Failure (Engine R D) (List Triple)) := by
  rw [loadTaking, map_loadBy]
  simp only [Pass.map_settleAllTaking]
  exact loadBy_settleAll

theorem map_addTaking [TripleSink R] [EmptyCollection R] [TripleSink D] (t : Triple) :
    List.map Pass.Taken.triple <$> addTaking t =
      (add t : Step Failure (Engine R D) (List Triple)) := by
  rw [addTaking, map_addBy]
  simp only [Pass.map_settleAllTaking]
  exact addBy_settleAll t

end

/-- A call took no triple twice, and each was known when it was taken. A rule has fired once for
each triple that activated it in the graph as it stood then. -/
structure FiresAsTaken {R D : Type} [TripleSource R] [LawfulSource R] [TripleSource D]
    [LawfulSource D] (c : CompiledRules) (before : Nat) (taken : List (Pass.Taken R D))
    (e : Engine R D) : Prop where
  distinct : (taken.map Pass.Taken.triple).Nodup
  known : ∀ x ∈ taken, x.triple ∈ x.graph.known
  finite : (Pass.activatedThen c taken).Finite
  firings : e.firings = before + (Pass.activatedThen c taken).ncard

section
variable {R D : Type} [TripleSource R] [LawfulSource R] [TripleSink D] [LawfulSink D]
  {c : CompiledRules} {e : Engine R D}

theorem firesAsTaken {facts : Set Triple} {start : List Triple} {before : Nat}
    {taken : List (Pass.Taken R D)} (meets : Pass.Meets c facts taken)
    (counts : Pass.CountsOnce c facts start (taken.map Pass.Taken.triple) before e) :
    FiresAsTaken c before taken e where
  distinct := counts.distinct
  known := meets.known
  finite := by
    rw [meets.activated]
    exact c.finite_activations facts _
  firings := by rw [meets.activated, counts.once]

theorem loadTaking_meets (compiled : c.Compiled) (installed : e.compiled = some c)
    (sound : e.graph.Sound) :
    loadTaking.Ends e (fun taken _ => Pass.Meets c e.graph.known taken) fun _ _ => True := by
  apply loadBy_ends_of Pass.settleAllTaking installed sound
  case idle => exact fun _ _ _ => Pass.meets_nothing _
  case go =>
    intro g found same distinct mem_iff
    rw [← same.known]
    refine Pass.settleAllTaking_meets compiled same.sound fun u mem => ?_
    rw [Agenda.pending_enqueueAll] at mem
    have raw : u ∈ e.graph.rawFacts := ((mem_iff u).mp mem).1
    exact Or.inl (same.rawFacts ▸ raw)
  case stop => exact fun _ _ _ _ => trivial

theorem loadTaking_counts (compiled : c.Compiled) (installed : e.compiled = some c)
    (sound : e.graph.Sound) :
    loadTaking.Ends e (fun taken e' => FiresAsTaken c e.firings taken e') (Aborts R D) := by
  have counts := load_counts compiled installed sound
  rw [← map_loadTaking, Step.ends_map] at counts
  refine ((loadTaking_meets compiled installed sound).and counts).mono ?_ fun _ _ failed => failed.2
  rintro taken e' ⟨meets, start, -, counts⟩
  exact firesAsTaken meets counts

end

section
variable {R D : Type} [TripleSink R] [EmptyCollection R] [LawfulStore R] [TripleSink D]
  [LawfulSink D] {c : CompiledRules} {e : Engine R D}

theorem addTaking_meets (compiled : c.Compiled) (t : Triple) (installed : e.compiled = some c)
    (sound : e.graph.Sound) :
    (addTaking t).Ends e (fun taken _ => Pass.Meets c ({t} ∪ e.graph.known) taken)
      fun _ _ => True := by
  apply addBy_ends_of Pass.settleAllTaking installed sound
  · intro g stores
    rw [pass_ends, Pass.enqueue, Step.ends_bind, Step.ends_modify, ← stores.known]
    exact Pass.settleAllTaking_meets compiled stores.sound stores.pending_known
  · exact fun _ _ _ _ _ _ => trivial

theorem addTaking_counts (compiled : c.Compiled) (t : Triple) (installed : e.compiled = some c)
    (sound : e.graph.Sound) :
    (addTaking t).Ends e (fun taken e' => FiresAsTaken c e.firings taken e') (Aborts R D) := by
  have counts := add_counts compiled t installed sound
  rw [← map_addTaking, Step.ends_map] at counts
  refine ((addTaking_meets compiled t installed sound).and counts).mono ?_
    fun _ _ failed => failed.2
  rintro taken e' ⟨meets, counts⟩
  exact firesAsTaken meets counts

end

/-- In memory, an addition and a loading pass end, and take no triple off the agenda twice. Whatever
they take is in the raw facts or the deductions by then. Their firings are the pairs of an active
rule and a triple taken such that the triple matched one clause of the rule, in the graph as it
stood when the triple was taken, and facts of that graph matched the others. -/
theorem firings_are_the_activations_by_triples_taken {rules : List Rule} {ignoreBackward : Bool}
    {c : CompiledRules} (compiles : CompiledRules.compile rules ignoreBackward = .ok c)
    {e : Engine FactIndex FactIndex} (installed : e.compiled = some c) (sound : e.graph.Sound) :
    (∀ t, ∃ taken e', (addTaking t).outcome e = (.ok taken, e') ∧
      (add t).outcome e = (.ok (taken.map Pass.Taken.triple), e') ∧
      FiresAsTaken c e.firings taken e') ∧
    ∃ taken e', loadTaking.outcome e = (.ok taken, e') ∧
      load.outcome e = (.ok (taken.map Pass.Taken.triple), e') ∧
      FiresAsTaken c e.firings taken e' := by
  have compiled := CompiledRules.compiled_of_compile compiles
  constructor
  · intro t
    obtain ⟨taken, e', run, fires⟩ :=
      (addTaking_counts compiled t installed sound).result not_aborts
    refine ⟨taken, e', run, ?_, fires⟩
    rw [← map_addTaking, Step.outcome_map, run]
    rfl
  · obtain ⟨taken, e', run, fires⟩ :=
      (loadTaking_counts compiled installed sound).result not_aborts
    refine ⟨taken, e', run, ?_, fires⟩
    rw [← map_loadTaking, Step.outcome_map, run]
    rfl

theorem joining_link_activates_transitivity_three_times :
    ∃ (c : CompiledRules) (taken : List (Pass.Taken FactIndex FactIndex)) (e' : _),
      CompiledRules.compile [.transitive 5] true = .ok c ∧
      (add ⟨2, 5, 3⟩).outcome (ofCompiled (MemoryGraph.withRaw [⟨1, 5, 2⟩, ⟨3, 5, 4⟩]) c
        .standard) = (.ok (taken.map Pass.Taken.triple), e') ∧
      taken.map Pass.Taken.triple = [⟨2, 5, 3⟩, ⟨2, 5, 4⟩, ⟨1, 5, 3⟩, ⟨1, 5, 4⟩] ∧
      e'.firings = 3 ∧ (Pass.activatedThen c taken).ncard = 3 := by
  obtain ⟨c, compiles⟩ : ∃ c, CompiledRules.compile [.transitive 5] true = .ok c := ⟨_, rfl⟩
  let e := ofCompiled (MemoryGraph.withRaw [⟨1, 5, 2⟩, ⟨3, 5, 4⟩]) c .standard
  have ran : ((add ⟨2, 5, 3⟩).outcome e).1.toOption =
        some [⟨2, 5, 3⟩, ⟨2, 5, 4⟩, ⟨1, 5, 3⟩, ⟨1, 5, 4⟩] ∧
      ((add ⟨2, 5, 3⟩).outcome e).2.firings = 3 := by
    obtain ⟨-, rfl⟩ := CompiledRules.compile_eq_ok.mp compiles
    decide +kernel
  obtain ⟨taken, e', -, run, fires⟩ :=
    (firings_are_the_activations_by_triples_taken compiles (e := e) rfl
      (MemoryGraph.withRaw_sound _).1).1 ⟨2, 5, 3⟩
  rw [run] at ran
  have fired : e'.firings = 3 := ran.2
  refine ⟨c, taken, e', compiles, run, Option.some.inj ran.1, fired, ?_⟩
  have account := fires.firings
  have before : e.firings = 0 := rfl
  omega

end Engine
end TripleInference
