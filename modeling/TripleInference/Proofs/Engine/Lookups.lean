import TripleInference.Proofs.Engine.Counting
import TripleInference.Proofs.Engine.History
import TripleInference.Proofs.Network.Asking
import TripleInference.Proofs.Store.Watched

/-!
What engines look up when every clause of their rules names its predicate. Nothing is looked up
then but single facts and facts with the predicate of some clause.
-/
namespace TripleInference

namespace CompiledRules

def UsesPredicate (c : CompiledRules) (q : TermId) : Prop :=
  ∃ rule ∈ c.active, ∃ p ∈ rule.2.body, p.predicate = .constant q

def NamesPredicates (c : CompiledRules) : Prop :=
  ∀ rule ∈ c.active, ∀ p ∈ rule.2.body, ∃ q, p.predicate = .constant q

/-- The lookup is for a single fact, or for facts with the predicate of a clause. -/
def Targets (c : CompiledRules) (l : Lookup) : Prop :=
  (∃ t, l = .exactly t) ∨ ∃ q, l.predicate = some q ∧ c.UsesPredicate q

variable {c : CompiledRules}

theorem NamesPredicates.targets (names : c.NamesPredicates) {rule : RuleId × Rule}
    (active : rule ∈ c.active) {p : Pattern} (clause : p ∈ rule.2.body) (b : Bindings) :
    c.Targets (b.lookup p) := by
  obtain ⟨q, named⟩ := names rule active p clause
  refine Or.inr ⟨q, ?_, rule, active, p, clause, named⟩
  rw [Bindings.lookup, named]
  rfl

theorem Compiled.mem_predicatesUsed (compiled : c.Compiled) {used}
    (isUsed : c.predicatesUsed = some used) (q : TermId) : q ∈ used ↔ c.UsesPredicate q := by
  simp only [compiled.predicates used isUsed q, UsesPredicate, Term.constant?_eq_some_iff]

theorem Compiled.predicatesUsed_ne_none (compiled : c.Compiled) (names : c.NamesPredicates) :
    c.predicatesUsed ≠ none := by
  intro isOpen
  obtain ⟨rule, active, p, clause, missing⟩ := compiled.openPredicate.mp isOpen
  obtain ⟨q, named⟩ := names rule active p clause
  rw [named] at missing
  cases missing

theorem Compiled.scans_iff (compiled : c.Compiled) (names : c.NamesPredicates) (t : Triple) :
    c.Scans t ↔ c.UsesPredicate t.predicate := by
  obtain ⟨used, isUsed⟩ := Option.ne_none_iff_exists'.mp (compiled.predicatesUsed_ne_none names)
  rw [← compiled.mem_predicatesUsed isUsed]
  simp [Scans, isUsed]

end CompiledRules

namespace Engine

section
variable {R D : Type} [TripleSource R] [TripleSink D]

structure KeptByAsking (c : CompiledRules) (good : InferenceGraph R D → Prop) : Prop where
  search : ∀ rule ∈ c.active, ∀ p ∈ rule.2.body, ∀ b : Bindings,
    (InferenceGraph.find (b.lookup p)).Preserves good
  contains : ∀ t, (InferenceGraph.contains t).Preserves good
  deduce : ∀ t, (InferenceGraph.onDeductions (TripleSink.add t)).Preserves good
  scan : (InferenceGraph.onRaw (scan c)).Preserves good

omit [TripleSource R] [TripleSink D] in
theorem onGraph_preserves_beside {α : Type} {compiled : Option CompiledRules}
    {good : InferenceGraph R D → Prop} {m : Step StoreError (InferenceGraph R D) α}
    (kept : m.Preserves good) :
    (onGraph m).Preserves fun e => e.compiled = compiled ∧ good e.graph :=
  kept.within (fun _ start => start.2) fun _ _ start reached => ⟨start.1, reached⟩

theorem KeptByAsking.calls {c : CompiledRules} (compiled : c.Compiled)
    {good : InferenceGraph R D → Prop} (kept : KeptByAsking c good) :
    KeptByCalls fun e : Engine R D => e.compiled = some c ∧ good e.graph where
  toKeptByNotes := keptByNotes_of_parts (fun _ start => start) fun _ start => start
  passes {e c'} start installed :=
    { toKeptByNotes := keptByNotes_of_parts (fun _ start => start) fun _ start => start
      deducing := fun t => onGraph_preserves_beside (kept.deduce t)
      knowing := fun t => onGraph_preserves_beside (kept.contains t)
      scanning := by
        obtain rfl : c = c' := Option.some.inj (start.1.symm.trans installed)
        exact onGraph_preserves_beside kept.scan
      matching := by
        obtain rfl : c = c' := Option.some.inj (start.1.symm.trans installed)
        exact fun t => (Descent.offerAll_preserves compiled kept.search t).within
          (fun _ start => start.2) fun _ _ start reached => ⟨start.1, reached⟩
      firing := fun start => start
      processing := fun t start => by simpa using start }
  proceed _ _ start := start

end

section
variable {R D : Type} [TripleSink R] [EmptyCollection R] [TripleSink D] {c : CompiledRules}

/-- What may be looked up with these rules installed. Without rules, nothing may be. -/
def MayLookUp (compiled : Option CompiledRules) (l : Lookup) : Prop :=
  ∃ c, compiled = some c ∧ (c.NamesPredicates → c.Targets l)

omit [EmptyCollection R] in
theorem keptByAsking_looksUpOnly (compiled : c.Compiled) :
    KeptByAsking c (InferenceGraph.LooksUpOnly (R := R) (D := D) (MayLookUp (some c))) where
  search _ active _ clause b :=
    InferenceGraph.find_preserves ⟨c, rfl, fun names => names.targets active clause b⟩
  contains t := InferenceGraph.contains_preserves ⟨c, rfl, fun _ => Or.inl ⟨t, rfl⟩⟩
  deduce t := InferenceGraph.onDeductions_preserves (Watched.add_preserves t)
  scan := by
    apply InferenceGraph.onRaw_preserves
    unfold Engine.scan
    cases isUsed : c.predicatesUsed with
    | none =>
      refine Watched.find_preserves ⟨c, rfl, fun names => ?_⟩
      exact absurd isUsed (compiled.predicatesUsed_ne_none names)
    | some used =>
      refine Step.Preserves.bind (Step.Preserves.mapM fun q mem => ?_)
        fun _ => Step.preserves_pure _
      have uses := (compiled.mem_predicatesUsed isUsed q).mp (Std.ExtTreeSet.mem_toList.mp mem)
      exact Watched.find_preserves ⟨c, rfl, fun _ => Or.inr ⟨q, rfl, uses⟩⟩

def KeepsToRules (e : Engine (Watched R) (Watched D)) : Prop :=
  e.graph.LooksUpOnly (MayLookUp e.compiled)

theorem Request.run_keepsToRules {e : Engine (Watched R) (Watched D)} (keeps : e.KeepsToRules)
    (genuine : ∀ c, e.compiled = some c → c.Compiled) (request : Request) :
    (request.run.outcome e).2.KeepsToRules := by
  -- as long as the installed rules stay, `KeepsToRules` is about the graph alone
  have leaves {compiled : Option CompiledRules} {e' : Engine (Watched R) (Watched D)}
      (reached : e'.compiled = compiled ∧ e'.graph.LooksUpOnly (MayLookUp compiled)) :
      e'.KeepsToRules := by
    rw [KeepsToRules, reached.1]
    exact reached.2
  have starts {c : CompiledRules} (installed : e.compiled = some c) :
      e.compiled = some c ∧ e.graph.LooksUpOnly (MayLookUp (some c)) :=
    ⟨installed, installed ▸ keeps⟩
  have calls {c : CompiledRules} (compiled : c.Compiled) :=
    (keptByAsking_looksUpOnly (R := R) (D := D) compiled).calls compiled
  apply request.final_of KeepsToRules
  case stay => exact fun _ => keeps
  case reset => exact fun _ => keeps
  case init =>
    intro ignoreBackward c _ runs
    have compiled : c.Compiled := by
      rcases runs with installed | ⟨-, compiles⟩
      · exact genuine c installed
      · exact CompiledRules.compiled_of_compile compiles
    refine Step.ends_of_final (leaves (init_leaves (calls compiled) (fun _ before => before) ?_))
    apply (ensureCompiled_ends runs).imp
    rintro _ _ ⟨journal, rfl⟩
    refine ⟨rfl, fun l mem => ?_⟩
    obtain ⟨c', installed, may⟩ := keeps l mem
    rcases runs with same | ⟨missing, -⟩
    · exact ⟨c', same.symm.trans installed, may⟩
    · rw [missing] at installed
      cases installed
  case load =>
    intro c _ installed
    have kept := load_preserves (calls (genuine c installed))
    exact Step.ends_of_final (leaves (kept e (starts installed)))
  case add =>
    intro t c _ installed
    have kept := add_preserves (calls (genuine c installed)).passes t
      (onGraph_preserves_beside (InferenceGraph.assertRaw_preserves t))
    exact Step.ends_of_final (leaves (kept e (starts installed)))
  case delete =>
    intro t _
    have kept : (Engine.delete t).Preserves fun e' : Engine (Watched R) (Watched D) =>
        e'.compiled = e.compiled ∧ e'.graph.LooksUpOnly (MayLookUp e.compiled) := by
      refine delete_preserves (keptByNotes_of_parts (fun _ before => before)
        fun _ before => before) ?_
      apply onGraph_preserves_beside
      exact InferenceGraph.onDeductions_preserves (Watched.delete_preserves t)
    exact Step.ends_of_final (leaves (kept e ⟨rfl, keeps⟩))
  case applyOnce =>
    intro t c _ installed
    have kept := applyOnce_preserves (calls (genuine c installed)).passes t
    exact Step.ends_of_final (leaves (kept e (starts installed)))

theorem KeepsToRules.after {e : Engine (Watched R) (Watched D)} (keeps : e.KeepsToRules)
    (compiled : c.Compiled) {requests : List Request}
    (installed : (e.after requests).compiled = some c) : (e.after requests).KeepsToRules := by
  induction requests generalizing e with
  | nil => exact keeps
  | cons request rest ih =>
    refine ih (request.run_keepsToRules keeps fun c' before => ?_) installed
    have stays := compiled_after before (request :: rest)
    obtain rfl : c = c' := Option.some.inj (installed.symm.trans stays)
    exact compiled

/-- Where no clause leaves its predicate open, whatever is asked of an engine in whatever order, its
stores are only ever asked for single facts and for facts with the predicate of some clause. A
loading pass begins with the raw facts that have such a predicate, each of them once. -/
theorem named_predicates_bound_all_lookups {rules : List Rule} {ignoreBackward : Bool}
    (compiles : CompiledRules.compile rules ignoreBackward = .ok c) (names : c.NamesPredicates) :
    (∀ (e : Engine (Watched R) (Watched D)) (requests : List Request), e.graph.lookups = [] →
      (e.after requests).compiled = some c →
      ∀ l ∈ (e.after requests).graph.lookups, c.Targets l) ∧
    ∀ [LawfulSource R] [LawfulSink D],
      (∀ raw : R, LawfulSource.sound raw →
        (scan c : Step StoreError R (List Triple)).Ends raw
          (fun queued _ => queued.Nodup ∧ ∀ t,
            t ∈ queued ↔ t ∈ LawfulSource.facts raw ∧ c.UsesPredicate t.predicate)
          (fun _ _ => LawfulSource.fails R)) ∧
      ∀ e : Engine R D, e.compiled = some c → e.graph.Sound →
        load.Ends e
          (fun worked _ => ∃ queued new, worked = queued ++ new ∧ queued.Nodup ∧
            (∀ t, t ∈ queued ↔ t ∈ e.graph.rawFacts ∧ c.UsesPredicate t.predicate) ∧
            ∀ t ∈ new, t ∉ e.graph.known)
          (Aborts R D) := by
  have compiled := CompiledRules.compiled_of_compile compiles
  refine ⟨fun e requests fresh installed l mem => ?_, fun {_ _} => ⟨fun raw sound => ?_, ?_⟩⟩
  · have keeps : e.KeepsToRules := by
      intro l mem
      rw [fresh] at mem
      cases mem
    obtain ⟨c', installed', targets⟩ := keeps.after compiled installed l mem
    obtain rfl : c = c' := Option.some.inj (installed.symm.trans installed')
    exact targets names
  · refine (scan_ends c sound).mono ?_ fun _ _ failed => failed.1
    rintro queued raw' ⟨⟨nodup, mem_iff⟩, -⟩
    simp only [compiled.scans_iff names] at mem_iff
    exact ⟨nodup, mem_iff⟩
  · intro e installed sound
    apply (load_counts compiled installed sound).imp
    rintro worked e' ⟨queued, mem_iff, counts⟩
    simp only [compiled.scans_iff names] at mem_iff
    obtain ⟨new, rfl, -, unknown⟩ := counts.queue
    exact ⟨queued, new, rfl, (List.nodup_append.mp counts.distinct).1, mem_iff, unknown⟩

theorem transitivity_looks_up_links_only :
    ∃ (c : CompiledRules) (e : Engine (Watched FactIndex) (Watched FactIndex))
      (worked : List Triple) (e' : Engine FactIndex FactIndex),
      CompiledRules.compile [.transitive 5] true = .ok c ∧
      e.graph = ⟨some (.ofStore (.ofList [⟨1, 5, 2⟩, ⟨1, 7, 2⟩])), ∅⟩ ∧
      (⟨none, some 5, some 1⟩ : Lookup) ∈ (e.after [.call .load]).graph.lookups ∧
      (∀ l ∈ (e.after [.call .load]).graph.lookups, c.Targets l) ∧
      load.outcome (ofCompiled (MemoryGraph.withRaw [⟨1, 5, 2⟩, ⟨1, 7, 2⟩]) c .standard) =
        (.ok worked, e') ∧
      ⟨1, 5, 2⟩ ∈ worked ∧ ⟨1, 7, 2⟩ ∉ worked := by
  obtain ⟨c, compiles⟩ : ∃ c, CompiledRules.compile [.transitive 5] true = .ok c := ⟨_, rfl⟩
  have active : c.active = [(0, .transitive 5)] := by
    cases compiles
    rfl
  have names : c.NamesPredicates := by
    simp [CompiledRules.NamesPredicates, active, Rule.transitive, Rule.ofPatterns]
  have uses (q : TermId) : c.UsesPredicate q ↔ 5 = q := by
    simp [CompiledRules.UsesPredicate, active, Rule.transitive, Rule.ofPatterns]
  let e : Engine (Watched FactIndex) (Watched FactIndex) :=
    ofCompiled ⟨some (.ofStore (.ofList [⟨1, 5, 2⟩, ⟨1, 7, 2⟩])), ∅⟩ c .standard
  have asked : (⟨none, some 5, some 1⟩ : Lookup) ∈ (e.after [.call .load]).graph.lookups := by
    cases compiles
    decide +kernel
  obtain ⟨bounded, exact⟩ := named_predicates_bound_all_lookups (R := FactIndex) (D := FactIndex)
    compiles names
  obtain ⟨sound, rawFacts, -⟩ := MemoryGraph.withRaw_sound [⟨1, 5, 2⟩, ⟨1, 7, 2⟩]
  have raw {t : Triple} (mem : t ∈ [⟨1, 5, 2⟩, ⟨1, 7, 2⟩]) :
      t ∈ (MemoryGraph.withRaw [⟨1, 5, 2⟩, ⟨1, 7, 2⟩]).rawFacts := rawFacts.superset mem
  obtain ⟨worked, e', run, queued, new, rfl, -, mem_queued, unknown⟩ :=
    (exact.2 (ofCompiled (MemoryGraph.withRaw [⟨1, 5, 2⟩, ⟨1, 7, 2⟩]) c .standard) rfl
      sound).result not_aborts
  refine ⟨c, e, queued ++ new, e', compiles, rfl, asked,
    bounded e _ rfl (compiled_after rfl [.call .load]), run, ?_, ?_⟩
  · have isQueued := (mem_queued ⟨1, 5, 2⟩).mpr ⟨raw List.mem_cons_self, (uses 5).mpr rfl⟩
    exact List.mem_append_left new isQueued
  · intro mem
    rcases List.mem_append.mp mem with isQueued | isNew
    · have other := (uses 7).mp ((mem_queued _).mp isQueued).2
      exact absurd other (by decide)
    · exact unknown _ isNew (Or.inl (raw (List.mem_cons_of_mem _ List.mem_cons_self)))

end

end Engine
end TripleInference
