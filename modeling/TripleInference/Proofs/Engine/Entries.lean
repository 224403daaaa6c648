import TripleInference.Proofs.Engine.Accounting

/-!
The log of an engine as an account of its deductions. A triple is recorded whenever it enters the
deductions and at no other time, so the records of a triple are as many as the times it was taken
out of the deductions, and one more while it is there.
-/
namespace TripleInference
namespace Engine

section
variable {R D : Type} [TripleSource R] [LawfulSource R] [TripleSink D] [LawfulSink D]
  {c : CompiledRules} {e e' e'' : Engine R D}

/-- What has entered the deductions has been recorded since, each triple once. Axioms assert what
was not deduced before, rules only what was not known. -/
structure Enters (e e' : Engine R D) : Prop where
  sound : e'.graph.Sound
  recording : e'.recording = true
  indexed : e'.derivations.Indexed
  rawFacts : e.graph.rawFacts ⊆ e'.graph.rawFacts
  entered : ∃ new, e'.records = e.records ++ new ∧ (new.map (·.conclusion)).Nodup ∧
    e'.graph.deduced = {t | t ∈ new.map (·.conclusion)} ∪ e.graph.deduced ∧
    ∀ d ∈ new, d.conclusion ∉ e.graph.deduced ∧
      (d.trigger.isSome → d.conclusion ∉ e.graph.known)

theorem Enters.refl (sound : e.graph.Sound) (recording : e.recording = true)
    (indexed : e.derivations.Indexed) : Enters e e where
  sound := sound
  recording := recording
  indexed := indexed
  rawFacts := Set.Subset.refl _
  entered := ⟨[], by simp, List.nodup_nil, by simp, by simp⟩

theorem Enters.congr (enters : Enters e e') (sound : e''.graph.Sound)
    (recording : e''.recording = e'.recording) (derivations : e''.derivations = e'.derivations)
    (rawFacts : e'.graph.rawFacts ⊆ e''.graph.rawFacts)
    (deduced : e''.graph.deduced = e'.graph.deduced) : Enters e e'' where
  sound := sound
  recording := recording.trans enters.recording
  indexed := derivations ▸ enters.indexed
  rawFacts := enters.rawFacts.trans rawFacts
  entered := by
    have records : e''.records = e'.records := congrArg (·.records.toList) derivations
    rw [records, deduced]
    exact enters.entered

theorem Enters.deduced_subset (enters : Enters e e') : e.graph.deduced ⊆ e'.graph.deduced := by
  obtain ⟨new, -, -, deduced, -⟩ := enters.entered
  rw [deduced]
  exact Set.subset_union_right

theorem Enters.deduce (enters : Enters e e') {d : Derivation} {g : InferenceGraph R D}
    (fresh : d.conclusion ∉ e'.graph.deduced)
    (unknown : d.trigger.isSome → d.conclusion ∉ e'.graph.known)
    (deduces : InferenceGraph.Deduces {d.conclusion} e'.graph g) :
    Enters e ({ e' with graph := g }.recordDerivation d) := by
  have setup : ({ e' with graph := g }.recordDerivation d).setup = e'.setup :=
    setup_recordDerivation _ d
  have appended : ({ e' with graph := g }.recordDerivation d).records = e'.records ++ [d] :=
    records_recordDerivation _ d enters.recording
  have known : e.graph.known ⊆ e'.graph.known :=
    Set.union_subset_union enters.rawFacts enters.deduced_subset
  obtain ⟨new, records, nodup, deduced, isNew⟩ := enters.entered
  constructor
  case sound =>
    rw [graph_recordDerivation]
    exact deduces.sound
  case recording => exact (recording_of_setup setup).trans enters.recording
  case indexed =>
    rw [derivations_recordDerivation { e' with graph := g } d enters.recording]
    exact enters.indexed.record d
  case rawFacts =>
    rw [graph_recordDerivation, deduces.rawFacts]
    exact enters.rawFacts
  case entered =>
    refine ⟨new ++ [d], ?_, ?_, ?_, ?_⟩
    · rw [appended, records, List.append_assoc]
    -- the conclusion was not deduced, so it is none of those recorded before
    · rw [List.map_append, List.nodup_append]
      refine ⟨nodup, List.nodup_singleton _, fun t mem u last same => fresh ?_⟩
      rw [List.map_singleton, List.mem_singleton] at last
      rw [deduced, ← last, ← same]
      exact Or.inl mem
    · rw [graph_recordDerivation, deduces.deduced, deduced]
      ext t
      simp only [Set.mem_union, Set.mem_singleton_iff, Set.mem_ofPred_eq, List.map_append,
        List.map_singleton, List.mem_append, List.mem_singleton]
      tauto
    · intro d' mem
      rcases List.mem_append.mp mem with old | last
      · exact isNew d' old
      · obtain rfl := List.mem_singleton.mp last
        exact ⟨fun before => fresh (enters.deduced_subset before),
          fun triggered before => unknown triggered (known before)⟩

theorem enters_deducing (c : CompiledRules) (own : Set Triple) (e : Engine R D) :
    KeptByDeducing c own (Enters e) where
  sound enters := enters.sound
  quiet enters quiet := enters.congr quiet.graph.sound (recording_of_setup quiet.setup)
    quiet.derivations quiet.graph.rawFacts.symm.subset quiet.graph.deduced
  deduce enters _ unknown _ deduces :=
    enters.deduce (fun old => unknown (Or.inr old)) (fun _ => unknown) deduces

theorem enters_asserting (c : CompiledRules) (e : Engine R D) :
    KeptByAsserting c (Enters e) where
  toKeptByDeducing := enters_deducing c ∅ e
  assert enters untriggered fresh _ deduces :=
    enters.deduce fresh (fun triggered => by simp [untriggered] at triggered) deduces
  proceed _ _ enters := enters.congr enters.sound rfl rfl (Set.Subset.refl _) rfl

structure Logs (e : Engine R D) : Prop where
  inOrder : e.InOrder
  recording : e.recording = true
  indexed : e.derivations.Indexed

end

section
variable {R D : Type} [TripleSink R] [EmptyCollection R] [LawfulStore R] [TripleSink D]
  [LawfulSink D] {e : Engine R D}

theorem Request.run_enters (request : Request) (logs : e.Logs)
    (keeps : ∀ t, request ≠ .delete t) : Enters e (request.run.outcome e).2 := by
  have start : Enters e e := .refl logs.inOrder.sound logs.recording logs.indexed
  apply request.final_of (Enters e)
  case stay => exact fun _ => start
  case reset => exact fun _ => start.congr start.sound rfl rfl (Set.Subset.refl _) rfl
  case init =>
    intro ignoreBackward c _ runs
    exact (init_kept (logs.inOrder.compiled_of_runs runs) (enters_asserting c e) runs
      fun journal => start.congr start.sound rfl rfl (Set.Subset.refl _) rfl).mono
        (fun _ _ enters => enters) fun _ _ failed => failed.1
  case load =>
    intro c _ installed
    apply (load_kept (logs.inOrder.compiled installed) (enters_deducing c ∅ e) installed start).imp
    rintro _ _ ⟨e₁, enters, rfl⟩
    exact (enters_asserting c e).proceed .ready e₁.axiomsDone enters
  case add =>
    intro t c _ installed
    apply add_kept (logs.inOrder.compiled installed) (enters_deducing c ∅ e) installed start.sound
    case stored =>
      intro g stores
      exact start.congr stores.sound rfl rfl (fun u mem => (stores.rawFacts u).mpr (Or.inl mem))
        stores.deduced
    case stopped =>
      intro g sound rawFacts deduced
      exact start.congr sound rfl rfl rawFacts.symm.subset deduced
  case delete => exact fun t same => absurd same (keeps t)
  case applyOnce =>
    intro t c _ installed
    exact applyOnce_kept (logs.inOrder.compiled installed) (enters_deducing c {t} e) installed start

end

def Request.removes (request : Request) (e : Engine FactIndex FactIndex) (t : Triple) : Bool :=
  request = .delete t && e.graph.deductions.contains t &&
    !(request.run.outcome e).2.graph.deductions.contains t

def removals (e : Engine FactIndex FactIndex) (t : Triple) : List Request → Nat
  | [] => 0
  | request :: rest =>
    (request.removes e t).toNat + removals (request.run.outcome e).2 t rest

def recorded (e : Engine FactIndex FactIndex) (t : Triple) : Nat :=
  (e.records.map (·.conclusion)).count t

section
variable {e e' : Engine FactIndex FactIndex}

theorem mem_deduced {t : Triple} :
    t ∈ e.graph.deduced ↔ e.graph.deductions.contains t = true := Iff.rfl

theorem Request.run_cases (request : Request) (logs : e.Logs) :
    (∃ t g deleted, request = .delete t ∧ InferenceGraph.Drops t e.graph g ∧
      (request.run.outcome e).2 = { e with graph := g }.report (.deleted t deleted)) ∨
    ((∀ t, request ≠ .delete t) ∧ Enters e (request.run.outcome e).2) := by
  by_cases deletes : ∃ t, request = .delete t
  · obtain ⟨t, rfl⟩ := deletes
    obtain ⟨_, e', run, g, deleted, drops, rfl⟩ :=
      (delete_ends t logs.inOrder.sound).result fun _ _ failed => not_aborts _ _ failed.1
    exact Or.inl ⟨t, g, deleted, rfl, drops, congrArg Prod.snd run⟩
  · have keeps (t : Triple) : request ≠ .delete t := fun same => deletes ⟨t, same⟩
    exact Or.inr ⟨keeps, request.run_enters logs keeps⟩

theorem Enters.recorded_eq (enters : Enters e e') (t : Triple) :
    e'.recorded t + (e.graph.deductions.contains t).toNat =
      e.recorded t + (e'.graph.deductions.contains t).toNat := by
  obtain ⟨new, records, nodup, deduced, isNew⟩ := enters.entered
  have count : e'.recorded t = e.recorded t + (new.map (·.conclusion)).count t := by
    rw [recorded, records, List.map_append, List.count_append, recorded]
  have after : e'.graph.deductions.contains t = true ↔
      t ∈ new.map (·.conclusion) ∨ e.graph.deductions.contains t = true := by
    rw [← mem_deduced, ← mem_deduced, deduced]
    exact Iff.rfl
  by_cases entered : t ∈ new.map (·.conclusion)
  · obtain ⟨d, mem, rfl⟩ := List.mem_map.mp entered
    have before : e.graph.deductions.contains d.conclusion = false :=
      Bool.eq_false_iff.mpr (isNew d mem).1
    rw [count, List.count_eq_one_of_mem nodup entered, before, after.mpr (Or.inl entered)]
    rfl
  · have same : e'.graph.deductions.contains t = e.graph.deductions.contains t := by
      rw [Bool.eq_iff_iff, after]
      exact or_iff_right entered
    rw [count, List.count_eq_zero_of_not_mem entered, same]
    omega

theorem Request.run_recorded (request : Request) (logs : e.Logs) (t : Triple) :
    (request.run.outcome e).2.recorded t + (e.graph.deductions.contains t).toNat =
      e.recorded t + (request.removes e t).toNat +
        ((request.run.outcome e).2.graph.deductions.contains t).toNat := by
  rcases request.run_cases logs with ⟨u, g, deleted, rfl, drops, reached⟩ | ⟨keeps, enters⟩
  · have after : g.deductions.contains t = true ↔
        e.graph.deductions.contains t = true ∧ t ≠ u := by
      have dropped : t ∈ g.deduced ↔ t ∈ e.graph.deduced \ {u} := by rw [drops.deduced]
      exact dropped
    have unrecorded : ({ e with graph := g }.report (.deleted u deleted)).recorded t =
        e.recorded t := rfl
    rw [removes, reached, unrecorded, report]
    by_cases same : u = t
    · subst same
      have gone : g.deductions.contains u = false :=
        Bool.eq_false_iff.mpr fun there => (after.mp there).2 rfl
      simp [gone]
    · have kept : g.deductions.contains t = e.graph.deductions.contains t := by
        rw [Bool.eq_iff_iff, after]
        exact and_iff_left (Ne.symm same)
      simp [same, kept]
  · have none : request.removes e t = false := by simp [removes, keeps t]
    rw [none]
    exact enters.recorded_eq t

theorem Request.run_logs (request : Request) (logs : e.Logs) : (request.run.outcome e).2.Logs := by
  have inOrder := request.run_inOrder logs.inOrder
  rcases request.run_cases logs with ⟨t, g, deleted, rfl, drops, reached⟩ | ⟨keeps, enters⟩
  · rw [reached] at inOrder ⊢
    exact ⟨inOrder, logs.recording, logs.indexed⟩
  · exact ⟨inOrder, enters.recording, enters.indexed⟩

theorem Logs.after (logs : e.Logs) (requests : List Request) : (e.after requests).Logs :=
  after_keeps Logs (fun request _ _ => request.run_logs) logs

theorem Logs.recorded_after (logs : e.Logs) (requests : List Request) (t : Triple) :
    (e.after requests).recorded t + (e.graph.deductions.contains t).toNat =
      e.recorded t + e.removals t requests +
        ((e.after requests).graph.deductions.contains t).toNat := by
  induction requests generalizing e with
  | nil => rfl
  | cons request rest ih =>
    have first := request.run_recorded logs t
    have later := ih (request.run_logs logs)
    have next : e.after (request :: rest) = (request.run.outcome e).2.after rest := rfl
    rw [next, removals]
    omega

theorem Request.run_records (request : Request) (logs : e.Logs) :
    ∃ new, (request.run.outcome e).2.records = e.records ++ new ∧
      ∀ d ∈ new, d.conclusion ∈ (request.run.outcome e).2.graph.deduced \ e.graph.deduced ∧
        (d.trigger.isSome → d.conclusion ∉ e.graph.known) := by
  rcases request.run_cases logs with ⟨t, g, deleted, rfl, drops, reached⟩ | ⟨keeps, enters⟩
  · rw [reached]
    exact ⟨[], (List.append_nil _).symm, List.forall_mem_nil _⟩
  · obtain ⟨new, records, -, deduced, isNew⟩ := enters.entered
    refine ⟨new, records, fun d mem => ⟨⟨?_, (isNew d mem).1⟩, (isNew d mem).2⟩⟩
    rw [deduced]
    exact Or.inl (List.mem_map_of_mem mem)

theorem Logs.length_explaining (logs : e.Logs) (t : Triple) :
    (e.derivations.explaining t).length = e.recorded t := by
  rw [logs.indexed.explaining, ← List.countP_eq_length_filter, recorded, List.count,
    List.countP_map]
  exact List.countP_congr fun d _ => by simp

/-- In memory, an engine that records from the start has as many records of a triple as deletions
have taken it out of the deductions, and one more if it is there. So whatever is deduced is
explained; and a request, be it an initialisation made again, records nothing that is deduced
before it or not after it, and by a rule nothing that is known before it. -/
theorem one_record_for_each_entry (inOrder : e.InOrder) (recording : e.recording = true)
    (unrecorded : e.derivations = ∅) (undeduced : e.graph.deduced = ∅) (requests : List Request) :
    (∀ t, ((e.after requests).derivations.explaining t).length =
      e.removals t requests + ((e.after requests).graph.deductions.contains t).toNat) ∧
    (∀ t ∈ (e.after requests).graph.deduced,
      ∃ d ∈ (e.after requests).derivations.explaining t, d.conclusion = t) ∧
    ∀ request : Request, ∃ new,
      (request.run.outcome (e.after requests)).2.records = (e.after requests).records ++ new ∧
      ∀ d ∈ new, d.conclusion ∈ (request.run.outcome (e.after requests)).2.graph.deduced \
          (e.after requests).graph.deduced ∧
        (d.trigger.isSome → d.conclusion ∉ (e.after requests).graph.known) := by
  have start : e.Logs := ⟨inOrder, recording, unrecorded ▸ Provenance.indexed_empty⟩
  have logs := start.after requests
  have count (t : Triple) : ((e.after requests).derivations.explaining t).length =
      e.removals t requests + ((e.after requests).graph.deductions.contains t).toNat := by
    have balance := start.recorded_after requests t
    have unconcluded : e.recorded t = 0 := by
      rw [recorded, records, unrecorded]
      rfl
    have none : e.graph.deductions.contains t = false := by
      rw [← Bool.not_eq_true, ← mem_deduced, undeduced]
      exact Set.notMem_empty t
    rw [unconcluded, none, Bool.toNat_false] at balance
    rw [logs.length_explaining]
    omega
  refine ⟨count, fun t deduced => ?_, fun request => request.run_records logs⟩
  have nonempty : 0 < ((e.after requests).derivations.explaining t).length := by
    rw [count, mem_deduced.mp deduced, Bool.toNat_true]
    omega
  obtain ⟨d, mem⟩ := List.exists_mem_of_length_pos nonempty
  refine ⟨d, mem, ?_⟩
  rw [logs.indexed.explaining, List.mem_filter] at mem
  exact of_decide_eq_true mem.2

theorem deleted_link_is_recorded_twice :
    ∃ (e : Engine FactIndex FactIndex) (requests : List Request),
      e = ofRules MemoryGraph.withoutRaw [.inclusion 1 2, .inclusion 2 3] ⟨true, false, true⟩ ∧
      requests = [.call (.init true), .call (.add ⟨5, 1, 6⟩), .delete ⟨5, 2, 6⟩,
        .call (.add ⟨5, 1, 6⟩), .call (.init true)] ∧
      e.removals ⟨5, 2, 6⟩ requests = 1 ∧
      ((e.after requests).derivations.explaining ⟨5, 2, 6⟩).length = 2 ∧
      ((e.after requests).derivations.explaining ⟨5, 3, 6⟩).length = 1 := by
  let e : Engine FactIndex FactIndex :=
    ofRules MemoryGraph.withoutRaw [.inclusion 1 2, .inclusion 2 3] ⟨true, false, true⟩
  let requests : List Request := [.call (.init true), .call (.add ⟨5, 1, 6⟩), .delete ⟨5, 2, 6⟩,
    .call (.add ⟨5, 1, 6⟩), .call (.init true)]
  obtain ⟨sound, -, undeduced⟩ := MemoryGraph.withoutRaw_sound
  have inOrder : e.InOrder := (Reached.ofRules _ _ sound).inOrder
  have ran : e.removals ⟨5, 2, 6⟩ requests = 1 ∧ e.removals ⟨5, 3, 6⟩ requests = 0 ∧
      (e.after requests).graph.deductions.contains ⟨5, 2, 6⟩ = true ∧
      (e.after requests).graph.deductions.contains ⟨5, 3, 6⟩ = true := by
    decide +kernel
  obtain ⟨once, never, first, second⟩ := ran
  obtain ⟨count, -, -⟩ := one_record_for_each_entry inOrder rfl rfl undeduced requests
  refine ⟨e, requests, rfl, rfl, once, ?_, ?_⟩
  · rw [count, once, first]
    rfl
  · rw [count, never, second]
    rfl

end

end Engine
end TripleInference
