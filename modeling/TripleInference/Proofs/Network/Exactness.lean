import TripleInference.Proofs.Network.Offering
import TripleInference.Proofs.Store.Contract

/-!
A compiled network computes exactly the matches of a triple, whatever else its memory has seen, and
no triple makes it run into a wiring fault.
-/
namespace TripleInference

theorem reads_of_lawful {S : Type} [TripleSource S] [LawfulSource S] (facts : Set Triple) :
    Reads (fun s : S => LawfulSource.sound s ∧ LawfulSource.facts s = facts) facts facts
      (LawfulSource.fails S) := by
  rintro s ⟨sound, rfl⟩ l
  refine (LawfulSource.find_ends sound l).mono ?_ ?_
  · intro ts s' ⟨answered, sound', kept⟩
    refine ⟨⟨sound', kept⟩, fun t mem => ((answered.mem_iff t).mp mem).1, ?_⟩
    exact fun t mem fits => (answered.mem_iff t).mpr ⟨mem, fits⟩
  · exact fun _ s' ⟨failed, sound', kept⟩ => ⟨⟨sound', kept⟩, failed⟩

def Rule.transitive (p : TermId) : Rule :=
  ofPatterns [⟨.var 0, .constant p, .var 1⟩, ⟨.var 1, .constant p, .var 2⟩]
    [⟨.var 0, .constant p, .var 2⟩]

namespace CompiledRules

theorem Compiled.yields {c : CompiledRules} (compiled : c.Compiled) {facts : Set Triple}
    {call : Triple × NodeId} {rule : RuleId} {values : List (Option TermId)}
    (yields : c.Yields facts call rule values) :
    ∃ r f, (rule, r) ∈ c.active ∧ c.network.filter call.2 = .ok f ∧
      r.MatchedAt facts f.clause call.1 values := by
  obtain ⟨f, r, filter, rfl, numbered, matched⟩ := yields
  obtain ⟨⟨id, r'⟩, active, p, target, -, shape, -⟩ := compiled.filter filter
  have rule : f.rule = id := by rw [shape]; rfl
  have numbered' := compiled.numbered _ active
  rw [rule] at numbered ⊢
  obtain rfl : r = r' := Option.some.inj (numbered.symm.trans numbered')
  exact ⟨r, f, active, filter, matched⟩

theorem Compiled.yields_of_matchedAt {c : CompiledRules} (compiled : c.Compiled)
    {facts : Set Triple} {rule : RuleId × Rule} (active : rule ∈ c.active) {k : Nat} {t : Triple}
    {values : List (Option TermId)} (matched : rule.2.MatchedAt facts k t values) :
    ∃ pos ∈ c.table.candidates t.predicate, c.Yields facts (t, pos) rule.1 values := by
  obtain ⟨p, here, u, same, fits⟩ := matched.trigger
  obtain rfl : u = t := same
  obtain ⟨pos, filed, f, node, number, clause⟩ := compiled.clause rule active k p here
  refine ⟨pos, FilterTable.mem_candidates filed fits, f, rule.2, Network.filter_eq_ok node, number,
    compiled.numbered rule active, ?_⟩
  rw [clause]
  exact matched

theorem Compiled.instantiate_of_yields {c : CompiledRules} (compiled : c.Compiled)
    {facts : Set Triple} {call : Triple × NodeId} {m : BodyMatch}
    (yields : c.Yields facts call m.rule m.bindings.values) :
    ∃ r heads, c.rule? m.rule = some r ∧ r.instantiate m.bindings = .ok heads ∧
      ∀ t, t ∈ heads ↔ r.Concludes m.bindings.get? t := by
  obtain ⟨r, f, active, -, matched⟩ := compiled.yields yields
  obtain ⟨heads, run, mem_iff⟩ := (compiled.wellFormed _ active).instantiate_eq_ok fun i var =>
    (matched.binds i).mpr var
  exact ⟨r, heads, compiled.numbered _ active, run, mem_iff⟩

theorem Compiled.instantiate_axiom {c : CompiledRules} (compiled : c.Compiled)
    {rule : RuleId × Rule} (active : rule ∈ c.active) (isAxiom : rule.2.isAxiom = true) :
    rule.2.instantiate (.ofSize rule.2.numVars) = .ok rule.2.groundHeads ∧
      ∀ t, t ∈ rule.2.groundHeads ↔ rule.2.Concludes (fun _ => none) t := by
  have noVars : rule.2.bodyVars = [] := by
    rw [Rule.bodyVars, List.isEmpty_iff.mp isAxiom, List.flatMap_nil]
  obtain ⟨heads, run, mem_iff⟩ := (compiled.wellFormed _ active).instantiate_eq_ok
    (b := .ofSize rule.2.numVars) (by simp [noVars])
  have empty : (Bindings.ofSize rule.2.numVars).get? = fun _ => none :=
    funext fun i => Bindings.get?_ofSize _ i
  have same : rule.2.groundHeads = heads := by rw [Rule.groundHeads, run]; rfl
  rw [same, run, ← empty]
  exact ⟨rfl, mem_iff⟩

end CompiledRules

namespace Descent

/-- Over any sequence of offers with one memory, all succeed, and what is emitted is what the
triples match at their filters: nothing is suppressed for good and nothing is made up. -/
theorem offers_emit_exactly_the_matches {rules : List Rule} {ignoreBackward : Bool}
    {c : CompiledRules} (compiles : CompiledRules.compile rules ignoreBackward = .ok c)
    {G : Type} [TripleSource G] {state : G → Prop} {facts : Set Triple}
    (reads : Reads state facts facts False) {g : G} (start : state g)
    {calls : List (Triple × NodeId)}
    (filters : ∀ call ∈ calls, ∃ f, c.network.filter call.2 = .ok f) (journal : Journal) :
    ∃ d : Descent G,
      (calls.forM fun call => discard (offer c call.1 call.2)).outcome ⟨g, ∅, #[], journal⟩ =
        (.ok ⟨⟩, d) ∧
      ∀ rule values, d.Emitted rule values ↔
        ∃ call ∈ calls, c.Yields facts call rule values := by
  have compiled := CompiledRules.compiled_of_compile compiles
  obtain ⟨_, d, run, -, offered⟩ := (offers_ends compiled reads filters
    (d := ⟨g, ∅, #[], journal⟩) start).result fun _ _ failed => failed.2.1
  refine ⟨d, run, fun rule values => ⟨?_, ?_⟩⟩
  · rintro ⟨m, mem, rfl, rfl⟩
    obtain ⟨new, appended, fromCalls⟩ := offered.sound
    rw [appended] at mem
    exact fromCalls m (by simpa using mem)
  · rintro ⟨call, mem, yields⟩
    exact offered.complete (settled_of_empty rfl) call mem rule values yields

theorem offers_emit_a_chain :
    ∃ c, CompiledRules.compile [.transitive 5] true = .ok c ∧
      c.Yields {t | t ∈ [⟨2, 5, 3⟩]} (⟨1, 5, 2⟩, 0) 0 [some 1, some 2, some 3] := by
  suffices yields : ∀ c, CompiledRules.compile [.transitive 5] true = .ok c →
      c.Yields {t | t ∈ [⟨2, 5, 3⟩]} (⟨1, 5, 2⟩, 0) 0 [some 1, some 2, some 3] from
    ⟨_, rfl, yields _ rfl⟩
  intro c compiles
  have filters : ∀ call ∈ [((⟨1, 5, 2⟩, 0) : Triple × NodeId)],
      ∃ f, c.network.filter call.2 = .ok f := by
    cases compiles
    exact List.forall_mem_singleton.mpr ⟨_, rfl⟩
  obtain ⟨d, run, emitted_iff⟩ := offers_emit_exactly_the_matches compiles
    (reads_of_lawful (S := FactIndex) {t | t ∈ [⟨2, 5, 3⟩]})
    ⟨FactIndex.ofList_coherent [⟨2, 5, 3⟩], FactIndex.ofList_facts [⟨2, 5, 3⟩]⟩ filters #[]
  have emitted : d.Emitted 0 [some 1, some 2, some 3] := by
    cases compiles
    obtain rfl := congrArg Prod.snd run
    exact ⟨⟨0, ⟨[some 1, some 2, some 3], []⟩⟩, by decide +kernel, rfl, rfl⟩
  obtain ⟨call, mem, yields⟩ := (emitted_iff _ _).mp emitted
  rwa [List.mem_singleton.mp mem] at yields

/-- No triple makes a compiled network run into a wiring fault, whatever the memory of the queues
holds and whatever the graph answers, and the heads of all rules fired have their instances. -/
theorem compiled_network_has_no_wiring_fault {rules : List Rule} {ignoreBackward : Bool}
    {c : CompiledRules} (compiles : CompiledRules.compile rules ignoreBackward = .ok c) :
    (∀ (G : Type) [TripleSource G] (state : G → Prop),
      (∀ g, state g → ∀ l, ∃ ts g', (TripleSource.find l).outcome g = (.ok ts, g') ∧ state g') →
      ∀ (t : Triple), ∀ pos ∈ c.table.candidates t.predicate, ∀ d : Descent G, state d.graph →
        ∃ matched d' new, (offer c t pos).outcome d = (.ok matched, d') ∧
          d'.bodyMatches.toList = d.bodyMatches.toList ++ new ∧
          ∀ m ∈ new, ∃ r heads, c.rule? m.rule = some r ∧ r.instantiate m.bindings = .ok heads) ∧
    ∀ rule ∈ c.active, rule.2.isAxiom = true →
      ∃ heads, rule.2.instantiate (.ofSize rule.2.numVars) = .ok heads := by
  have compiled := CompiledRules.compiled_of_compile compiles
  constructor
  · intro G _ state answers t pos mem d start
    have reads : Reads state ∅ Set.univ False := by
      intro g here l
      obtain ⟨ts, g', run, kept⟩ := answers g here l
      exact (Step.ends_of_outcome run).mpr ⟨kept, fun _ _ => trivial, fun _ mem => absurd mem nofun⟩
    obtain ⟨f, filter⟩ := compiled.candidate mem
    obtain ⟨matched, d', run, -, offered⟩ := (offer_ends compiled reads filter start).result
      fun _ _ failed => failed.2.1
    obtain ⟨new, appended, fromCall⟩ := offered.sound
    refine ⟨matched, d', new, run, appended, fun m mem => ?_⟩
    obtain ⟨call, -, yields⟩ := fromCall m mem
    obtain ⟨r, heads, numbered, instances, -⟩ := compiled.instantiate_of_yields yields
    exact ⟨r, heads, numbered, instances⟩
  · intro rule active isAxiom
    exact ⟨rule.2.groundHeads, (compiled.instantiate_axiom active isAxiom).1⟩

theorem chain_meets_no_wiring_fault :
    ∃ c, CompiledRules.compile [.transitive 5] true = .ok c ∧ ∀ d : Descent FactIndex,
      ∃ matched d', (offer c ⟨1, 5, 2⟩ 0).outcome d = (.ok matched, d') := by
  obtain ⟨c, compiles⟩ : ∃ c, CompiledRules.compile [.transitive 5] true = .ok c := ⟨_, rfl⟩
  have candidate : 0 ∈ c.table.candidates 5 := by
    cases compiles
    decide +kernel
  refine ⟨c, compiles, fun d => ?_⟩
  obtain ⟨matched, d', -, run, -⟩ := (compiled_network_has_no_wiring_fault compiles).1 FactIndex
    (fun _ => True) (fun x _ l => ⟨x.find l, x, rfl, trivial⟩) ⟨1, 5, 2⟩ 0 candidate d trivial
  exact ⟨matched, d', run⟩

end Descent
end TripleInference
