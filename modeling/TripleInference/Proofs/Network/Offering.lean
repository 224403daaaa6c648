import TripleInference.Proofs.Network.Delivery
import TripleInference.Proofs.Rule.Heads

/-!
What offering triples to the filters of a compiled network emits: exactly the matches of rule
bodies in which the triple stands for the clause of the filter and facts of the graph for the
others.
-/
namespace TripleInference

/-- The values of a body match in which `t` matches clause `k` and facts match the others. -/
structure Rule.MatchedAt (r : Rule) (facts : Set Triple) (k : Nat) (t : Triple)
    (values : List (Option TermId)) : Prop where
  size : values.length = r.numVars
  binds : ∀ i, (Valuation.ofValues values i).isSome ↔ i ∈ r.bodyVars
  trigger : r.Supports {t} (.ofValues values) k
  supported : ∀ clause < r.body.length, clause ≠ k → r.Supports facts (.ofValues values) clause

namespace ClauseFilter

variable {id : RuleId} {r : Rule} {k : Nat} {p : Pattern} {t : Triple} {b : Bindings}

theorem covers_test (here : r.body[k]? = some p)
    (tested : (ofPattern id k p r.numVars).test t = some b) : Covers r [k] b where
  size := by
    rw [(test_least tested).size, Bindings.size_ofSize]
  binds i := by
    rw [Rule.clauseVars_singleton here]
    constructor
    · intro bound
      have place := (test_least tested).bound p.ordinals
        (fun v w same fits => Bindings.matches_congr same fits) bound
      simpa using place
    · intro var
      obtain ⟨slot, value⟩ := (test_least tested).holds.bound var
      exact Option.isSome_of_eq_some value

theorem fills_test_iff (here : r.body[k]? = some p)
    (tested : (ofPattern id k p r.numVars).test t = some b) {facts : Set Triple}
    {values : List (Option TermId)} :
    Fills r facts [k] b.get? values ↔ r.MatchedAt facts k t values := by
  have ext := test_least tested
  constructor
  · intro fills
    refine ⟨fills.size, fills.binds, ⟨p, here, t, rfl, ext.holds.mono fills.above⟩, ?_⟩
    intro clause inside other
    exact fills.supported clause inside (by simpa using other)
  · intro matched
    obtain ⟨q, here', u, rfl, fits⟩ := matched.trigger
    obtain rfl : p = q := Option.some.inj (here.symm.trans here')
    refine ⟨matched.size, ?_, matched.binds, fun clause inside other => ?_⟩
    · exact ext.least _ (Bindings.ofSize_below _ _) fits
    · exact matched.supported clause inside (by simpa using other)

end ClauseFilter

/-- Where the filter stands, a triple has this body match. -/
def CompiledRules.Yields (c : CompiledRules) (facts : Set Triple) (call : Triple × NodeId)
    (rule : RuleId) (values : List (Option TermId)) : Prop :=
  ∃ f r, c.network.filter call.2 = .ok f ∧ f.rule = rule ∧ c.rule? rule = some r ∧
    r.MatchedAt facts f.clause call.1 values

theorem Network.node_of_filter {n : Network} {pos : NodeId} {f : ClauseFilter}
    (filter : n.filter pos = .ok f) : n.nodes[pos]? = some (.filter f) := by
  unfold Network.filter at filter
  split at filter
  · rename_i f' here
    obtain rfl : f' = f := Except.ok.inj filter
    exact Network.node_eq_ok.mp here
  · cases filter
  · cases filter

theorem CompiledRules.Compiled.filter {c : CompiledRules} (compiled : c.Compiled) {pos : NodeId}
    {f : ClauseFilter} (filter : c.network.filter pos = .ok f) :
    ∃ rule ∈ c.active, ∃ p target, rule.2.body[f.clause]? = some p ∧
      f = { ClauseFilter.ofPattern rule.1 f.clause p rule.2.numVars with
        continuation := some target } ∧
      c.network.Takes rule.1 rule.2 [f.clause] target := by
  have node := Network.node_of_filter filter
  obtain ⟨rule, active, seat⟩ := compiled.seat pos (Array.getElem?_eq_some_iff.mp node).1
  obtain ⟨p, target, here, shape, takes⟩ := seat.filter node
  exact ⟨rule, active, p, target, here, shape, takes⟩

theorem Network.filter_eq_ok {n : Network} {pos : NodeId} {f : ClauseFilter}
    (node : n.nodes[pos]? = some (.filter f)) : n.filter pos = .ok f := by
  simp only [Network.filter, Network.node_eq_ok.mpr node]

theorem CompiledRules.Compiled.candidate {c : CompiledRules} (compiled : c.Compiled)
    {predicate : TermId} {pos : NodeId} (mem : pos ∈ c.table.candidates predicate) :
    ∃ f, c.network.filter pos = .ok f := by
  obtain ⟨key, filed⟩ := FilterTable.get_of_mem_candidates mem
  obtain ⟨f, node⟩ := compiled.filed key pos filed
  exact ⟨f, Network.filter_eq_ok node⟩

namespace Descent

variable {G : Type} {c : CompiledRules} {must may : Set Triple}

structure Offered (c : CompiledRules) (must may : Set Triple) (calls : List (Triple × NodeId))
    (d d' : Descent G) : Prop where
  sound : ∃ new, d'.bodyMatches.toList = d.bodyMatches.toList ++ new ∧
    ∀ m ∈ new, ∃ call ∈ calls, c.Yields may call m.rule m.bindings.values
  settled : d.Settled c must 0 → d'.Settled c must 0
  complete : d.Settled c must 0 → ∀ call ∈ calls, ∀ rule values,
    c.Yields must call rule values → d'.Emitted rule values

theorem Offered.nil (d : Descent G) : Offered c must may [] d d where
  sound := ⟨[], by simp, by simp⟩
  settled before := before
  complete _ _ mem := by cases mem

theorem Offered.cons {call : Triple × NodeId} {calls : List (Triple × NodeId)}
    {d d' d'' : Descent G} (first : Offered c must may [call] d d')
    (later : Offered c must may calls d' d'') : Offered c must may (call :: calls) d d'' := by
  obtain ⟨new, appended, fromFirst⟩ := first.sound
  obtain ⟨new', appended', fromLater⟩ := later.sound
  refine ⟨⟨new ++ new', ?_, ?_⟩, ?_, ?_⟩
  · rw [appended', appended, List.append_assoc]
  · intro m mem
    rcases List.mem_append.mp mem with mem | mem
    · obtain ⟨other, here, yields⟩ := fromFirst m mem
      rw [List.mem_singleton.mp here] at yields
      exact ⟨call, List.mem_cons_self, yields⟩
    · obtain ⟨other, here, yields⟩ := fromLater m mem
      exact ⟨other, List.mem_cons_of_mem _ here, yields⟩
  · exact fun before => later.settled (first.settled before)
  · intro before other mem rule values yields
    rcases List.mem_cons.mp mem with rfl | mem
    · exact (first.complete before other List.mem_cons_self rule values yields).mono appended'
    · exact later.complete (first.settled before) other mem rule values yields

section
variable {r : Rule} {p : Pattern} {t : Triple} {pos target : NodeId} {f : ClauseFilter}
  {d d' : Descent G}

theorem yields_iff (filter : c.network.filter pos = .ok f) (numbered : c.rule? f.rule = some r)
    {facts : Set Triple} {rule : RuleId} {values : List (Option TermId)} :
    c.Yields facts (t, pos) rule values ↔
      rule = f.rule ∧ r.MatchedAt facts f.clause t values := by
  constructor
  · rintro ⟨f', r', filter', rfl, numbered', matched⟩
    obtain rfl : f = f' := Except.ok.inj (filter.symm.trans filter')
    obtain rfl : r = r' := Option.some.inj (numbered.symm.trans numbered')
    exact ⟨rfl, matched⟩
  · rintro ⟨rfl, matched⟩
    exact ⟨f, r, filter, rfl, numbered, matched⟩

theorem offered_misfit (filter : c.network.filter pos = .ok f)
    (numbered : c.rule? f.rule = some r) (wf : r.WellFormed) (here : r.body[f.clause]? = some p)
    (misfit : (ClauseFilter.ofPattern f.rule f.clause p r.numVars).test t = none) :
    Offered c must may [(t, pos)] d d := by
  refine ⟨⟨[], by simp, by simp⟩, fun before => before, ?_⟩
  intro _ call mem rule values yields
  rw [List.mem_singleton.mp mem, yields_iff filter numbered] at yields
  obtain ⟨q, here', u, rfl, fits⟩ := yields.2.trigger
  obtain rfl : p = q := Option.some.inj (here.symm.trans here')
  have room : ∀ i ∈ p.ordinals, i < r.numVars := fun i var =>
    wf.room_of_body (List.mem_flatMap.mpr ⟨p, List.mem_of_getElem? here, var⟩)
  obtain ⟨b, tested⟩ : ∃ b, (ClauseFilter.ofPattern f.rule f.clause p r.numVars).test u = some b :=
    ClauseFilter.test_succeeds room fits
  rw [misfit] at tested
  cases tested

theorem Delivered.offered (filter : c.network.filter pos = .ok f)
    (numbered : c.rule? f.rule = some r) (here : r.body[f.clause]? = some p) {b : Bindings}
    (tested : (ClauseFilter.ofPattern f.rule f.clause p r.numVars).test t = some b)
    (delivered : Delivered c must may f.rule r [f.clause] [b] target d d') :
    Offered c must may [(t, pos)] d d' := by
  obtain ⟨new, appended, fromMatch⟩ := delivered.sound
  refine ⟨⟨new, appended, fun m mem => ?_⟩, ?_, ?_⟩
  · obtain ⟨same, b', single, fills⟩ := fromMatch m mem
    rw [List.mem_singleton.mp single, ClauseFilter.fills_test_iff here tested] at fills
    exact ⟨(t, pos), List.mem_cons_self, (yields_iff filter numbered).mpr ⟨same, fills⟩⟩
  · exact delivered.settled_from (Nat.zero_le _)
  · intro before call mem rule values yields
    rw [List.mem_singleton.mp mem, yields_iff filter numbered] at yields
    obtain ⟨rfl, matched⟩ := yields
    have fromTarget : d.Settled c must target := fun a mem _ => before a mem (Nat.zero_le _)
    exact delivered.complete fromTarget b List.mem_cons_self values
      ((ClauseFilter.fills_test_iff here tested).mpr matched)

end

variable [TripleSource G] {state : G → Prop} {fails : Prop}

theorem offer_ends (compiled : c.Compiled) (reads : Reads state must may fails) {t : Triple}
    {pos : NodeId} {f : ClauseFilter} (filter : c.network.filter pos = .ok f) {d : Descent G}
    (start : state d.graph) :
    (offer c t pos).Ends d (fun _ d' => state d'.graph ∧ Offered c must may [(t, pos)] d d')
      (fun e d' => state d'.graph ∧ fails ∧ e.OfStore) := by
  obtain ⟨⟨id, r⟩, active, p, target, here, shape, takes⟩ := compiled.filter filter
  have wf := compiled.wellFormed _ active
  have numbered := compiled.numbered _ active
  simp only at here shape takes wf numbered
  obtain rfl : f.rule = id := by rw [shape]; rfl
  have continuation : f.continuation = some target := by rw [shape]
  have test : f.test t = (ClauseFilter.ofPattern f.rule f.clause p r.numVars).test t :=
    (congrArg (ClauseFilter.test · t) shape).trans rfl
  rw [offer, Step.ends_bind, Step.ends_ofExcept, filter]
  simp only [test]
  cases tested : (ClauseFilter.ofPattern f.rule f.clause p r.numVars).test t with
  | none => exact ⟨start, offered_misfit filter numbered wf here tested⟩
  | some b =>
    simp only [continuation]
    rw [Step.ends_bind, Step.ends_modify, Step.ends_bind, enter]
    have enough : c.network.size < c.network.size + 1 + target :=
      Nat.lt_of_lt_of_le (Nat.lt_succ_self _) (Nat.le_add_right _ _)
    refine (deliver_ends reads numbered wf takes enough
      (ClauseFilter.covers_test here tested)
      (d := { d with journal := d.journal.push (.matched t f.clause f.rule) }) start).imp ?_
    intro _ d' ⟨start', delivered⟩
    obtain ⟨sound, settled, complete⟩ := delivered.offered filter numbered here tested
    exact ⟨start', sound, settled, complete⟩

theorem offers_ends (compiled : c.Compiled) (reads : Reads state must may fails)
    {calls : List (Triple × NodeId)}
    (filters : ∀ call ∈ calls, ∃ f, c.network.filter call.2 = .ok f) {d : Descent G}
    (start : state d.graph) :
    (calls.forM fun call => discard (offer c call.1 call.2)).Ends d
      (fun _ d' => state d'.graph ∧ Offered c must may calls d d')
      (fun e d' => state d'.graph ∧ fails ∧ e.OfStore) := by
  induction calls generalizing d with
  | nil => exact ⟨start, Offered.nil d⟩
  | cons call calls ih =>
    obtain ⟨f, filter⟩ := filters call List.mem_cons_self
    change (discard (offer c call.1 call.2) >>= fun _ =>
      calls.forM fun call => discard (offer c call.1 call.2)).Ends d _ _
    rw [Step.ends_bind, Step.ends_discard]
    apply (offer_ends compiled reads filter start).imp
    intro _ d' ⟨start', first⟩
    apply (ih (fun other mem => filters other (List.mem_cons_of_mem _ mem)) start').imp
    exact fun _ d'' ⟨start'', later⟩ => ⟨start'', first.cons later⟩

theorem offerAll_ends (compiled : c.Compiled) (reads : Reads state must may fails) (t : Triple)
    {d : Descent G} (start : state d.graph) :
    (offerAll c t).Ends d
      (fun ms d' => state d'.graph ∧ ms = d'.bodyMatches.toList ∧
        Offered c must may ((c.table.candidates t.predicate).map (t, ·)) d d')
      (fun e d' => state d'.graph ∧ fails ∧ e.OfStore) := by
  have filters : ∀ call ∈ (c.table.candidates t.predicate).map (t, ·),
      ∃ f, c.network.filter call.2 = .ok f := by
    intro call mem
    obtain ⟨pos, candidate, rfl⟩ := List.mem_map.mp mem
    exact compiled.candidate candidate
  have offers := offers_ends compiled reads filters start
  rw [List.forM_eq_forM, List.forM_map] at offers
  rw [offerAll, Step.ends_bind]
  apply offers.imp
  exact fun _ d' ⟨start', offered⟩ => ⟨start', rfl, offered⟩

end Descent
end TripleInference
