import TripleInference.Proofs.Keeping
import TripleInference.Proofs.Network.Filing

/-!
What a descent reports. There is one record for each filter that the triple passes, made before its
bindings are sent on; nothing else is reported, whatever becomes of the bindings.
-/
namespace TripleInference

namespace CompiledRules

def reportsAt (c : CompiledRules) (t : Triple) (pos : NodeId) : List LogRecord :=
  match c.network.filter pos with
  | .ok f => if (f.test t).isSome then [.matched t f.clause f.rule] else []
  | .error _ => []

/-- What is reported of a triple: the filters it passes, in the order in which it meets them. -/
def reports (c : CompiledRules) (t : Triple) : List LogRecord :=
  (c.table.candidates t.predicate).flatMap (c.reportsAt t)

variable {c : CompiledRules} {t : Triple} {pos : NodeId} {r : LogRecord}

theorem mem_reportsAt_iff : r ∈ c.reportsAt t pos ↔
    ∃ f, c.network.filter pos = .ok f ∧ (f.test t).isSome ∧ r = .matched t f.clause f.rule := by
  unfold reportsAt
  cases c.network.filter pos with
  | error fault => simp
  | ok f => simp

theorem exists_of_mem_reports (mem : r ∈ c.reports t) : ∃ k rule, r = .matched t k rule := by
  obtain ⟨pos, -, here⟩ := List.mem_flatMap.mp mem
  obtain ⟨f, -, -, rfl⟩ := mem_reportsAt_iff.mp here
  exact ⟨_, _, rfl⟩

theorem FilterOf.passes_iff (compiled : c.Compiled) {rule : RuleId × Rule}
    (active : rule ∈ c.active) {k : Nat} {p : Pattern} (here : rule.2.body[k]? = some p)
    (standsFor : c.FilterOf rule.1 k pos) : c.Passes t pos ↔ ∃ v, p.Matches v t := by
  obtain ⟨f, filter, number, rfl⟩ := standsFor
  obtain ⟨r, q, active', there, shape⟩ := clause_of_filter compiled filter
  obtain rfl : r = rule.2 := by
    have known := compiled.numbered _ active'
    rw [number, compiled.numbered _ active] at known
    exact (Option.some.inj known).symm
  obtain rfl : q = p := Option.some.inj (there.symm.trans here)
  have same : f.test t = (ClauseFilter.ofPattern f.rule f.clause q rule.2.numVars).test t := by
    rw [shape]
    rfl
  simp only [Passes, filter, Except.ok.injEq, exists_eq_left', same, Option.isSome_iff_exists]
  constructor
  · rintro ⟨b, tested⟩
    exact ⟨_, (ClauseFilter.test_least tested).holds⟩
  · rintro ⟨v, fits⟩
    refine ClauseFilter.test_succeeds (fun i var => ?_) fits
    exact (compiled.wellFormed _ active).room_of_body
      (List.mem_flatMap.mpr ⟨q, List.mem_of_getElem? here, var⟩)

theorem mem_reports_iff (compiled : c.Compiled) : r ∈ c.reports t ↔
    ∃ rule ∈ c.active, ∃ (k : Nat) (p : Pattern), rule.2.body[k]? = some p ∧
      (∃ v, p.Matches v t) ∧ r = .matched t k rule.1 := by
  simp only [reports, List.mem_flatMap, mem_reportsAt_iff]
  constructor
  · rintro ⟨pos, -, f, filter, passed, rfl⟩
    obtain ⟨rule, p, active, here, -⟩ := clause_of_filter compiled filter
    have passes : c.Passes t pos := ⟨f, filter, passed⟩
    rw [FilterOf.passes_iff compiled active here ⟨f, filter, rfl, rfl⟩] at passes
    exact ⟨_, active, _, p, here, passes, rfl⟩
  · rintro ⟨rule, active, k, p, here, ⟨v, fits⟩, rfl⟩
    obtain ⟨pos, filed, standsFor⟩ := filterOf_clause compiled active here
    obtain ⟨f, filter, passed⟩ :=
      (FilterOf.passes_iff compiled active here standsFor).mpr ⟨v, fits⟩
    obtain ⟨f', filter', number, clause⟩ := standsFor
    obtain rfl := Except.ok.inj (filter.symm.trans filter')
    refine ⟨pos, FilterTable.mem_candidates filed fits, f, filter, passed, ?_⟩
    rw [number, clause]

end CompiledRules

namespace Descent

open Step

variable {G : Type} [TripleSource G] {c : CompiledRules}

theorem join_keeps_journal (journal : Journal) (id : NodeId) (q : JoinQueue) (b : Bindings) :
    (join c id q b : Step Failure (Descent G) (NodeId × List Bindings)).Preserves
      fun d => d.journal = journal := by
  have remembered : (remember id b : Step Failure (Descent G) Bool).Preserves
      fun d => d.journal = journal := fun _ start => start
  refine Preserves.bind (preserves_ofExcept _ _) fun sibling => ?_
  cases q.continuation with
  | none => exact preserves_throw _
  | some target =>
    apply remembered.bind
    intro isNew
    cases isNew with
    | false => exact preserves_pure _
    | true =>
      refine Preserves.bind (preserves_ofExcept _ _) fun probed => ?_
      cases c.rule? q.rule with
      | none => exact preserves_throw _
      | some rule =>
        refine Preserves.bind ?_ fun _ => preserves_pure _
        exact preserves_within_elsewhere fun _ _ start => start

theorem deliver_keeps_journal (journal : Journal) (hops : Nat) (id : NodeId) (b : Bindings) :
    (deliver c hops id b : Step Failure (Descent G) Unit).Preserves
      fun d => d.journal = journal := by
  induction hops generalizing id b with
  | zero => exact preserves_throw _
  | succ hops ih =>
    rw [deliver]
    refine Preserves.bind (preserves_ofExcept _ _) fun node => ?_
    cases node with
    | filter f => exact preserves_throw _
    | terminal rule => exact preserves_modify fun _ start => start
    | queue q => exact (join_keeps_journal journal id q b).bind fun _ => Preserves.forM (ih _) _

/-- An offer is reported before anything can go wrong with it. -/
theorem offer_reports (t : Triple) (pos : NodeId) (d : Descent G) :
    (offer c t pos).Ends d
      (fun _ d' => d'.journal.toList = d.journal.toList ++ c.reportsAt t pos)
      (fun _ d' => d'.journal.toList = d.journal.toList ++ c.reportsAt t pos) := by
  rw [offer, ends_bind, ends_ofExcept]
  cases filter : c.network.filter pos with
  | error fault => simp [CompiledRules.reportsAt, filter]
  | ok f =>
    simp only []
    cases tested : f.test t with
    | none => simp [CompiledRules.reportsAt, filter, tested]
    | some b =>
      have pushed : (d.journal.push (.matched t f.clause f.rule)).toList =
          d.journal.toList ++ c.reportsAt t pos := by
        simp [CompiledRules.reportsAt, filter, tested]
      simp only [ends_bind, ends_modify]
      cases f.continuation with
      | none => exact pushed
      | some target =>
        simp only [ends_bind, ends_pure]
        refine ((deliver_keeps_journal _ _ target b).ends rfl).mono ?_ ?_
        · exact fun _ d' same => (congrArg Array.toList same).trans pushed
        · exact fun _ d' same => (congrArg Array.toList same).trans pushed

theorem forM_offer_reports (t : Triple) (ids : List NodeId) (d : Descent G) :
    (ids.forM fun id => discard (offer c t id)).Ends d
      (fun _ d' => d'.journal.toList = d.journal.toList ++ ids.flatMap (c.reportsAt t))
      (fun _ d' => ∃ part, part <+: ids.flatMap (c.reportsAt t) ∧
        d'.journal.toList = d.journal.toList ++ part) := by
  induction ids generalizing d with
  | nil => exact (List.append_nil _).symm
  | cons id ids ih =>
    change (discard (offer c t id) >>= fun _ => ids.forM _).Ends d _ _
    rw [ends_bind, ends_discard, List.flatMap_cons]
    refine (offer_reports t id d).mono ?_ ?_
    · intro _ d₁ first
      refine (ih d₁).mono ?_ ?_
      · intro _ d₂ later
        rw [later, first, List.append_assoc]
      · rintro _ d₂ ⟨part, here, later⟩
        refine ⟨c.reportsAt t id ++ part, (List.prefix_append_right_inj _).mpr here, ?_⟩
        rw [later, first, List.append_assoc]
    · exact fun _ d₁ first => ⟨_, List.prefix_append _ _, first⟩

theorem offerAll_reports (t : Triple) (d : Descent G) :
    (offerAll c t).Ends d
      (fun _ d' => d'.journal.toList = d.journal.toList ++ c.reports t)
      (fun _ d' => ∃ part, part <+: c.reports t ∧
        d'.journal.toList = d.journal.toList ++ part) := by
  rw [offerAll, ends_bind]
  refine (forM_offer_reports t _ d).imp fun _ d' reported => ?_
  rw [ends_bind, ends_get]
  exact reported

end Descent
end TripleInference
