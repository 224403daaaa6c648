import TripleInference.Proofs.Keeping
import TripleInference.Proofs.Network.Renumbering
import TripleInference.Proofs.Network.Search

/-!
What a descent asks of the graph. It looks up clauses of the rules that are run, as far as they are
bound, and nothing else; so it keeps what these lookups keep.
-/
namespace TripleInference
namespace Descent

open Step

variable {G : Type} [TripleSource G] {good : G → Prop}

theorem find_preserves {l : Lookup}
    (kept : (TripleSource.find l : Step StoreError G (List Triple)).Preserves good) :
    (find l : Step Failure G (List Triple)).Preserves good :=
  kept.within (fun _ start => start) fun _ _ _ reached => reached

theorem search_preserves {r : Rule}
    (kept : ∀ p ∈ r.body, ∀ b : Bindings,
      (TripleSource.find (b.lookup p) : Step StoreError G (List Triple)).Preserves good)
    (clauses : List Nat) (b : Bindings) (found : Array Bindings) :
    (search r clauses b found : Step Failure G (Bindings × Array Bindings)).Preserves good := by
  induction clauses generalizing b found with
  | nil => exact preserves_pure _
  | cons clause rest ih =>
    cases here : r.body[clause]? with
    | none =>
      simp only [search, here]
      exact preserves_throw _
    | some p =>
      rw [search_cons here]
      have looked := find_preserves (kept p (List.mem_of_getElem? here) b)
      refine looked.bind fun ts => Preserves.foldlM (fun so t => ?_) ts _
      unfold tryFact
      split
      · exact (ih _ so.2).bind fun _ => preserves_pure _
      · exact preserves_pure _

variable {c : CompiledRules} (compiled : c.Compiled)
  (kept : ∀ rule ∈ c.active, ∀ p ∈ rule.2.body, ∀ b : Bindings,
    (TripleSource.find (b.lookup p) : Step StoreError G (List Triple)).Preserves good)
include compiled kept

theorem join_preserves {id : NodeId} {q : JoinQueue} (here : c.network.node id = .ok (.queue q))
    (b : Bindings) :
    (join c id q b : Step Failure (Descent G) (NodeId × List Bindings)).Preserves
      fun d => good d.graph := by
  obtain ⟨r, active⟩ := compiled.active_of_node here
  have known : c.rule? q.rule = some r := compiled.numbered _ active
  have searched (clauses : List Nat) (probed : Bindings) :
      (onGraph (search r clauses probed #[]) :
        Step Failure (Descent G) (Bindings × Array Bindings)).Preserves fun d => good d.graph :=
    (search_preserves (kept _ active) clauses probed #[]).within (fun _ start => start)
      fun _ _ _ reached => reached
  have remembered : (remember id b : Step Failure (Descent G) Bool).Preserves
      fun d => good d.graph := fun _ start => start
  refine Preserves.bind (preserves_ofExcept _ _) fun sibling => ?_
  cases q.continuation with
  | none => exact preserves_throw _
  | some target =>
    apply remembered.bind
    intro isNew
    cases isNew with
    | false => exact preserves_pure _
    | true =>
      refine Preserves.bind (preserves_ofExcept _ _) fun probed => ?_
      simp only [known]
      exact (searched sibling.clauses probed).bind fun _ => preserves_pure _

theorem deliver_preserves (hops : Nat) (id : NodeId) (b : Bindings) :
    (deliver c hops id b : Step Failure (Descent G) Unit).Preserves fun d => good d.graph := by
  induction hops generalizing id b with
  | zero => exact preserves_throw _
  | succ hops ih =>
    rw [deliver]
    cases here : c.network.node id with
    | error fault => exact preserves_throw _
    | ok node =>
      cases node with
      | filter f => exact preserves_throw _
      | terminal rule => exact preserves_modify fun _ start => start
      | queue q => exact (join_preserves compiled kept here b).bind fun _ => Preserves.forM (ih _) _

theorem offer_preserves (t : Triple) (id : NodeId) :
    (offer c t id : Step Failure (Descent G) Bool).Preserves fun d => good d.graph := by
  refine Preserves.bind (preserves_ofExcept _ _) fun f => ?_
  cases f.test t with
  | none => exact preserves_pure _
  | some b =>
    refine Preserves.bind (preserves_modify fun _ start => start) fun _ => ?_
    cases f.continuation with
    | none => exact preserves_throw _
    | some target =>
      exact (deliver_preserves compiled kept _ target b).bind fun _ => preserves_pure _

theorem offerAll_preserves (t : Triple) :
    (offerAll c t : Step Failure (Descent G) (List BodyMatch)).Preserves fun d => good d.graph :=
  (Preserves.forM (fun id => (offer_preserves compiled kept t id).discard) _).bind fun _ =>
    preserves_get.bind fun _ => preserves_pure _

end Descent
end TripleInference
