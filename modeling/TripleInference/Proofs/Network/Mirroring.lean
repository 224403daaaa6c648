import TripleInference.Proofs.Network.Renumbering
import TripleInference.Proofs.Network.Search

/-!
The descent of a triple through two networks that differ in the numbers of the rules at most. It
reads the graph in the same way and yields the same body matches, under the numbers of either
network.
-/
namespace TripleInference

def BodyMatch.renumber (f : RuleId → RuleId) (a : BodyMatch) : BodyMatch :=
  { a with rule := f a.rule }

/-- What may set apart two lists of rules that do the same: the numbers of the rules and the
directions that they are written in. -/
structure Renaming where
  number : RuleId → RuleId
  direction : Rule → Direction
  stays : RuleId → Prop
  injective : ∀ {id id'}, stays id → stays id' → number id = number id' → id = id'

namespace Renaming

def refl : Renaming where
  number := id
  direction r := r.direction
  stays _ := True
  injective _ _ same := same

def leavingOut (rules : List Rule) (ignoreBackward : Bool) : Renaming where
  number := rank ignoreBackward rules
  direction _ := .forward
  stays := Stays rules ignoreBackward
  injective := rank_injective

def reword (n : Renaming) (r : Rule) : Rule := { r with direction := n.direction r }

end Renaming

namespace CompiledRules

structure Renamed (n : Renaming) (c c' : CompiledRules) : Prop where
  network : c'.network = c.network.renumber n.number
  table : c'.table = c.table
  predicatesUsed : c'.predicatesUsed = c.predicatesUsed
  active : c'.active = c.active.map fun rule => (n.number rule.1, n.reword rule.2)
  stays_of_active : ∀ rule ∈ c.active, n.stays rule.1
  stays_of_node : ∀ {pos node}, c.network.node pos = .ok node → n.stays node.rule
  rule? : ∀ {id}, n.stays id →
    (∃ r, c.rule? id = some r ∧ c'.rule? (n.number id) = some (n.reword r)) ∨
      c.rule? id = none ∧ c'.rule? (n.number id) = none ∧ n.number id = id

theorem Twins.renamed {rules : List Rule} {ignoreBackward : Bool} {c c' : CompiledRules}
    (twins : c.Twins rules ignoreBackward c') :
    c.Renamed (.leavingOut rules ignoreBackward) c' where
  network := twins.network
  table := twins.table
  predicatesUsed := twins.predicatesUsed
  active := twins.active'
  stays_of_active rule mem := ⟨rule.2, twins.active ▸ mem⟩
  stays_of_node := twins.stays_of_node
  rule? stays := Or.inl (twins.rule? stays)

theorem renamed_refl (c : CompiledRules) : c.Renamed .refl c where
  network := (Network.renumber_id c.network).symm
  table := rfl
  predicatesUsed := rfl
  active := (List.map_id c.active).symm
  stays_of_active _ _ := trivial
  stays_of_node _ := trivial
  rule? {id} _ := by
    cases known : c.rule? id with
    | none => exact Or.inr ⟨rfl, known, rfl⟩
    | some r => exact Or.inl ⟨r, rfl, known⟩

end CompiledRules

namespace Descent

variable {G : Type} {n : Renaming} {c c' : CompiledRules}

structure Mirrors (n : Renaming) (d d' : Descent G) : Prop where
  graph : d'.graph = d.graph
  memory : d'.memory = d.memory
  bodyMatches : d'.bodyMatches = d.bodyMatches.map (.renumber n.number)
  stay : ∀ a ∈ d.bodyMatches, n.stays a.rule

theorem remember_lockstep (id : NodeId) (b : Bindings) :
    Step.Lockstep (Mirrors n) Eq
      (remember id b : Step Failure (Descent G) Bool) (remember id b) := by
  rintro d ⟨_, _, _, _⟩ mirrors
  obtain rfl := mirrors.memory
  exact .ends rfl { mirrors with memory := rfl }

theorem onGraph_lockstep {α : Type} (m : Step Failure G α) :
    Step.Lockstep (Mirrors n) Eq (onGraph m) (onGraph m) :=
  Step.lockstep_within_eq m id (fun _ _ mirrors => mirrors.graph.symm)
    fun _ _ mirrors _ => { mirrors with graph := rfl }

variable [TripleSource G]

theorem search_reword (n : Renaming) (r : Rule) (clauses : List Nat) (b : Bindings)
    (found : Array Bindings) :
    (search (n.reword r) clauses b found : Step Failure G _) = search r clauses b found := by
  induction clauses generalizing b found with
  | nil => rfl
  | cons clause rest ih =>
    cases here : r.body[clause]? with
    | none => simp only [search, Renaming.reword, here, Rule.label]
    | some p =>
      have same : (tryFact (n.reword r) p rest : _ → _ → Step Failure G _) = tryFact r p rest := by
        funext so t
        simp only [tryFact, ih]
      have here' : (n.reword r).body[clause]? = some p := here
      rw [search_cons here, search_cons here', same]

theorem join_lockstep (renamed : c.Renamed n c') {q : JoinQueue} (stays : n.stays q.rule)
    (id : NodeId) (b : Bindings) :
    Step.Lockstep (Mirrors n) Eq
      (join c id q b : Step Failure (Descent G) (NodeId × List Bindings))
      (join c' id (q.renumber n.number) b) := by
  unfold join
  rw [renamed.network, Network.sibling_renumber]
  apply (Step.lockstep_ofExcept_map _ _ _).bind
  rintro sibling _ ⟨-, rfl⟩
  simp only [JoinQueue.renumber]
  cases q.continuation with
  | none => exact Step.lockstep_throw _
  | some target =>
    apply (remember_lockstep id b).bind_eq
    intro isNew
    cases isNew with
    | false => exact Step.lockstep_pure rfl
    | true =>
      apply (Step.lockstep_ofExcept _ _).bind_eq
      intro probed
      rcases renamed.rule? stays with ⟨r, known, known'⟩ | ⟨unknown, unknown', same⟩
      · simp only [known, known', search_reword]
        exact (onGraph_lockstep _).bind_eq fun _ => Step.lockstep_pure rfl
      · rw [same] at unknown' ⊢
        simp only [unknown, unknown']
        exact Step.lockstep_throw _

theorem deliver_lockstep (renamed : c.Renamed n c') (hops : Nat) (id : NodeId) (b : Bindings) :
    Step.Lockstep (Mirrors n) Eq
      (deliver c hops id b : Step Failure (Descent G) Unit) (deliver c' hops id b) := by
  induction hops generalizing id b with
  | zero => exact Step.lockstep_throw _
  | succ hops ih =>
    rw [deliver, deliver, renamed.network, Network.node_renumber]
    apply (Step.lockstep_ofExcept_map _ _ _).bind
    rintro node _ ⟨here, rfl⟩
    have stays := renamed.stays_of_node here
    cases node with
    | filter f => exact Step.lockstep_throw _
    | terminal rule =>
      apply Step.lockstep_modify
      intro d d' mirrors
      refine { mirrors with bodyMatches := ?_, stay := ?_ }
      · simp [mirrors.bodyMatches, BodyMatch.renumber]
      · intro a mem
        rcases Array.mem_push.mp mem with old | rfl
        · exact mirrors.stay a old
        · exact stays
    | queue q =>
      apply (join_lockstep renamed stays id b).bind_eq
      rintro ⟨target, results⟩
      exact Step.lockstep_forM fun result _ => ih target result

theorem offer_lockstep (renamed : c.Renamed n c') (t : Triple) (id : NodeId) :
    Step.Lockstep (Mirrors n) Eq
      (offer c t id : Step Failure (Descent G) Bool) (offer c' t id) := by
  unfold offer
  rw [renamed.network, Network.filter_renumber]
  apply (Step.lockstep_ofExcept_map _ _ _).bind
  rintro f _ ⟨-, rfl⟩
  have same : (f.renumber n.number).test t = f.test t := rfl
  rw [same]
  cases f.test t with
  | none => exact Step.lockstep_pure rfl
  | some b =>
    apply (Step.lockstep_modify fun _ _ mirrors => { mirrors with }).bind_eq
    intro _
    simp only [ClauseFilter.renumber]
    cases f.continuation with
    | none => exact Step.lockstep_throw _
    | some target =>
      unfold enter
      rw [renamed.network, Network.size_renumber]
      exact (deliver_lockstep renamed _ target b).bind_eq fun _ => Step.lockstep_pure rfl

theorem offerAll_lockstep (renamed : c.Renamed n c') (t : Triple) :
    Step.Lockstep (Mirrors n)
      (fun ms ms' => ms' = ms.map (.renumber n.number) ∧ ∀ a ∈ ms, n.stays a.rule)
      (offerAll c t : Step Failure (Descent G) (List BodyMatch)) (offerAll c' t) := by
  unfold offerAll
  rw [renamed.table]
  refine (Step.lockstep_forM fun id _ => (offer_lockstep renamed t id).discard).bind_eq fun _ => ?_
  apply Step.lockstep_get.bind
  intro d d' mirrors
  apply Step.lockstep_pure
  constructor
  · rw [mirrors.bodyMatches, Array.toList_map]
  · exact fun a mem => mirrors.stay a (Array.mem_toList_iff.mp mem)

end Descent
end TripleInference
