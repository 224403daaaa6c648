import TripleInference.Proofs.Fact.Numbering
import TripleInference.Proofs.Network.Compiled

/-!
What one call adds to a network that is being built. A rule that is refused or has no body adds
nothing. Any other adds a filter for each clause, a pair of queues for each clause but the first and
perhaps a terminal, behind the nodes there are, none of which changes.
-/
namespace TripleInference

def Rule.sharedVars (r : Rule) (clause : Nat) (p : Pattern) : List Nat :=
  p.ordinals.eraseDups.filter (· ∈ r.clauseVars (List.range clause))

theorem Pattern.addOrdinals_eraseDups (p : Pattern) (known : List Nat) :
    p.addOrdinals known.eraseDups = (known ++ p.ordinals).eraseDups := by
  unfold Pattern.addOrdinals
  induction p.ordinals generalizing known with
  | nil => rw [List.foldl_nil, List.append_nil]
  | cons v vs ih =>
    have first : (if v ∈ known.eraseDups then known.eraseDups else known.eraseDups ++ [v]) =
        (known ++ [v]).eraseDups := by
      simp only [eraseDups_concat, List.mem_eraseDups]
    rw [List.foldl_cons, first, ih, List.append_assoc, List.singleton_append]

theorem Pattern.distinctOrdinals_eq (p : Pattern) : p.distinctOrdinals = p.ordinals.eraseDups :=
  p.addOrdinals_eraseDups []

namespace Network

def filterAt (base clause : Nat) : Nat := base + (3 * clause - 2)

/-- The end of the chain up to a clause: the filter of the first clause, the left half of the pair
of a later one. -/
def endAt (base clause : Nat) : Nat := base + (3 * clause - 1)

def rightAt (base clause : Nat) : Nat := base + 3 * clause

def behindAt (base : Nat) (r : Rule) : Nat := base + (3 * r.body.length - 2)

/-- Where the matches of the clauses up to this one go: to the next pair or out of the chain. -/
def next (base : Nat) (r : Rule) (exit : Option NodeId) (clause : Nat) : Option NodeId :=
  if clause + 1 < r.body.length then some (endAt base (clause + 1)) else exit

/-- The second network is the first with the chain of a rule behind it. What the chain matches goes
to a terminal, if there is an exit, else nowhere. -/
structure Appends (n m : Network) (id : RuleId) (r : Rule) (exit : Option NodeId) : Prop where
  kept : n.Grows m
  size : m.size = behindAt n.size r + exit.toList.length
  first : ∀ p, r.body[0]? = some p →
    m.nodes[n.size]? = some (.filter
      { ClauseFilter.ofPattern id 0 p r.numVars with continuation := next n.size r exit 0 })
  filter : ∀ k p, 0 < k → r.body[k]? = some p →
    m.nodes[filterAt n.size k]? = some (.filter
      { ClauseFilter.ofPattern id k p r.numVars with continuation := some (rightAt n.size k) })
  left : ∀ k p, 0 < k → r.body[k]? = some p →
    m.nodes[endAt n.size k]? = some (.queue ⟨id, .left, r.sharedVars k p, List.range k,
      some (rightAt n.size k), next n.size r exit k⟩)
  right : ∀ k p, 0 < k → r.body[k]? = some p →
    m.nodes[rightAt n.size k]? = some (.queue ⟨id, .right, r.sharedVars k p, [k],
      some (endAt n.size k), next n.size r exit k⟩)
  terminal : ∀ pos : Nat, exit = some pos →
    pos = behindAt n.size r ∧ m.nodes[pos]? = some (.terminal id)

def IsHalf (n : Network) (pos : Nat) (q : JoinQueue) : Prop :=
  ∃ (other : Nat) (s : JoinQueue), q.sibling = some other ∧ n.nodes[other]? = some (.queue s) ∧
    s.sibling = some pos ∧ s.rule = q.rule ∧ s.side ≠ q.side ∧ s.keys = q.keys ∧
    s.continuation = q.continuation

structure Wired (n : Network) : Prop where
  forward : ∀ (pos : Nat) (node : Node) (target : Nat), n.nodes[pos]? = some node →
    node.continuation = some target → pos < target ∧ target < n.size
  paired : ∀ (pos : Nat) (q : JoinQueue), n.nodes[pos]? = some (.queue q) → n.IsHalf pos q

section
variable {n m : Network} {id : RuleId} {r : Rule} {exit : Option NodeId}

theorem HoldsAt.joint {numVars : Nat} {rest : List Pattern} {clause : Nat} {seen : List Nat}
    {pos : Nat} (holds : n.HoldsAt pos (joints id numVars rest clause seen pos exit)) {j : Nat}
    {p : Pattern} (here : rest[j]? = some p) :
    n.HoldsAt (pos + 3 * j) (Network.joint id numVars p
      (p.distinctOrdinals.filter (· ∈ seen ++ (rest.take j).flatMap Pattern.distinctOrdinals))
      (clause + j) (pos + 3 * j) (passOn (rest.drop (j + 1)) (pos + 3 * j + 3) exit)) := by
  -- What has been seen grows from clause to clause, so it is general in the induction.
  induction rest generalizing clause seen pos j with
  | nil => cases here
  | cons q rest ih =>
    rw [joints] at holds
    cases j with
    | zero =>
      obtain rfl : q = p := Option.some.inj here
      simpa using holds.left
    | succ j =>
      have tail : n.HoldsAt (pos + 3) (joints id numVars rest (clause + 1)
          (seen ++ q.distinctOrdinals) (pos + 3) exit) := holds.right
      have later := ih tail here
      have place : pos + 3 + 3 * j = pos + 3 * (j + 1) := by omega
      have number : clause + 1 + j = clause + (j + 1) := by omega
      rw [place, number] at later
      simpa [List.append_assoc] using later

theorem passOn_drop {p : Pattern} {rest : List Pattern} (body : r.body = p :: rest) (base : Nat)
    (exit : Option NodeId) (j : Nat) :
    passOn (rest.drop j) (base + 1 + 3 * j) exit = next base r exit j := by
  have length : r.body.length = rest.length + 1 := by rw [body, List.length_cons]
  unfold next endAt
  by_cases more : j < rest.length
  · have place : base + 1 + 3 * j + 1 = base + (3 * (j + 1) - 1) := by omega
    rw [List.drop_eq_getElem_cons more, if_pos (by omega), passOn, place]
  · rw [List.drop_eq_nil_of_le (by omega), if_neg (by omega), passOn]

theorem sharedVars_eq {p q : Pattern} {rest : List Pattern} (body : r.body = p :: rest) (j : Nat) :
    q.distinctOrdinals.filter
        (· ∈ p.distinctOrdinals ++ (rest.take j).flatMap Pattern.distinctOrdinals) =
      r.sharedVars (j + 1) q := by
  rw [Rule.sharedVars, q.distinctOrdinals_eq, Rule.clauseVars_range, body, List.take_succ_cons,
    List.flatMap_cons]
  congr! 3 with i
  simp only [List.mem_append, List.mem_flatMap, mem_distinctOrdinals]

theorem filterAt_add_one (base : Nat) {k : Nat} (later : 0 < k) :
    filterAt base k + 1 = endAt base k := by
  unfold filterAt endAt
  omega

theorem filterAt_add_two (base : Nat) {k : Nat} (later : 0 < k) :
    filterAt base k + 2 = rightAt base k := by
  unfold filterAt rightAt
  omega

theorem HoldsAt.first {base : Nat} {p : Pattern}
    (holds : n.HoldsAt base (openChain id r base exit)) (here : r.body[0]? = some p) :
    n.nodes[base]? = some (.filter
      { ClauseFilter.ofPattern id 0 p r.numVars with continuation := next base r exit 0 }) := by
  cases body : r.body with
  | nil =>
    rw [body] at here
    cases here
  | cons q rest =>
    obtain rfl : q = p := by simpa [body] using here
    have node := holds 0 _ (by simp only [openChain, body]; rfl)
    have onward := passOn_drop body base exit 0
    rw [List.drop_zero, Nat.mul_zero, Nat.add_zero] at onward
    rwa [onward] at node

theorem HoldsAt.later {base : Nat} {k : Nat} {p : Pattern}
    (holds : n.HoldsAt base (openChain id r base exit)) (later : 0 < k)
    (here : r.body[k]? = some p) :
    n.HoldsAt (filterAt base k)
      (Network.joint id r.numVars p (r.sharedVars k p) k (filterAt base k)
        (next base r exit k)) := by
  obtain ⟨j, rfl⟩ : ∃ j, k = j + 1 := ⟨k - 1, by omega⟩
  cases body : r.body with
  | nil =>
    rw [body] at here
    cases here
  | cons q rest =>
    rw [body, List.getElem?_cons_succ] at here
    simp only [openChain, body] at holds
    rw [← List.singleton_append] at holds
    have joint := holds.right.joint here
    have place : base + 1 + 3 * j = filterAt base (j + 1) := by
      unfold filterAt
      omega
    have number : 1 + j = j + 1 := by omega
    have onward := passOn_drop body base exit (j + 1)
    have behind : base + 1 + 3 * (j + 1) = filterAt base (j + 1) + 3 := by
      unfold filterAt
      omega
    rw [List.length_singleton, place, number, sharedVars_eq body] at joint
    rw [behind] at onward
    rwa [onward] at joint

theorem length_openChain (id : RuleId) {r : Rule} (nonempty : r.body ≠ []) (base : Nat)
    (exit : Option NodeId) :
    base + (openChain id r base exit).length = behindAt base r := by
  cases body : r.body with
  | nil => exact absurd body nonempty
  | cons p rest =>
    simp only [openChain, behindAt, body, List.length_cons, length_joints]
    omega

theorem appends_behind (n : Network) (id : RuleId) (nonempty : r.body ≠ []) {tail : List Node}
    (closed : exit = none ∧ tail = [] ∨
      exit = some (behindAt n.size r) ∧ tail = [.terminal id]) :
    n.Appends (ofNodes (n.nodes.toList ++ (openChain id r n.size exit ++ tail))) id r exit := by
  have holds := n.holdsAt_behind (openChain id r n.size exit ++ tail)
  have length := length_openChain id nonempty n.size exit
  constructor
  case kept => exact n.grows_behind _
  case size =>
    rw [size_behind, List.length_append, ← Nat.add_assoc, length]
    obtain ⟨rfl, rfl⟩ | ⟨rfl, rfl⟩ := closed <;> rfl
  case first => exact fun p here => holds.left.first here
  case filter =>
    intro k p later here
    have node := holds.left.later later here 0 _ rfl
    rwa [Nat.add_zero, filterAt_add_two _ later] at node
  case left =>
    intro k p later here
    have node := holds.left.later later here 1 _ rfl
    rwa [filterAt_add_one _ later, filterAt_add_two _ later] at node
  case right =>
    intro k p later here
    have node := holds.left.later later here 2 _ rfl
    rwa [filterAt_add_one _ later, filterAt_add_two _ later] at node
  case terminal =>
    intro pos isExit
    obtain ⟨rfl, -⟩ | ⟨rfl, rfl⟩ := closed
    · cases isExit
    · obtain rfl : _ = pos := Option.some.inj isExit
      have node := holds.right 0 _ rfl
      rw [length, Nat.add_zero] at node
      exact ⟨rfl, node⟩

theorem Appends.place (appends : n.Appends m id r exit) {pos : Nat} (new : n.size ≤ pos)
    (inside : pos < m.size) :
    pos = n.size ∨
      (∃ k, 0 < k ∧ k < r.body.length ∧
        (pos = filterAt n.size k ∨ pos = endAt n.size k ∨ pos = rightAt n.size k)) ∨
      exit = some pos := by
  have size := appends.size
  by_cases first : pos = n.size
  · exact Or.inl first
  by_cases inChain : pos < behindAt n.size r
  · -- Each clause takes three places, of which the first clause lacks two.
    unfold behindAt at inChain
    unfold filterAt endAt rightAt
    exact Or.inr (Or.inl ⟨(pos - n.size + 2) / 3, by omega, by omega, by omega⟩)
  · cases exit with
    | none =>
      simp only [Option.toList_none, List.length_nil] at size
      omega
    | some last =>
      have behind := (appends.terminal last rfl).1
      simp only [Option.toList_some, List.length_singleton] at size
      have same : pos = last := by omega
      exact Or.inr (Or.inr (congrArg some same.symm))

theorem Appends.rightAt_lt (appends : n.Appends m id r exit) {k : Nat}
    (inside : k < r.body.length) (later : 0 < k) : rightAt n.size k < m.size := by
  have size := appends.size
  unfold behindAt at size
  unfold rightAt
  omega

theorem Appends.next_bounds (appends : n.Appends m id r exit) {k target : Nat}
    (inside : k < r.body.length) (feeds : next n.size r exit k = some target) :
    rightAt n.size k < target ∧ target < m.size := by
  have size := appends.size
  unfold behindAt at size
  unfold next at feeds
  by_cases more : k + 1 < r.body.length
  · rw [if_pos more] at feeds
    obtain rfl : _ = target := Option.some.inj feeds
    unfold rightAt endAt
    omega
  · rw [if_neg more] at feeds
    have behind := (appends.terminal target feeds).1
    rw [feeds] at size
    simp only [Option.toList_some, List.length_singleton] at size
    unfold behindAt at behind
    unfold rightAt
    omega

theorem Appends.forward (appends : n.Appends m id r exit) (nonempty : r.body ≠ []) {pos : Nat}
    (new : n.size ≤ pos) {node : Node} (here : m.nodes[pos]? = some node) {target : Nat}
    (continues : node.continuation = some target) : pos < target ∧ target < m.size := by
  have inside : pos < m.size := (Array.getElem?_eq_some_iff.mp here).1
  have some_clause : 0 < r.body.length := List.length_pos_of_ne_nil nonempty
  have feeds {node' : Node} (there : m.nodes[pos]? = some node') :
      node'.continuation = some target := by
    obtain rfl : node = node' := Option.some.inj (here.symm.trans there)
    exact continues
  -- the node is the first filter, one of the three nodes of a later clause, or the terminal
  obtain first | ⟨k, later, inBody, place⟩ | last := appends.place new inside
  · obtain ⟨p, clause⟩ := r.exists_clause some_clause
    rw [first] at feeds
    have bounds := appends.next_bounds some_clause (feeds (appends.first p clause))
    unfold rightAt at bounds
    omega
  · obtain ⟨p, clause⟩ := r.exists_clause inBody
    have one := filterAt_add_one n.size later
    have two := filterAt_add_two n.size later
    obtain rfl | rfl | rfl := place
    · have right : rightAt n.size k = target := by
        simpa [Node.continuation] using feeds (appends.filter k p later clause)
      have := appends.rightAt_lt inBody later
      omega
    · have bounds := appends.next_bounds inBody (feeds (appends.left k p later clause))
      omega
    · exact appends.next_bounds inBody (feeds (appends.right k p later clause))
  · cases feeds (appends.terminal pos last).2

theorem Appends.paired (appends : n.Appends m id r exit) (nonempty : r.body ≠ []) {pos : Nat}
    (new : n.size ≤ pos) {q : JoinQueue} (here : m.nodes[pos]? = some (.queue q)) :
    m.IsHalf pos q := by
  have inside : pos < m.size := (Array.getElem?_eq_some_iff.mp here).1
  have same {node : Node} (there : m.nodes[pos]? = some node) : node = .queue q :=
    Option.some.inj (there.symm.trans here)
  obtain first | ⟨k, later, inBody, place⟩ | last := appends.place new inside
  · obtain ⟨p, clause⟩ := r.exists_clause (List.length_pos_of_ne_nil nonempty)
    rw [first] at same
    cases same (appends.first p clause)
  · obtain ⟨p, clause⟩ := r.exists_clause inBody
    have left := appends.left k p later clause
    have right := appends.right k p later clause
    obtain rfl | rfl | rfl := place
    · cases same (appends.filter k p later clause)
    · obtain rfl : _ = q := Node.queue.inj (same left)
      exact ⟨_, _, rfl, right, rfl, rfl, Side.noConfusion, rfl, rfl⟩
    · obtain rfl : _ = q := Node.queue.inj (same right)
      exact ⟨_, _, rfl, left, rfl, rfl, Side.noConfusion, rfl, rfl⟩
  · cases same (appends.terminal pos last).2

theorem wired_empty : Wired ∅ where
  forward pos node target here := by cases here
  paired pos q here := by cases here

theorem Appends.size_le (appends : n.Appends m id r exit) : n.size ≤ m.size := by
  have size := appends.size
  unfold behindAt at size
  omega

theorem Wired.appends (wired : n.Wired) (appends : n.Appends m id r exit)
    (nonempty : r.body ≠ []) : m.Wired := by
  -- Of the nodes there were, nothing but the bound on their targets has to be shown again.
  have old {pos : Nat} {node : Node} (inside : pos < n.size) (here : m.nodes[pos]? = some node) :
      n.nodes[pos]? = some node := by
    have before : n.nodes[pos]? = some n.nodes[pos] := Array.getElem?_eq_getElem inside
    rw [before, ← here, appends.kept pos _ before]
  constructor
  case forward =>
    intro pos node target here continues
    by_cases inside : pos < n.size
    · have bounds := wired.forward pos node target (old inside here) continues
      have := appends.size_le
      exact ⟨bounds.1, by omega⟩
    · exact appends.forward nonempty (by omega) here continues
  case paired =>
    intro pos q here
    by_cases inside : pos < n.size
    · obtain ⟨other, s, points, there, back⟩ := wired.paired pos q (old inside here)
      exact ⟨other, s, points, appends.kept other _ there, back⟩
    · exact appends.paired nonempty (by omega) here

end
end Network

namespace NetworkBuilder

inductive Call where
  | chain (id : RuleId) (r : Rule)
  | rule (id : RuleId) (r : Rule)

def Call.step : Call → Step Failure NetworkBuilder (Option NodeId)
  | .chain id r => buildChain id r
  | .rule id r => buildRule id r

def after (calls : List Call) : NetworkBuilder :=
  calls.foldl (fun b call => (call.step.outcome b).2) ∅

theorem appends_buildChain (id : RuleId) {r : Rule} (wf : r.WellFormed) (nonempty : r.body ≠ [])
    (b : NetworkBuilder) :
    ∃ c, (buildChain id r).outcome b =
        (.ok (some (Network.endAt b.network.size (r.body.length - 1))), c) ∧
      b.network.Appends c.network id r none := by
  obtain ⟨p, rest, body⟩ := List.exists_cons_of_ne_nil nonempty
  have last : Network.chainEnd rest b.network.size (b.network.size + 1) =
      Network.endAt b.network.size (r.body.length - 1) := by
    rw [body, List.length_cons]
    unfold Network.endAt
    cases rest with
    | nil => rfl
    | cons q rest =>
      rw [Network.chainEnd_cons, List.length_cons]
      omega
  have appends := Network.appends_behind b.network id nonempty (Or.inl ⟨rfl, rfl⟩)
  rw [List.append_nil] at appends
  have run := (outcome_buildChain id wf body b).1
  rw [last] at run
  exact ⟨_, run, appends⟩

theorem appends_buildRule (id : RuleId) {r : Rule} (wf : r.WellFormed) (nonempty : r.body ≠ [])
    (b : NetworkBuilder) :
    ∃ c, (buildRule id r).outcome b =
        (.ok (some (Network.behindAt b.network.size r)), c) ∧
      b.network.Appends c.network id r (some (Network.behindAt b.network.size r)) := by
  obtain ⟨p, rest, body⟩ := List.exists_cons_of_ne_nil nonempty
  have behind : b.network.size + 1 + 3 * rest.length = Network.behindAt b.network.size r := by
    rw [Network.behindAt, body, List.length_cons]
    omega
  have appends := Network.appends_behind b.network id nonempty (Or.inr ⟨rfl, rfl⟩)
  have run := outcome_buildRule_of_body id wf body b
  rw [behind] at run
  rw [← behind, ← Network.chain_eq id body, behind] at appends
  exact ⟨_, run, appends⟩

theorem Call.cases (call : Call) (b : NetworkBuilder) :
    (call.step.outcome b).2 = b ∨ ∃ id r exit, r.body ≠ [] ∧
      b.network.Appends (call.step.outcome b).2.network id r exit := by
  cases call with
  | chain id r =>
    rw [step]
    cases checked : r.check with
    | error fault => exact Or.inl (by rw [outcome_buildChain_of_fault id checked])
    | ok =>
      have wf := Rule.check_eq_ok.mp checked
      by_cases body : r.body = []
      · exact Or.inl (by rw [outcome_buildChain_of_nil id wf body])
      · obtain ⟨c, run, appends⟩ := appends_buildChain id wf body b
        exact Or.inr ⟨id, r, none, body, by rwa [run]⟩
  | rule id r =>
    rw [step]
    cases checked : r.check with
    | error fault => exact Or.inl (by rw [outcome_buildRule_of_fault id checked])
    | ok =>
      have wf := Rule.check_eq_ok.mp checked
      by_cases body : r.body = []
      · exact Or.inl (by rw [outcome_buildRule_of_nil id wf body])
      · obtain ⟨c, run, appends⟩ := appends_buildRule id wf body b
        exact Or.inr ⟨id, r, _, body, by rwa [run]⟩

theorem wired_call {b : NetworkBuilder} (wired : b.network.Wired) (call : Call) :
    (call.step.outcome b).2.network.Wired := by
  obtain same | ⟨id, r, exit, nonempty, appends⟩ := call.cases b
  · rwa [same]
  · exact wired.appends appends nonempty

theorem wired_after (calls : List Call) : (after calls).network.Wired := by
  have run (b : NetworkBuilder) (wired : b.network.Wired) :
      (calls.foldl (fun b call => (call.step.outcome b).2) b).network.Wired := by
    induction calls generalizing b with
    | nil => exact wired
    | cons call calls ih => exact ih _ (wired_call wired call)
  exact run ∅ Network.wired_empty

/-- Whatever has been built, a rule that is refused or has no body adds nothing. Any other is
appended as a chain, open or closed with a terminal, and the call answers with its last node. The
network is wired forward and in pairs throughout. -/
theorem rule_is_appended_as_a_chain (calls : List Call) (id : RuleId) (r : Rule) :
    (∀ fault, r.check = .error fault →
      (buildChain id r).outcome (after calls) = (.error (.rule fault), after calls) ∧
      (buildRule id r).outcome (after calls) = (.error (.rule fault), after calls)) ∧
    (r.check = .ok () → r.body = [] →
      (buildChain id r).outcome (after calls) = (.ok none, after calls) ∧
      (buildRule id r).outcome (after calls) = (.ok none, after calls)) ∧
    (r.check = .ok () → r.body ≠ [] →
      (∃ b, (buildChain id r).outcome (after calls) =
          (.ok (some (Network.endAt (after calls).network.size (r.body.length - 1))), b) ∧
        (after calls).network.Appends b.network id r none) ∧
      ∃ b, (buildRule id r).outcome (after calls) =
          (.ok (some (Network.behindAt (after calls).network.size r)), b) ∧
        (after calls).network.Appends b.network id r
          (some (Network.behindAt (after calls).network.size r))) ∧
    (after calls).network.Wired := by
  refine ⟨?refused, ?bodiless, ?appended, wired_after calls⟩
  case refused =>
    intro fault checked
    exact ⟨outcome_buildChain_of_fault id checked _, outcome_buildRule_of_fault id checked _⟩
  case bodiless =>
    intro checked body
    have wf := Rule.check_eq_ok.mp checked
    exact ⟨outcome_buildChain_of_nil id wf body _, outcome_buildRule_of_nil id wf body _⟩
  case appended =>
    intro checked nonempty
    have wf := Rule.check_eq_ok.mp checked
    exact ⟨appends_buildChain id wf nonempty _, appends_buildRule id wf nonempty _⟩

def triangle (p : TermId) : Rule :=
  .ofPatterns [⟨.var 0, .constant p, .var 1⟩, ⟨.var 1, .constant p, .var 2⟩,
    ⟨.var 2, .constant p, .var 0⟩] [⟨.var 0, .constant p, .var 2⟩]

theorem triangle_is_closed_on_two_variables :
    (triangle 7).check = .ok () ∧ (triangle 7).body ≠ [] ∧
      ∃ b, (buildRule 2 (triangle 7)).outcome
          (after [.rule 0 (.ofPatterns [⟨.var 0, .constant 7, .var 1⟩] []),
            .rule 1 (.unconditional [⟨.var 0, .constant 7, .var 0⟩])]) = (.ok (some 9), b) ∧
        b.network.nodes[7]? = some (.queue ⟨2, .left, [2, 0], [0, 1], some 8, some 9⟩) ∧
        b.network.nodes[8]? = some (.queue ⟨2, .right, [2, 0], [2], some 7, some 9⟩) := by
  have checked : (triangle 7).check = .ok () := by decide +kernel
  have nonempty : (triangle 7).body ≠ [] := List.cons_ne_nil _ _
  refine ⟨checked, nonempty, ?_⟩
  obtain ⟨-, -, appended, -⟩ := rule_is_appended_as_a_chain
    [.rule 0 (.ofPatterns [⟨.var 0, .constant 7, .var 1⟩] []),
      .rule 1 (.unconditional [⟨.var 0, .constant 7, .var 0⟩])] 2 (triangle 7)
  obtain ⟨-, b, run, appends⟩ := appended checked nonempty
  exact ⟨b, run, appends.left 2 _ (by decide) rfl, appends.right 2 _ (by decide) rfl⟩

end NetworkBuilder
end TripleInference
