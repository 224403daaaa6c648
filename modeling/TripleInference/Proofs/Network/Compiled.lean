import TripleInference.Proofs.Network.Layout

/-!
What a compiled network looks like. Every node has its place in the chain of an active rule, every
queue knows its sibling and sends its results strictly onward, and the filters of all clauses are
filed under their predicates.
-/
namespace TripleInference

namespace Network

def HoldsAt (n : Network) (pos : Nat) (nodes : List Node) : Prop :=
  ∀ i node, nodes[i]? = some node → n.nodes[pos + i]? = some node

/-- The clauses of the rule from number `k` on are laid out from `pos` on. -/
def Laid (n : Network) (id : RuleId) (r : Rule) (k : Nat) (pos : Nat) : Prop :=
  ∃ seen, (∀ i, i ∈ seen ↔ i ∈ r.clauseVars (List.range k)) ∧
    n.HoldsAt pos (chainTail id r.numVars (r.body.drop k) k seen pos)

theorem HoldsAt.left {n : Network} {pos : Nat} {first rest : List Node}
    (holds : n.HoldsAt pos (first ++ rest)) : n.HoldsAt pos first := by
  intro i node here
  apply holds i node
  rw [List.getElem?_append_left (List.getElem?_eq_some_iff.mp here).1, here]

theorem HoldsAt.right {n : Network} {pos : Nat} {first rest : List Node}
    (holds : n.HoldsAt pos (first ++ rest)) : n.HoldsAt (pos + first.length) rest := by
  intro i node here
  rw [Nat.add_assoc]
  apply holds (first.length + i) node
  rw [List.getElem?_append_right (Nat.le_add_right _ _), Nat.add_sub_cancel_left, here]

theorem mem_addOrdinals (p : Pattern) (known : List Nat) (i : Nat) :
    i ∈ p.addOrdinals known ↔ i ∈ known ∨ i ∈ p.ordinals := by
  unfold Pattern.addOrdinals
  induction p.ordinals generalizing known with
  | nil => simp
  | cons v vs ih =>
    rw [List.foldl_cons, ih]
    split <;> simp <;> grind

theorem mem_distinctOrdinals {p : Pattern} {i : Nat} : i ∈ p.distinctOrdinals ↔ i ∈ p.ordinals := by
  rw [Pattern.distinctOrdinals, mem_addOrdinals]
  simp

theorem Laid.terminal {n : Network} {id : RuleId} {r : Rule} {pos : Nat}
    (laid : n.Laid id r r.body.length pos) : n.nodes[pos]? = some (.terminal id) := by
  obtain ⟨seen, -, holds⟩ := laid
  rw [List.drop_length] at holds
  exact holds 0 _ rfl

theorem Laid.joint {n : Network} {id : RuleId} {r : Rule} {k : Nat} {pos : Nat}
    (laid : n.Laid id r k pos) (inside : k < r.body.length) :
    ∃ p keys, r.body[k]? = some p ∧
      (∀ key ∈ keys, key ∈ r.clauseVars (List.range k) ∧ key ∈ r.clauseVars [k]) ∧
      n.HoldsAt pos
        (joint id r.numVars p keys k pos (some (onward (r.body.drop (k + 1)) (pos + 3)))) ∧
      n.Laid id r (k + 1) (pos + 3) := by
  obtain ⟨seen, vars, holds⟩ := laid
  have here : r.body[k]? = some r.body[k] := List.getElem?_eq_getElem inside
  rw [List.drop_eq_getElem_cons inside, chainTail] at holds
  refine ⟨r.body[k], _, here, ?_, holds.left, seen ++ r.body[k].distinctOrdinals, ?_, holds.right⟩
  · intro key mem
    obtain ⟨var, old⟩ := List.mem_filter.mp mem
    rw [Rule.clauseVars_singleton here]
    exact ⟨(vars key).mp (of_decide_eq_true old), mem_distinctOrdinals.mp var⟩
  · intro i
    rw [List.mem_append, vars, mem_distinctOrdinals, List.range_succ, Rule.clauseVars_append,
      List.mem_append, Rule.clauseVars_singleton here]

/-- The node takes matches of the given clauses: a half of a pair or the terminal. -/
inductive Takes (n : Network) (id : RuleId) (r : Rule) : List Nat → Nat → Prop where
  | left {k : Nat} {pos : Nat} (inside : k < r.body.length) (laid : n.Laid id r k pos) :
      Takes n id r (List.range k) (pos + 1)
  | right {k : Nat} {pos : Nat} (inside : k < r.body.length) (laid : n.Laid id r k pos) :
      Takes n id r [k] (pos + 2)
  | terminal {pos : Nat} (laid : n.Laid id r r.body.length pos) :
      Takes n id r (List.range r.body.length) pos

theorem Laid.takes {n : Network} {id : RuleId} {r : Rule} {k : Nat} {pos : Nat}
    (laid : n.Laid id r k pos) (inside : k ≤ r.body.length) :
    Takes n id r (List.range k) (onward (r.body.drop k) pos) := by
  rcases Nat.lt_or_eq_of_le inside with more | rfl
  · rw [List.drop_eq_getElem_cons more]
    exact Takes.left more laid
  · rw [List.drop_length]
    exact Takes.terminal laid

theorem le_onward (rest : List Pattern) (pos : Nat) : pos ≤ onward rest pos := by
  cases rest with
  | nil => exact Nat.le_refl _
  | cons p rest => exact Nat.le_succ _

theorem node_eq_ok {n : Network} {pos : Nat} {node : Node} :
    n.node pos = .ok node ↔ n.nodes[pos]? = some node := by
  unfold Network.node
  cases n.nodes[pos]? <;> simp

theorem queue_eq_ok {n : Network} {pos : Nat} {q : JoinQueue}
    (here : n.nodes[pos]? = some (.queue q)) : n.queue pos = .ok q := by
  simp only [Network.queue, node_eq_ok.mpr here]

theorem sibling_eq_ok {n : Network} {pos other : Nat} {q s : JoinQueue}
    (here : n.nodes[pos]? = some (.queue q)) (paired : q.sibling = some other)
    (there : n.nodes[other]? = some (.queue s)) (back : s.sibling = some pos) :
    n.sibling pos = .ok s := by
  simp only [Network.sibling, queue_eq_ok here, paired, node_eq_ok.mpr there, back, ↓reduceIte]

structure Pairs (n : Network) (id : RuleId) (r : Rule) (clauses others : List Nat) (pos : Nat)
    (q s : JoinQueue) (next : Nat) : Prop where
  node : n.nodes[pos]? = some (.queue q)
  rule : q.rule = id
  takes : q.clauses = clauses
  sibling : n.sibling pos = .ok s
  siblingTakes : s.clauses = others
  continuation : q.continuation = some next
  forward : pos < next
  keys : ∀ key ∈ q.keys, key ∈ r.clauseVars clauses ∧ key ∈ r.clauseVars others
  inBody : ∀ clause ∈ others, clause < r.body.length
  apart : ∀ clause ∈ others, clause ∉ clauses
  both : ∃ all, n.Takes id r all next ∧ ∀ clause, clause ∈ all ↔ clause ∈ clauses ∨ clause ∈ others

theorem Takes.cases {n : Network} {id : RuleId} {r : Rule} {clauses : List Nat} {pos : Nat}
    (takes : n.Takes id r clauses pos) :
    (n.nodes[pos]? = some (.terminal id) ∧ clauses = List.range r.body.length) ∨
      ∃ others q s next, n.Pairs id r clauses others pos q s next := by
  cases takes with
  | terminal laid => exact Or.inl ⟨laid.terminal, rfl⟩
  | @left k pos inside laid =>
    obtain ⟨p, keys, -, shared, holds, behind⟩ := laid.joint inside
    have here := holds 1 _ rfl
    have there := holds 2 _ rfl
    refine Or.inr ⟨[k], _, _, _, here, rfl, rfl, sibling_eq_ok here rfl there rfl, rfl, rfl, ?_,
      shared, by simpa using inside, by simp, List.range (k + 1), behind.takes inside, ?_⟩
    · have := le_onward (r.body.drop (k + 1)) (pos + 3)
      omega
    · simp [List.range_succ]
  | @right k pos inside laid =>
    obtain ⟨p, keys, -, shared, holds, behind⟩ := laid.joint inside
    have here := holds 2 _ rfl
    have there := holds 1 _ rfl
    refine Or.inr ⟨List.range k, _, _, _, here, rfl, rfl, sibling_eq_ok here rfl there rfl, rfl,
      rfl, ?_, fun key mem => (shared key mem).symm, ?_, ?_, List.range (k + 1),
      behind.takes inside, ?_⟩
    · have := le_onward (r.body.drop (k + 1)) (pos + 3)
      omega
    · intro clause mem
      exact (List.mem_range.mp mem).trans inside
    · intro clause mem
      have := List.mem_range.mp mem
      simp only [List.mem_singleton]
      omega
    · simp [List.range_succ, or_comm]

theorem Takes.inside {n : Network} {id : RuleId} {r : Rule} {clauses : List Nat} {pos : Nat}
    (takes : n.Takes id r clauses pos) : pos < n.size := by
  rcases takes.cases with ⟨node, -⟩ | ⟨others, q, s, next, pairs⟩
  · exact (Array.getElem?_eq_some_iff.mp node).1
  · exact (Array.getElem?_eq_some_iff.mp pairs.node).1

inductive Seat (n : Network) (id : RuleId) (r : Rule) : Nat → Prop where
  | first {pos : Nat} {p : Pattern} (here : r.body[0]? = some p)
      (node : n.nodes[pos]? = some (.filter { ClauseFilter.ofPattern id 0 p r.numVars with
        continuation := some (onward (r.body.drop 1) (pos + 1)) }))
      (laid : n.Laid id r 1 (pos + 1)) : Seat n id r pos
  | joint {k j : Nat} {pos : Nat} (inside : k < r.body.length) (laid : n.Laid id r k pos)
      (place : j < 3) : Seat n id r (pos + j)
  | terminal {pos : Nat} (laid : n.Laid id r r.body.length pos) : Seat n id r pos

theorem Seat.filter {n : Network} {id : RuleId} {r : Rule} {pos : Nat} {f : ClauseFilter}
    (seat : n.Seat id r pos) (node : n.nodes[pos]? = some (.filter f)) :
    ∃ p target, r.body[f.clause]? = some p ∧
      f = { ClauseFilter.ofPattern id f.clause p r.numVars with continuation := some target } ∧
      n.Takes id r [f.clause] target := by
  cases seat with
  | first here node' laid =>
    obtain rfl : _ = f := Node.filter.inj (Option.some.inj (node'.symm.trans node))
    have nonempty : 1 ≤ r.body.length := (List.getElem?_eq_some_iff.mp here).1
    exact ⟨_, _, here, rfl, laid.takes nonempty⟩
  | terminal laid =>
    rw [laid.terminal] at node
    cases node
  | @joint k j pos inside laid place =>
    obtain ⟨p, keys, here, -, holds, -⟩ := laid.joint inside
    match j, place with
    | 0, _ =>
      have node' := holds 0 _ rfl
      obtain rfl : _ = f := Node.filter.inj (Option.some.inj (node'.symm.trans node))
      exact ⟨p, _, here, rfl, Takes.right inside laid⟩
    | 1, _ =>
      have node' := holds 1 _ rfl
      rw [node] at node'
      cases node'
    | 2, _ =>
      have node' := holds 2 _ rfl
      rw [node] at node'
      cases node'

theorem Seat.queue {n : Network} {id : RuleId} {r : Rule} {pos : Nat} {q : JoinQueue}
    (seat : n.Seat id r pos) (node : n.nodes[pos]? = some (.queue q)) :
    ∃ clauses others s next, n.Pairs id r clauses others pos q s next := by
  have paired {clauses : List Nat} (takes : n.Takes id r clauses pos) :
      ∃ clauses others s next, n.Pairs id r clauses others pos q s next := by
    rcases takes.cases with ⟨node', -⟩ | ⟨others, q', s, next, pairs⟩
    · rw [node] at node'
      cases node'
    · obtain rfl : q' = q := Node.queue.inj (Option.some.inj (pairs.node.symm.trans node))
      exact ⟨clauses, others, s, next, pairs⟩
  cases seat with
  | first here node' laid =>
    rw [node] at node'
    cases node'
  | terminal laid => exact paired (Takes.terminal laid)
  | @joint k j pos inside laid place =>
    obtain ⟨p, keys, -, -, holds, -⟩ := laid.joint inside
    match j, place with
    | 0, _ =>
      have node' := holds 0 _ rfl
      rw [node] at node'
      cases node'
    | 1, _ => exact paired (Takes.left inside laid)
    | 2, _ => exact paired (Takes.right inside laid)

def Grows (n m : Network) : Prop :=
  ∀ (pos : Nat) (node : Node), n.nodes[pos]? = some node → m.nodes[pos]? = some node

theorem grows_behind (n : Network) (more : List Node) :
    n.Grows (ofNodes (n.nodes.toList ++ more)) := by
  intro pos node here
  have inside : pos < n.nodes.size := (Array.getElem?_eq_some_iff.mp here).1
  simp only [ofNodes, List.getElem?_toArray]
  rw [List.getElem?_append_left (by simpa using inside), Array.getElem?_toList]
  exact here

theorem holdsAt_behind (n : Network) (more : List Node) :
    (ofNodes (n.nodes.toList ++ more)).HoldsAt n.size more := by
  intro i node here
  simp only [ofNodes, List.getElem?_toArray]
  rw [List.getElem?_append_right (by simp [Network.size])]
  simpa [Network.size] using here

theorem size_behind (n : Network) (more : List Node) :
    (ofNodes (n.nodes.toList ++ more)).size = n.size + more.length := by
  simp [ofNodes, Network.size]

theorem Laid.mono {n m : Network} {id : RuleId} {r : Rule} {k : Nat} {pos : Nat}
    (laid : n.Laid id r k pos) (grows : n.Grows m) : m.Laid id r k pos := by
  obtain ⟨seen, vars, holds⟩ := laid
  exact ⟨seen, vars, fun i node here => grows _ _ (holds i node here)⟩

theorem Seat.mono {n m : Network} {id : RuleId} {r : Rule} {pos : Nat} (seat : n.Seat id r pos)
    (grows : n.Grows m) : m.Seat id r pos := by
  cases seat with
  | first here node laid => exact Seat.first here (grows _ _ node) (laid.mono grows)
  | joint inside laid place => exact Seat.joint inside (laid.mono grows) place
  | terminal laid => exact Seat.terminal (laid.mono grows)

theorem HoldsAt.chain {n : Network} {id : RuleId} {r : Rule} {base : Nat}
    (holds : n.HoldsAt base (chain id r base)) {p : Pattern} (here : r.body[0]? = some p) :
    n.nodes[base]? = some (.filter { ClauseFilter.ofPattern id 0 p r.numVars with
        continuation := some (onward (r.body.drop 1) (base + 1)) }) ∧
      n.Laid id r 1 (base + 1) := by
  cases body : r.body with
  | nil => simp [body] at here
  | cons q rest =>
    obtain rfl : q = p := by simpa [body] using here
    simp only [Network.chain, body] at holds
    refine ⟨holds 0 _ rfl, q.distinctOrdinals, fun i => ?_, ?_⟩
    · rw [mem_distinctOrdinals, List.range_one, Rule.clauseVars_singleton here]
    · rw [body]
      rw [← List.singleton_append] at holds
      exact holds.right

theorem HoldsAt.laid {n : Network} {id : RuleId} {r : Rule} {base : Nat}
    (holds : n.HoldsAt base (Network.chain id r base)) {k : Nat} (inside : k + 1 ≤ r.body.length) :
    n.Laid id r (k + 1) (base + 1 + 3 * k) := by
  induction k with
  | zero =>
    obtain ⟨p, here⟩ := r.exists_clause inside
    exact (holds.chain here).2
  | succ k ih =>
    obtain ⟨-, -, -, -, -, laid⟩ := (ih (by omega)).joint (by omega)
    exact laid

theorem length_chain {id : RuleId} {r : Rule} {base : Nat} (nonempty : 0 < r.body.length) :
    (Network.chain id r base).length = 3 * r.body.length - 1 := by
  cases body : r.body with
  | nil => simp [body] at nonempty
  | cons p rest =>
    simp only [Network.chain, body, List.length_cons, length_chainTail]
    omega

theorem HoldsAt.seat {n : Network} {id : RuleId} {r : Rule} {base : Nat}
    (holds : n.HoldsAt base (Network.chain id r base)) {i : Nat}
    (inside : i < (Network.chain id r base).length) : n.Seat id r (base + i) := by
  have nonempty : 0 < r.body.length := by
    by_contra empty
    have body : r.body = [] := List.length_eq_zero_iff.mp (by omega)
    simp [Network.chain, body] at inside
  rw [length_chain nonempty] at inside
  cases i with
  | zero =>
    obtain ⟨p, here⟩ := r.exists_clause nonempty
    obtain ⟨node, laid⟩ := holds.chain here
    exact Seat.first here node laid
  | succ i =>
    have place : base + (i + 1) = base + 1 + 3 * (i / 3) + i % 3 := by omega
    have laid := holds.laid (k := i / 3) (by omega)
    rw [place]
    rcases Nat.lt_or_ge (i / 3 + 1) r.body.length with more | last
    · exact Seat.joint more laid (Nat.mod_lt _ (by omega))
    · have all : i / 3 + 1 = r.body.length := by omega
      have zero : i % 3 = 0 := by omega
      rw [all] at laid
      rw [zero]
      exact Seat.terminal laid

end Network
end TripleInference
