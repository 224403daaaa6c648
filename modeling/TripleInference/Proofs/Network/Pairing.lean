import TripleInference.Proofs.Network.Rewiring

/-!
When the two halves of a pair feed the same node. Connecting one half of a pair takes the other one
along, so only three kinds of calls part them: pairing two queues that are connected differently by
then, connecting a queue whose sibling has been paired with another one since, and adding a queue
that comes with links.
-/
namespace TripleInference
namespace Network

def Partners (n : Network) (i j : NodeId) : Prop :=
  n.siblingAt i = some j ∧ n.siblingAt j = some i

instance (n : Network) (i j : NodeId) : Decidable (n.Partners i j) :=
  inferInstanceAs (Decidable (_ ∧ _))

def PartnersAgree (n : Network) : Prop :=
  ∀ i j, n.Partners i j → n.continuationAt i = n.continuationAt j

/-- The calls that send one half of a pair elsewhere than the other. -/
def Call.Diverts (n : Network) : Call → Prop
  | .push node => ∃ other ∈ node.sibling, n.siblingAt other = some n.size ∧
      n.continuationAt other ≠ node.continuation
  | .pair left right => n.hasQueue left = true ∧ n.hasQueue right = true ∧
      n.continuationAt left ≠ n.continuationAt right
  | .connect pos target => ∃ other ∈ n.siblingAt pos, ∃ partner ∈ n.siblingAt other,
      n.siblingAt partner = some other ∧ partner ≠ pos ∧ partner ≠ other ∧
        n.continuationAt partner ≠ some target

instance (n : Network) : (call : Call) → Decidable (call.Diverts n)
  | .push _ => inferInstanceAs (Decidable (∃ _ ∈ _, _))
  | .pair _ _ => inferInstanceAs (Decidable (_ ∧ _ ∧ _))
  | .connect _ _ => inferInstanceAs (Decidable (∃ _ ∈ _, ∃ _ ∈ _, _))

variable {n m : Network} {left right pos other target i j : NodeId} {link : Option NodeId}

theorem Partners.symm (partners : n.Partners i j) : n.Partners j i := ⟨partners.2, partners.1⟩

theorem linkAt_push (node : Node) (link : Node → Option NodeId) :
    (n.push node).2.linkAt link = Function.update (n.linkAt link) n.size (link node) := by
  funext k
  rw [linkAt, push, Array.getElem?_push, Function.update_apply, size]
  split <;> rfl

theorem siblingAt_size : n.siblingAt n.size = none := by
  simp [siblingAt, linkAt, size]

theorem push_agrees_iff (agree : n.PartnersAgree) (node : Node) :
    (n.push node).2.PartnersAgree ↔ ¬ (Call.push node).Diverts n := by
  generalize pushed : (n.push node).2 = m
  have siblings (k : NodeId) :
      m.siblingAt k = if k = n.size then node.sibling else n.siblingAt k :=
    pushed ▸ (congrFun (linkAt_push node Node.sibling) k).trans (Function.update_apply ..)
  have continuations (k : NodeId) :
      m.continuationAt k = if k = n.size then node.continuation else n.continuationAt k :=
    pushed ▸ (congrFun (linkAt_push node Node.continuation) k).trans (Function.update_apply ..)
  constructor
  · rintro agree' ⟨other, linked, back, differ⟩
    have isOld : other ≠ n.size := by
      rintro rfl
      cases siblingAt_size.symm.trans back
    have same := agree' other n.size ⟨by rwa [siblings, if_neg isOld], by rwa [siblings, if_pos rfl]⟩
    rw [continuations, continuations, if_neg isOld, if_pos rfl] at same
    exact differ same
  · intro kept
    have withNew (j : NodeId) (partners : m.Partners n.size j) (isOld : j ≠ n.size) :
        m.continuationAt n.size = m.continuationAt j := by
      obtain ⟨forth, back⟩ := partners
      rw [siblings, if_pos rfl] at forth
      rw [siblings, if_neg isOld] at back
      rw [continuations, continuations, if_pos rfl, if_neg isOld]
      by_contra differ
      exact kept ⟨j, forth, back, Ne.symm differ⟩
    intro i j partners
    -- only pairs in which the new node takes part have to be looked at again
    by_cases isNew : i = n.size <;> by_cases isNew' : j = n.size
    · rw [isNew, isNew']
    · subst isNew
      exact withNew j partners isNew'
    · subst isNew'
      exact (withNew i partners.symm isNew).symm
    · rw [Partners, siblings, siblings, if_neg isNew, if_neg isNew'] at partners
      rw [continuations, continuations, if_neg isNew, if_neg isNew']
      exact agree i j partners

/-- The partners after a queue got a sibling that is none. The one new link is not returned, and
its writer has lost the partner that it had. -/
theorem Partners.of_halfway (distinct : left ≠ right) (unlinked : n.siblingAt right = none)
    (siblings : m.siblingAt = Function.update n.siblingAt left (some right))
    (partners : m.Partners i j) : n.Partners i j := by
  simp only [Partners, siblings, Function.update_apply] at partners ⊢
  grind

theorem Partners.of_paired
    (siblings : m.siblingAt =
      Function.update (Function.update n.siblingAt left (some right)) right (some left))
    (partners : m.Partners i j) :
    (i = left ∧ j = right) ∨ (i = right ∧ j = left) ∨ n.Partners i j := by
  simp only [Partners, siblings, Function.update_apply] at partners ⊢
  grind

theorem pair_agrees_iff (agree : n.PartnersAgree) (left right : NodeId) :
    ((pair left right).outcome n).2.PartnersAgree ↔ ¬ (Call.pair left right).Diverts n := by
  have ends := pair_ends n left right
  generalize (pair left right).outcome n = run at ends
  cases ends with
  | refused leftFails =>
    have noQueue := hasQueue_eq_false_iff.mpr ⟨_, leftFails⟩
    exact iff_of_true agree (by simp [Call.Diverts, noQueue])
  | halfway isQueue rightFails siblings continuations =>
    have noQueue := hasQueue_eq_false_iff.mpr ⟨_, rightFails⟩
    have distinct : left ≠ right := by
      rintro rfl
      simp [noQueue] at isQueue
    refine iff_of_true (fun i j partners => ?_) (by simp [Call.Diverts, noQueue])
    rw [continuations]
    exact agree i j (partners.of_halfway distinct (siblingAt_eq_none rightFails) siblings)
  | @paired m isQueue isQueue' siblings continuations =>
    constructor
    · rintro agree' ⟨-, -, differ⟩
      have linked : m.Partners left right := by
        simp only [Partners, siblings, Function.update_apply]
        grind
      have same := agree' left right linked
      rw [continuations] at same
      exact differ same
    · intro kept i j partners
      have same : n.continuationAt left = n.continuationAt right := by
        by_contra differ
        exact kept ⟨isQueue, isQueue', differ⟩
      rw [continuations]
      rcases partners.of_paired siblings with ⟨rfl, rfl⟩ | ⟨rfl, rfl⟩ | old
      · exact same
      · exact same.symm
      · exact agree i j old

theorem PartnersAgree.of_single (agree : n.PartnersAgree) (alone : ∀ k, ¬ n.Partners pos k)
    (siblings : m.siblingAt = n.siblingAt)
    (continuations : m.continuationAt = Function.update n.continuationAt pos link) :
    m.PartnersAgree := by
  intro i j partners
  have old : n.Partners i j := by rwa [Partners, siblings] at partners
  have notLeft : i ≠ pos := by
    rintro rfl
    exact alone j old
  have notRight : j ≠ pos := by
    rintro rfl
    exact alone i old.symm
  rw [continuations, Function.update_of_ne notLeft, Function.update_of_ne notRight]
  exact agree i j old

theorem PartnersAgree.of_both (agree : n.PartnersAgree) (paired : n.siblingAt pos = some other)
    (siblings : m.siblingAt = n.siblingAt)
    (continuations : m.continuationAt =
      Function.update (Function.update n.continuationAt pos (some target)) other (some target))
    (kept : ¬ (Call.connect pos target).Diverts n) : m.PartnersAgree := by
  have taken (k : NodeId) : m.continuationAt k =
      if k = pos ∨ k = other then some target else n.continuationAt k := by
    rw [continuations, Function.update_apply, Function.update_apply]
    grind
  have half (i j : NodeId) (old : n.Partners i j) (isHalf : i = pos ∨ i = other) :
      m.continuationAt j = some target := by
    rw [taken j]
    split
    · rfl
    · rename_i isNone
      rcases isHalf with rfl | rfl
      · cases paired.symm.trans old.1
        exact absurd (Or.inr rfl) isNone
      · by_contra differ
        exact kept ⟨i, paired, j, old.1, old.2, fun same => isNone (Or.inl same),
          fun same => isNone (Or.inr same), differ⟩
  intro i j partners
  have old : n.Partners i j := by rwa [Partners, siblings] at partners
  by_cases isLeft : i = pos ∨ i = other
  · rw [half i j old isLeft, taken i, if_pos isLeft]
  · by_cases isRight : j = pos ∨ j = other
    · rw [half j i old.symm isRight, taken j, if_pos isRight]
    · rw [taken i, taken j, if_neg isLeft, if_neg isRight]
      exact agree i j old

theorem connect_agrees_iff (agree : n.PartnersAgree) (pos target : NodeId) :
    ((connect pos target).outcome n).2.PartnersAgree ↔ ¬ (Call.connect pos target).Diverts n := by
  have ends := connect_ends n pos target
  generalize (connect pos target).outcome n = run at ends
  cases ends with
  | missing fails =>
    have unpaired : n.siblingAt pos = none := siblingAt_eq_none (by rw [queue, fails])
    exact iff_of_true agree (by simp [Call.Diverts, unpaired])
  | refused isTerminal =>
    have unpaired : n.siblingAt pos = none := siblingAt_eq_none (by rw [queue, isTerminal])
    exact iff_of_true agree (by simp [Call.Diverts, unpaired])
  | halfway paired otherFails siblings continuations =>
    have unlinked := siblingAt_eq_none otherFails
    have alone (k : NodeId) : ¬ n.Partners pos k := by
      rintro ⟨forth, back⟩
      cases paired.symm.trans forth
      simp [unlinked] at back
    exact iff_of_true (agree.of_single alone siblings continuations)
      (by simp [Call.Diverts, paired, unlinked])
  | single unpaired siblings continuations =>
    have alone (k : NodeId) : ¬ n.Partners pos k := by
      rintro ⟨forth, -⟩
      cases unpaired.symm.trans forth
    exact iff_of_true (agree.of_single alone siblings continuations)
      (by simp [Call.Diverts, unpaired])
  | @both m other paired isQueue siblings continuations =>
    -- the target is written to two queues, so a third one that is paired with either disagrees
    refine ⟨?_, agree.of_both paired siblings continuations⟩
    rintro agree' ⟨other', linked, partner, forth, back, notPos, notOther, differ⟩
    cases paired.symm.trans linked
    have partners : m.Partners partner other := by
      rw [Partners, siblings]
      exact ⟨back, forth⟩
    have same := agree' partner other partners
    rw [continuations, Function.update_self, Function.update_of_ne notOther,
      Function.update_of_ne notPos] at same
    exact differ same

theorem call_agrees_iff (agree : n.PartnersAgree) (call : Call) :
    (call.on n).PartnersAgree ↔ ¬ call.Diverts n := by
  cases call with
  | push node => exact push_agrees_iff agree node
  | pair left right => exact pair_agrees_iff agree left right
  | connect pos target => exact connect_agrees_iff agree pos target

theorem after_take_succ (calls : List Call) {k : Nat} (inside : k < calls.length) :
    after (calls.take (k + 1)) = calls[k].on (after (calls.take k)) := by
  rw [after, List.take_succ_eq_append_getElem inside, List.foldl_append]
  rfl

theorem empty_partnersAgree : PartnersAgree ∅ := fun _ _ partners => nomatch partners.1

/-- Two queues that are each other's sibling share their continuation all the way through a series
of calls, in whatever order they are made and whether they fail or not, if and only if none of them
sends one half of a pair elsewhere than the other. -/
theorem partners_agree_unless_a_half_is_diverted (calls : List Call) :
    (∀ k ≤ calls.length, (after (calls.take k)).PartnersAgree) ↔
      ∀ k (inside : k < calls.length), ¬ calls[k].Diverts (after (calls.take k)) := by
  constructor
  · intro agree k inside
    have next := agree (k + 1) inside
    rw [after_take_succ calls inside] at next
    exact (call_agrees_iff (agree k inside.le) calls[k]).mp next
  · intro kept k
    induction k with
    | zero => exact fun _ => empty_partnersAgree
    | succ k ih =>
      intro inside
      rw [after_take_succ calls inside]
      exact (call_agrees_iff (ih (Nat.le_of_lt inside)) calls[k]).mpr (kept k inside)

theorem repaired_partners_agree :
    let q := Node.queue (.unwired 0 .left [0] [0])
    let n := after [.push q, .push q, .push q, .push (.terminal 0), .pair 0 1, .connect 1 3,
      .pair 0 3, .connect 2 3, .connect 3 3, .pair 0 2]
    n.Partners 0 2 ∧ n.PartnersAgree := by
  intro q n
  refine ⟨by decide, ?_⟩
  have agree := (partners_agree_unless_a_half_is_diverted [.push q, .push q, .push q,
    .push (.terminal 0), .pair 0 1, .connect 1 3, .pair 0 3, .connect 2 3, .connect 3 3,
    .pair 0 2]).mpr (by decide)
  exact agree 10 le_rfl

theorem late_pair_disagrees :
    let q := Node.queue (.unwired 0 .left [0] [0])
    let late := after [.push q, .push q, .push (.terminal 0), .connect 0 2, .pair 0 1]
    let anew := after [.push q, .push q, .push q, .push (.terminal 0), .push (.terminal 1),
      .pair 0 1, .pair 0 2, .connect 0 3, .connect 1 4]
    (late.Partners 0 1 ∧ late.continuationAt 0 = some 2 ∧ late.continuationAt 1 = none) ∧
      anew.Partners 0 2 ∧ anew.continuationAt 0 = some 4 ∧ anew.continuationAt 2 = some 3 := by
  decide

end Network
end TripleInference
