import TripleInference.Proofs.Matching.Binding

/-!
The trail of bindings, whatever is done to them. It lists bound slots, each once. A slot that is
bound and off the trail stays bound, which is why nothing reopens what was bound when the trail was
dropped. A snapshot brings its bindings back as long as all that followed it only bound slots or
restored snapshots taken later.
-/
namespace TripleInference
namespace Bindings

def Undone (b c : Bindings) : Prop :=
  b.trail.length ≤ c.trail.length ∧ c.restore b.snapshot = b

theorem Undone.refl (b : Bindings) : Undone b b := by
  refine ⟨Nat.le_refl _, ?_⟩
  simp [restore, snapshot]

theorem restore_restore (d : Bindings) (high low : Snapshot) (ordered : low.height ≤ high.height)
    (inside : high.height ≤ d.trail.length) : (d.restore high).restore low = d.restore low := by
  have split : d.trail.length - low.height =
      (d.trail.length - high.height) + (high.height - low.height) := by omega
  have rest : d.trail.length - (d.trail.length - high.height) - low.height =
      high.height - low.height := by omega
  simp only [restore, List.length_drop, rest, List.drop_drop, split, List.take_add,
    List.foldl_append]

theorem Undone.trans {b c d : Bindings} (first : Undone b c) (second : Undone c d) :
    Undone b d := by
  refine ⟨first.1.trans second.1, ?_⟩
  rw [← restore_restore d c.snapshot b.snapshot first.1 second.1, second.2, first.2]

theorem undone_fresh {b : Bindings} {i : Nat} (x : TermId) (isOpen : b.values[i]? = some none) :
    Undone b ⟨b.values.set i (some x), i :: b.trail⟩ := by
  obtain ⟨inside, value⟩ := List.getElem?_eq_some_iff.mp isOpen
  refine ⟨by simp, ?_⟩
  have same : b.values.set i none = b.values := by
    conv => rhs; rw [← List.set_getElem_self inside]
    rw [value]
  simp [restore, snapshot, same]

/-! Whatever extends bindings does so slot by slot. -/

section
variable {kept : Bindings → Prop} (fresh : ∀ {b : Bindings} {i : Nat} (x : TermId),
  b.values[i]? = some none → kept b → kept ⟨b.values.set i (some x), i :: b.trail⟩)
include fresh

theorem bind_keeps {b : Bindings} (holds : kept b) (i : Nat) (x : TermId) :
    kept (b.bind i x).2 := by
  rcases bind_cases b i x with ⟨-, result⟩ | ⟨isOpen, result⟩ | ⟨-, result⟩ <;> rw [result]
  · exact holds
  · exact fresh x isOpen holds
  · exact holds

theorem bindAll_keeps {b : Bindings} (holds : kept b) (pairs : List (Nat × TermId)) :
    kept (bindAll pairs b).2 := by
  induction pairs generalizing b with
  | nil => exact holds
  | cons pair pairs ih =>
    obtain ⟨i, x⟩ := pair
    have first := bind_keeps fresh holds i x
    rw [bindAll]
    split <;> rename_i b' result <;> rw [result] at first
    · exact ih first
    · exact first

theorem unify_keeps {b : Bindings} (holds : kept b) (p : Pattern) (t : Triple) :
    kept (b.unify p t).2 := by
  unfold unify
  induction Slot.all generalizing b with
  | nil => exact holds
  | cons slot slots ih =>
    have first : kept (b.fit (slot.of t) (p.term slot)).2 := by
      cases p.term slot with
      | constant id => exact holds
      | var i => exact bind_keeps fresh holds i (slot.of t)
      | wildcard => exact holds
    rw [unifySlots]
    split <;> rename_i b' result <;> rw [result] at first
    · exact ih first
    · exact first

end

theorem Undone.fresh (b : Bindings) {c : Bindings} {i : Nat} (x : TermId)
    (isOpen : c.values[i]? = some none) (undone : Undone b c) :
    Undone b ⟨c.values.set i (some x), i :: c.trail⟩ :=
  undone.trans (undone_fresh x isOpen)

theorem bindAll_undone (pairs : List (Nat × TermId)) (b : Bindings) :
    Undone b (bindAll pairs b).2 :=
  bindAll_keeps (Undone.fresh b) (Undone.refl b) pairs

theorem unify_undone (b : Bindings) (p : Pattern) (t : Triple) : Undone b (b.unify p t).2 :=
  unify_keeps (Undone.fresh b) (Undone.refl b) p t

theorem merge_cases (b c : Bindings) (keys : List Nat) :
    (b.merge c keys).2 = (bindAll c.bound b).2 ∨ (b.merge c keys).2 = b := by
  have undone := bindAll_undone c.bound b
  rw [merge]
  split
  · split <;> rename_i m result <;> rw [result] at undone ⊢
    · exact Or.inl rfl
    · exact Or.inr undone.2
  · exact Or.inr rfl

inductive Act where
  | bind (index : Nat) (value : TermId)
  | unify (p : Pattern) (t : Triple)
  | merge (other : Bindings) (keys : List Nat)
  | snapshot
  | restore (mark : Snapshot)
  | commit

def Act.apply (b : Bindings) : Act → Bindings
  | .bind index value => (b.bind index value).2
  | .unify p t => (b.unify p t).2
  | .merge other keys => (b.merge other keys).2
  | .snapshot => b
  | .restore mark => b.restore mark
  | .commit => b.commit

/-- By such an act nothing bound is reopened, and the trail is not dropped. -/
def Act.Extends : Act → Prop
  | .restore _ | .commit => False
  | _ => True

theorem Act.Extends.keeps {kept : Bindings → Prop} (fresh : ∀ {b : Bindings} {i : Nat} (x : TermId),
    b.values[i]? = some none → kept b → kept ⟨b.values.set i (some x), i :: b.trail⟩)
    {act : Act} (extend : act.Extends) {b : Bindings} (holds : kept b) : kept (act.apply b) := by
  cases act with
  | bind index value => exact bind_keeps fresh holds index value
  | unify p t => exact unify_keeps fresh holds p t
  | merge other keys =>
    rcases merge_cases b other keys with merged | unchanged
    · rw [apply, merged]
      exact bindAll_keeps fresh holds other.bound
    · rwa [apply, unchanged]
  | snapshot => exact holds
  | restore mark => exact extend.elim
  | commit => exact extend.elim

def after (b : Bindings) (acts : List Act) : Bindings := acts.foldl Act.apply b

@[simp] theorem after_nil (b : Bindings) : b.after [] = b := rfl

@[simp] theorem after_cons (b : Bindings) (act : Act) (acts : List Act) :
    b.after (act :: acts) = (act.apply b).after acts := rfl

theorem after_append (b : Bindings) (acts later : List Act) :
    b.after (acts ++ later) = (b.after acts).after later := List.foldl_append

structure KeptByActs (kept : Bindings → Prop) : Prop where
  fresh : ∀ {b : Bindings} {i : Nat} (x : TermId), b.values[i]? = some none → kept b →
    kept ⟨b.values.set i (some x), i :: b.trail⟩
  restore : ∀ {b : Bindings} (mark : Snapshot), kept b → kept (b.restore mark)
  commit : ∀ {b : Bindings}, kept b → kept b.commit

theorem KeptByActs.apply {kept : Bindings → Prop} (acts : KeptByActs kept) {b : Bindings}
    (holds : kept b) (act : Act) : kept (act.apply b) := by
  by_cases extend : act.Extends
  · exact extend.keeps acts.fresh holds
  · cases act with
    | restore mark => exact acts.restore mark holds
    | commit => exact acts.commit holds
    | _ => exact absurd trivial extend

theorem KeptByActs.after {kept : Bindings → Prop} (acts : KeptByActs kept) {b : Bindings}
    (holds : kept b) (later : List Act) : kept (b.after later) := by
  induction later generalizing b with
  | nil => exact holds
  | cons act later ih => exact ih (acts.apply holds act)

theorem join_getElem?_reopened (slots : List Nat) (values : List (Option TermId)) (i : Nat) :
    ((slots.foldl (fun values index => values.set index none) values)[i]?).join =
      if i ∈ slots then none else (values[i]?).join := by
  induction slots generalizing values with
  | nil => simp
  | cons slot slots ih =>
    rw [List.foldl_cons, ih, List.getElem?_set]
    by_cases later : i ∈ slots
    · rw [if_pos later, if_pos (List.mem_cons_of_mem slot later)]
    · rw [if_neg later]
      by_cases here : slot = i
      · subst here
        rw [if_pos rfl, if_pos List.mem_cons_self]
        split <;> rfl
      · simp [later, here, Ne.symm here]

theorem get?_restore (b : Bindings) (mark : Snapshot) (i : Nat) :
    (b.restore mark).get? i =
      if i ∈ b.trail.take (b.trail.length - mark.height) then none else b.get? i :=
  join_getElem?_reopened _ b.values i

/-- The slot has the value and is off the trail. -/
def Held (i : Nat) (x : TermId) (b : Bindings) : Prop := b.get? i = some x ∧ i ∉ b.trail

theorem held_kept (i : Nat) (x : TermId) : KeptByActs (Held i x) where
  fresh := by
    intro b j y isOpen held
    have other : j ≠ i := by
      rintro rfl
      have value := held.1
      simp [get?, isOpen] at value
    refine ⟨?_, ?_⟩
    · rw [get?_fresh y isOpen, if_neg other]
      exact held.1
    · exact List.not_mem_cons_of_ne_of_not_mem (Ne.symm other) held.2
  restore := by
    intro b mark held
    refine ⟨?_, fun listed => held.2 (List.mem_of_mem_drop listed)⟩
    rw [get?_restore, if_neg fun listed => held.2 (List.mem_of_mem_take listed)]
    exact held.1
  commit := by
    intro b held
    exact ⟨held.1, List.not_mem_nil⟩

structure Tidy (b : Bindings) : Prop where
  nodup : b.trail.Nodup
  bound : ∀ i ∈ b.trail, (b.get? i).isSome

theorem tidy_kept : KeptByActs Tidy where
  fresh := by
    intro b i x isOpen tidy
    constructor
    case nodup =>
      refine List.nodup_cons.mpr ⟨fun listed => ?_, tidy.nodup⟩
      have bound := tidy.bound i listed
      simp [get?, isOpen] at bound
    case bound =>
      intro j listed
      rw [get?_fresh x isOpen]
      split
      · rfl
      · rename_i other
        exact tidy.bound j (List.mem_of_ne_of_mem (Ne.symm other) listed)
  restore := by
    intro b mark tidy
    have nodup := tidy.nodup
    rw [← List.take_append_drop (b.trail.length - mark.height) b.trail] at nodup
    -- a slot that is reopened is not among those that stay on the trail
    obtain ⟨-, left, apart⟩ := List.nodup_append.mp nodup
    constructor
    case nodup => exact left
    case bound =>
      intro i listed
      rw [get?_restore, if_neg fun reopened => apart i reopened i listed rfl]
      exact tidy.bound i (List.mem_of_mem_drop listed)
  commit := by
    intro b tidy
    exact ⟨List.nodup_nil, fun i listed => absurd listed List.not_mem_nil⟩

/-- From `b` on, the acts extend the bindings and restore what was taken among them, innermost
first. -/
inductive Balanced : Bindings → List Act → Prop
  | nil (b : Bindings) : Balanced b []
  | extend {b : Bindings} {act : Act} {later : List Act} :
    act.Extends → Balanced (act.apply b) later → Balanced b (act :: later)
  | nest {b : Bindings} {inner later : List Act} :
    Balanced b inner → Balanced ((b.after inner).restore b.snapshot) later →
      Balanced b (.snapshot :: inner ++ .restore b.snapshot :: later)

theorem Balanced.undone {b : Bindings} {acts : List Act} (balanced : Balanced b acts) :
    Undone b (b.after acts) := by
  induction balanced with
  | nil b => exact Undone.refl b
  | extend extend _ ih => exact (extend.keeps (Undone.fresh _) (Undone.refl _)).trans ih
  | nest _ _ inside rest =>
    rw [inside.2] at rest
    simpa [after_append, Act.apply, inside.2] using rest

structure Disciplined (b : Bindings) : Prop where
  nodup : b.trail.Nodup
  inside : ∀ i ∈ b.trail, i < b.size
  bound : ∀ i ∈ b.trail, (b.get? i).isSome
  /-- Nothing reopens a slot that was bound when the trail was dropped. -/
  committed : ∀ (later : List Act) (i : Nat) (x : TermId), b.get? i = some x →
    (b.commit.after later).get? i = some x
  restored : ∀ later : List Act, Balanced b later → (b.after later).restore b.snapshot = b

/-- Bindings stay disciplined whatever is done to them, be it that they are restored to snapshots of
other bindings. -/
theorem disciplined_after (n : Nat) (acts : List Act) : Disciplined ((ofSize n).after acts) := by
  have blank : Tidy (ofSize n) := ⟨List.nodup_nil, fun i listed => absurd listed List.not_mem_nil⟩
  have tidy := tidy_kept.after blank acts
  constructor
  case nodup => exact tidy.nodup
  case inside =>
    intro i listed
    obtain ⟨x, value⟩ := Option.isSome_iff_exists.mp (tidy.bound i listed)
    exact lt_of_get? value
  case bound => exact tidy.bound
  case committed =>
    intro later i x value
    have held : Held i x ((ofSize n).after acts).commit := ⟨value, List.not_mem_nil⟩
    exact ((held_kept i x).after held later).1
  case restored => exact fun later balanced => balanced.undone.2

theorem disciplined_after_nested :
    Balanced ⟨[some 1, none, none], [0]⟩ [.bind 1 2, .snapshot, .bind 2 3, .restore ⟨2⟩] ∧
      (after ⟨[some 1, none, none], [0]⟩
        [.bind 1 2, .snapshot, .bind 2 3, .restore ⟨2⟩]).restore ⟨1⟩ =
        ⟨[some 1, none, none], [0]⟩ := by
  have inner : Balanced ⟨[some 1, some 2, none], [1, 0]⟩ [.bind 2 3] :=
    .extend trivial (.nil _)
  have whole : Balanced ⟨[some 1, none, none], [0]⟩
      [.bind 1 2, .snapshot, .bind 2 3, .restore ⟨2⟩] :=
    .extend trivial (@Balanced.nest _ [.bind 2 3] [] inner (.nil _))
  exact ⟨whole, (disciplined_after 3 [.bind 0 1]).restored _ whole⟩

end Bindings
end TripleInference
