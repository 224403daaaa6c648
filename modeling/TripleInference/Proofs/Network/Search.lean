import TripleInference.Network.Descent
import TripleInference.Proofs.Ending
import TripleInference.Proofs.Matching.Trail

/-!
The search that completes a match over the graph. It finds every extension of the bindings under
which facts match all the clauses, and nothing else, on any graph that answers lookups.
-/
namespace TripleInference

def Failure.OfStore (failure : Failure) : Prop := ∃ error, failure = .store error

/-- Graphs in the given states, which reading keeps, answer a lookup with facts of `may` and with
every fact of `must` that fits. They may fail only when `fails` holds. -/
def Reads {G : Type} [TripleSource G] (state : G → Prop) (must may : Set Triple) (fails : Prop) :
    Prop :=
  ∀ g, state g → ∀ l, (TripleSource.find l).Ends g
    (fun ts g' => state g' ∧ (∀ t ∈ ts, t ∈ may) ∧ ∀ t ∈ must, l.fits t = true → t ∈ ts)
    (fun _ g' => state g' ∧ fails)

/-- `c` extends `b` by the variables of the clauses, each of which a fact matches. -/
structure Completes (r : Rule) (facts : Set Triple) (clauses : List Nat) (b c : Bindings) :
    Prop where
  size : c.size = b.size
  below : Valuation.Below b.get? c.get?
  binds : ∀ i, (c.get? i).isSome ↔ (b.get? i).isSome ∨ i ∈ r.clauseVars clauses
  supported : ∀ clause ∈ clauses, r.Supports facts c.get? clause

structure Found (r : Rule) (must may : Set Triple) (clauses : List Nat) (b : Bindings)
    (found : List Bindings) : Prop where
  sound : ∀ c ∈ found, Completes r may clauses b c
  complete : ∀ w : Valuation, Valuation.Below b.get? w →
    (∀ clause ∈ clauses, r.Supports must w clause) → ∃ c ∈ found, Valuation.Below c.get? w

namespace Descent

variable {G : Type} [TripleSource G] {state : G → Prop} {must may : Set Triple} {fails : Prop}

theorem find_ends (reads : Reads state must may fails) {g : G} (start : state g) (l : Lookup) :
    (find l).Ends g
      (fun ts g' => state g' ∧ (∀ t ∈ ts, t ∈ may) ∧ ∀ t ∈ must, l.fits t = true → t ∈ ts)
      (fun e g' => state g' ∧ fails ∧ e.OfStore) := by
  rw [find, Step.ends_within]
  exact (reads g start l).mono (fun _ _ h => h) fun e _ h => ⟨h.1, h.2, e, rfl⟩

def tryFact (rule : Rule) (p : Pattern) (rest : List Nat) (so : Bindings × Array Bindings)
    (t : Triple) : Step Failure G (Bindings × Array Bindings) :=
  match so.1.unify p t with
  | (true, b) => do
    let (b, found) ← search rule rest b so.2
    return (b.restore so.1.snapshot, found)
  | (false, b) => return (b.restore so.1.snapshot, so.2)

theorem search_cons {rule : Rule} {clause : Nat} {rest : List Nat} {b : Bindings}
    {found : Array Bindings} {p : Pattern} (here : rule.body[clause]? = some p) :
    (search rule (clause :: rest) b found : Step Failure G _) =
      find (b.lookup p) >>= fun ts => ts.foldlM (tryFact rule p rest) (b, found) := by
  simp only [search, here]
  rfl

/-- What comes of trying one fact after another against a clause: nothing from a fact that does not
match, and from one that does whatever the rest of the search finds. -/
inductive Tries (p : Pattern) (b : Bindings) (good : Bindings → List Bindings → Prop) :
    List Triple → List Bindings → Prop
  | nil : Tries p b good [] []
  | unified {t : Triple} {ts : List Triple} {c : Bindings} {new others : List Bindings} :
    b.unify p t = (true, c) → good c new → Tries p b good ts others →
      Tries p b good (t :: ts) (new ++ others)
  | misfit {t : Triple} {ts : List Triple} {others : List Bindings} :
    (b.unify p t).1 = false → Tries p b good ts others → Tries p b good (t :: ts) others

section
variable {p : Pattern} {b : Bindings} {good : Bindings → List Bindings → Prop} {ts : List Triple}
  {new : List Bindings}

theorem Tries.exists_unified (tries : Tries p b good ts new) {d : Bindings} (mem : d ∈ new) :
    ∃ t ∈ ts, ∃ c found, b.unify p t = (true, c) ∧ good c found ∧ d ∈ found := by
  induction tries with
  | nil => cases mem
  | @unified t ts c first others unified holds _ ih =>
    rcases List.mem_append.mp mem with here | later
    · exact ⟨t, List.mem_cons_self, c, first, unified, holds, here⟩
    · obtain ⟨u, memU, rest⟩ := ih later
      exact ⟨u, List.mem_cons_of_mem t memU, rest⟩
  | misfit _ _ ih =>
    obtain ⟨u, memU, rest⟩ := ih mem
    exact ⟨u, List.mem_cons_of_mem _ memU, rest⟩

theorem Tries.exists_found (tries : Tries p b good ts new) {t : Triple} (mem : t ∈ ts)
    {c : Bindings} (fits : b.unify p t = (true, c)) : ∃ found, good c found ∧ found ⊆ new := by
  induction tries with
  | nil => cases mem
  | @unified u ts c' first others unified holds _ ih =>
    rcases List.mem_cons.mp mem with rfl | later
    · obtain ⟨-, rfl⟩ := Prod.mk.inj (unified.symm.trans fits)
      exact ⟨first, holds, List.subset_append_left first others⟩
    · obtain ⟨found, holds', subset⟩ := ih later
      exact ⟨found, holds', List.subset_append_of_subset_right first subset⟩
  | misfit misfit _ ih =>
    rcases List.mem_cons.mp mem with rfl | later
    · rw [fits] at misfit
      cases misfit
    · exact ih later

end

/-- A property of what a search finds, which holds of a whole search as soon as it holds of what is
left to search after each fact that matches the first clause. -/
structure Gathering (r : Rule) (answers : Lookup → List Triple → Prop)
    (good : List Nat → Bindings → List Bindings → Prop) : Prop where
  done : ∀ b, good [] b [b]
  clause : ∀ {clause : Nat} {rest : List Nat} {p : Pattern} {b : Bindings} {ts : List Triple}
    {new : List Bindings}, r.body[clause]? = some p → answers (b.lookup p) ts →
      Tries p b (good rest) ts new → good (clause :: rest) b new

def Gathers (state : G → Prop) (b : Bindings) (found : Array Bindings)
    (good : List Bindings → Prop) (out : Bindings × Array Bindings) (g : G) : Prop :=
  state g ∧ out.1 = b ∧ ∃ new, out.2.toList = found.toList ++ new ∧ good new

section
variable {r : Rule} {p : Pattern} {rest : List Nat} {b : Bindings}
  {good : Bindings → List Bindings → Prop} {bad : Failure → G → Prop}
  (searched : ∀ (c : Bindings) (found : Array Bindings) (g : G), state g →
    (search r rest c found).Ends g (Gathers state c found (good c)) bad)
include searched

theorem tryFact_ends (t : Triple) (found : Array Bindings) {g : G} (start : state g) :
    (tryFact r p rest (b, found) t).Ends g
      (Gathers state b found fun new => ∀ {ts others}, Tries p b good ts others →
        Tries p b good (t :: ts) (new ++ others)) bad := by
  have restored := (Bindings.unify_undone b p t).2
  unfold tryFact
  split
  · rename_i c unified
    rw [unified] at restored
    rw [Step.ends_bind]
    apply (searched c found g start).imp
    rintro ⟨c', out⟩ g' ⟨start', rfl, new, appended, holds⟩
    rw [Step.ends_pure]
    exact ⟨start', restored, new, appended, Tries.unified unified holds⟩
  · rename_i c misfit
    rw [misfit] at restored
    rw [Step.ends_pure]
    exact ⟨start, restored, [], by simp, Tries.misfit (by rw [misfit])⟩

theorem tryFacts_ends (ts : List Triple) (found : Array Bindings) {g : G} (start : state g) :
    (ts.foldlM (tryFact r p rest) (b, found)).Ends g
      (Gathers state b found (Tries p b good ts)) bad := by
  induction ts generalizing found g with
  | nil =>
    rw [List.foldlM_nil, Step.ends_pure]
    exact ⟨start, rfl, [], by simp, Tries.nil⟩
  | cons t ts ih =>
    rw [List.foldlM_cons, Step.ends_bind]
    apply (tryFact_ends searched t found start).imp
    rintro ⟨b', found'⟩ g' ⟨start', rfl, first, appended, here⟩
    apply (ih found' start').imp
    intro out g'' ended
    obtain ⟨start'', same, others, appended', later⟩ := ended
    refine ⟨start'', same, first ++ others, ?_, here later⟩
    rw [appended', appended, List.append_assoc]

end

theorem search_gathers {r : Rule} {answers : Lookup → List Triple → Prop}
    {good : List Nat → Bindings → List Bindings → Prop} {bad : Failure → G → Prop}
    (answered : ∀ g, state g → ∀ l, (find l).Ends g (fun ts g' => state g' ∧ answers l ts) bad)
    (gathering : Gathering r answers good) {clauses : List Nat}
    (inBody : ∀ clause ∈ clauses, clause < r.body.length) (b : Bindings) (found : Array Bindings)
    {g : G} (start : state g) :
    (search r clauses b found).Ends g (Gathers state b found (good clauses b)) bad := by
  induction clauses generalizing b found g with
  | nil =>
    rw [search, Step.ends_pure]
    exact ⟨start, rfl, [b], by simp, gathering.done b⟩
  | cons clause rest ih =>
    obtain ⟨p, here⟩ := r.exists_clause (inBody clause List.mem_cons_self)
    have searched (c : Bindings) (found : Array Bindings) (g : G) (start : state g) :=
      ih (fun j mem => inBody j (List.mem_cons_of_mem clause mem)) c found start
    rw [search_cons here, Step.ends_bind]
    apply (answered g start (b.lookup p)).imp
    intro ts g' looked
    obtain ⟨start', answers⟩ := looked
    apply (tryFacts_ends searched ts found start').imp
    intro out g'' ended
    obtain ⟨start'', same, new, appended, tries⟩ := ended
    exact ⟨start'', same, new, appended, gathering.clause here answers tries⟩

theorem found_gathering (r : Rule) (must may : Set Triple) :
    Gathering r (fun l ts => (∀ t ∈ ts, t ∈ may) ∧ ∀ t ∈ must, l.fits t = true → t ∈ ts)
      fun clauses b new => (∀ i ∈ r.clauseVars clauses, i < b.size) →
        Found r must may clauses b new where
  done := by
    intro b _
    constructor
    case sound =>
      intro c mem
      rw [List.mem_singleton.mp mem]
      exact ⟨rfl, Valuation.Below.refl _, fun i => by simp [Rule.clauseVars], by simp⟩
    case complete => exact fun w below _ => ⟨b, List.mem_singleton_self b, below⟩
  clause := by
    intro clause rest p b ts new here answers tries room
    obtain ⟨only, all⟩ := answers
    have vars : r.clauseVars (clause :: rest) = p.ordinals ++ r.clauseVars rest := by
      rw [← List.singleton_append, Rule.clauseVars_append, Rule.clauseVars_singleton here]
    rw [vars] at room
    have roomHere : ∀ i ∈ p.ordinals, i < b.size := fun i mem =>
      room i (List.mem_append_left _ mem)
    have roomLater {c : Bindings} (size : c.size = b.size) :
        ∀ i ∈ r.clauseVars rest, i < c.size := fun i mem =>
      size ▸ room i (List.mem_append_right _ mem)
    constructor
    case sound =>
      intro d mem
      obtain ⟨t, memT, c, found, unified, completions, memD⟩ := tries.exists_unified mem
      have ext := Bindings.unify_least unified
      have full := (completions (roomLater ext.size)).sound d memD
      refine ⟨full.size.trans ext.size, ext.below.trans full.below, fun i => ?_, ?_⟩
      · rw [full.binds, Bindings.isSome_get?_unify unified, vars, List.mem_append, or_assoc]
      · intro j memJ
        rcases List.mem_cons.mp memJ with rfl | memJ
        · exact ⟨p, here, t, only t memT, ext.holds.mono full.below⟩
        · exact full.supported j memJ
    case complete =>
      intro w below supported
      obtain ⟨q, here', t, memT, fits⟩ := supported clause List.mem_cons_self
      obtain rfl : p = q := Option.some.inj (here.symm.trans here')
      have succeeds := Bindings.unify_succeeds roomHere below fits
      have unified : b.unify p t = (true, (b.unify p t).2) := Prod.ext succeeds rfl
      have ext := Bindings.unify_least unified
      have listed := all t memT (Bindings.lookup_fits below fits)
      -- `w` says which fact to take here; what it needs of the other clauses is found below it
      obtain ⟨found, completions, subset⟩ := tries.exists_found listed unified
      obtain ⟨c, mem, belowW⟩ := (completions (roomLater ext.size)).complete w
        (ext.least w below fits) fun j memJ => supported j (List.mem_cons_of_mem clause memJ)
      exact ⟨c, subset mem, belowW⟩

theorem search_ends (reads : Reads state must may fails) {r : Rule} {clauses : List Nat}
    (inBody : ∀ clause ∈ clauses, clause < r.body.length) {b : Bindings}
    (room : ∀ i ∈ r.clauseVars clauses, i < b.size) (found : Array Bindings) {g : G}
    (start : state g) :
    (search r clauses b found).Ends g (Gathers state b found (Found r must may clauses b))
      (fun e g' => state g' ∧ fails ∧ e.OfStore) := by
  apply (search_gathers (fun g start l => find_ends reads start l) (found_gathering r must may)
    inBody b found start).imp
  intro out g' ended
  obtain ⟨start', same, new, appended, completions⟩ := ended
  exact ⟨start', same, new, appended, completions room⟩

end Descent
end TripleInference
