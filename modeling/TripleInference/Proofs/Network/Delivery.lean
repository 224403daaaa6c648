import TripleInference.Proofs.Network.Compiling
import TripleInference.Proofs.Network.Joining

/-!
What the delivery of a match to a node emits: the body matches that extend it. What the memory of
the queues suppresses has been emitted before, as long as nothing was in the memory that had not
been delivered.
-/
namespace TripleInference

/-- The values of a body match above `v`, in which facts match all but the given clauses. -/
structure Fills (r : Rule) (facts : Set Triple) (clauses : List Nat) (v : Valuation)
    (values : List (Option TermId)) : Prop where
  size : values.length = r.numVars
  above : v.Below (.ofValues values)
  binds : ∀ i, (Valuation.ofValues values i).isSome ↔ i ∈ r.bodyVars
  supported : ∀ clause < r.body.length, clause ∉ clauses →
    r.Supports facts (.ofValues values) clause

theorem Completes.fills {r : Rule} {facts : Set Triple} {clauses others all : List Nat}
    {b c : Bindings} (completes : Completes r facts others b c)
    (both : ∀ clause, clause ∈ all ↔ clause ∈ clauses ∨ clause ∈ others)
    {values : List (Option TermId)} (fills : Fills r facts all c.get? values) :
    Fills r facts clauses b.get? values where
  size := fills.size
  above := completes.below.trans fills.above
  binds := fills.binds
  supported clause inside beyond := by
    by_cases mem : clause ∈ others
    · exact (completes.supported clause mem).mono (Set.Subset.refl _) fills.above
    · refine fills.supported clause inside fun covered => ?_
      rcases (both clause).mp covered with old | new
      · exact beyond old
      · exact mem new

theorem Found.fills {r : Rule} {must may : Set Triple} {clauses others all : List Nat}
    {b : Bindings} {results : List Bindings} (found : Found r must may others b results)
    (inBody : ∀ clause ∈ others, clause < r.body.length)
    (apart : ∀ clause ∈ others, clause ∉ clauses)
    (both : ∀ clause, clause ∈ all ↔ clause ∈ clauses ∨ clause ∈ others)
    {values : List (Option TermId)} (fills : Fills r must clauses b.get? values) :
    ∃ c ∈ results, Fills r must all c.get? values := by
  obtain ⟨c, mem, below⟩ := found.complete (.ofValues values) fills.above fun clause here =>
    fills.supported clause (inBody clause here) (apart clause here)
  refine ⟨c, mem, fills.size, below, fills.binds, fun clause inside beyond => ?_⟩
  exact fills.supported clause inside fun old => beyond ((both clause).mpr (Or.inl old))

theorem Covers.fills_iff {r : Rule} {facts : Set Triple} {b : Bindings}
    (covers : Covers r (List.range r.body.length) b) {values : List (Option TermId)} :
    Fills r facts (List.range r.body.length) b.get? values ↔ values = b.values := by
  have binds (i : Nat) : (b.get? i).isSome ↔ i ∈ r.bodyVars :=
    (covers.binds i).trans Rule.mem_clauseVars_range
  constructor
  · intro fills
    have same : b.get? = Valuation.ofValues values :=
      fills.above.eq_of_bound fun i bound => (binds i).mpr ((fills.binds i).mp bound)
    exact Valuation.ofValues_injective (fills.size.trans covers.size.symm) same.symm
  · rintro rfl
    refine ⟨covers.size, Valuation.Below.refl _, binds, fun clause inside beyond => ?_⟩
    exact absurd (List.mem_range.mpr inside) beyond

namespace Descent

variable {G : Type} {c : CompiledRules} {must may : Set Triple} {id : RuleId} {r : Rule}

def Emitted (d : Descent G) (rule : RuleId) (values : List (Option TermId)) : Prop :=
  ∃ m ∈ d.bodyMatches.toList, m.rule = rule ∧ m.bindings.values = values

/-- All that extends the matches which the queues from `bound` on remember has been emitted. -/
def Settled (c : CompiledRules) (must : Set Triple) (bound : Nat) (d : Descent G) : Prop :=
  ∀ a ∈ d.memory.seen, bound ≤ a.node →
    ∀ q r, c.network.nodes[a.node]? = some (.queue q) → c.rule? q.rule = some r →
      ∀ values, Fills r must q.clauses (.ofValues a.values) values → d.Emitted q.rule values

/-- What the delivery of matches to the node at `pos` does. -/
structure Delivered (c : CompiledRules) (must may : Set Triple) (id : RuleId) (r : Rule)
    (clauses : List Nat) (bs : List Bindings) (pos : Nat) (d d' : Descent G) : Prop where
  sound : ∃ new, d'.bodyMatches.toList = d.bodyMatches.toList ++ new ∧
    ∀ m ∈ new, m.rule = id ∧ ∃ b ∈ bs, Fills r may clauses b.get? m.bindings.values
  earlier : ∀ a ∈ d'.memory.seen, a.node < pos → a ∈ d.memory.seen
  settled : d.Settled c must pos → d'.Settled c must pos
  complete : d.Settled c must pos → ∀ b ∈ bs, ∀ values, Fills r must clauses b.get? values →
    d'.Emitted id values

theorem settled_of_empty {bound : Nat} {d : Descent G} (empty : d.memory = ∅) :
    d.Settled c must bound := by
  intro a mem
  rw [empty] at mem
  exact absurd mem Std.ExtTreeSet.not_mem_empty

theorem Emitted.mono {d d' : Descent G} {rule : RuleId} {values : List (Option TermId)}
    (emitted : d.Emitted rule values) {new : List BodyMatch}
    (appended : d'.bodyMatches.toList = d.bodyMatches.toList ++ new) : d'.Emitted rule values := by
  obtain ⟨m, mem, same⟩ := emitted
  refine ⟨m, ?_, same⟩
  rw [appended]
  exact List.mem_append_left _ mem

theorem Delivered.nil {clauses : List Nat} {pos : Nat} (d : Descent G) :
    Delivered c must may id r clauses [] pos d d where
  sound := ⟨[], by simp, by simp⟩
  earlier _ mem _ := mem
  settled before := before
  complete _ _ mem := by cases mem

theorem Delivered.cons {clauses : List Nat} {b : Bindings} {bs : List Bindings} {pos : Nat}
    {d d' d'' : Descent G} (first : Delivered c must may id r clauses [b] pos d d')
    (later : Delivered c must may id r clauses bs pos d' d'') :
    Delivered c must may id r clauses (b :: bs) pos d d'' := by
  obtain ⟨new, appended, fromFirst⟩ := first.sound
  obtain ⟨new', appended', fromLater⟩ := later.sound
  refine ⟨⟨new ++ new', ?_, ?_⟩, ?_, ?_, ?_⟩
  · rw [appended', appended, List.append_assoc]
  · intro m mem
    rcases List.mem_append.mp mem with mem | mem
    · obtain ⟨rule, b', here, fills⟩ := fromFirst m mem
      rw [List.mem_singleton.mp here] at fills
      exact ⟨rule, b, List.mem_cons_self, fills⟩
    · obtain ⟨rule, b', here, fills⟩ := fromLater m mem
      exact ⟨rule, b', List.mem_cons_of_mem _ here, fills⟩
  · exact fun a mem before => first.earlier a (later.earlier a mem before) before
  · exact fun before => later.settled (first.settled before)
  · intro before b' mem values fills
    rcases List.mem_cons.mp mem with rfl | mem
    · exact (first.complete before b' List.mem_cons_self values fills).mono appended'
    · exact later.complete (first.settled before) b' mem values fills

theorem Delivered.settled_from {clauses : List Nat} {bs : List Bindings} {bound pos : Nat}
    {d d' : Descent G} (delivered : Delivered c must may id r clauses bs pos d d')
    (inside : bound ≤ pos) (before : d.Settled c must bound) : d'.Settled c must bound := by
  obtain ⟨new, appended, -⟩ := delivered.sound
  intro a mem later q r' node numbered values fills
  rcases Nat.lt_or_ge a.node pos with near | far
  · exact (before a (delivered.earlier a mem near) later q r' node numbered values fills).mono
      appended
  · have restricted : d.Settled c must pos := fun a mem here =>
      before a mem (inside.trans here)
    exact delivered.settled restricted a mem far q r' node numbered values fills

theorem delivered_terminal {b : Bindings} (covers : Covers r (List.range r.body.length) b)
    {pos : Nat} (d : Descent G) :
    Delivered c must may id r (List.range r.body.length) [b] pos d
      { d with bodyMatches := d.bodyMatches.push ⟨id, b⟩ } := by
  have appended : (d.bodyMatches.push ⟨id, b⟩).toList = d.bodyMatches.toList ++ [⟨id, b⟩] := by
    simp
  refine ⟨⟨[⟨id, b⟩], appended, fun m mem => ?_⟩, fun a mem _ => mem, ?_, ?_⟩
  · rw [List.mem_singleton.mp mem]
    exact ⟨rfl, b, List.mem_cons_self, covers.fills_iff.mpr rfl⟩
  · intro before a mem later q r' node numbered values fills
    exact (before a mem later q r' node numbered values fills).mono appended
  · intro _ b' mem values fills
    rw [List.mem_singleton.mp mem] at fills
    exact ⟨⟨id, b⟩, by simp, rfl, (covers.fills_iff.mp fills).symm⟩

section
variable {clauses others : List Nat} {pos next : Nat} {q s : JoinQueue} {b : Bindings}

theorem delivered_known (pairs : c.network.Pairs id r clauses others pos q s next)
    (numbered : c.rule? id = some r) {d d' : Descent G}
    (known : ⟨pos, b.values⟩ ∈ d.memory.seen) (memory : d'.memory = d.memory)
    (bodyMatches : d'.bodyMatches = d.bodyMatches) :
    Delivered c must may id r clauses [b] pos d d' := by
  have appended : d'.bodyMatches.toList = d.bodyMatches.toList ++ [] := by simp [bodyMatches]
  refine ⟨⟨[], appended, by simp⟩, fun a mem _ => by rwa [memory] at mem, ?_, ?_⟩
  · intro before a mem later q' r' node numbered' values fills
    rw [memory] at mem
    exact (before a mem later q' r' node numbered' values fills).mono appended
  · intro before b' mem values fills
    rw [List.mem_singleton.mp mem, ← pairs.takes] at fills
    have emitted := before _ known (Nat.le_refl pos) q r pairs.node (by rwa [pairs.rule]) values fills
    rw [pairs.rule] at emitted
    exact emitted.mono appended

theorem Delivered.joined (pairs : c.network.Pairs id r clauses others pos q s next)
    (numbered : c.rule? id = some r) {all : List Nat}
    (both : ∀ clause, clause ∈ all ↔ clause ∈ clauses ∨ clause ∈ others)
    {results : List Bindings} (found : Found r must may others b results) {d d' d'' : Descent G}
    (memory : d'.memory.seen = d.memory.seen.insert ⟨pos, b.values⟩)
    (bodyMatches : d'.bodyMatches = d.bodyMatches)
    (delivered : Delivered c must may id r all results next d' d'') :
    Delivered c must may id r clauses [b] pos d d'' := by
  obtain ⟨new, appended, fromResults⟩ := delivered.sound
  rw [bodyMatches] at appended
  have remembered (a : Arrival) (mem : a ∈ d'.memory.seen) :
      a = ⟨pos, b.values⟩ ∨ a ∈ d.memory.seen := by
    rw [memory, Std.ExtTreeSet.mem_insert, Std.LawfulEqOrd.compare_eq_iff_eq] at mem
    exact mem.imp_left Eq.symm
  have kept : d'.bodyMatches.toList = d.bodyMatches.toList ++ [] := by simp [bodyMatches]
  -- Before the results are on their way, only the match itself is not settled.
  have onward (before : d.Settled c must pos) : d'.Settled c must next := by
    intro a mem later q' r' node numbered' values fills
    rcases remembered a mem with rfl | old
    · exact absurd later (Nat.not_le_of_lt pairs.forward)
    · have inside := Nat.le_of_lt (Nat.lt_of_lt_of_le pairs.forward later)
      exact (before a old inside q' r' node numbered' values fills).mono kept
  have complete (before : d.Settled c must pos) (values : List (Option TermId))
      (fills : Fills r must clauses b.get? values) : d''.Emitted id values := by
    obtain ⟨result, mem, fillsResult⟩ := found.fills pairs.inBody pairs.apart both fills
    exact delivered.complete (onward before) result mem values fillsResult
  refine ⟨⟨new, appended, fun m mem => ?_⟩, ?_, ?_, ?_⟩
  · obtain ⟨rule, result, here, fills⟩ := fromResults m mem
    exact ⟨rule, b, List.mem_cons_self, (found.sound result here).fills both fills⟩
  · intro a mem before
    rcases remembered a (delivered.earlier a mem (before.trans pairs.forward)) with rfl | old
    · exact absurd before (Nat.lt_irrefl _)
    · exact old
  · intro before a mem later q' r' node numbered' values fills
    rcases Nat.lt_or_ge a.node next with near | far
    · rcases remembered a (delivered.earlier a mem near) with rfl | old
      -- the queue that remembers the match is either this one or one that had it before
      · obtain rfl : q = q' := Node.queue.inj (Option.some.inj (pairs.node.symm.trans node))
        rw [pairs.rule] at numbered' ⊢
        obtain rfl : r = r' := Option.some.inj (numbered.symm.trans numbered')
        rw [pairs.takes] at fills
        exact complete before values fills
      · exact (before a old later q' r' node numbered' values fills).mono appended
    · exact delivered.settled (onward before) a mem far q' r' node numbered' values fills
  · intro before b' mem values fills
    rw [List.mem_singleton.mp mem] at fills
    exact complete before values fills

end

variable [TripleSource G] {state : G → Prop} {fails : Prop}

theorem forM_deliver_ends {clauses : List Nat} {hops pos : Nat} {bs : List Bindings}
    (each : ∀ b ∈ bs, ∀ d : Descent G, state d.graph → (deliver c hops pos b).Ends d
      (fun _ d' => state d'.graph ∧ Delivered c must may id r clauses [b] pos d d')
      (fun e d' => state d'.graph ∧ fails ∧ e.OfStore))
    {d : Descent G} (start : state d.graph) :
    (bs.forM (deliver c hops pos)).Ends d
      (fun _ d' => state d'.graph ∧ Delivered c must may id r clauses bs pos d d')
      (fun e d' => state d'.graph ∧ fails ∧ e.OfStore) := by
  induction bs generalizing d with
  | nil => exact ⟨start, Delivered.nil d⟩
  | cons b bs ih =>
    change (deliver c hops pos b >>= fun _ => bs.forM (deliver c hops pos)).Ends d _ _
    rw [Step.ends_bind]
    apply (each b List.mem_cons_self d start).imp
    intro _ d' ⟨start', first⟩
    apply (ih (fun b' mem => each b' (List.mem_cons_of_mem _ mem)) start').imp
    exact fun _ d'' ⟨start'', later⟩ => ⟨start'', first.cons later⟩

/-- Delivering a match emits exactly what extends it. Since results only go onward, as many hops
as there are nodes behind are enough. -/
theorem deliver_ends (reads : Reads state must may fails) (numbered : c.rule? id = some r)
    (wf : r.WellFormed) {clauses : List Nat} {hops pos : Nat}
    (takes : c.network.Takes id r clauses pos) (enough : c.network.size < hops + pos)
    {b : Bindings} (covers : Covers r clauses b) {d : Descent G} (start : state d.graph) :
    (deliver c hops pos b).Ends d
      (fun _ d' => state d'.graph ∧ Delivered c must may id r clauses [b] pos d d')
      (fun e d' => state d'.graph ∧ fails ∧ e.OfStore) := by
  induction hops generalizing clauses pos b d with
  | zero =>
    have := takes.inside
    omega
  | succ hops ih =>
    rw [deliver, Step.ends_bind, Step.ends_ofExcept]
    rcases takes.cases with ⟨node, rfl⟩ | ⟨others, q, s, next, pairs⟩
    · rw [Network.node_eq_ok.mpr node]
      exact ⟨start, delivered_terminal covers d⟩
    · rw [Network.node_eq_ok.mpr pairs.node]
      obtain ⟨all, takesAll, both⟩ := pairs.both
      simp only []
      rw [Step.ends_bind]
      apply (join_ends reads pairs numbered wf covers start).imp
      rintro ⟨target, results⟩ d' ⟨rfl, start', bodyMatches, ⟨known, memory, rfl⟩ | ⟨memory, found⟩⟩
      · exact ⟨start', delivered_known pairs numbered known memory bodyMatches⟩
      · have each (result : Bindings) (mem : result ∈ results) (d : Descent G)
            (begin : state d.graph) := ih takesAll (by have := pairs.forward; omega)
          (covers.completes (found.sound result mem) both) begin
        apply (forM_deliver_ends each start').imp
        exact fun _ d'' ⟨start'', delivered⟩ =>
          ⟨start'', delivered.joined pairs numbered both found memory bodyMatches⟩

theorem deliver_eq (compiled : c.Compiled) {hops hops' : Nat} {pos : NodeId} (positive : 0 < hops)
    (enough : c.network.size ≤ hops + pos) (positive' : 0 < hops')
    (enough' : c.network.size ≤ hops' + pos) (b : Bindings) :
    (deliver c hops pos b : Step Failure (Descent G) Unit) = deliver c hops' pos b := by
  induction hops generalizing hops' pos b with
  | zero => exact absurd positive (Nat.lt_irrefl 0)
  | succ hops ih =>
    obtain ⟨hops', rfl⟩ := Nat.exists_eq_add_one_of_ne_zero (Nat.ne_zero_of_lt positive')
    rw [deliver, deliver]
    cases found : c.network.node pos with
    | error fault => rfl
    | ok node =>
      cases node with
      | filter f => rfl
      | terminal rule => rfl
      | queue q =>
        have here := Network.node_eq_ok.mp found
        obtain ⟨rule, -, seat⟩ := compiled.seat pos (Array.getElem?_eq_some_iff.mp here).1
        obtain ⟨clauses, others, s, next, pairs⟩ := seat.queue here
        obtain ⟨all, takes, -⟩ := pairs.both
        have forward := pairs.forward
        have inside := takes.inside
        change (join c pos q b >>= fun out => out.2.forM (deliver c hops out.1)) =
          (join c pos q b >>= fun out => out.2.forM (deliver c hops' out.1) :
            Step Failure (Descent G) Unit)
        -- both go on to the same node, which is behind this one, so there are hops left for it
        refine Step.bind_congr_of_ends fun d => ?_
        refine (join_ends_onward pairs).mono ?_ (fun _ _ _ => trivial)
        rintro ⟨target, results⟩ _ rfl
        have same : (deliver c hops target : Bindings → Step Failure (Descent G) Unit) =
            deliver c hops' target := by
          funext result
          exact ih (by omega) (by omega) (by omega) (by omega) result
        simp only [same]

end Descent
end TripleInference
