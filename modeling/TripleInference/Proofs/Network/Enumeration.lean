import TripleInference.Proofs.Fact.Retrieval
import TripleInference.Proofs.Network.Search
import TripleInference.Proofs.Store.Contract

/-!
The search against plain enumeration. Enumerating tries every fact for every pattern in turn; the
search looks up only what the bound variables leave, binds in place and takes back what it bound.
Over the same facts both find the same values in the same order and as many times.
-/
namespace TripleInference

def MemoryGraph.toList (g : MemoryGraph) : List Triple :=
  Triple.ascending (g.deductions.toList ++ g.raw.elim [] FactIndex.toList)

def Term.extend (x : TermId) (values : List (Option TermId)) :
    Term → Option (List (Option TermId))
  | .constant id => if id = x then some values else none
  | .wildcard => some values
  | .var index =>
    match values[index]? with
    | some none => some (values.set index (some x))
    | some (some y) => if y = x then some values else none
    | none => none

def Pattern.extend (p : Pattern) (t : Triple) (values : List (Option TermId)) :
    Option (List (Option TermId)) :=
  Slot.all.foldlM (fun values slot => (p.term slot).extend (slot.of t) values) values

/-- Every way to match the patterns in turn, each by any of the facts. -/
def matchBody (facts : List Triple) :
    List Pattern → List (Option TermId) → List (List (Option TermId))
  | [], values => [values]
  | p :: rest, values => facts.flatMap fun t => (p.extend t values).elim [] (matchBody facts rest)

theorem MemoryGraph.mem_toList {g : MemoryGraph} (sound : g.Sound) {t : Triple} :
    t ∈ g.toList ↔ t ∈ g.known := by
  have listed {x : FactIndex} (coherent : x.Coherent) : t ∈ x.toList ↔ t ∈ x.facts := by
    rw [FactIndex.toList, coherent.mem_find]
    exact and_iff_left (Lookup.fits_all t)
  obtain ⟨raw, deductions⟩ := g
  rw [MemoryGraph.toList, Triple.mem_ascending, List.mem_append, listed sound.2, or_comm]
  refine or_congr ?_ Iff.rfl
  cases raw with
  | none => simp [InferenceGraph.rawFacts]
  | some raw => exact listed (sound.1 raw rfl)

theorem MemoryGraph.find_enumerates {g : MemoryGraph} (sound : g.Sound) (l : Lookup) :
    (InferenceGraph.find l).Ends g (fun ts h => h = g ∧ ts = g.toList.filter l.fits)
      fun _ _ => False := by
  apply ((InferenceGraph.find_ends sound l).and (g.find_reads l)).mono
  · rintro ts h ⟨⟨answered, -⟩, same⟩
    refine ⟨same, Triple.eq_of_ascending answered.ascending
      ((Triple.ascending_pairwise_lt _).filter _) fun t => ?_⟩
    rw [answered.mem_iff, List.mem_filter, MemoryGraph.mem_toList sound]
  · exact fun _ _ failed => failed.2

namespace Bindings

theorem extend_eq_fit (b : Bindings) (x : TermId) (term : Term) :
    term.extend x b.values =
      if (b.fit x term).1 then some (b.fit x term).2.values else none := by
  cases term with
  | constant id => simp [Term.extend, fit]
  | wildcard => rfl
  | var i =>
    rw [Term.extend, fit, bind]
    cases b.values[i]? with
    | none => rfl
    | some value =>
      cases value with
      | none => rfl
      | some y => simp

theorem foldlM_extend (p : Pattern) (t : Triple) (slots : List Slot) (b : Bindings) :
    slots.foldlM (fun values slot => (p.term slot).extend (slot.of t) values) b.values =
      if (unifySlots p t slots b).1 then some (unifySlots p t slots b).2.values else none := by
  induction slots generalizing b with
  | nil => rfl
  | cons slot slots ih =>
    rw [List.foldlM_cons, extend_eq_fit, unifySlots]
    rcases b.fit (slot.of t) (p.term slot) with ⟨fits, c⟩
    cases fits with
    | true => exact ih c
    | false => rfl

theorem extend_of_unify {b c : Bindings} {p : Pattern} {t : Triple}
    (unified : b.unify p t = (true, c)) : p.extend t b.values = some c.values := by
  have extended := foldlM_extend p t Slot.all b
  rw [← unify, unified] at extended
  exact extended

theorem extend_of_misfit {b : Bindings} {p : Pattern} {t : Triple}
    (misfit : (b.unify p t).1 = false) : p.extend t b.values = none := by
  have extended := foldlM_extend p t Slot.all b
  rw [← unify, misfit] at extended
  exact extended

theorem extend_of_not_fits {b : Bindings} {p : Pattern} {t : Triple}
    (out : ¬ (b.lookup p).fits t = true) : p.extend t b.values = none := by
  apply extend_of_misfit
  rw [← Bool.not_eq_true]
  intro unified
  have ext := unify_least (Prod.ext unified rfl : b.unify p t = (true, (b.unify p t).2))
  exact out (lookup_fits ext.below ext.holds)

end Bindings

namespace Descent

theorem Tries.map_values {facts : List Triple} {ps : List Pattern} {p : Pattern} {b : Bindings}
    {ts : List Triple} {new : List Bindings}
    (tries : Tries p b (fun c new => new.map (·.values) = matchBody facts ps c.values) ts new) :
    new.map (·.values) =
      ts.flatMap fun t => (p.extend t b.values).elim [] (matchBody facts ps) := by
  induction tries with
  | nil => rfl
  | unified unified values _ ih =>
    rw [List.map_append, values, ih, List.flatMap_cons, Bindings.extend_of_unify unified]
    rfl
  | misfit misfit _ ih =>
    rw [ih, List.flatMap_cons, Bindings.extend_of_misfit misfit]
    rfl

theorem matchBody_filter (facts : List Triple) (p : Pattern) (rest : List Pattern) (b : Bindings) :
    matchBody facts (p :: rest) b.values = (facts.filter (b.lookup p).fits).flatMap
      fun t => (p.extend t b.values).elim [] (matchBody facts rest) := by
  rw [matchBody]
  generalize matchBody facts rest = later
  induction facts with
  | nil => rfl
  | cons t facts ih =>
    rw [List.flatMap_cons, List.filter_cons, ih]
    split
    · rw [List.flatMap_cons]
    · rename_i out
      rw [Bindings.extend_of_not_fits out]
      rfl

theorem enumeration_gathering (r : Rule) (facts : List Triple) :
    Gathering r (fun l ts => ts = facts.filter l.fits) fun clauses b new =>
      new.map (·.values) = matchBody facts (clauses.filterMap (r.body[·]?)) b.values where
  done _ := rfl
  clause := by
    intro clause rest p b ts new here answers tries
    subst answers
    rw [List.filterMap_cons_some here, matchBody_filter]
    exact tries.map_values

/-- Over a graph in memory the search appends what enumerating the facts of the graph finds, and
gives bindings and graph back as they were. -/
theorem search_enumerates {g : MemoryGraph} (sound : g.Sound) (r : Rule) {clauses : List Nat}
    (inBody : ∀ clause ∈ clauses, clause < r.body.length) (b : Bindings) (found : Array Bindings) :
    ∃ new : List Bindings,
      (search r clauses b found).outcome g = (.ok (b, found ++ new), g) ∧
        new.map (·.values) =
          matchBody g.toList (clauses.filterMap (r.body[·]?)) b.values := by
  have answered (h : MemoryGraph) (same : h = g) (l : Lookup) :
      (find l).Ends h (fun ts h' => h' = g ∧ ts = g.toList.filter l.fits)
        fun _ _ => False := by
    subst same
    rw [find, Step.ends_within]
    exact MemoryGraph.find_enumerates sound l
  have ends := search_gathers answered (enumeration_gathering r g.toList) inBody b found rfl
  obtain ⟨⟨b', out⟩, g', run, rfl, rfl, new, appended, values⟩ := ends.result fun _ _ => id
  have same : out = found ++ new := by
    apply Array.toList_inj.mp
    simpa using appended
  subst same
  exact ⟨new, run, values⟩

theorem loops_are_found_once_for_each_way_out :
    ∃ (g : MemoryGraph) (r : Rule) (new : List Bindings),
      g = ⟨some (.ofList [⟨1, 5, 2⟩, ⟨1, 5, 1⟩]), .ofList [⟨2, 5, 2⟩, ⟨1, 5, 2⟩]⟩ ∧
      r = .ofPatterns [⟨.var 0, .constant 5, .var 0⟩, ⟨.var 0, .wildcard, .wildcard⟩] [] ∧
      (search r [0, 1] (.ofSize 1) #[]).outcome g =
        (.ok (.ofSize 1, (#[] : Array Bindings) ++ new), g) ∧
      new.map (·.values) = [[some 1], [some 1], [some 2]] := by
  have sound : (⟨some (.ofList [⟨1, 5, 2⟩, ⟨1, 5, 1⟩]),
      .ofList [⟨2, 5, 2⟩, ⟨1, 5, 2⟩]⟩ : MemoryGraph).Sound := by
    refine ⟨?_, FactIndex.ofList_coherent _⟩
    rintro raw ⟨⟩
    exact FactIndex.ofList_coherent _
  obtain ⟨new, run, values⟩ := search_enumerates sound
    (.ofPatterns [⟨.var 0, .constant 5, .var 0⟩, ⟨.var 0, .wildcard, .wildcard⟩] [])
    (by decide : ∀ clause ∈ [0, 1], clause < 2) (.ofSize 1) #[]
  refine ⟨_, _, new, rfl, rfl, run, ?_⟩
  rw [values]
  decide +kernel

end Descent
end TripleInference
