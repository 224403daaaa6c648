import Mathlib.Data.Set.Card
import TripleInference.Proofs.Engine.Settling

/-!
How many triples a pass can work on. Heads invent no terms, so whatever comes onto an agenda is
made of the terms that were there to begin with or that the heads of the rules name.
-/
namespace TripleInference

namespace Triple

def equivProd : Triple ≃ TermId × TermId × TermId where
  toFun t := (t.subject, t.predicate, t.object)
  invFun t := ⟨t.1, t.2.1, t.2.2⟩
  left_inv _ := rfl
  right_inv _ := rfl

end Triple

def TermId.equivFin : TermId ≃ Fin UInt32.size where
  toFun := UInt32.toFin
  invFun := UInt32.ofFin
  left_inv _ := rfl
  right_inv _ := rfl

instance : Finite TermId := Finite.of_equiv _ TermId.equivFin.symm

instance : Finite Triple := Finite.of_equiv _ Triple.equivProd.symm

theorem card_triple : Nat.card Triple = Pass.tripleCount := by
  have card : Nat.card TermId = UInt32.size := by
    rw [Nat.card_congr TermId.equivFin, Nat.card_fin]
  rw [Nat.card_congr Triple.equivProd, Nat.card_prod, Nat.card_prod, card, Pass.tripleCount,
    Nat.mul_assoc]

def termsOf (facts : Set Triple) : Set TermId := {x | ∃ t ∈ facts, ∃ slot : Slot, slot.of t = x}

def triplesOver (terms : Set TermId) : Set Triple := {t | ∀ slot : Slot, slot.of t ∈ terms}

theorem subset_triplesOver {facts : Set Triple} {terms : Set TermId}
    (inside : termsOf facts ⊆ terms) : facts ⊆ triplesOver terms :=
  fun t mem slot => inside ⟨t, mem, slot, rfl⟩

namespace CompiledRules

def headTerms (c : CompiledRules) : Set TermId := {x | ∃ rule ∈ c.active, x ∈ rule.2.headTerms}

variable {c : CompiledRules}

theorem MatchedAt.term_mem {r : Rule} {facts : Set Triple} {terms : Set TermId} {k : Nat}
    {t : Triple} {values : List (Option TermId)} (matched : r.MatchedAt facts k t values)
    (inside : facts ⊆ triplesOver terms) (first : t ∈ triplesOver terms) {i : Nat} {x : TermId}
    (value : Valuation.ofValues values i = some x) : x ∈ terms := by
  have var : i ∈ r.bodyVars := (matched.binds i).mp (Option.isSome_of_eq_some value)
  obtain ⟨p, mem, ordinal⟩ := List.mem_flatMap.mp var
  obtain ⟨j, here⟩ := List.mem_iff_getElem?.mp mem
  obtain ⟨q, here', u, known, fits⟩ :=
    (matched.mono inside).supports first (List.getElem?_eq_some_iff.mp here).1
  obtain rfl : p = q := Option.some.inj (here.symm.trans here')
  obtain ⟨slot, value'⟩ := fits.bound ordinal
  obtain rfl : slot.of u = x := Option.some.inj (value'.symm.trans value)
  exact known slot

theorem Derives.mem_triplesOver {facts : Set Triple} {t u : Triple} {terms : Set TermId}
    (derives : c.Derives facts t u) (inside : facts ⊆ triplesOver terms)
    (first : t ∈ triplesOver terms) (heads : c.headTerms ⊆ terms) : u ∈ triplesOver terms := by
  obtain ⟨rule, active, k, values, matched, concludes⟩ := derives
  intro slot
  rcases concludes.term_mem slot with named | ⟨i, value⟩
  · exact heads ⟨rule, active, named⟩
  · exact MatchedAt.term_mem matched inside first value

end CompiledRules

namespace Pass

variable {R D : Type} [TripleSource R] [LawfulSource R] [TripleSink D] [LawfulSink D]

def terms (c : CompiledRules) (p : Pass R D) : Set TermId :=
  termsOf p.engine.graph.known ∪ termsOf {t | t ∈ p.agenda.pending} ∪ c.headTerms

/-- The length of the agenda, and the number of unknown triples over the terms of the pass. -/
noncomputable def budget (c : CompiledRules) (p : Pass R D) : Nat :=
  p.agenda.pending.length + (triplesOver (terms c p) \ p.engine.graph.known).ncard

variable {c : CompiledRules} {limit : Nat} {p p' : Pass R D} {worked new : List Triple}

theorem budget_le (c : CompiledRules) (p : Pass R D) :
    budget c p ≤ p.agenda.size + tripleCount := by
  rw [budget, Agenda.size_eq_length_pending]
  refine Nat.add_le_add_left ?_ _
  rw [← card_triple]
  exact Set.ncard_le_card _

theorem Settles.length_new_le (settles : Settles c limit p p' worked new) :
    new.length ≤ (triplesOver (terms c p) \ p.engine.graph.known).ncard := by
  have known : p.engine.graph.known ⊆ triplesOver (terms c p) :=
    subset_triplesOver (Set.subset_union_of_subset_left Set.subset_union_left _)
  have pending : {t | t ∈ p.agenda.pending} ⊆ triplesOver (terms c p) :=
    subset_triplesOver (Set.subset_union_of_subset_left Set.subset_union_right _)
  have inside := settles.inside (triplesOver (terms c p))
    (fun t mem u derives => derives.mem_triplesOver (Set.Subset.refl _) mem Set.subset_union_right)
    known pending
  have subset : {t | t ∈ new} ⊆ triplesOver (terms c p) \ p.engine.graph.known :=
    fun t mem => ⟨inside t mem, settles.fresh t mem⟩
  have length : {t | t ∈ new}.ncard = new.length := by
    rw [← List.coe_toFinset, Set.ncard_coe_finset, List.toFinset_card_of_nodup settles.nodup]
  rw [← length]
  exact Set.ncard_le_ncard subset (Set.toFinite _)

theorem Settles.length_worked_le (settles : Settles c limit p p' worked new) :
    worked.length ≤ budget c p := by
  have queue := congrArg List.length settles.queue
  have few := settles.length_new_le
  rw [List.length_append, List.length_append] at queue
  rw [budget]
  omega

theorem Settles.finished (settles : Settles c limit p p' worked new) (enough : budget c p ≤ limit) :
    p'.agenda.pending = [] := by
  rcases settles.exhausted with done | full
  · exact done
  · have queue := congrArg List.length settles.queue
    have few := settles.length_new_le
    rw [List.length_append, List.length_append] at queue
    rw [budget] at enough
    exact List.length_eq_zero_iff.mp (by omega)

theorem settleAll_ends (compiled : c.Compiled) {p : Pass R D} (sound : p.engine.graph.Sound) :
    (settleAll c).Ends p
      (fun worked p' => p'.agenda.pending = [] ∧
        ∃ limit new, Settles c limit p p' worked new) (Aborts R D) := by
  rw [settleAll, Step.ends_bind, Step.ends_get]
  apply (settle_ends compiled _ sound).imp
  exact fun worked p' ⟨new, settles⟩ => ⟨settles.finished (budget_le c p), _, new, settles⟩

end Pass
end TripleInference
