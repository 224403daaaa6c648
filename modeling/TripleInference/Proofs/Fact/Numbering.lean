import Mathlib.Data.List.Basic
import TripleInference.Fact.Wording

/-!
How a vocabulary numbers words. It lists the different words it was given, in the order in which
each of them came first, and knows a word by its place in that order.
-/
namespace TripleInference

theorem eraseDups_concat {α : Type} [DecidableEq α] (xs : List α) (x : α) :
    (xs ++ [x]).eraseDups = if x ∈ xs then xs.eraseDups else xs.eraseDups ++ [x] := by
  rw [List.eraseDups_append]
  split
  · rename_i old
    simp [List.removeAll, old]
  · rename_i new
    simp [List.removeAll, new, List.eraseDups_cons]

namespace Vocabulary

def encodeAll (v : Vocabulary) (words : List String) : Vocabulary :=
  words.foldl (fun v word => (v.encode word).2) v

def Keeps (v w : Vocabulary) : Prop := ∀ word id, v.lookup word = some id → w.lookup word = some id

theorem encodeAll_append (v : Vocabulary) (words words' : List String) :
    v.encodeAll (words ++ words') = (v.encodeAll words).encodeAll words' := List.foldl_append

theorem lookup_encode_self (v : Vocabulary) (word : String) :
    (v.encode word).2.lookup word = some (v.encode word).1 := by
  unfold encode
  split
  · rename_i id found
    exact found
  · simp [lookup]

theorem Keeps.refl (v : Vocabulary) : v.Keeps v := fun _ _ found => found

theorem Keeps.trans {v w x : Vocabulary} (first : v.Keeps w) (later : w.Keeps x) : v.Keeps x :=
  fun word id found => later word id (first word id found)

theorem keeps_encode (v : Vocabulary) (word : String) : v.Keeps (v.encode word).2 := by
  intro other id found
  unfold encode
  split
  · exact found
  · rename_i missing
    have differs : word ≠ other := by
      rintro rfl
      rw [missing] at found
      cases found
    rw [lookup, Std.ExtTreeMap.getElem?_insert, if_neg (by simpa using differs)]
    exact found

theorem keeps_encodeAll (v : Vocabulary) (words : List String) : v.Keeps (v.encodeAll words) := by
  induction words generalizing v with
  | nil => exact Keeps.refl v
  | cons word words ih => exact (keeps_encode v word).trans (ih _)

theorem Keeps.map_lookup {v w : Vocabulary} (kept : v.Keeps w) {words : List String}
    {ids : List TermId} (given : words.map v.lookup = ids.map some) :
    words.map w.lookup = ids.map some := by
  induction words generalizing ids with
  | nil => exact given
  | cons word words ih =>
    cases ids with
    | nil => cases given
    | cons id ids =>
      obtain ⟨first, rest⟩ := List.cons.inj given
      exact congr (congrArg List.cons (kept word id first)) (ih rest)

theorem encode_of_lookup {v : Vocabulary} {word : String} {id : TermId}
    (known : v.lookup word = some id) : v.encode word = (id, v) := by
  rw [encode, known]

/-- How many words a vocabulary has numbers for. The two highest numbers are not given to words. -/
def capacity : Nat := UInt32.size - 2

structure Lists (v : Vocabulary) (words : List String) : Prop where
  listed : v.words.toList = words
  distinct : words.Nodup
  numbers : ∀ word id, v.lookup word = some id ↔
    ∃ i : Nat, words[i]? = some word ∧ id = UInt32.ofNat i

theorem lists_empty : Lists ∅ [] where
  listed := rfl
  distinct := List.nodup_nil
  numbers word id := by
    change (∅ : Std.ExtTreeMap String TermId)[word]? = some id ↔ _
    simp

section
variable {v w : Vocabulary} {words words' : List String} {word : String} {id : TermId}

theorem Lists.lookup_eq_none (lists : v.Lists words) : v.lookup word = none ↔ word ∉ words := by
  rw [Option.eq_none_iff_forall_ne_some, List.mem_iff_getElem?]
  constructor
  · rintro missing ⟨i, here⟩
    exact missing _ ((lists.numbers word _).mpr ⟨i, here, rfl⟩)
  · intro missing id found
    obtain ⟨i, here, -⟩ := (lists.numbers word id).mp found
    exact missing ⟨i, here⟩

theorem Lists.encode_new (lists : v.Lists words) (new : word ∉ words) :
    (v.encode word).1 = UInt32.ofNat words.length ∧
      (v.encode word).2.Lists (words ++ [word]) := by
  have size : v.words.size = words.length := by rw [← lists.listed, Array.length_toList]
  have places (other : String) (i : Nat) : (words ++ [word])[i]? = some other ↔
      words[i]? = some other ∨ i = words.length ∧ word = other := by grind
  rw [encode, lists.lookup_eq_none.mpr new]
  refine ⟨congrArg UInt32.ofNat size, by simp [lists.listed], ?_, ?_⟩
  · refine List.nodup_append.mpr ⟨lists.distinct, List.pairwise_singleton _ word, ?_⟩
    intro other mem last here same
    exact new (List.mem_singleton.mp here ▸ same ▸ mem)
  · intro other id
    simp only [lookup, Std.ExtTreeMap.getElem?_insert, Std.LawfulEqOrd.compare_eq_iff_eq, size,
      places]
    split
    · rename_i same
      subst same
      have unlisted (i : Nat) : words[i]? ≠ some word := fun here =>
        new (List.mem_of_getElem? here)
      simp [unlisted, eq_comm]
    · rename_i differs
      simpa [differs, lookup] using lists.numbers other id

theorem Lists.encode_known (lists : v.Lists words) (known : word ∈ words) :
    (v.encode word).2 = v := by
  have present : v.lookup word ≠ none := fun missing => lists.lookup_eq_none.mp missing known
  obtain ⟨id, present⟩ := Option.ne_none_iff_exists'.mp present
  rw [encode_of_lookup present]

theorem Lists.encodeAll {before : List String} (lists : v.Lists before.eraseDups)
    (words : List String) : (v.encodeAll words).Lists (before ++ words).eraseDups := by
  induction words generalizing v before with
  | nil => simpa [Vocabulary.encodeAll] using lists
  | cons word words ih =>
    have first : (v.encode word).2.Lists (before ++ [word]).eraseDups := by
      rw [eraseDups_concat]
      split
      · rename_i old
        rwa [lists.encode_known (List.mem_eraseDups.mpr old)]
      · rename_i new
        exact (lists.encode_new fun mem => new (List.mem_eraseDups.mp mem)).2
    have later := ih first
    rwa [List.append_assoc, List.singleton_append] at later

theorem Lists.encodeAll_known (lists : v.Lists words) {more : List String}
    (known : ∀ word ∈ more, word ∈ words) : v.encodeAll more = v := by
  induction more with
  | nil => rfl
  | cons word more ih =>
    obtain ⟨first, rest⟩ := List.forall_mem_cons.mp known
    change (v.encode word).2.encodeAll more = v
    rw [lists.encode_known first]
    exact ih rest

theorem Lists.size (lists : v.Lists words) : v.size = words.length := by
  rw [Vocabulary.size, ← Array.length_toList, lists.listed]

theorem Lists.decode (lists : v.Lists words) (id : TermId) : v.decode id = words[id.toNat]? := by
  rw [Vocabulary.decode, ← Array.getElem?_toList, lists.listed]

theorem Lists.lookup_iff (lists : v.Lists words) (room : words.length ≤ capacity) :
    v.lookup word = some id ↔ v.decode id = some word := by
  rw [lists.numbers, lists.decode]
  constructor
  · rintro ⟨i, here, rfl⟩
    have inside := (List.getElem?_eq_some_iff.mp here).1
    have small : i < UInt32.size := by
      have : capacity < UInt32.size := by decide
      omega
    rwa [UInt32.toNat_ofNat_of_lt' small]
  · exact fun here => ⟨id.toNat, here, UInt32.ofNat_toNat.symm⟩

theorem Lists.eq_iff (lists : v.Lists words) (lists' : w.Lists words') :
    v = w ↔ words = words' := by
  constructor
  · rintro rfl
    exact lists.listed.symm.trans lists'.listed
  · rintro rfl
    have same : v.words = w.words := Array.toList_inj.mp (lists.listed.trans lists'.listed.symm)
    have numbers : v.numbers = w.numbers := by
      apply Std.ExtTreeMap.ext_getElem?
      intro word
      apply Option.ext
      exact fun id => (lists.numbers word id).trans (lists'.numbers word id).symm
    obtain ⟨_, _⟩ := v
    obtain ⟨_, _⟩ := w
    exact congr (congrArg Vocabulary.mk same) numbers

theorem Lists.beq_iff (lists : v.Lists words) (lists' : w.Lists words') :
    (v == w) = true ↔ words = words' := by
  change (v.words == w.words) = true ↔ _
  rw [beq_iff_eq, ← Array.toList_inj, lists.listed, lists'.listed]

end

end Vocabulary

inductive Encoding where
  | word (text : String)
  | triple (subject predicate object : String)

namespace Encoding

def words : Encoding → List String
  | .word text => [text]
  | .triple subject predicate object => [subject, predicate, object]

def perform (v : Vocabulary) : Encoding → List TermId × Vocabulary
  | .word text =>
    let (id, v) := v.encode text
    ([id], v)
  | .triple subject predicate object =>
    let (t, v) := v.encodeTriple subject predicate object
    ([t.subject, t.predicate, t.object], v)

def distinctWords (encodings : List Encoding) : List String :=
  (encodings.flatMap words).eraseDups

theorem perform_snd (e : Encoding) (v : Vocabulary) : (e.perform v).2 = v.encodeAll e.words := by
  cases e <;> rfl

theorem lookup_perform (e : Encoding) (v : Vocabulary) :
    e.words.map (e.perform v).2.lookup = (e.perform v).1.map some := by
  cases e with
  | word text => exact congrArg (· :: []) (v.lookup_encode_self text)
  | triple subject predicate object =>
    let v₁ := (v.encode subject).2
    let v₂ := (v₁.encode predicate).2
    have first := v.lookup_encode_self subject
    have second := v₁.lookup_encode_self predicate
    have third := v₂.lookup_encode_self object
    have kept := v₂.keeps_encode object
    have first := kept _ _ (v₁.keeps_encode predicate _ _ first)
    exact congr (congrArg _ first) (congr (congrArg _ (kept _ _ second)) (congrArg (· :: []) third))

end Encoding

namespace Vocabulary

def after (v : Vocabulary) (encodings : List Encoding) : Vocabulary :=
  encodings.foldl (fun v e => (e.perform v).2) v

theorem after_eq (v : Vocabulary) (encodings : List Encoding) :
    v.after encodings = v.encodeAll (encodings.flatMap Encoding.words) := by
  induction encodings generalizing v with
  | nil => rfl
  | cons e rest ih =>
    rw [List.flatMap_cons, encodeAll_append, ← e.perform_snd]
    exact ih _

theorem after_append (v : Vocabulary) (encodings more : List Encoding) :
    v.after (encodings ++ more) = (v.after encodings).after more := List.foldl_append

theorem keeps_after (v : Vocabulary) (encodings : List Encoding) : v.Keeps (v.after encodings) := by
  rw [after_eq]
  exact v.keeps_encodeAll _

theorem lists_after (encodings : List Encoding) :
    (after ∅ encodings).Lists (Encoding.distinctWords encodings) := by
  rw [after_eq]
  have none : Lists ∅ ([] : List String).eraseDups := lists_empty
  exact none.encodeAll (encodings.flatMap Encoding.words)

/-- As long as there is room, the words that a vocabulary was given and the numbers below its size
belong to each other one to one, in the order in which the words came first. A word that is known
adds nothing, nor does asking for a word, and what was numbered stays so. Vocabularies are the same
when they were given the same words in the same order, repetitions aside. -/
theorem words_are_numbered_for_good {encodings : List Encoding}
    (room : (Encoding.distinctWords encodings).length ≤ capacity) :
    let v := after ∅ encodings
    (∀ word id, v.lookup word = some id ↔ v.decode id = some word) ∧
    v.size = (Encoding.distinctWords encodings).length ∧
    (∀ id, v.decode id = (Encoding.distinctWords encodings)[id.toNat]?) ∧
    (∀ word, v.lookup word = none ↔ word ∉ Encoding.distinctWords encodings) ∧
    (∀ e : Encoding, (∀ word ∈ e.words, word ∈ Encoding.distinctWords encodings) →
      (e.perform v).2 = v) ∧
    (∀ e later, (Encoding.distinctWords (encodings ++ e :: later)).length ≤ capacity →
      let w := after ∅ (encodings ++ e :: later)
      (∀ word id, v.lookup word = some id → w.lookup word = some id) ∧
      (∀ id word, v.decode id = some word → w.decode id = some word) ∧
      e.words.map w.lookup = (e.perform v).1.map some) ∧
    (∀ encodings', (Encoding.distinctWords encodings').length ≤ capacity →
      let w := after ∅ encodings'
      (v = w ↔ Encoding.distinctWords encodings = Encoding.distinctWords encodings') ∧
      ((v == w) = true ↔ v = w)) ∧
    default = (∅ : Vocabulary) := by
  intro v
  have lists : v.Lists (Encoding.distinctWords encodings) := lists_after encodings
  refine ⟨fun word id => lists.lookup_iff room, lists.size, lists.decode,
    fun word => lists.lookup_eq_none, fun e known => ?_, fun e later room' => ?_,
    fun encodings' _ => ?_, rfl⟩
  · rw [e.perform_snd]
    exact lists.encodeAll_known known
  · intro w
    have lists' : w.Lists _ := lists_after (encodings ++ e :: later)
    have whole : w = v.after (e :: later) := after_append ∅ encodings (e :: later)
    have kept : v.Keeps w := whole ▸ keeps_after v (e :: later)
    -- what `e` was answered holds right after it, and later requests keep it
    have kept' : (e.perform v).2.Keeps w := whole ▸ keeps_after (e.perform v).2 later
    refine ⟨kept, fun id word here => ?_, kept'.map_lookup (e.lookup_perform v)⟩
    rw [← lists'.lookup_iff room']
    exact kept word id ((lists.lookup_iff room).mpr here)
  · intro w
    have lists' : w.Lists _ := lists_after encodings'
    exact ⟨lists.eq_iff lists', (lists.beq_iff lists').trans (lists.eq_iff lists').symm⟩

theorem repeated_words_add_nothing :
    let v := after ∅ [.triple "a" "b" "a", .word "c", .word "b"]
    v.size = 3 ∧ v.lookup "c" = some 2 ∧ v.decode 1 = some "b" ∧ v.lookup "d" = none ∧
      v = after ∅ [.word "a", .word "b", .word "a", .word "c"] := by
  have room : (Encoding.distinctWords [.triple "a" "b" "a", .word "c", .word "b"]).length ≤
      capacity := by
    decide
  obtain ⟨inverse, size, decode, missing, -, -, same, -⟩ := words_are_numbered_for_good room
  refine ⟨size.trans (by decide), (inverse "c" 2).mpr ((decode 2).trans (by decide)),
    (decode 1).trans (by decide), (missing "d").mpr (by decide), ?_⟩
  exact (same [.word "a", .word "b", .word "a", .word "c"] (by decide)).1.mpr (by decide)

end Vocabulary
end TripleInference
