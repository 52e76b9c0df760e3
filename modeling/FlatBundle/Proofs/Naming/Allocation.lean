/-
  FlatBundle.Proofs.Naming.Allocation
  ───────────────────────────────────
  **EVERY SEARCH FOR A NAME ENDS, AND NO FREE NAME IS LEFT OUT.**

  The next name is searched for in a loop: the word of the number that is next is looked at,
  the number goes up by one, and the loop ends if the word is not reserved.  `Draws` is such a
  search with no bound on its rounds, and `Hands` is one search after the other.

    • `draws_fresh`: every search ends, with the name that the allocator gives,
    • `Hands.eq_freeWordsIn`: the names of the searches are the words that they have tried,
      less the reserved ones,
    • `Hands.le_of_zero`: no more than the reserved words are tried in vain.
-/
import FlatBundle.Proofs.Naming.Enumeration
import Mathlib.Data.List.Intervals

namespace FlatBundle.PrivateName

/-! ## §1. The search without a bound -/

/-- A search for the next name: the number to try first, the name that is found, and the
number to try after it. -/
inductive Draws (reserved : List String) : Nat → String → Nat → Prop where
  | free {next : Nat} (h : ofIndex next ∉ reserved) :
      Draws reserved next (ofIndex next) (next + 1)
  | taken {next after : Nat} {name : String} (h : ofIndex next ∈ reserved)
      (rest : Draws reserved (next + 1) name after) : Draws reserved next name after

/-- Searches one after the other, and the names that they find. -/
inductive Hands (reserved : List String) : Nat → List String → Nat → Prop where
  | nil (next : Nat) : Hands reserved next [] next
  | cons {next middle after : Nat} {name : String} {names : List String}
      (first : Draws reserved next name middle) (rest : Hands reserved middle names after) :
      Hands reserved next (name :: names) after

variable {reserved : List String}

theorem draws_firstFree (tries next : Nat)
    (h : ofIndex (firstFree reserved tries next) ∉ reserved) :
    Draws reserved next (ofIndex (firstFree reserved tries next))
      (firstFree reserved tries next + 1) := by
  induction tries generalizing next with
  | zero => exact .free h
  | succ tries ih =>
      unfold firstFree at h ⊢
      by_cases taken : ofIndex next ∈ reserved
      · rw [if_pos taken] at h ⊢
        exact .taken taken (ih (next + 1) h)
      · rw [if_neg taken]
        exact .free taken

/-- **Every search ends**, with the name that the allocator gives. -/
theorem draws_fresh (a : Allocator) : Draws a.reserved a.next a.fresh.1 a.fresh.2.next :=
  draws_firstFree a.reserved.length a.next (firstFree_not_mem a.reserved a.next)

theorem hands_take (a : Allocator) (count : Nat) :
    Hands a.reserved a.next (a.take count) (a.after count).next := by
  induction count generalizing a with
  | zero => exact .nil a.next
  | succ count ih => exact .cons (draws_fresh a) (ih a.fresh.2)

theorem length_take (a : Allocator) (count : Nat) : (a.take count).length = count := by
  induction count generalizing a with
  | zero => rfl
  | succ count ih =>
      show (a.fresh.2.take count).length + 1 = count + 1
      rw [ih]

/-! ## §2. The words that have been tried -/

/-- The words with numbers from `first` on and below `last` that are not reserved. -/
def freeWordsIn (reserved : List String) (first last : Nat) : List String :=
  ((List.Ico first last).map ofIndex).filter (· ∉ reserved)

theorem freeWordsIn_self (reserved : List String) (index : Nat) :
    freeWordsIn reserved index index = [] := by
  simp [freeWordsIn]

theorem freeWordsIn_append {first middle last : Nat} (h : first ≤ middle) (h' : middle ≤ last) :
    freeWordsIn reserved first last
      = freeWordsIn reserved first middle ++ freeWordsIn reserved middle last := by
  unfold freeWordsIn
  rw [← List.Ico.append_consecutive h h', List.map_append, List.filter_append]

theorem freeWordsIn_succ (reserved : List String) (index : Nat) :
    freeWordsIn reserved index (index + 1)
      = if ofIndex index ∈ reserved then [] else [ofIndex index] := by
  unfold freeWordsIn
  rw [List.Ico.succ_singleton]
  by_cases taken : ofIndex index ∈ reserved <;> simp [taken]

/-- A search passes over reserved words only. -/
theorem Draws.eq_freeWordsIn {next after : Nat} {name : String}
    (h : Draws reserved next name after) :
    next < after ∧ freeWordsIn reserved next after = [name] := by
  induction h with
  | @free next free =>
      refine ⟨by omega, ?_⟩
      rw [freeWordsIn_succ, if_neg free]
  | @taken next after name taken _ ih =>
      obtain ⟨less, words⟩ := ih
      refine ⟨by omega, ?_⟩
      rw [freeWordsIn_append (show next ≤ next + 1 by omega) (show next + 1 ≤ after by omega),
        freeWordsIn_succ, if_pos taken, words, List.nil_append]

/-- **The names of searches are the free ones among the words that they have tried.** -/
theorem Hands.eq_freeWordsIn {next after : Nat} {names : List String}
    (h : Hands reserved next names after) :
    next ≤ after ∧ names = freeWordsIn reserved next after := by
  induction h with
  | nil next => exact ⟨Nat.le_refl next, (freeWordsIn_self reserved next).symm⟩
  | @cons next middle after name names first _ ih =>
      obtain ⟨less, word⟩ := first.eq_freeWordsIn
      obtain ⟨le, words⟩ := ih
      refine ⟨by omega, ?_⟩
      rw [freeWordsIn_append (show next ≤ middle by omega) le, word, ← words]
      rfl

theorem freeWordsIn_zero (reserved : List String) (tried : Nat) :
    freeWordsIn reserved 0 tried = ((List.range tried).map ofIndex).filter (· ∉ reserved) := by
  rw [freeWordsIn, List.Ico.zero_bot]

/-- **No more than the reserved words are tried in vain**, as no word is tried twice. -/
theorem Hands.le_of_zero {names : List String} {tried : Nat} (h : Hands reserved 0 names tried) :
    tried ≤ names.length + reserved.length := by
  have words : names = ((List.range tried).map ofIndex).filter (· ∉ reserved) := by
    rw [h.eq_freeWordsIn.2, freeWordsIn_zero]
  have nodup : ((List.range tried).map ofIndex).Nodup :=
    List.nodup_range.map fun _ _ => ofIndex_injective
  have passed : (((List.range tried).map ofIndex).filter (· ∈ reserved)).length
      ≤ reserved.length := by
    refine (List.subperm_of_subset (nodup.filter _) fun word hword => ?_).length_le
    simpa using (List.mem_filter.1 hword).2
  have split := List.length_eq_length_filter_add (l := (List.range tried).map ofIndex)
    (· ∉ reserved)
  rw [← words] at split
  simp only [List.length_map, List.length_range, decide_not, Bool.not_not] at split
  omega

/-! ## §3. The theorem -/

/-- What the first `count` searches find, from the first word on. -/
structure HandsOutInOrder (reserved : List String) (count : Nat) (names : List String) : Prop where
  /-- Each search ends; after so many words there are the names. -/
  ends : ∃ tried, Hands reserved 0 names tried ∧ tried ≤ count + reserved.length
    ∧ names = ((List.range tried).map ofIndex).filter (· ∉ reserved)
  length : names.length = count
  nodup : names.Nodup
  free : ∀ name ∈ names, name ∉ reserved

/-- **Private names are a complete, fresh enumeration**: the numbers spell each private word
once and in order, and an allocator finds the first words that are not reserved. -/
theorem ofIndex_enumerates (reserved : List String) (count : Nat) :
    Set.BijOn ofIndex Set.univ {word | IsWord word}
      ∧ (∀ first second, Before (ofIndex first) (ofIndex second) ↔ first < second)
      ∧ HandsOutInOrder reserved count ((Allocator.new reserved).take count) := by
  have run : Hands reserved 0 ((Allocator.new reserved).take count) _ :=
    hands_take (Allocator.new reserved) count
  have length := length_take (Allocator.new reserved) count
  refine ⟨⟨?_, ?_, ?_⟩, fun _ _ => before_ofIndex_iff, ⟨⟨_, run, ?_, ?_⟩, length, ?_, ?_⟩⟩
  · intro index _
    exact isWord_iff.2 ⟨index, rfl⟩
  · intro first _ second _ same
    exact ofIndex_injective same
  · intro word isWord
    obtain ⟨index, rfl⟩ := isWord_iff.1 isWord
    exact ⟨index, trivial, rfl⟩
  · have le := run.le_of_zero
    rwa [length] at le
  · rw [run.eq_freeWordsIn.2, freeWordsIn_zero]
  · exact Allocator.nodup_take _ count
  · intro name hname
    exact (Allocator.mem_take hname).1

end FlatBundle.PrivateName
