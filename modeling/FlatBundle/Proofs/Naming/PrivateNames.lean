/-
  FlatBundle.Proofs.Naming.PrivateNames
  ─────────────────────────────────────
  **PRIVATE NAMES ARE DIFFERENT NAMES, AND NEVER RESERVED.**

  The word numbered `index` is a number in base 26 without a zero, so no two numbers
  spell one word (`ofIndex_injective`).  Among one more words than there are
  reserved names one is free, which is why the search of an allocator always ends at
  a free name (`fresh_not_mem`).
-/
import FlatBundle.PrivateName
import Mathlib.Data.List.Nodup
import Mathlib.Data.List.Perm.Subperm

namespace FlatBundle.PrivateName

/-! ## §1. One number, one word -/

theorem letter_injective {first second : Nat} (h : first < 26) (h' : second < 26)
    (same : letter first = letter second) : first = second := by
  have all : ∀ a b : Fin 26, letter a = letter b → a = b := by decide
  exact congrArg Fin.val (all ⟨first, h⟩ ⟨second, h'⟩ same)

theorem lettersRev_ne_nil (index : Nat) : lettersRev index ≠ [] := by
  rw [lettersRev]
  simp

/-- **No two numbers have one word.** -/
theorem lettersRev_injective (first : Nat) :
    ∀ second, lettersRev first = lettersRev second → first = second := by
  induction first using Nat.strongRecOn with
  | ind first ih =>
      intro second same
      rw [lettersRev.eq_def first, lettersRev.eq_def second] at same
      obtain ⟨head, tail⟩ := List.cons.inj same
      have digit := letter_injective (Nat.mod_lt _ (by omega)) (Nat.mod_lt _ (by omega)) head
      -- a word of one letter is a number below 26, and only such a number
      by_cases small : first < 26 <;> by_cases small' : second < 26
      · omega
      · rw [if_pos small, if_neg small'] at tail
        exact absurd tail.symm (lettersRev_ne_nil _)
      · rw [if_neg small, if_pos small'] at tail
        exact absurd tail (lettersRev_ne_nil _)
      · rw [if_neg small, if_neg small'] at tail
        have rest := ih (first / 26 - 1) (by omega) (second / 26 - 1) tail
        omega

theorem ofIndex_injective {first second : Nat} (same : ofIndex first = ofIndex second) :
    first = second := by
  have letters : mark :: (lettersRev first).reverse = mark :: (lettersRev second).reverse :=
    String.ofList_injective same
  exact lettersRev_injective first second (List.reverse_injective (List.cons.inj letters).2)

/-! ## §2. The search for a free name -/

theorem le_firstFree (reserved : List String) (tries next : Nat) :
    next ≤ firstFree reserved tries next := by
  induction tries generalizing next with
  | zero => exact Nat.le_refl _
  | succ tries ih =>
      rw [firstFree]
      split
      · exact Nat.le_trans (Nat.le_succ next) (ih (next + 1))
      · exact Nat.le_refl _

/-- If the search ends at a reserved name, it has seen reserved names only. -/
theorem mem_of_firstFree_mem (reserved : List String) (tries next : Nat)
    (h : ofIndex (firstFree reserved tries next) ∈ reserved) :
    ∀ seen ≤ tries, ofIndex (next + seen) ∈ reserved := by
  induction tries generalizing next with
  | zero =>
      intro seen hseen
      rw [Nat.le_zero.1 hseen]
      exact h
  | succ tries ih =>
      rw [firstFree] at h
      split at h
      · next taken =>
          intro seen hseen
          cases seen with
          | zero => exact taken
          | succ seen =>
              have later := ih (next + 1) h seen (by omega)
              rw [show next + (seen + 1) = next + 1 + seen by omega]
              exact later
      · next free => exact absurd h free

/-- **The search ends at a free name**: the names it could see are more than the
reserved ones. -/
theorem firstFree_not_mem (reserved : List String) (next : Nat) :
    ofIndex (firstFree reserved reserved.length next) ∉ reserved := by
  intro h
  have seen := mem_of_firstFree_mem reserved reserved.length next h
  have nodup : ((List.range (reserved.length + 1)).map fun k => ofIndex (next + k)).Nodup := by
    refine List.Nodup.map ?_ List.nodup_range
    intro first second same
    have sum := ofIndex_injective same
    omega
  have subset : (List.range (reserved.length + 1)).map (fun k => ofIndex (next + k))
      ⊆ reserved := by
    intro name hname
    obtain ⟨k, hk, rfl⟩ := List.mem_map.1 hname
    exact seen k (Nat.lt_succ_iff.1 (List.mem_range.1 hk))
  -- one more different names than there are reserved ones
  have length := (List.subperm_of_subset nodup subset).length_le
  rw [List.length_map, List.length_range] at length
  omega

/-! ## §3. The allocator -/

/-- A fresh name is one that the allocator has not handed out, and is not reserved. -/
theorem Allocator.fresh_spec (a : Allocator) :
    ∃ index, a.fresh.1 = ofIndex index ∧ a.next ≤ index ∧ a.fresh.2.next = index + 1
      ∧ a.fresh.2.reserved = a.reserved ∧ ofIndex index ∉ a.reserved :=
  ⟨firstFree a.reserved a.reserved.length a.next, rfl, le_firstFree _ _ _, rfl, rfl,
    firstFree_not_mem _ _⟩

/-- The allocator after it has handed out `count` names. -/
def Allocator.after (a : Allocator) : (count : Nat) → Allocator
  | 0 => a
  | count + 1 => a.fresh.2.after count

theorem Allocator.after_succ (a : Allocator) (count : Nat) :
    a.after (count + 1) = (a.after count).fresh.2 := by
  induction count generalizing a with
  | zero => rfl
  | succ count ih => exact ih a.fresh.2

theorem Allocator.take_succ (a : Allocator) (count : Nat) :
    a.take (count + 1) = a.take count ++ [(a.after count).fresh.1] := by
  induction count generalizing a with
  | zero => rfl
  | succ count ih =>
      show a.fresh.1 :: a.fresh.2.take (count + 1) = _
      rw [ih a.fresh.2]
      rfl

/-- The names that an allocator hands out have numbers from `next` on, and are not
reserved. -/
theorem Allocator.mem_take {a : Allocator} {count : Nat} {name : String}
    (h : name ∈ a.take count) :
    name ∉ a.reserved ∧ ∃ index, a.next ≤ index ∧ name = ofIndex index := by
  induction count generalizing a with
  | zero => cases h
  | succ count ih =>
      obtain ⟨index, hname, hle, hnext, hreserved, free⟩ := a.fresh_spec
      rcases List.mem_cons.1 h with rfl | h
      · rw [hname]
        exact ⟨free, index, hle, rfl⟩
      · obtain ⟨free', other, hother, rfl⟩ := ih h
        rw [hreserved] at free'
        exact ⟨free', other, by omega, rfl⟩

/-- **An allocator never hands out a name twice.** -/
theorem Allocator.nodup_take (a : Allocator) (count : Nat) : (a.take count).Nodup := by
  induction count generalizing a with
  | zero => exact List.nodup_nil
  | succ count ih =>
      obtain ⟨index, hname, -, hnext, -, -⟩ := a.fresh_spec
      refine List.nodup_cons.2 ⟨fun h => ?_, ih a.fresh.2⟩
      obtain ⟨-, other, hother, same⟩ := Allocator.mem_take h
      rw [hname] at same
      have equal := ofIndex_injective same
      omega

end FlatBundle.PrivateName
