/-
  FlatBundle.Proofs.Naming.Enumeration
  ────────────────────────────────────
  **PRIVATE NAMES ARE ALL THE WORDS OF THEIR KIND, IN ORDER.**

  A private word is `ɵ` followed by one or more small letters.  Shorter words come
  first, words of one length stand alphabetically (`Before`).

    • `isWord_iff`: the numbers spell all private words,
    • `before_ofIndex_iff`: a smaller number spells an earlier word,
    • `Allocator.isNthFree_take`: the names that an allocator hands out are the first
      words that are not reserved, none of them left out.
-/
import FlatBundle.Proofs.Naming.PrivateNames
import Mathlib.Data.List.Shortlex
import Mathlib.Data.Nat.Count
import Mathlib.Data.Set.Card

namespace FlatBundle.PrivateName

/-! ## §1. Words -/

/-- A word that a private name can be: the mark and one or more small letters. -/
def IsWord (name : String) : Prop :=
  ∃ letters : List Char, letters ≠ [] ∧ (∀ c ∈ letters, 'a' ≤ c ∧ c ≤ 'z')
    ∧ name = String.ofList (mark :: letters)

/-- Shorter words come first, then the alphabet decides. -/
def Before (first second : String) : Prop :=
  List.Shortlex (· < ·) first.toList second.toList

/-- The private words that are not reserved. -/
def freeWords (reserved : List String) : Set String :=
  {word | IsWord word ∧ word ∉ reserved}

/-- The name is a free word, and as many free words as the number says come before it. -/
structure IsNthFree (reserved : List String) (number : Nat) (name : String) : Prop where
  free : name ∈ freeWords reserved
  before : {word ∈ freeWords reserved | Before word name}.encard = number

/-! ## §2. Every word has a number -/

theorem letter_lt_letter {first second : Nat} (h : first < second) (small : second < 26) :
    letter first < letter second := by
  have all : ∀ a b : Fin 26, a < b → letter a < letter b := by decide
  exact all ⟨first, by omega⟩ ⟨second, small⟩ h

theorem letter_mem {digit : Nat} (small : digit < 26) : 'a' ≤ letter digit ∧ letter digit ≤ 'z' := by
  have all : ∀ a : Fin 26, 'a' ≤ letter a ∧ letter a ≤ 'z' := by decide
  exact all ⟨digit, small⟩

theorem exists_letter {c : Char} (low : 'a' ≤ c) (high : c ≤ 'z') :
    ∃ digit, digit < 26 ∧ letter digit = c := by
  have low' : 97 ≤ c.toNat := low
  have high' : c.toNat ≤ 122 := high
  refine ⟨c.toNat - 97, by omega, ?_⟩
  show Char.ofNat (97 + (c.toNat - 97)) = c
  rw [show 97 + (c.toNat - 97) = c.toNat by omega, Char.ofNat_toNat]

theorem lettersRev_of_lt {index : Nat} (small : index < 26) : lettersRev index = [letter index] := by
  rw [lettersRev, if_pos small, Nat.mod_eq_of_lt small]

theorem lettersRev_of_le {index : Nat} (large : 26 ≤ index) :
    lettersRev index = letter (index % 26) :: lettersRev (index / 26 - 1) := by
  rw [lettersRev, if_neg (by omega)]

theorem mem_lettersRev (index : Nat) : ∀ c ∈ lettersRev index, 'a' ≤ c ∧ c ≤ 'z' := by
  induction index using Nat.strongRecOn with
  | ind index ih =>
      intro c hc
      by_cases small : index < 26
      · rw [lettersRev_of_lt small, List.mem_singleton] at hc
        exact hc ▸ letter_mem small
      · rw [lettersRev_of_le (by omega)] at hc
        rcases List.mem_cons.1 hc with rfl | hc
        · exact letter_mem (Nat.mod_lt _ (by omega))
        · exact ih (index / 26 - 1) (by omega) c hc

/-- Letters, read from the last one on, are the digits of a number. -/
theorem exists_lettersRev {letters : List Char} (ne : letters ≠ [])
    (small : ∀ c ∈ letters, 'a' ≤ c ∧ c ≤ 'z') : ∃ index, lettersRev index = letters := by
  induction letters with
  | nil => exact absurd rfl ne
  | cons c rest ih =>
      obtain ⟨low, high⟩ := small c List.mem_cons_self
      obtain ⟨digit, hdigit, rfl⟩ := exists_letter low high
      by_cases last : rest = []
      · exact ⟨digit, by rw [lettersRev_of_lt hdigit, last]⟩
      · obtain ⟨more, rfl⟩ := ih last fun c hc => small c (List.mem_cons_of_mem _ hc)
        refine ⟨26 * (more + 1) + digit, ?_⟩
        rw [lettersRev_of_le (by omega), show (26 * (more + 1) + digit) % 26 = digit by omega,
          show (26 * (more + 1) + digit) / 26 - 1 = more by omega]

/-- **The numbers spell all private words.** -/
theorem isWord_iff {name : String} : IsWord name ↔ ∃ index, name = ofIndex index := by
  constructor
  · rintro ⟨letters, ne, small, rfl⟩
    have ne' : letters.reverse ≠ [] := by simpa using ne
    obtain ⟨index, spells⟩ := exists_lettersRev ne' fun c hc => small c (List.mem_reverse.1 hc)
    refine ⟨index, ?_⟩
    rw [ofIndex, spells, List.reverse_reverse]
  · rintro ⟨index, rfl⟩
    exact ⟨(lettersRev index).reverse, by simpa using lettersRev_ne_nil index,
      fun c hc => mem_lettersRev index c (List.mem_reverse.1 hc), rfl⟩

/-! ## §3. Numbers and words have one order -/

/-- What follows words of one length does not change which of them comes first. -/
theorem lex_concat {first second : List Char} (c d : Char) (h : List.Lex (· < ·) first second)
    (same : first.length = second.length) : List.Lex (· < ·) (first ++ [c]) (second ++ [d]) := by
  induction h with
  | nil => cases same
  | rel less => exact .rel less
  | cons _ ih => exact .cons (ih (by simpa using same))

theorem shortlex_concat {first second : List Char} (c d : Char)
    (h : List.Shortlex (· < ·) first second) :
    List.Shortlex (· < ·) (first ++ [c]) (second ++ [d]) := by
  rcases List.shortlex_def.1 h with shorter | ⟨same, lex⟩
  · exact .of_length_lt (by simpa using shorter)
  · exact .of_lex (by simp [same]) (lex_concat c d lex same)

/-- The last digit decides where the digits before it are the same. -/
theorem shortlex_lettersRev (second : Nat) : ∀ first < second,
    List.Shortlex (· < ·) (lettersRev first).reverse (lettersRev second).reverse := by
  induction second using Nat.strongRecOn with
  | ind second ih =>
      intro first less
      by_cases small : second < 26
      · rw [lettersRev_of_lt small, lettersRev_of_lt (by omega)]
        simpa using letter_lt_letter less small
      · rw [lettersRev_of_le (Nat.le_of_not_lt small), List.reverse_cons]
        by_cases small' : first < 26
        · rw [lettersRev_of_lt small']
          refine .of_length_lt ?_
          have := List.length_pos_iff.2 (lettersRev_ne_nil (second / 26 - 1))
          simp
          omega
        · rw [lettersRev_of_le (Nat.le_of_not_lt small'), List.reverse_cons]
          by_cases high : first / 26 - 1 < second / 26 - 1
          · exact shortlex_concat _ _ (ih (second / 26 - 1) (by omega) _ high)
          · rw [show first / 26 - 1 = second / 26 - 1 by omega]
            refine .append_left ?_ _
            simpa using letter_lt_letter (by omega) (Nat.mod_lt second (by omega))

/-- **A smaller number spells an earlier word.** -/
theorem before_ofIndex_iff {first second : Nat} :
    Before (ofIndex first) (ofIndex second) ↔ first < second := by
  have spelled : ∀ first second, first < second → Before (ofIndex first) (ofIndex second) := by
    intro first second less
    rw [Before, ofIndex, ofIndex, String.toList_ofList, String.toList_ofList]
    exact .cons (shortlex_lettersRev second first less)
  refine ⟨fun h => ?_, spelled first second⟩
  have irrefl : ∀ word, ¬ Before word word := fun word => Std.Irrefl.irrefl (r := List.Shortlex _) _
  rcases Nat.lt_trichotomy first second with less | rfl | more
  · exact less
  · exact absurd h (irrefl _)
  · exact absurd h (Std.Asymm.asymm (r := List.Shortlex _) _ _ (spelled second first more))

/-! ## §4. Free words -/

/-- How many numbers below a number spell free words. -/
def freeBelow (reserved : List String) (index : Nat) : Nat :=
  Nat.count (fun number => ofIndex number ∉ reserved) index

theorem freeBelow_zero (reserved : List String) : freeBelow reserved 0 = 0 :=
  Nat.count_zero _

theorem freeBelow_succ_of_free {reserved : List String} {index : Nat}
    (free : ofIndex index ∉ reserved) :
    freeBelow reserved (index + 1) = freeBelow reserved index + 1 := by
  rw [freeBelow, Nat.count_succ, if_pos free, freeBelow]

theorem freeBelow_succ_of_taken {reserved : List String} {index : Nat}
    (taken : ofIndex index ∈ reserved) :
    freeBelow reserved (index + 1) = freeBelow reserved index := by
  rw [freeBelow, Nat.count_succ, if_neg (not_not_intro taken), freeBelow, Nat.add_zero]

/-- As many free words come before a word as there are such numbers below its number. -/
theorem encard_free_before (reserved : List String) (index : Nat) :
    {word ∈ freeWords reserved | Before word (ofIndex index)}.encard
      = freeBelow reserved index := by
  have numbers : {word ∈ freeWords reserved | Before word (ofIndex index)}
      = ofIndex '' ((Finset.range index).filter fun number => ofIndex number ∉ reserved) := by
    ext word
    constructor
    · rintro ⟨⟨isWord, free⟩, before⟩
      obtain ⟨number, rfl⟩ := isWord_iff.1 isWord
      exact ⟨number, by simpa using ⟨before_ofIndex_iff.1 before, free⟩, rfl⟩
    · rintro ⟨number, hnumber, rfl⟩
      obtain ⟨less, free⟩ : number < index ∧ ofIndex number ∉ reserved := by simpa using hnumber
      exact ⟨⟨isWord_iff.2 ⟨number, rfl⟩, free⟩, before_ofIndex_iff.2 less⟩
  have injective : Function.Injective ofIndex := fun _ _ => ofIndex_injective
  rw [numbers, injective.encard_image, Set.encard_coe_eq_coe_finsetCard, freeBelow,
    Nat.count_eq_card_filter_range]

/-- The search for a free name passes over no free word. -/
theorem freeBelow_firstFree (reserved : List String) (tries next : Nat) :
    freeBelow reserved (firstFree reserved tries next) = freeBelow reserved next := by
  induction tries generalizing next with
  | zero => rfl
  | succ tries ih =>
      rw [firstFree]
      split
      · next taken => rw [ih, freeBelow_succ_of_taken taken]
      · rfl

/-- **The names of an allocator follow one another without a gap.** -/
theorem Allocator.exists_index_of_getElem? {a : Allocator} {count number : Nat} {name : String}
    (h : (a.take count)[number]? = some name) :
    ∃ index, name = ofIndex index ∧ ofIndex index ∉ a.reserved
      ∧ freeBelow a.reserved index = freeBelow a.reserved a.next + number := by
  induction count generalizing a number with
  | zero => cases h
  | succ count ih =>
      have free := firstFree_not_mem a.reserved a.next
      have passed := freeBelow_firstFree a.reserved a.reserved.length a.next
      cases number with
      | zero => exact ⟨_, (Option.some.inj h).symm, free, passed⟩
      | succ number =>
          obtain ⟨index, rfl, free', counted⟩ := ih (a := a.fresh.2) h
          refine ⟨index, rfl, free', ?_⟩
          -- the name handed out first is the one free word that has been passed
          have first : freeBelow a.reserved a.fresh.2.next = freeBelow a.reserved a.next + 1 := by
            rw [← passed]
            exact freeBelow_succ_of_free free
          have rest : freeBelow a.reserved index = freeBelow a.reserved a.fresh.2.next + number :=
            counted
          omega

/-- **A new allocator hands out the first free words in order.** -/
theorem Allocator.isNthFree_take {reserved : List String} (count : Nat) {number : Nat}
    {name : String} (h : ((Allocator.new reserved).take count)[number]? = some name) :
    IsNthFree reserved number name := by
  obtain ⟨index, rfl, free, counted⟩ := Allocator.exists_index_of_getElem? h
  have all : freeBelow reserved index = freeBelow reserved 0 + number := counted
  rw [freeBelow_zero, Nat.zero_add] at all
  exact ⟨⟨isWord_iff.2 ⟨index, rfl⟩, free⟩, by rw [encard_free_before, all]⟩

end FlatBundle.PrivateName
