/-
  FlatBundle.PrivateName
  ──────────────────────
  **PRIVATE NAMES: an endless supply of names that the library does not use.**

  A private name is the letter `ɵ` followed by one or more letters `a` to `z`.
  The names are numbered shorter first, then alphabetically (`ɵa` … `ɵz`,
  `ɵaa`, `ɵab`, …); an allocator hands them out in that order and leaves out
  the names that are reserved.
-/
namespace FlatBundle.PrivateName

/-- The letter that every private name starts with. -/
def mark : Char := 'ɵ'

/-- The letter for a digit below 26. -/
def letter (digit : Nat) : Char := Char.ofNat ('a'.toNat + digit)

/-- The letters of the word numbered `index`, last letter first: base 26 with
digits `a` to `z` and no zero, so each word has one number. -/
def lettersRev (index : Nat) : List Char :=
  letter (index % 26) :: (if index < 26 then [] else lettersRev (index / 26 - 1))
termination_by index

/-- The private name numbered `index`. -/
def ofIndex (index : Nat) : String :=
  String.ofList (mark :: (lettersRev index).reverse)

/-- The source of fresh private names. -/
structure Allocator where
  /-- The number of the next name to try. -/
  next : Nat
  /-- Names that are never handed out. -/
  reserved : List String

/-- An allocator that has handed out nothing. -/
def Allocator.new (reserved : List String) : Allocator := ⟨0, reserved⟩

/-- The number of the first name from `next` on that is not reserved, looking
at `tries` names at most. -/
def firstFree (reserved : List String) : (tries next : Nat) → Nat
  | 0, next => next
  | tries + 1, next =>
      if ofIndex next ∈ reserved then firstFree reserved tries (next + 1) else next

/-- The next name, and the allocator after it.  Of `n + 1` different names one
is outside a list of `n`, so the search always ends at a free name. -/
def Allocator.fresh (a : Allocator) : String × Allocator :=
  let index := firstFree a.reserved a.reserved.length a.next
  (ofIndex index, { a with next := index + 1 })

/-- The first `count` names of an allocator. -/
def Allocator.take (a : Allocator) : Nat → List String
  | 0 => []
  | count + 1 => a.fresh.1 :: a.fresh.2.take count

end FlatBundle.PrivateName
