/-
  FlatBundle.Json.Basic
  ─────────────────────
  **JSON TREES.**

  A number is a whole number that fits 64 bits, signed or unsigned, or a finite
  double given by its bits; equality of trees is therefore decidable.  The
  fields of an object stand in the order of the text, and a name may repeat.
-/
namespace FlatBundle

/-- A JSON number. -/
inductive Number where
  /-- A whole number written without point and exponent. -/
  | int (value : Int)
  /-- A finite double. -/
  | double (bits : UInt64)
  deriving DecidableEq, Inhabited

/-- The whole numbers that are kept as such: those of 64 bits. -/
def Number.fitsInt (value : Int) : Bool :=
  -Int.pow 2 63 ≤ value && value < Int.pow 2 64

/-- A JSON tree. -/
inductive Json where
  | null
  | bool (value : Bool)
  | num (value : Number)
  | str (value : String)
  | arr (items : List Json)
  | obj (fields : List (String × Json))
  deriving Inhabited

namespace Json

mutual

/-- The texts that stand as values in a tree, in order. -/
def texts : Json → List String
  | .str text => [text]
  | .arr items => textsOfItems items
  | .obj fields => textsOfFields fields
  | .null | .bool _ | .num _ => []

/-- The texts in the items of a list. -/
def textsOfItems : List Json → List String
  | [] => []
  | item :: rest => item.texts ++ textsOfItems rest

/-- The texts in the fields of an object. -/
def textsOfFields : List (String × Json) → List String
  | [] => []
  | (_, value) :: rest => value.texts ++ textsOfFields rest

end

end Json

end FlatBundle
