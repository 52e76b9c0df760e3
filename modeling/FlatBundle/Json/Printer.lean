/-
  FlatBundle.Json.Printer
  ───────────────────────
  **THE TEXT OF A JSON TREE, ON ONE LINE OR INDENTED.**

  Whole numbers are written in decimal, doubles with the fewest digits that read
  back.  Strings escape the quote, the backslash and the characters below the
  blank, and nothing else.  The indented form puts every item on a line of its
  own, two blanks deeper than its container, and writes empty containers as
  `[]` and an empty pair of braces.
-/
import FlatBundle.Decimal.Shortest
import FlatBundle.Json.Basic

namespace FlatBundle.Json

/-! ## §1. Scalars -/

/-- Doubles have their point in its place from `0.00001` to below `1e16`. -/
def numberLayout : Decimal.Layout := ⟨-5, 15⟩

/-- The text of a number. -/
def writeNumber : Number → List Char
  | .int value => (toString value).toList
  | .double bits => numberLayout.write bits

/-- A character as it stands between quotes. -/
def escape (c : Char) : List Char :=
  match c with
  | '"' => ['\\', '"']
  | '\\' => ['\\', '\\']
  | '\n' => ['\\', 'n']
  | '\r' => ['\\', 'r']
  | '\t' => ['\\', 't']
  | _ =>
      if c.toNat = 8 then ['\\', 'b']
      else if c.toNat = 12 then ['\\', 'f']
      else if c.toNat < 32 then
        ['\\', 'u', '0', '0', Nat.digitChar (c.toNat / 16), Nat.digitChar (c.toNat % 16)]
      else [c]

/-- A string between quotes. -/
def quote (s : String) : List Char :=
  '"' :: (s.toList.flatMap escape ++ ['"'])

/-! ## §2. One line -/

mutual

/-- The characters of a tree on one line. -/
def writeLine : Json → List Char
  | .null => ['n', 'u', 'l', 'l']
  | .bool true => ['t', 'r', 'u', 'e']
  | .bool false => ['f', 'a', 'l', 's', 'e']
  | .num n => writeNumber n
  | .str s => quote s
  | .arr items => '[' :: (writeItems items ++ [']'])
  | .obj fields => '{' :: (writeFields fields ++ ['}'])

/-- Items with commas between them. -/
def writeItems : List Json → List Char
  | [] => []
  | [item] => writeLine item
  | item :: rest => writeLine item ++ ',' :: writeItems rest

/-- Fields with commas between them. -/
def writeFields : List (String × Json) → List Char
  | [] => []
  | [(name, value)] => quote name ++ ':' :: writeLine value
  | (name, value) :: rest =>
      quote name ++ ':' :: (writeLine value ++ ',' :: writeFields rest)

end

/-! ## §3. Indented -/

/-- A new line at a depth. -/
def newline (depth : Nat) : List Char :=
  '\n' :: List.replicate (2 * depth) ' '

mutual

/-- The characters of an indented tree that stands at `depth`. -/
def writeDeep (depth : Nat) : Json → List Char
  | .arr [] => ['[', ']']
  | .arr items => '[' :: (writeDeepItems (depth + 1) items ++ newline depth ++ [']'])
  | .obj [] => ['{', '}']
  | .obj fields => '{' :: (writeDeepFields (depth + 1) fields ++ newline depth ++ ['}'])
  | .null => writeLine .null
  | .bool b => writeLine (.bool b)
  | .num n => writeNumber n
  | .str s => quote s

/-- Items on lines of their own. -/
def writeDeepItems (depth : Nat) : List Json → List Char
  | [] => []
  | [item] => newline depth ++ writeDeep depth item
  | item :: rest => newline depth ++ writeDeep depth item ++ ',' :: writeDeepItems depth rest

/-- Fields on lines of their own. -/
def writeDeepFields (depth : Nat) : List (String × Json) → List Char
  | [] => []
  | [(name, value)] => newline depth ++ quote name ++ ':' :: ' ' :: writeDeep depth value
  | (name, value) :: rest =>
      newline depth ++ quote name ++ ':' :: ' ' :: (writeDeep depth value
        ++ ',' :: writeDeepFields depth rest)

end

/-- The text of a tree on one line. -/
def compact (j : Json) : String :=
  String.ofList (writeLine j)

/-- The indented text of a tree. -/
def pretty (j : Json) : String :=
  String.ofList (writeDeep 0 j)

/-- The text of a tree, indented or on one line. -/
def render (indented : Bool) (j : Json) : String :=
  if indented then j.pretty else j.compact

end FlatBundle.Json
