/-
  FlatBundle.Json.Token
  ─────────────────────
  **THE TOKENS OF A JSON TEXT.**

  A text is cut into marks, strings and words (numbers, `true`, `false`,
  `null`) by one pass over its characters, `Lexer.step`.  Words run as far as
  they can; no JSON text has two words side by side.

  A token whose grammar is right may still denote nothing: a string with half
  of a surrogate pair, a number beyond the doubles.  Such a token carries
  `none`, and whoever reads the text decides whether that matters.
-/
import FlatBundle.Decimal.Double
import FlatBundle.Json.Basic

namespace FlatBundle.Json

/-! ## §1. Tokens -/

/-- A token of a JSON text. -/
inductive Token where
  | openArr
  | closeArr
  | openObj
  | closeObj
  | comma
  | colon
  /-- A string; none if its escapes do not spell characters. -/
  | str (value : Option String)
  /-- `null`, a truth value or a number; none for a number too large. -/
  | atom (value : Option Json)

/-! ## §2. Strings -/

/-- A piece of a string: a character as it stands or by a short escape, or the
16-bit unit of a `\u` escape. -/
inductive Piece where
  | char (c : Char)
  | unit (u : Nat)

/-- The characters that pieces spell: units outside of the surrogates stand for
themselves, a high and a low surrogate side by side stand for one character,
and a surrogate by itself spells nothing. -/
def spell : List Piece → Option (List Char)
  | [] => some []
  | .char c :: rest => (spell rest).map (c :: ·)
  | .unit high :: .unit low :: rest =>
      if 0xD800 ≤ high ∧ high < 0xDC00 then
        if 0xDC00 ≤ low ∧ low < 0xE000 then
          (spell rest).map
            (Char.ofNat (0x10000 + (high - 0xD800) * 0x400 + (low - 0xDC00)) :: ·)
        else none
      else if 0xDC00 ≤ high ∧ high < 0xE000 then none
      else (spell (.unit low :: rest)).map (Char.ofNat high :: ·)
  | .unit u :: rest =>
      if 0xD800 ≤ u ∧ u < 0xE000 then none else (spell rest).map (Char.ofNat u :: ·)

/-- The character of an escape of one letter. -/
def shortEscape? (c : Char) : Option Char :=
  match c with
  | '"' => some '"'
  | '\\' => some '\\'
  | '/' => some '/'
  | 'b' => some (Char.ofNat 8)
  | 'f' => some (Char.ofNat 12)
  | 'n' => some '\n'
  | 'r' => some '\r'
  | 't' => some '\t'
  | _ => none

/-- The value of a hexadecimal digit. -/
def hexDigit? (c : Char) : Option Nat :=
  if '0' ≤ c ∧ c ≤ '9' then some (c.toNat - '0'.toNat)
  else if 'a' ≤ c ∧ c ≤ 'f' then some (c.toNat - 'a'.toNat + 10)
  else if 'A' ≤ c ∧ c ≤ 'F' then some (c.toNat - 'A'.toNat + 10)
  else none

/-! ## §3. Words -/

/-- The value of a list of decimal digits. -/
def digitsValue (digits : List Char) : Nat :=
  digits.foldl (fun n c => 10 * n + (c.toNat - '0'.toNat)) 0

/-- The digits at the start of a text, and the rest. -/
def spanDigits (cs : List Char) : List Char × List Char :=
  cs.span Char.isDigit

/-- The digits after the point, if there is one; none for a point without
digits. -/
def fraction? : List Char → Option (List Char × List Char)
  | '.' :: cs =>
      let (digits, rest) := spanDigits cs
      if digits = [] then none else some (digits, rest)
  | cs => some ([], cs)

/-- The exponent, if there is one, up to the end of the word. -/
def exponent? : List Char → Option Int
  | [] => some 0
  | e :: cs =>
      if e = 'e' ∨ e = 'E' then
        let (negative, digits) :=
          match cs with
          | '-' :: ds => (true, ds)
          | '+' :: ds => (false, ds)
          | ds => (false, ds)
        if digits ≠ [] ∧ digits.all Char.isDigit then
          let value : Int := digitsValue digits
          some (if negative then -value else value)
        else none
      else none

/-- The number that a word spells: none if it is no number, `some none` if it is
too large.  Whole numbers of 64 bits are kept; all others, and `-0`, are
doubles. -/
def number? (word : List Char) : Option (Option Json) :=
  let (negative, unsigned) :=
    match word with
    | '-' :: rest => (true, rest)
    | rest => (false, rest)
  let (whole, afterWhole) := spanDigits unsigned
  if whole = [] ∨ (whole.head? = some '0' ∧ whole ≠ ['0']) then none
  else do
    let (frac, afterFrac) ← fraction? afterWhole
    let exponent ← exponent? afterFrac
    let digits := whole ++ frac
    let value := digitsValue digits
    let signed : Int := if negative then -(value : Int) else value
    if afterWhole = [] ∧ Number.fitsInt signed ∧ ¬ (negative ∧ value = 0) then
      return some (.num (.int signed))
    else
      let places := (digits.dropWhile (· = '0')).length
      return (Decimal.ofDecimal? negative value places (exponent - frac.length)).map
        fun bits => .num (.double bits)

/-- The token of a word. -/
def atom? (word : List Char) : Option Token :=
  if word = ['n', 'u', 'l', 'l'] then some (.atom (some .null))
  else if word = ['t', 'r', 'u', 'e'] then some (.atom (some (.bool true)))
  else if word = ['f', 'a', 'l', 's', 'e'] then some (.atom (some (.bool false)))
  else (number? word).map .atom

/-! ## §4. The pass over the characters -/

/-- Where the pass stands inside a text. -/
inductive Scan where
  /-- Between tokens. -/
  | between
  /-- In a word; its characters so far, last first. -/
  | word (chars : List Char)
  /-- In a string; its pieces so far, last first. -/
  | string (pieces : List Piece)
  /-- After the backslash in a string. -/
  | escape (pieces : List Piece)
  /-- In a `\u` escape, with the digits still to come and the value so far. -/
  | unicode (pieces : List Piece) (missing value : Nat)

/-- The tokens so far, last first, and the place of the pass. -/
structure Lexer where
  tokens : List Token
  scan : Scan

/-- A character that can be part of a word. -/
def isWordChar (c : Char) : Bool :=
  c.isAlphanum || c = '-' || c = '+' || c = '.'

/-- The blanks of JSON. -/
def isBlank (c : Char) : Bool :=
  c = ' ' || c = '\t' || c = '\n' || c = '\r'

/-- The mark that a character is. -/
def mark? (c : Char) : Option Token :=
  match c with
  | '[' => some .openArr
  | ']' => some .closeArr
  | '{' => some .openObj
  | '}' => some .closeObj
  | ',' => some .comma
  | ':' => some .colon
  | _ => none

/-- A character read between tokens. -/
def Lexer.start (tokens : List Token) (c : Char) : Option Lexer :=
  if isBlank c then some ⟨tokens, .between⟩
  else if c = '"' then some ⟨tokens, .string []⟩
  else if isWordChar c then some ⟨tokens, .word [c]⟩
  else (mark? c).map fun token => ⟨token :: tokens, .between⟩

/-- One character read. -/
def Lexer.step (l : Lexer) (c : Char) : Option Lexer :=
  match l.scan with
  | .between => start l.tokens c
  | .word chars =>
      if isWordChar c then some { l with scan := .word (c :: chars) }
      else (atom? chars.reverse).bind fun token => start (token :: l.tokens) c
  | .string pieces =>
      if c = '"' then
        some ⟨.str ((spell pieces.reverse).map String.ofList) :: l.tokens, .between⟩
      else if c = '\\' then some { l with scan := .escape pieces }
      else if c.toNat < 32 then none
      else some { l with scan := .string (.char c :: pieces) }
  | .escape pieces =>
      if c = 'u' then some { l with scan := .unicode pieces 4 0 }
      else (shortEscape? c).map fun e => { l with scan := .string (.char e :: pieces) }
  | .unicode pieces missing value =>
      (hexDigit? c).map fun d =>
        let value := 16 * value + d
        if missing = 1 then { l with scan := .string (.unit value :: pieces) }
        else { l with scan := .unicode pieces (missing - 1) value }

/-- The tokens after the last character; none inside a string. -/
def Lexer.finish (l : Lexer) : Option (List Token) :=
  match l.scan with
  | .between => some l.tokens.reverse
  | .word chars => (atom? chars.reverse).map fun token => (token :: l.tokens).reverse
  | _ => none

/-- The tokens of a text. -/
def tokens? (text : String) : Option (List Token) :=
  (text.toList.foldlM Lexer.step ⟨[], .between⟩).bind Lexer.finish

end FlatBundle.Json
