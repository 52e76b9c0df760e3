/-
  FlatBundle.Toml.Token
  ─────────────────────
  **THE TOKENS OF A TOML TEXT.**

  One pass over the characters cuts a text into marks, strings, words (keys,
  numbers, dates, truth values), blanks and ends of lines.  Comments are left
  out.  Blanks are kept, because some marks must stand side by side.

  Strings come in four forms: with or without escapes, on one line or on
  several.  A text that no token fits has no tokens at all.
-/
import FlatBundle.Json.Token

namespace FlatBundle.Toml

/-! ## §1. Tokens -/

/-- A token of a TOML text. -/
inductive Token where
  | openBracket
  | closeBracket
  | openBrace
  | closeBrace
  | comma
  | equals
  | newline
  | blank
  /-- A string, and whether it is of a form that may run over lines. -/
  | str (multiline : Bool) (value : String)
  /-- A run of characters of keys, numbers and dates. -/
  | word (chars : List Char)

/-- What a string allows: escapes after a backslash, or every character as it
stands. -/
inductive Quote where
  | basic
  | literal
  deriving DecidableEq

/-- The character around a string. -/
def Quote.char : Quote → Char
  | .basic => '"'
  | .literal => '\''

/-! ## §2. The pass -/

/-- Where the pass stands. -/
inductive Scan where
  | between
  | comment
  /-- After a carriage return, which only an end of line may follow. -/
  | carriage
  | word (chars : List Char)
  /-- After a date and one blank; a time may follow. -/
  | dateBlank (chars : List Char)
  /-- After one or two quotes that open a string. -/
  | opening (quote : Quote) (second : Bool)
  /-- In a string on one line; its characters so far, last first. -/
  | line (quote : Quote) (chars : List Char)
  /-- Right at the start of a string over lines, where an end of line does not
  count. -/
  | blockStart (quote : Quote)
  /-- In a string over lines, after `quotes` quotes in a row. -/
  | block (quote : Quote) (chars : List Char) (quotes : Nat)
  /-- After a carriage return in a string over lines. -/
  | blockReturn (quote : Quote) (chars : List Char) (atStart : Bool)
  /-- After a backslash. -/
  | escape (multiline : Bool) (chars : List Char)
  /-- In an escape by number, with the digits to come and the value so far. -/
  | unicode (multiline : Bool) (chars : List Char) (missing value : Nat)
  /-- After a backslash and blanks in a string over lines; the line must end. -/
  | trimLine (chars : List Char) (atReturn : Bool)
  /-- After a backslash at the end of a line: blanks and ends of lines are
  dropped. -/
  | trim (chars : List Char) (atReturn : Bool)

/-- The tokens so far, last first, and the place of the pass. -/
structure Lexer where
  tokens : List Token
  scan : Scan

/-- Characters that may stand in strings and comments: a tab, and all that are
no control characters. -/
def isText (c : Char) : Bool :=
  c = '\t' || (32 ≤ c.toNat && c.toNat ≠ 127)

/-- A character of a word. -/
def isWordChar (c : Char) : Bool :=
  c.isAlphanum || c = '_' || c = '-' || c = '+' || c = '.' || c = ':'

/-- Whether characters have the form of a date, `0000-00-00`. -/
def hasDateForm (chars : List Char) : Bool :=
  match chars with
  | [a, b, c, d, x, e, f, y, g, h] =>
      [a, b, c, d, e, f, g, h].all Char.isDigit && x = '-' && y = '-'
  | _ => false

/-- The character with a number, if it is one. -/
def charOf? (n : Nat) : Option Char :=
  if n < 0xD800 ∨ (0xDFFF < n ∧ n < 0x110000) then some (Char.ofNat n) else none

/-- The character of an escape of one letter. -/
def shortEscape? (c : Char) : Option Char :=
  if c = '/' then none else Json.shortEscape? c

namespace Lexer

/-- Back between tokens, with one more token. -/
def emit (l : Lexer) (token : Token) : Lexer := ⟨token :: l.tokens, .between⟩

/-- The word that has been read. -/
def emitWord (l : Lexer) (chars : List Char) : Lexer := l.emit (.word chars.reverse)

/-- The string that has been read. -/
def emitString (l : Lexer) (multiline : Bool) (chars : List Char) : Lexer :=
  l.emit (.str multiline (String.ofList chars.reverse))

/-- A string over lines after its closing quotes: three of them close it, the
others belong to it. -/
def emitBlock (l : Lexer) (quote : Quote) (chars : List Char) (quotes : Nat) : Lexer :=
  l.emitString true (List.replicate (quotes - 3) quote.char ++ chars)

/-- A character between tokens. -/
def start (l : Lexer) (c : Char) : Option Lexer :=
  match c with
  | '[' => some (l.emit .openBracket)
  | ']' => some (l.emit .closeBracket)
  | '{' => some (l.emit .openBrace)
  | '}' => some (l.emit .closeBrace)
  | ',' => some (l.emit .comma)
  | '=' => some (l.emit .equals)
  | '\n' => some (l.emit .newline)
  | '\r' => some { l with scan := .carriage }
  | ' ' | '\t' => some (l.emit .blank)
  | '#' => some { l with scan := .comment }
  | '"' => some { l with scan := .opening .basic false }
  | '\'' => some { l with scan := .opening .literal false }
  | _ => if isWordChar c then some { l with scan := .word [c] } else none

/-- A character in a string on one line. -/
def stepLine (l : Lexer) (quote : Quote) (chars : List Char) (c : Char) : Option Lexer :=
  if c = quote.char then some (l.emitString false chars)
  else if c = '\\' ∧ quote = .basic then some { l with scan := .escape false chars }
  else if isText c then some { l with scan := .line quote (c :: chars) }
  else none

/-- A character in a string over lines, after `quotes` quotes. -/
def stepBlock (l : Lexer) (quote : Quote) (chars : List Char) (quotes : Nat) (c : Char) :
    Option Lexer :=
  if c = quote.char then
    if quotes = 4 then some (l.emitBlock quote chars 5)
    else some { l with scan := .block quote chars (quotes + 1) }
  else if 3 ≤ quotes then start (l.emitBlock quote chars quotes) c
  else
    let chars := List.replicate quotes quote.char ++ chars
    if c = '\\' ∧ quote = .basic then some { l with scan := .escape true chars }
    else if c = '\n' then some { l with scan := .block quote ('\n' :: chars) 0 }
    else if c = '\r' then some { l with scan := .blockReturn quote chars false }
    else if isText c then some { l with scan := .block quote (c :: chars) 0 }
    else none

/-- Back in a string after an escape. -/
def resume (l : Lexer) (multiline : Bool) (chars : List Char) : Lexer :=
  { l with scan := if multiline then .block .basic chars 0 else .line .basic chars }

/-- A character after a backslash. -/
def stepEscape (l : Lexer) (multiline : Bool) (chars : List Char) (c : Char) : Option Lexer :=
  if c = 'u' then some { l with scan := .unicode multiline chars 4 0 }
  else if c = 'U' then some { l with scan := .unicode multiline chars 8 0 }
  else if multiline ∧ (c = ' ' ∨ c = '\t') then some { l with scan := .trimLine chars false }
  else if multiline ∧ c = '\n' then some { l with scan := .trim chars false }
  else if multiline ∧ c = '\r' then some { l with scan := .trimLine chars true }
  else (shortEscape? c).map fun e => l.resume multiline (e :: chars)

/-- A digit of an escape by number. -/
def stepUnicode (l : Lexer) (multiline : Bool) (chars : List Char) (missing value : Nat)
    (c : Char) : Option Lexer := do
  let value := 16 * value + (← Json.hexDigit? c)
  if missing = 1 then
    let e ← charOf? value
    return l.resume multiline (e :: chars)
  else return { l with scan := .unicode multiline chars (missing - 1) value }

/-- One character read. -/
def step (l : Lexer) (c : Char) : Option Lexer :=
  match l.scan with
  | .between => l.start c
  | .comment =>
      if c = '\n' ∨ c = '\r' then start { l with scan := .between } c
      else if isText c then some l
      else none
  | .carriage => if c = '\n' then some (l.emit .newline) else none
  | .word chars =>
      if isWordChar c then some { l with scan := .word (c :: chars) }
      else if c = ' ' ∧ hasDateForm chars.reverse then some { l with scan := .dateBlank chars }
      else start (l.emitWord chars) c
  | .dateBlank chars =>
      if c.isDigit then some { l with scan := .word (c :: ' ' :: chars) }
      else start ((l.emitWord chars).emit .blank) c
  | .opening quote false =>
      if c = quote.char then some { l with scan := .opening quote true }
      else l.stepLine quote [] c
  | .opening quote true =>
      if c = quote.char then some { l with scan := .blockStart quote }
      else start (l.emitString false []) c
  | .line quote chars => l.stepLine quote chars c
  | .blockStart quote =>
      if c = '\n' then some { l with scan := .block quote [] 0 }
      else if c = '\r' then some { l with scan := .blockReturn quote [] true }
      else l.stepBlock quote [] 0 c
  | .block quote chars quotes => l.stepBlock quote chars quotes c
  | .blockReturn quote chars atStart =>
      if c = '\n' then
        some { l with scan := .block quote (if atStart then chars else '\n' :: chars) 0 }
      else none
  | .escape multiline chars => l.stepEscape multiline chars c
  | .unicode multiline chars missing value => l.stepUnicode multiline chars missing value c
  | .trimLine chars false =>
      if c = ' ' ∨ c = '\t' then some l
      else if c = '\n' then some { l with scan := .trim chars false }
      else if c = '\r' then some { l with scan := .trimLine chars true }
      else none
  | .trimLine chars true => if c = '\n' then some { l with scan := .trim chars false } else none
  | .trim chars false =>
      if c = ' ' ∨ c = '\t' ∨ c = '\n' then some l
      else if c = '\r' then some { l with scan := .trim chars true }
      else l.stepBlock .basic chars 0 c
  | .trim chars true => if c = '\n' then some { l with scan := .trim chars false } else none

/-- The tokens at the end of the text. -/
def finish (l : Lexer) : Option (List Token) :=
  match l.scan with
  | .between | .comment => some l.tokens.reverse
  | .word chars => some (l.emitWord chars).tokens.reverse
  | .dateBlank chars => some ((l.emitWord chars).emit .blank).tokens.reverse
  | .opening _ true => some (l.emitString false []).tokens.reverse
  | .block quote chars quotes =>
      if 3 ≤ quotes then some (l.emitBlock quote chars quotes).tokens.reverse else none
  | _ => none

end Lexer

/-- The mark that may stand at the start of a text to tell its encoding. -/
def byteOrderMark : Char := Char.ofNat 0xFEFF

/-- The tokens of a text. -/
def tokens? (text : String) : Option (List Token) :=
  let chars :=
    match text.toList with
    | c :: rest => if c = byteOrderMark then rest else c :: rest
    | [] => []
  (chars.foldlM Lexer.step ⟨[], .between⟩).bind Lexer.finish

end FlatBundle.Toml
