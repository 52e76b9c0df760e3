/-
  FlatBundle.Toml.Scalar
  ──────────────────────
  **WHICH WORDS ARE VALUES.**

  Besides strings, a value without parts is a truth value, a number, a date, a
  time of day or both.  Only whether a word is one of them matters here, so each
  form is a test on characters.
-/
import FlatBundle.Json.Token

namespace FlatBundle.Toml

/-! ## §1. Numbers -/

/-- Digits with single underscores between them, at least one digit. -/
def isDigits (isDigit : Char → Bool) : List Char → Bool
  | [] => false
  | [c] => isDigit c
  | c :: '_' :: rest => isDigit c && isDigits isDigit rest
  | c :: rest => isDigit c && isDigits isDigit rest

/-- A word without its sign, and whether the sign is a minus. -/
def splitSign : List Char → Bool × List Char
  | '-' :: cs => (true, cs)
  | '+' :: cs => (false, cs)
  | cs => (false, cs)

/-- A whole number in decimal without sign: no zero in front of others. -/
def isWhole (cs : List Char) : Bool :=
  isDigits Char.isDigit cs && (cs.head? ≠ some '0' || cs = ['0'])

/-- The value of digits in a base, underscores aside. -/
def valueOf (base : Nat) (cs : List Char) : Nat :=
  cs.foldl (fun n c => ((Json.hexDigit? c).map (base * n + ·)).getD n) 0

/-- A whole number, in decimal with a sign or in another base without, that
64 bits with a sign can hold. -/
def isInteger (word : List Char) : Bool :=
  match word with
  | '0' :: 'x' :: cs =>
      isDigits (fun c => (Json.hexDigit? c).isSome) cs && valueOf 16 cs < Nat.pow 2 63
  | '0' :: 'o' :: cs => isDigits (fun c => '0' ≤ c && c ≤ '7') cs && valueOf 8 cs < Nat.pow 2 63
  | '0' :: 'b' :: cs => isDigits (fun c => c = '0' || c = '1') cs && valueOf 2 cs < Nat.pow 2 63
  | _ =>
      let (negative, cs) := splitSign word
      isWhole cs && valueOf 10 cs < Nat.pow 2 63 + (if negative then 1 else 0)

/-- Digits and underscores at the start of a text, and the rest. -/
def spanDigits (cs : List Char) : List Char × List Char :=
  cs.span fun c => c.isDigit || c = '_'

/-- The exponent of a number: none if it is ill formed, zero if there is none. -/
def exponent? : List Char → Option Int
  | [] => some 0
  | e :: cs =>
      let (negative, digits) := splitSign cs
      if (e = 'e' ∨ e = 'E') ∧ isDigits Char.isDigit digits then
        let value : Int := valueOf 10 digits
        some (if negative then -value else value)
      else none

/-- The digits after the point and the exponent of a number with at least one of
them. -/
def fractionAndExponent? : List Char → Option (List Char × Int)
  | [] => none
  | '.' :: cs =>
      let (digits, rest) := spanDigits cs
      if isDigits Char.isDigit digits then (exponent? rest).map (digits, ·) else none
  | cs => (exponent? cs).map ([], ·)

/-- A number with a point or an exponent that is not too large upward, or a name
of a number that is none. -/
def isFloat (word : List Char) : Bool :=
  let (negative, cs) := splitSign word
  if cs = ['i', 'n', 'f'] ∨ cs = ['n', 'a', 'n'] then true
  else
    let (whole, rest) := spanDigits cs
    match isWhole whole, fractionAndExponent? rest with
    | true, some (fraction, exponent) =>
        let digits := (whole ++ fraction).filter (· ≠ '_')
        let places := (digits.dropWhile (· = '0')).length
        let fractionPlaces := (fraction.filter (· ≠ '_')).length
        negative
          || (Decimal.ofDecimal? false (valueOf 10 digits) places
            (exponent - fractionPlaces)).isSome
    | _, _ => false

/-! ## §2. Dates and times -/

/-- The number of two digits. -/
def twoDigits? (a b : Char) : Option Nat :=
  if a.isDigit && b.isDigit then some (valueOf 10 [a, b]) else none

/-- The number of days of a month. -/
def daysIn (year month : Nat) : Nat :=
  if month = 2 then
    if year % 4 = 0 ∧ (year % 100 ≠ 0 ∨ year % 400 = 0) then 29 else 28
  else if month = 4 ∨ month = 6 ∨ month = 9 ∨ month = 11 then 30
  else 31

/-- The text after a date at its start. -/
def date? : List Char → Option (List Char)
  | a :: b :: c :: d :: '-' :: e :: f :: '-' :: g :: h :: rest => do
      let century ← twoDigits? a b
      let year := 100 * century + (← twoDigits? c d)
      let month ← twoDigits? e f
      let day ← twoDigits? g h
      if 1 ≤ month ∧ month ≤ 12 ∧ 1 ≤ day ∧ day ≤ daysIn year month then some rest else none
  | _ => none

/-- The text after a time of day at its start; the second 60 is a leap
second. -/
def time? : List Char → Option (List Char)
  | a :: b :: ':' :: c :: d :: ':' :: e :: f :: rest => do
      let hour ← twoDigits? a b
      let minute ← twoDigits? c d
      let second ← twoDigits? e f
      if hour < 24 ∧ minute < 60 ∧ second ≤ 60 then
        match rest with
        | '.' :: fraction =>
            let (digits, rest) := fraction.span Char.isDigit
            if digits = [] then none else some rest
        | _ => some rest
      else none
  | _ => none

/-- The offset of a time from universal time. -/
def isOffset : List Char → Bool
  | [] => true
  | [z] => z = 'Z' || z = 'z'
  | [sign, a, b, ':', c, d] =>
      (sign = '+' || sign = '-')
        && (twoDigits? a b).any (· < 24) && (twoDigits? c d).any (· < 60)
  | _ => false

/-- A date, a time of day, or a date with a time and perhaps an offset. -/
def isDateTime (word : List Char) : Bool :=
  match date? word with
  | some [] => true
  | some (mark :: rest) =>
      (mark = 'T' || mark = 't' || mark = ' ') && (time? rest).any isOffset
  | none => time? word = some []

/-! ## §3. Words -/

/-- Whether a word is a value. -/
def isScalar (word : List Char) : Bool :=
  word = ['t', 'r', 'u', 'e'] || word = ['f', 'a', 'l', 's', 'e'] || isInteger word
    || isFloat word || isDateTime word

end FlatBundle.Toml
