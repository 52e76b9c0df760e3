/-
  FlatBundle.Decimal.Double
  ─────────────────────────
  **BINARY64 NUMBERS AS EXACT FRACTIONS.**

  A finite double is `± m · 2^q` with natural `m`; its 64 bits are a sign, an
  exponent field and a fraction.  Everything here is exact arithmetic on
  natural numbers:

    • `parts` reads `m` and `q` from the bits,
    • `nearest` gives the bits of the double nearest to a fraction, a tie going
      to the even `m`.

  The bits of doubles of one sign are ordered as their values are, so rounding
  up past the last fraction of an exponent carries into the exponent field.
-/
namespace FlatBundle.Decimal

/-! ## §1. The bits -/

/-- The number of bits of the fraction. -/
def fractionBits : Nat := 52

/-- The exponent of the last place of the smallest doubles. -/
def leastExponent : Int := -1074

/-- The bits of infinity without its sign: the first that is no finite number. -/
def infinity : Nat := 0x7FF * Nat.pow 2 fractionBits

/-- The sign bit. -/
def signBit : Nat := Nat.pow 2 63

/-- Whether the bits have the sign bit set. -/
def isNegative (bits : UInt64) : Bool := signBit ≤ bits.toNat

/-- The bits without the sign. -/
def magnitude (bits : UInt64) : Nat := bits.toNat % signBit

/-- The natural `m` and the exponent `q` of the value `m · 2^q` that the bits of
a finite double stand for, sign aside. -/
def parts (magnitude : Nat) : Nat × Int :=
  let fraction := magnitude % Nat.pow 2 fractionBits
  match magnitude / Nat.pow 2 fractionBits with
  | 0 => (fraction, leastExponent)
  | field + 1 => (Nat.pow 2 fractionBits + fraction, leastExponent + field)

/-! ## §2. Rounding a fraction to a double -/

/-- The whole number nearest to `num / den`, a tie going to the even one. -/
def roundHalfEven (num den : Nat) : Nat :=
  let low := num / den
  let rest := num % den
  if 2 * rest < den then low
  else if 2 * rest = den then low + low % 2
  else low + 1

/-- The fraction `num / den` divided by `2^q`. -/
def scaleDown (num den : Nat) (q : Int) : Nat × Nat :=
  (num * Nat.pow 2 (-q).toNat, den * Nat.pow 2 q.toNat)

/-- The largest `k` with `2^k ≤ num / den`, for a positive fraction. -/
def floorLog2 (num den : Nat) : Int :=
  let guess : Int := (num.log2 : Int) - den.log2
  let scaled := scaleDown num den guess
  if scaled.2 ≤ scaled.1 then guess else guess - 1

/-- The bits of the double nearest to the fraction `num / den`, or `infinity`
and beyond where the fraction is too large. -/
def nearest (num den : Nat) : Nat :=
  if num = 0 then 0
  else
    let q := max (floorLog2 num den - fractionBits) leastExponent
    let scaled := scaleDown num den q
    (q - leastExponent).toNat * Nat.pow 2 fractionBits + roundHalfEven scaled.1 scaled.2

/-! ## §3. Reading a decimal -/

/-- The bits of the double nearest to `digits · 10^exponent`; none where it is
too large.  `places` is the number of decimal digits of `digits`: it settles the
far ends without computing a power. -/
def ofDecimal? (negative : Bool) (digits places : Nat) (exponent : Int) : Option UInt64 :=
  let sign := if negative then signBit else 0
  let reach : Int := places + exponent
  if digits = 0 ∨ reach < -400 then some (UInt64.ofNat sign)
  else if 400 < reach then none
  else
    let bits := nearest (digits * Nat.pow 10 exponent.toNat) (Nat.pow 10 (-exponent).toNat)
    if bits < infinity then some (UInt64.ofNat (sign + bits)) else none

end FlatBundle.Decimal
