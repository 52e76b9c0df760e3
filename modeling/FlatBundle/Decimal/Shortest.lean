/-
  FlatBundle.Decimal.Shortest
  ───────────────────────────
  **THE SHORTEST DECIMAL THAT READS BACK AS A GIVEN DOUBLE.**

  The reals that round to `m · 2^q` form an interval around it, whose ends
  belong to it iff `m` is even.  For one digit, two digits, … the two
  neighbours of the value on the grid of decimals with that many digits are
  tested against the interval; the first grid with a hit gives the answer, the
  nearer neighbour if both hit, and the even one of an exact tie.

  If any point of a grid lies in the interval then one of the value's two
  neighbours on that grid does, so no shorter decimal reads back.  All
  comparisons are exact.
-/
import FlatBundle.Decimal.Double

namespace FlatBundle.Decimal

/-! ## §1. Comparing decimals with binary fractions -/

/-- `a · 10^p` and `b · 2^r` on one scale. -/
def commonScale (a : Nat) (p : Int) (b : Nat) (r : Int) : Nat × Nat :=
  (a * Nat.pow 10 p.toNat * Nat.pow 2 (-r).toNat, b * Nat.pow 2 r.toNat * Nat.pow 10 (-p).toNat)

/-- The interval of a double, in quarters of its last place: its lower end, its
upper end, and whether the ends belong to it.  Below a power of two the
neighbour is half as far away. -/
def interval (m : Nat) (q : Int) : Nat × Nat × Bool :=
  let low :=
    if m = Nat.pow 2 fractionBits ∧ leastExponent < q then 4 * m - 1 else 4 * m - 2
  (low, 4 * m + 2, m % 2 = 0)

/-- Whether `c · 10^p` rounds to `m · 2^q`. -/
def roundsTo (m : Nat) (q : Int) (c : Nat) (p : Int) : Bool :=
  let (low, high, closed) := interval m q
  let atLow := commonScale c p low (q - 2)
  let atHigh := commonScale c p high (q - 2)
  if closed then atLow.2 ≤ atLow.1 && atHigh.1 ≤ atHigh.2
  else atLow.2 < atLow.1 && atHigh.1 < atHigh.2

/-! ## §2. The two neighbours on a decimal grid -/

/-- The largest multiple of `10^p` that is at most `m · 2^q`, in units of
`10^p`. -/
def gridFloor (m : Nat) (q p : Int) : Nat :=
  let scaled := commonScale 1 p m q
  scaled.2 / scaled.1

/-- The neighbour of `m · 2^q` on the grid of multiples of `10^p` that rounds to
it, the nearer one if both do. -/
def gridHit? (m : Nat) (q p : Int) : Option Nat :=
  let below := gridFloor m q p
  let above := below + 1
  match roundsTo m q below p, roundsTo m q above p with
  | false, false => none
  | true, false => some below
  | false, true => some above
  | true, true =>
      let twice := commonScale (below + above) p (2 * m) q
      if twice.2 < twice.1 then some below
      else if twice.1 < twice.2 then some above
      else if below % 2 = 0 then some below else some above

/-- The number of digits that a positive `m · 2^q` has before its point (zero or
less for a value below one tenth): the least `e` with `m · 2^q < 10^e`. -/
def integerDigits (m : Nat) (q : Int) : Int :=
  let guess : Int := ((m.log2 : Int) + q) * 30103 / 100000
  let exceeds (e : Int) : Bool :=
    let scaled := commonScale 1 e m q
    scaled.2 < scaled.1
  if exceeds (guess - 1) then guess - 1
  else if exceeds guess then guess
  else if exceeds (guess + 1) then guess + 1
  else guess + 2

/-- Seventeen digits always tell a double from its neighbours. -/
def mostDigits : Nat := 17

/-- The shortest decimal `c · 10^p` that rounds to a positive `m · 2^q`, nearest
of those. -/
def shortest (m : Nat) (q : Int) : Nat × Int :=
  let size := integerDigits m q
  let grids := (List.range mostDigits).map fun (n : Nat) => size - (n + 1)
  let hit? := grids.findSome? fun p => (gridHit? m q p).map fun c => (c, p)
  hit?.getD (gridFloor m q (size - mostDigits), size - mostDigits)

/-! ## §3. Layout -/

/-- How a decimal is laid out: the exponents of the leading digit, least and
greatest, for which the point is written in its place. -/
structure Layout where
  /-- The least exponent written positionally. -/
  least : Int
  /-- The greatest exponent written positionally. -/
  greatest : Int

/-- The digits of a decimal without the zeros at its end, and the exponent of
the leading digit. -/
def significant (c : Nat) (p : Int) : List Char × Int :=
  let all := Nat.toDigits 10 c
  ((all.reverse.dropWhile (· = '0')).reverse, p + all.length - 1)

/-- Digits with the point in its place; at least one digit stands on either
side. -/
def positional (digits : List Char) (exponent : Int) : List Char :=
  if exponent < 0 then
    '0' :: '.' :: (List.replicate (-exponent - 1).toNat '0' ++ digits)
  else
    let whole := exponent.toNat + 1
    let fraction := digits.drop whole
    digits.take whole ++ List.replicate (whole - digits.length) '0'
      ++ '.' :: (if fraction = [] then ['0'] else fraction)

/-- The first digit, the point and the others if there are any, and a signed
power of ten. -/
def scientific (digits : List Char) (exponent : Int) : List Char :=
  let body :=
    match digits with
    | first :: second :: rest => first :: '.' :: second :: rest
    | few => few
  body ++ 'e' :: (if exponent < 0 then '-' else '+') :: Nat.toDigits 10 exponent.natAbs

/-- The text of a finite double in a layout. -/
def Layout.write (layout : Layout) (bits : UInt64) : List Char :=
  let sign := if isNegative bits then ['-'] else []
  let (m, q) := parts (magnitude bits)
  if m = 0 then sign ++ positional ['0'] 0
  else
    let (c, p) := shortest m q
    let (digits, exponent) := significant c p
    sign ++
      if layout.least ≤ exponent ∧ exponent ≤ layout.greatest then positional digits exponent
      else scientific digits exponent

end FlatBundle.Decimal
