import ServiceDocs.Decimal.Binary64

/-!
# The Shortest Decimal of a Double

A double is written with the fewest decimal digits that still read back as the same
double. Around a double lies the interval of reals that round to it; its ends belong to
it exactly when the mantissa is even. For each number of digits there is a grid of
decimals, and the two grid points next to the value are the candidates: the first grid
with a candidate inside the interval wins, and of two candidates the nearer.

## Main definitions

* `Decimal`: digits and a power of ten.
* `Decimal.shortest`: the shortest decimal of a positive finite double.
-/

namespace ServiceDocs

/-- The decimal number `digits · 10 ^ exponent`. -/
structure Decimal where
  /-- The digits, read as a natural number. -/
  digits : Nat
  /-- The power of ten that they count. -/
  exponent : Int
  deriving DecidableEq, Repr

namespace Decimal

/-- Compares two quotients: whether `a / b < c / d`. -/
def ratioLt (p q : Nat × Nat) : Bool := p.1 * q.2 < q.1 * p.2

/-- The quotient `digits · 10 ^ exponent`. -/
def ratio (d : Decimal) : Nat × Nat :=
  if 0 ≤ d.exponent then (d.digits * Nat.pow 10 d.exponent.toNat, 1)
  else (d.digits, Nat.pow 10 (-d.exponent).toNat)

/-- The reals that round to one double. -/
structure Interval where
  /-- The lower end. -/
  low : Nat × Nat
  /-- The upper end. -/
  high : Nat × Nat
  /-- Whether the ends belong to it. -/
  closed : Bool

/-- Whether a quotient lies in an interval. -/
def Interval.holds (i : Interval) (p : Nat × Nat) : Bool :=
  if i.closed then !(ratioLt p i.low) && !(ratioLt i.high p)
  else ratioLt i.low p && ratioLt p i.high

/-- The interval of reals that round to `mantissa · 2 ^ exponent`. Below a power of two the
doubles lie twice as close, so the lower end is nearer there. -/
def Interval.around (mantissa : Nat) (exponent : Int) : Interval :=
  let low :=
    if mantissa == 1 <<< 52 && Binary64.leastExponent < exponent then
      Binary64.magnitudeRatio (4 * mantissa - 1) (exponent - 2)
    else Binary64.magnitudeRatio (2 * mantissa - 1) (exponent - 1)
  { low, high := Binary64.magnitudeRatio (2 * mantissa + 1) (exponent - 1),
    closed := mantissa % 2 == 0 }

/-- Removes the zeros at the end of the digits, at most `fuel` of them. -/
def trim : Nat → Decimal → Decimal
  | 0, d => d
  | fuel + 1, d =>
    if d.digits != 0 && d.digits % 10 == 0 then trim fuel ⟨d.digits / 10, d.exponent + 1⟩ else d

/-- The greatest `p` with `10 ^ p ≤ num / den`, searched upwards from a lower bound. -/
def magnitudeFrom (num den : Nat) : Nat → Int → Int
  | 0, p => p
  | fuel + 1, p =>
    if ratioLt (num, den) (ratio ⟨1, p + 1⟩) then p else magnitudeFrom num den fuel (p + 1)

/-- The exponent of the leading decimal digit of a quotient. -/
def magnitude (num den : Nat) : Int :=
  let bits : Int := (Nat.log2 num : Int) - (Nat.log2 den : Int) - 1
  magnitudeFrom num den 4 (Int.fdiv (bits * 30103) 100000 - 1)

/-- The candidate on the grid of `10 ^ exponent` next to `num / den` that lies in the
interval, the nearer of two; a tie goes to the even one. -/
def onGrid (i : Interval) (num den : Nat) (exponent : Int) : Option Decimal :=
  let unit := ratio ⟨1, exponent⟩
  let n := num * unit.2
  let d := den * unit.1
  let below : Decimal := ⟨n / d, exponent⟩
  let above : Decimal := ⟨n / d + 1, exponent⟩
  let fits := fun c : Decimal => c.digits != 0 && i.holds c.ratio
  match fits below, fits above with
  | true, true =>
    let twice := 2 * (n % d)
    if twice < d || (twice == d && (n / d) % 2 == 0) then some below else some above
  | true, false => some below
  | false, true => some above
  | false, false => none

/-- Tries grids of more and more digits. -/
def search (i : Interval) (num den : Nat) (lead : Int) : Nat → Nat → Decimal
  | 0, digits => ⟨num * Nat.pow 10 digits / den, -(digits : Int)⟩
  | fuel + 1, digits =>
    match onGrid i num den (lead - (digits : Int) + 1) with
    | some d => d
    | none => search i num den lead fuel (digits + 1)

/-- The decimal with the fewest digits that rounds to the positive double
`mantissa · 2 ^ exponent`, and among those the nearest to it. -/
def shortest (mantissa : Nat) (exponent : Int) : Decimal :=
  let (num, den) := Binary64.magnitudeRatio mantissa exponent
  trim 20 (search (.around mantissa exponent) num den (magnitude num den) 17 1)

end Decimal

end ServiceDocs
