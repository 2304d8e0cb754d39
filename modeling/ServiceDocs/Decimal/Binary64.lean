/-!
# Binary Floating Point Numbers of 64 Bits

A number that is not an integer is held as an IEEE 754 double. `Binary64` writes a finite
double as a sign, a mantissa and an exponent, so that every operation is integer
arithmetic and can be reasoned about. `ofRatio` is the only place where anything is
rounded: it takes an exact quotient to the nearest double, a tie going to the even
mantissa. Products and quotients of doubles are rounded quotients of their exact values.

## Main definitions

* `Binary64.ofRatio`: the double nearest to an exact quotient.
* `Binary64.mul`, `Binary64.div`: correctly rounded arithmetic.
* `Binary64.ofDecimal`: the double nearest to a decimal number.
-/

namespace ServiceDocs

/-- A double. A finite one has the value `± mantissa · 2 ^ exponent`, with a mantissa below
`2 ^ 53` and an exponent of at least `-1074`; the mantissa reaches `2 ^ 52` unless the
exponent is the least one. -/
inductive Binary64 where
  /-- A finite number. -/
  | finite (negative : Bool) (mantissa : Nat) (exponent : Int)
  /-- An infinity. -/
  | infinite (negative : Bool)
  /-- Not a number. -/
  | nan
  deriving DecidableEq, Repr

namespace Binary64

/-- The least exponent of a double. -/
def leastExponent : Int := -1074

/-- The greatest exponent of a double. -/
def greatestExponent : Int := 971

/-- Zero, with a sign. -/
def zero (negative : Bool) : Binary64 := .finite negative 0 leastExponent

instance : Inhabited Binary64 := ⟨zero false⟩

/-- Whether the number is neither infinite nor undefined. -/
def isFinite : Binary64 → Bool
  | .finite .. => true
  | _ => false

/-- Whether the number is a zero of either sign. -/
def isZero : Binary64 → Bool
  | .finite _ m _ => m == 0
  | _ => false

/-- The number with its sign turned round. -/
def negate : Binary64 → Binary64
  | .finite s m e => .finite (!s) m e
  | .infinite s => .infinite (!s)
  | .nan => .nan

/-- The exact quotient `num / den / 2 ^ e` as a pair of naturals. -/
def scaleRatio (num den : Nat) (e : Int) : Nat × Nat :=
  if 0 ≤ e then (num, den <<< e.toNat) else (num <<< (-e).toNat, den)

/-- The natural number nearest to a quotient, a tie going to the even one. -/
def roundHalfEven (num den : Nat) : Nat :=
  let q := num / den
  let r := num % den
  if den < 2 * r || (2 * r == den && q % 2 == 1) then q + 1 else q

/-- Collects a rounded mantissa: a carry out of 53 bits moves into the exponent, and an
exponent that is too great gives an infinity. -/
def pack (negative : Bool) (mantissa : Nat) (exponent : Int) : Binary64 :=
  let (m, e) := if mantissa == 1 <<< 53 then (1 <<< 52, exponent + 1) else (mantissa, exponent)
  if greatestExponent < e then .infinite negative else .finite negative m e

/-- The double nearest to `± num / den`, a tie going to the even mantissa. -/
def ofRatio (negative : Bool) (num den : Nat) : Binary64 :=
  if num == 0 then zero negative
  else
    let magnitude : Int := (Nat.log2 num : Int) - (Nat.log2 den : Int)
    let first := max (magnitude - 52) leastExponent
    let (n, d) := scaleRatio num den first
    if n / d < 1 <<< 52 && leastExponent < first then
      let (n', d') := scaleRatio num den (first - 1)
      pack negative (roundHalfEven n' d') (first - 1)
    else pack negative (roundHalfEven n d) first

/-- The double nearest to a natural number. -/
def ofNat (n : Nat) : Binary64 := ofRatio false n 1

/-- The double nearest to an integer. -/
def ofInt (i : Int) : Binary64 := ofRatio (i < 0) i.natAbs 1

/-- The magnitude `mantissa · 2 ^ exponent` as an exact quotient. -/
def magnitudeRatio (mantissa : Nat) (exponent : Int) : Nat × Nat :=
  if 0 ≤ exponent then (mantissa <<< exponent.toNat, 1) else (mantissa, 1 <<< (-exponent).toNat)

/-- The rounded product of two doubles. -/
def mul : Binary64 → Binary64 → Binary64
  | .finite s m e, .finite s' m' e' =>
    let (n, d) := magnitudeRatio (m * m') (e + e')
    ofRatio (s != s') n d
  | .infinite s, .finite s' m' _ => if m' == 0 then .nan else .infinite (s != s')
  | .finite s m _, .infinite s' => if m == 0 then .nan else .infinite (s != s')
  | .infinite s, .infinite s' => .infinite (s != s')
  | _, _ => .nan

/-- The rounded quotient of two doubles. -/
def div : Binary64 → Binary64 → Binary64
  | .finite s m e, .finite s' m' e' =>
    if m' == 0 then (if m == 0 then .nan else .infinite (s != s'))
    else
      let (n, d) := magnitudeRatio m (e - e')
      ofRatio (s != s') n (d * m')
  | .infinite s, .finite s' _ _ => .infinite (s != s')
  | .finite s _ _, .infinite s' => zero (s != s')
  | _, _ => .nan

/-- The double nearest to `± digits · 10 ^ exponent`. A decimal that is far outside the
range of doubles is settled without computing its power of ten. -/
def ofDecimal (negative : Bool) (digits : Nat) (exponent : Int) : Binary64 :=
  if digits == 0 then zero negative
  else if 400 < exponent then .infinite negative
  else if exponent < -400 - (Nat.log2 digits : Int) then zero negative
  else if 0 ≤ exponent then ofRatio negative (digits * Nat.pow 10 exponent.toNat) 1
  else ofRatio negative digits (Nat.pow 10 (-exponent).toNat)

end Binary64

end ServiceDocs
