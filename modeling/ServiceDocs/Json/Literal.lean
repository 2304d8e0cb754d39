import ServiceDocs.Json.Basic

/-!
# The Value of a Number Literal

A literal without point and exponent is an integer if it lies between `-2 ^ 63` and
`2 ^ 64 - 1`; a negative zero and every other literal is a double. The digits of a double
are collected into a significand of 64 bits: digits that no longer fit are dropped, and
the significand is then multiplied or divided by a power of ten in double arithmetic. The
result may therefore differ from the nearest double in its last bit. A literal too great
for a double has no value.

## Main definitions

* `NumberLiteral`: the parts of a literal.
* `NumberLiteral.value?`: its value.
-/

namespace ServiceDocs

/-- The parts of a number literal. -/
structure NumberLiteral where
  /-- Whether it begins with a minus sign. -/
  negative : Bool
  /-- The digits before the point. -/
  whole : List Char
  /-- The digits after the point, if there is one. -/
  fraction : Option (List Char)
  /-- The exponent, whether it is negative and its digits, if there is one. -/
  exponent : Option (Bool × List Char)
  deriving DecidableEq, Repr

namespace NumberLiteral

/-- The value of a decimal digit. -/
def digitValue (c : Char) : Nat := c.toNat - '0'.toNat

/-- The greatest significand. -/
def greatestSignificand : Nat := 0xFFFFFFFFFFFFFFFF

/-- The greatest number that an exponent is read up to. -/
def greatestExponent : Nat := 0x7FFFFFFF

/-- Appends digits to a significand while it stays in its range. Returns the significand
and the digits that no longer fit. -/
def collect (significand : Nat) : List Char → Nat × List Char
  | [] => (significand, [])
  | c :: rest =>
    if greatestSignificand < significand * 10 + digitValue c then (significand, c :: rest)
    else collect (significand * 10 + digitValue c) rest

/-- A power of ten as a double. -/
def powerOfTen (n : Nat) : Binary64 := .ofNat (Nat.pow 10 n)

/-- Scales a double by a power of ten, in steps of at most `10 ^ 308`. Nothing is returned
if the power is too great. -/
def scale (value : Binary64) (exponent : Int) : Nat → Option Binary64
  | 0 => some value
  | fuel + 1 =>
    if exponent.natAbs ≤ 308 then
      if 0 ≤ exponent then some (value.mul (powerOfTen exponent.natAbs))
      else some (value.div (powerOfTen exponent.natAbs))
    else if value.isZero then some value
    else if 0 ≤ exponent then none
    else scale (value.div (powerOfTen 308)) (exponent + 308) fuel

/-- The exponent that digits spell, unless it is out of range. -/
def readExponent (digits : List Char) : Option Nat :=
  let n := digits.foldl (fun acc c => min (acc * 10 + digitValue c) (greatestExponent + 1)) 0
  if greatestExponent < n then none else some n

/-- Keeps an exponent in the range of 32 bits. -/
def clampExponent (e : Int) : Int := max (-0x80000000) (min e 0x7FFFFFFF)

/-- The double of a literal without its sign. -/
def magnitude? (l : NumberLiteral) : Option Binary64 :=
  let (whole, dropped) := collect 0 l.whole
  let (significand, kept) := match l.fraction with
    | none => (whole, 0)
    | some digits =>
      let (s, rest) := collect whole digits
      (s, digits.length - rest.length)
  let start : Int := (dropped.length : Int) - (kept : Int)
  match l.exponent with
  | none => scale (.ofNat significand) start 8
  | some (negative, digits) =>
    match readExponent digits with
    | none => if significand == 0 || negative then some (.zero false) else none
    | some e =>
      let e : Int := if negative then -(e : Int) else e
      scale (.ofNat significand) (clampExponent (start + e)) 8

/-- The integer that the digits of a literal spell. -/
def wholeValue (l : NumberLiteral) : Nat :=
  l.whole.foldl (fun acc c => acc * 10 + digitValue c) 0

/-- The double of a literal, unless it is too great. -/
def double? (l : NumberLiteral) : Option Binary64 :=
  (l.magnitude?.map fun m => if l.negative then m.negate else m).filter (·.isFinite)

/-- The value of a literal, if it has one. -/
def value? (l : NumberLiteral) : Option Number :=
  let double := l.double?.map .float
  match l.fraction, l.exponent with
  | none, none =>
    let n := l.wholeValue
    if l.negative then
      if n == 0 || 1 <<< 63 < n then double else some (.int (-(n : Int)))
    else if n ≤ greatestSignificand then some (.int n) else double
  | _, _ => double

end NumberLiteral

end ServiceDocs
