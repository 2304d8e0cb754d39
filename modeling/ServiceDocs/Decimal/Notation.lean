import ServiceDocs.Decimal.Shortest

/-!
# Written Forms of Numbers

How the digits of a double are laid out: positionally while the exponent is moderate, in
scientific form otherwise. The two output formats agree on where the one form ends and
the other begins and differ in the sign of a positive exponent, which the `Layout` holds.

## Main definitions

* `Layout`: the decisions of one output format.
* `Binary64.render`: the text of a double in a layout.
-/

namespace ServiceDocs

/-- The decisions of a format about the text of a double. -/
structure Layout where
  /-- The least exponent of the leading digit that is written positionally. -/
  leastPositional : Int
  /-- The greatest exponent of the leading digit that is written positionally. -/
  greatestPositional : Int
  /-- What stands before an exponent that is not negative. -/
  plus : String
  /-- The text of an infinity without its sign. -/
  infinity : String
  /-- The text of an undefined number. -/
  undefined : String

/-- The text of a natural number in base ten. -/
def digitsText (n : Nat) : String := String.ofList (Nat.toDigits 10 n)

/-- The text of an integer in base ten. -/
def integerText (i : Int) : String :=
  if i < 0 then "-" ++ digitsText i.natAbs else digitsText i.natAbs

namespace Layout

/-- Digits with a point after the place of `10 ^ 0`, and at least one digit on each side. -/
def positional (digits : List Char) (exponent : Int) : List Char :=
  if 0 ≤ exponent then digits ++ List.replicate exponent.toNat '0' ++ ['.', '0']
  else
    let places := (-exponent).toNat
    if places < digits.length then
      digits.take (digits.length - places) ++ '.' :: digits.drop (digits.length - places)
    else '0' :: '.' :: List.replicate (places - digits.length) '0' ++ digits

/-- One digit, a point and the others, and the exponent of the first digit. -/
def scientific (layout : Layout) (digits : List Char) (lead : Int) : String :=
  let mantissa := match digits with
    | [] => []
    | [d] => [d]
    | d :: rest => d :: '.' :: rest
  let sign := if lead < 0 then "" else layout.plus
  String.ofList mantissa ++ "e" ++ sign ++ integerText lead

/-- The text of a decimal. -/
def decimal (layout : Layout) (d : Decimal) : String :=
  let digits := Nat.toDigits 10 d.digits
  let lead := d.exponent + (digits.length : Int) - 1
  if layout.leastPositional ≤ lead && lead ≤ layout.greatestPositional then
    String.ofList (positional digits d.exponent)
  else layout.scientific digits lead

end Layout

/-- The text of a double: the fewest digits that read back, in the form that the layout
asks for. A zero keeps its sign. -/
def Binary64.render (layout : Layout) : Binary64 → String
  | .finite negative mantissa exponent =>
    let sign := if negative then "-" else ""
    if mantissa == 0 then sign ++ "0.0"
    else sign ++ layout.decimal (.shortest mantissa exponent)
  | .infinite negative => (if negative then "-" else "") ++ layout.infinity
  | .nan => layout.undefined

end ServiceDocs
