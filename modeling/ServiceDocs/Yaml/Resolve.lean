import ServiceDocs.Reading.Node

/-!
# What a Plain Scalar Means

A scalar that is written without quotes and without a tag may stand for null, a truth
value or a number. `Scalar.resolve` decides it; every other scalar is a text. A scalar
with a standard tag is of the kind that the tag names, or an error. A tag of the writer's
own that is no text does not count.

Integers are decimal, or have one of the marks `0x`, `0o` and `0b`. Digits that begin with
a superfluous zero are no number. An integer between `2 ^ 64` and `2 ^ 128` is recognised
as an integer, but there is no value for it.

## Main definitions

* `Yaml.isNullWord`, `Yaml.boolWord?`, `Yaml.integerWord?`, `Yaml.floatWord?`: the words.
* `Scalar.resolve`: the meaning of a scalar.
-/

namespace ServiceDocs

namespace Yaml

/-- Whether a text is a word for null. -/
def isNullWord (s : String) : Bool := s == "~" || s == "null" || s == "Null" || s == "NULL"

/-- The truth value that a text is a word for. -/
def boolWord? (s : String) : Option Bool :=
  if s == "true" || s == "True" || s == "TRUE" then some true
  else if s == "false" || s == "False" || s == "FALSE" then some false
  else none

/-- The value of a digit in a base up to sixteen. -/
def digitIn? (base : Nat) (c : Char) : Option Nat :=
  let v :=
    if '0' ≤ c && c ≤ '9' then c.toNat - '0'.toNat
    else if 'a' ≤ c && c ≤ 'f' then c.toNat - 'a'.toNat + 10
    else if 'A' ≤ c && c ≤ 'F' then c.toNat - 'A'.toNat + 10
    else base
  if v < base then some v else none

/-- The number that digits spell, at least one of them. -/
def naturalIn? (base : Nat) (cs : List Char) : Option Nat :=
  if cs.isEmpty then none
  else cs.foldl (fun acc c => do return base * (← acc) + (← digitIn? base c)) (some 0)

/-- Whether a character is a decimal digit. -/
def isDecimal (c : Char) : Bool := '0' ≤ c && c ≤ '9'

/-- Digits after a superfluous zero, with or without a sign: not a number. -/
def isZeroPadded (cs : List Char) : Bool :=
  let body := match cs with
    | '-' :: rest => rest
    | '+' :: rest => rest
    | cs => cs
  match body with
  | '0' :: d :: rest => (d :: rest).all isDecimal
  | _ => false

/-- The digits of a number with a mark for its base. -/
def marked? (cs : List Char) : Option Nat :=
  match cs with
  | '0' :: 'x' :: rest => naturalIn? 16 rest
  | '0' :: 'o' :: rest => naturalIn? 8 rest
  | '0' :: 'b' :: rest => naturalIn? 2 rest
  | _ => none

/-- The integer that a text is a word for. -/
def integerWord? (s : String) : Option Int :=
  let cs := s.toList
  let unsigned := match cs with
    | '+' :: rest => rest
    | cs => cs
  let positive : Option Nat :=
    match marked? unsigned with
    | some n => some n
    | none => if isZeroPadded cs then none else naturalIn? 10 unsigned
  let negative : Option Nat :=
    match cs with
    | '-' :: rest =>
      match marked? rest with
      | some n => some n
      | none => if isZeroPadded cs then none else naturalIn? 10 rest
    | _ => none
  match positive, negative with
  | some n, _ => if n < 1 <<< 128 then some n else none
  | none, some n => if n ≤ 1 <<< 127 then some (-(n : Int)) else none
  | none, none => none

/-- The digits of a decimal number with an optional point and exponent. -/
def decimalWord? (negative : Bool) (cs : List Char) : Option Binary64 := do
  let whole := cs.takeWhile isDecimal
  let rest := cs.dropWhile isDecimal
  let (places, rest) := match rest with
    | '.' :: rest => (rest.takeWhile isDecimal, rest.dropWhile isDecimal)
    | rest => ([], rest)
  let digits ← naturalIn? 10 (whole ++ places)
  let exponent : Int ← match rest with
    | [] => some 0
    | c :: rest =>
      if c = 'e' || c = 'E' then
        match rest with
        | '+' :: rest => (naturalIn? 10 rest).map Int.ofNat
        | '-' :: rest => (naturalIn? 10 rest).map fun n => -(n : Int)
        | rest => (naturalIn? 10 rest).map Int.ofNat
      else none
  return .ofDecimal negative digits (exponent - places.length)

/-- The double that a text is a word for. A decimal too great for a double is no number. -/
def floatWord? (s : String) : Option Binary64 :=
  if s == ".inf" || s == ".Inf" || s == ".INF" then some (.infinite false)
  else if s == "+.inf" || s == "+.Inf" || s == "+.INF" then some (.infinite false)
  else if s == "-.inf" || s == "-.Inf" || s == "-.INF" then some (.infinite true)
  else if s == ".nan" || s == ".NaN" || s == ".NAN" then some .nan
  else
    let double := match s.toList with
      | '+' :: rest => decimalWord? false rest
      | '-' :: rest => decimalWord? true rest
      | cs => decimalWord? false cs
    double.filter Binary64.isFinite

/-- The least integer that has a value. -/
def leastInteger : Int := -0x8000000000000000

/-- The greatest integer that has a value. -/
def greatestInteger : Int := 0xFFFFFFFFFFFFFFFF

/-- The tree of an integer. -/
def integerNode (i : Int) : Except Fault Node :=
  if leastInteger ≤ i && i ≤ greatestInteger then .ok (.number (.int i)) else .error .malformed

/-- The meaning of a plain text without a tag. -/
def resolvePlain (s : String) : Except Fault Node :=
  if s.isEmpty || isNullWord s then .ok .null
  else
    match boolWord? s with
    | some b => .ok (.bool b)
    | none =>
      match integerWord? s with
      | some i => integerNode i
      | none =>
        match if isZeroPadded s.toList then none else floatWord? s with
        | some d => .ok (.number (.float d))
        | none => .ok (.string s)

end Yaml

namespace Scalar

open Yaml

/-- The meaning of a scalar. A scalar with a tag that names a variant has none. -/
def resolve (s : Scalar) : Except Fault Node :=
  match s.tag with
  | none => if s.style = .plain then resolvePlain s.text else .ok (.string s.text)
  | some tag =>
    if tag.variant?.isSome then .error .malformed
    else if tag == .standard "bool" then
      match boolWord? s.text with
      | some b => .ok (.bool b)
      | none => .error .malformed
    else if tag == .standard "int" then
      match integerWord? s.text with
      | some i => integerNode i
      | none => .error .malformed
    else if tag == .standard "float" then
      match floatWord? s.text with
      | some d => .ok (.number (.float d))
      | none => .error .malformed
    else if tag == .standard "null" then
      if isNullWord s.text then .ok .null else .error .malformed
    else if tag.isOwn && s.style = .plain then resolvePlain s.text
    else .ok (.string s.text)

/-- Whether a scalar stands for null where a value may be absent. -/
def isAbsent (s : Scalar) : Except Fault Bool :=
  if s.style ≠ .plain then .ok false
  else
    match s.tag with
    | none => .ok (s.text.isEmpty || isNullWord s.text)
    | some tag =>
      if tag == .standard "null" then
        if isNullWord s.text then .ok true else .error .malformed
      else .ok false

/-- Whether a scalar is the empty plain one, which stands for an empty container. -/
def isEmptyPlain (s : Scalar) : Bool := s.style = .plain && s.text.isEmpty

/-- The truth value of a scalar that is read as one, whatever other tag it carries. -/
def truth? (s : Scalar) : Option Bool :=
  let fits := s.style = .plain || (s.style = .literal && s.tag == some (.standard "bool"))
  if fits then boolWord? s.text else none

end Scalar

end ServiceDocs
