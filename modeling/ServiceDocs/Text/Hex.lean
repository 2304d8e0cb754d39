/-!
# Hexadecimal Digits

Escapes of the output formats name a character by its code in base sixteen, with a fixed
number of digits or with as many as it needs, and escapes of the input formats are read
back from such digits.
-/

namespace ServiceDocs.Text

/-- The lower case digit of a value below sixteen. -/
def hexDigit (n : Nat) : Char := Nat.digitChar n

/-- The last `width` digits of a number in base sixteen, in lower case. -/
def hexFixed : Nat → Nat → List Char
  | 0, _ => []
  | width + 1, n => hexFixed width (n / 16) ++ [hexDigit (n % 16)]

/-- The last `width` digits of a number in base sixteen, in upper case. -/
def hexFixedUpper (width n : Nat) : List Char := (hexFixed width n).map Char.toUpper

/-- The digits of a number in base sixteen, as many as it needs. -/
def hex (n : Nat) : List Char := Nat.toDigits 16 n

/-- The value of a hexadecimal digit of either case. -/
def hexValue? (c : Char) : Option Nat :=
  if '0' ≤ c && c ≤ '9' then some (c.toNat - '0'.toNat)
  else if 'a' ≤ c && c ≤ 'f' then some (c.toNat - 'a'.toNat + 10)
  else if 'A' ≤ c && c ≤ 'F' then some (c.toNat - 'A'.toNat + 10)
  else none

/-- The number that a list of hexadecimal digits spells. -/
def readHex? (digits : List Char) : Option Nat :=
  digits.foldl (fun acc c => do return 16 * (← acc) + (← hexValue? c)) (some 0)

end ServiceDocs.Text
