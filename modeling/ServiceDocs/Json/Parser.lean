import ServiceDocs.Json.Literal
import ServiceDocs.Reading.Node
import ServiceDocs.Text.Hex

/-!
# Reading JSON Text

Takes a JSON text apart into a tree. A text that is not well formed has a tree as well:
it ends in a defect at the place that stops it. What is noticed only when a value is read
and not when it is passed over — half of a surrogate pair, a number out of range — is a
defect after which the text goes on.

The recursion is bounded by a number that is greater than any text of that length can
need, since every value takes at least one character.

## Main definitions

* `JsonText.tree`: the tree of a text, and whether anything follows it.
-/

namespace ServiceDocs.JsonText

/-- A tree and the text that follows, or nothing if the text cannot be read on. -/
abbrev Step := Node × Option (List Char)

/-- A defect at which the text stops. -/
def stop (start : Defect.Start) (whenRead whenSkipped : TextFault) : Step :=
  (.defect ⟨start, whenRead, some whenSkipped⟩, none)

/-- Whether a character is blank in JSON. -/
def isBlank (c : Char) : Bool := c == ' ' || c == '\n' || c == '\t' || c == '\r'

/-- Passes over blanks. -/
def skipBlanks (cs : List Char) : List Char := cs.dropWhile isBlank

/-! ### Words and numbers -/

/-- Reads the rest of a word. -/
def word (node : Node) : List Char → List Char → Step
  | [], cs => (node, some cs)
  | _ :: _, [] => stop .other .truncated .truncated
  | e :: es, c :: cs => if c = e then word node es cs else stop .other .malformed .malformed

/-- Whether a character is a decimal digit. -/
def isDigit (c : Char) : Bool := '0' ≤ c && c ≤ '9'

/-- The value of a literal: a defect if it is out of range. -/
def literal (l : NumberLiteral) (rest : List Char) : Step :=
  match l.value? with
  | some n => (.number n, some rest)
  | none => (.defect ⟨.other, .malformed, none⟩, some rest)

/-- The fault of a number that lacks a digit. -/
def lackingDigit (rest : List Char) : Step :=
  stop .other (if rest.isEmpty then .truncated else .malformed) .malformed

/-- Reads the sign of an exponent: whether it is negative, and what follows it. -/
def exponentSign : List Char → Bool × List Char
  | '+' :: rest => (false, rest)
  | '-' :: rest => (true, rest)
  | rest => (false, rest)

/-- Reads the exponent of a number. -/
def exponent (l : NumberLiteral) (cs : List Char) : Step :=
  match cs with
  | c :: rest =>
    if c = 'e' || c = 'E' then
      let (negative, rest) := exponentSign rest
      let digits := rest.takeWhile isDigit
      if digits.isEmpty then lackingDigit rest
      else literal { l with exponent := some (negative, digits) } (rest.dropWhile isDigit)
    else literal l cs
  | [] => literal l cs

/-- Reads the fraction of a number and what follows it. -/
def fraction (l : NumberLiteral) (cs : List Char) : Step :=
  match cs with
  | '.' :: rest =>
    let digits := rest.takeWhile isDigit
    if digits.isEmpty then lackingDigit rest
    else exponent { l with fraction := some digits } (rest.dropWhile isDigit)
  | _ => exponent l cs

/-- Reads a number after its sign. A zero is not followed by another digit. -/
def number (negative : Bool) (cs : List Char) : Step :=
  let digits := cs.takeWhile isDigit
  let rest := cs.dropWhile isDigit
  match digits with
  | [] => lackingDigit cs
  | '0' :: _ :: _ => stop .other .malformed .malformed
  | _ => fraction ⟨negative, digits, none, none⟩ rest

/-! ### Strings -/

/-- The four digits of a code escape. -/
def codeUnit (cs : List Char) : Except TextFault (Nat × List Char) :=
  let four := cs.take 4
  if four.foldl (fun count c => count + c.utf8Size) 0 < 4 then .error .truncated
  else if four.length < 4 then .error .malformed
  else
    match Text.readHex? four with
    | some n => .ok (n, cs.drop 4)
    | none => .error .malformed

/-- Whether a code unit is the first half of a surrogate pair. -/
def isHighSurrogate (n : Nat) : Bool := 0xD800 ≤ n && n ≤ 0xDBFF

/-- Whether a code unit is the second half of a surrogate pair. -/
def isLowSurrogate (n : Nat) : Bool := 0xDC00 ≤ n && n ≤ 0xDFFF

/-- The character of a surrogate pair. -/
def pairedChar (high low : Nat) : Char :=
  Char.ofNat (0x10000 + (high - 0xD800) * 0x400 + (low - 0xDC00))

/-- The character that a backslash makes of another one. -/
def simpleEscape? (c : Char) : Option Char :=
  match c with
  | '"' => some '"'
  | '\\' => some '\\'
  | '/' => some '/'
  | 'b' => some (Char.ofNat 0x08)
  | 'f' => some (Char.ofNat 0x0C)
  | 'n' => some '\n'
  | 'r' => some '\r'
  | 't' => some '\t'
  | _ => none

/-- What an escape stands for. -/
inductive Escape where
  /-- A character, and the text after the escape. -/
  | char (c : Char) (rest : List Char)
  /-- Half of a surrogate pair, and the text after it. -/
  | half (rest : List Char)
  /-- No escape: what a reader and what a skipper finds. -/
  | fault (whenRead whenSkipped : TextFault)

/-- Reads the second half of a surrogate pair. -/
def secondHalf (high : Nat) (cs : List Char) : Escape :=
  match cs with
  | [] => .fault .truncated .truncated
  | '\\' :: [] => .fault .truncated .truncated
  | '\\' :: 'u' :: rest =>
    match codeUnit rest with
    | .error f => .fault f f
    | .ok (low, rest) =>
      if isLowSurrogate low then .char (pairedChar high low) rest else .half rest
  | _ => .half cs

/-- Reads an escape after its backslash. -/
def escape (cs : List Char) : Escape :=
  match cs with
  | [] => .fault .truncated .truncated
  | 'u' :: rest =>
    match codeUnit rest with
    | .error f => .fault f f
    | .ok (n, rest) =>
      if isLowSurrogate n then .half rest
      else if isHighSurrogate n then secondHalf n rest
      else .char (Char.ofNat n) rest
  | c :: rest =>
    match simpleEscape? c with
    | some e => .char e rest
    | none => .fault .malformed .malformed

/-- Reads a string after its opening quote. `read` holds the characters so far, last first,
and `whole` whether they are free of halves of surrogate pairs. -/
def string : Nat → Bool → List Char → List Char → Step
  | 0, _, _, _ => stop .string .truncated .truncated
  | fuel + 1, whole, read, cs =>
    let fail := fun whenRead whenSkipped : TextFault =>
      stop .string (if whole then whenRead else .malformed) whenSkipped
    match cs with
    | [] => fail .truncated .truncated
    | '"' :: rest =>
      if whole then (.string (String.ofList read.reverse), some rest)
      else (.defect ⟨.string, .malformed, none⟩, some rest)
    | '\\' :: rest =>
      match escape rest with
      | .char c rest => string fuel whole (c :: read) rest
      | .half rest => string fuel false read rest
      | .fault whenRead whenSkipped => fail whenRead whenSkipped
    | c :: rest =>
      if c.toNat < 0x20 then fail .malformed .malformed else string fuel whole (c :: read) rest

/-! ### Values -/

/-- A place where no value begins. -/
def absent (fault : TextFault) : Step := stop .nothing fault fault

/-- Reads the colon after a key. -/
def colon (cs : List Char) : Except TextFault (List Char) :=
  match skipBlanks cs with
  | [] => .error .truncated
  | ':' :: rest => .ok rest
  | _ => .error .malformed

mutual

/-- Reads a value. -/
def value : Nat → List Char → Step
  | 0, _ => absent .truncated
  | fuel + 1, cs =>
    match skipBlanks cs with
    | [] => absent .truncated
    | 'n' :: rest => word .null ['u', 'l', 'l'] rest
    | 't' :: rest => word (.bool true) ['r', 'u', 'e'] rest
    | 'f' :: rest => word (.bool false) ['a', 'l', 's', 'e'] rest
    | '"' :: rest => string (rest.length + 1) true [] rest
    | '-' :: rest => number true rest
    | '[' :: rest =>
      let (items, close, rest) := items fuel true [] rest
      (.array items close, rest)
    | '\x7b' :: rest =>
      let (fields, close, rest) := fields fuel true [] rest
      (.object fields close, rest)
    | c :: rest => if isDigit c then number false (c :: rest) else absent .malformed

/-- Reads the items of a list up to its bracket. `read` holds the items so far, last
first. -/
def items : Nat → Bool → List Node → List Char → List Node × Close × Option (List Char)
  | 0, _, read, _ => (read.reverse, .fault .truncated, none)
  | fuel + 1, first, read, cs =>
    match skipBlanks cs with
    | [] => (read.reverse, .fault .truncated, none)
    | ']' :: rest => (read.reverse, .closed, some rest)
    | c :: rest =>
      if first then item fuel read (c :: rest)
      else if c = ',' then item fuel read rest
      else (read.reverse, .fault .malformed, none)

/-- Reads an item of a list and the items after it. -/
def item : Nat → List Node → List Char → List Node × Close × Option (List Char)
  | 0, read, _ => (read.reverse, .fault .truncated, none)
  | fuel + 1, read, cs =>
    match value fuel cs with
    | (node, some rest) => items fuel false (node :: read) rest
    | (node, none) => ((node :: read).reverse, .closed, none)

/-- Reads the members of an object up to its bracket. `read` holds the members so far, last
first. -/
def fields : Nat → Bool → List (Node × Node) → List Char →
    List (Node × Node) × Close × Option (List Char)
  | 0, _, read, _ => (read.reverse, .fault .truncated, none)
  | fuel + 1, first, read, cs =>
    match skipBlanks cs with
    | [] => (read.reverse, .fault .truncated, none)
    | '\x7d' :: rest => (read.reverse, .closed, some rest)
    | c :: rest =>
      if first then field fuel read (c :: rest)
      else if c = ',' then field fuel read rest
      else (read.reverse, .fault .malformed, none)

/-- Reads a member of an object and the members after it. -/
def field : Nat → List (Node × Node) → List Char →
    List (Node × Node) × Close × Option (List Char)
  | 0, read, _ => (read.reverse, .fault .truncated, none)
  | fuel + 1, read, cs =>
    let last := fun entry : Node × Node => ((entry :: read).reverse, Close.closed, none)
    match skipBlanks cs with
    | [] => last ((absent .truncated).1, .null)
    | '\x7d' :: _ => last ((absent .malformed).1, .null)
    | '"' :: rest =>
      match string (rest.length + 1) true [] rest with
      | (key, none) => last (key, .null)
      | (key, some rest) =>
        match colon rest with
        | .error f => last (key, (absent f).1)
        | .ok rest =>
          match value fuel rest with
          | (node, some rest) => fields fuel false ((key, node) :: read) rest
          | (node, none) => last (key, node)
    | cs => last (.misplaced (value fuel cs).1, .null)

end

/-- The tree of a text and how the text ends: with the value, or with something after it
that does not belong there. -/
def tree (text : String) : Node × Close :=
  let cs := text.toList
  match value (3 * cs.length + 3) cs with
  | (node, none) => (node, .closed)
  | (node, some rest) =>
    (node, if (skipBlanks rest).isEmpty then .closed else .fault .malformed)

end ServiceDocs.JsonText
