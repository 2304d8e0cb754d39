import ServiceDocs.Text.Hex
import ServiceDocs.Yaml.Cursor
import ServiceDocs.Yaml.Resolve

/-!
# Written Forms of YAML Texts

A text can be written in four ways: as it is, between single quotes, between double quotes
with escapes, and as a literal block of lines. The plain form must not be mistaken for
another kind of value or for punctuation, the single quotes cannot hold a character that
is not printable, and a literal block cannot end with a space. `Style.of` chooses the
first form that is safe: a literal block for a text of several lines, otherwise the plain
form, single quotes or double quotes.

## Main definitions

* `isPrintable`: the characters that are written as they are.
* `Style`, `Style.of`: the forms and the choice.
* `styled`: the text in its form, for a given indentation of further lines.
-/

namespace ServiceDocs.Yaml

/-- Whether a character is written as it is outside of double quotes. A tab is not. -/
def isPrintable (c : Char) : Bool :=
  let n := c.toNat
  n == 0x0A || (0x20 ≤ n && n ≤ 0x7E) ||
    (0xA0 ≤ n && n != 0xFEFF && n != 0xFFFE && n != 0xFFFF)

/-- A form of a text. -/
inductive Style where
  /-- As it is. -/
  | plain
  /-- Between single quotes. -/
  | single
  /-- Between double quotes. -/
  | double
  /-- As a literal block. -/
  | literal
  deriving DecidableEq, Repr

/-! ### What stands in a text -/

/-- Whether nothing, a blank, the end of a line or the character `U+0000` comes next. -/
def endsWordAt : List Char → Bool
  | [] => true
  | c :: _ => isBlank c || isBreak c || c.toNat == 0

/-- Whether a colon before a blank or a number sign after one stands in a text. -/
def hasPunctuation (afterBlank : Bool) : List Char → Bool
  | [] => false
  | c :: rest =>
    (c == ':' && endsWordAt rest) || (c == '#' && afterBlank) ||
      hasPunctuation (endsWordAt [c]) rest

/-- The characters that cannot begin a plain text. -/
def openingIndicators : List Char :=
  ['#', ',', '[', ']', '\x7b', '\x7d', '&', '*', '!', '|', '>', '\'', '"', '%', '@', '\x60']

/-- Whether the first character makes a text something other than a plain one. -/
def beginsWithIndicator : List Char → Bool
  | [] => false
  | c :: rest =>
    openingIndicators.contains c || ((c == '?' || c == ':' || c == '-') && endsWordAt rest)

/-- Whether a text begins like the mark between documents. -/
def beginsWithMarker (cs : List Char) : Bool :=
  cs.take 3 == ['-', '-', '-'] || cs.take 3 == ['.', '.', '.']

/-- Whether a text holds punctuation. -/
def hasIndicator (cs : List Char) : Bool :=
  beginsWithMarker cs || beginsWithIndicator cs || hasPunctuation false (cs.drop 1)

/-- Whether two neighbouring characters of a text satisfy `p`. -/
def hasPair (p : Char → Char → Bool) (cs : List Char) : Bool :=
  (cs.zip (cs.drop 1)).any fun pair => p pair.1 pair.2

/-- Whether a space stands before the end of a line. -/
def hasSpaceBeforeBreak (cs : List Char) : Bool := hasPair (fun a b => a == ' ' && isBreak b) cs

/-- Whether a line begins with a space, the first one not counted. -/
def hasSpaceAfterBreak (cs : List Char) : Bool := hasPair (fun a b => isBreak a && b == ' ') cs

/-- Whether a text begins or ends with a space. -/
def hasOuterSpace (cs : List Char) : Bool := cs.head? == some ' ' || cs.getLast? == some ' '

/-- Whether a plain text would be read as a value of another kind. Digits after a
superfluous zero are counted as one. -/
def readsAsOther (s : String) : Bool :=
  s.isEmpty || isNullWord s || (boolWord? s).isSome || (integerWord? s).isSome ||
    (floatWord? s).isSome || isZeroPadded s.toList

/-! ### The choice of a form -/

/-- Whether a text keeps its meaning as it is. -/
def mayBePlain (cs : List Char) : Bool :=
  cs.all isPrintable && !(cs.any isBreak) && !(hasOuterSpace cs) && !(hasIndicator cs)

/-- Whether a text can stand between single quotes. -/
def mayBeSingle (cs : List Char) : Bool :=
  cs.all isPrintable && !(hasSpaceBeforeBreak cs) && !(hasSpaceAfterBreak cs)

/-- Whether a text can be a literal block. -/
def mayBeLiteral (cs : List Char) : Bool :=
  cs.all isPrintable && !(hasSpaceBeforeBreak cs) && cs.getLast? != some ' '

/-- The form of a text. -/
def Style.of (s : String) : Style :=
  let cs := s.toList
  if cs.contains '\n' then
    if mayBeLiteral cs then .literal else .double
  else if mayBePlain cs && !(readsAsOther s) then .plain
  else if mayBeSingle cs then .single
  else .double

/-! ### The forms -/

/-- A number of spaces. -/
def pad (n : Nat) : List Char := List.replicate n ' '

/-- The escape of a character. -/
def escape (c : Char) : List Char :=
  match c.toNat with
  | 0x00 => ['\\', '0']
  | 0x07 => ['\\', 'a']
  | 0x08 => ['\\', 'b']
  | 0x09 => ['\\', 't']
  | 0x0A => ['\\', 'n']
  | 0x0B => ['\\', 'v']
  | 0x0C => ['\\', 'f']
  | 0x0D => ['\\', 'r']
  | 0x1B => ['\\', 'e']
  | 0x22 => ['\\', '"']
  | 0x5C => ['\\', '\\']
  | 0x85 => ['\\', 'N']
  | 0x2028 => ['\\', 'L']
  | 0x2029 => ['\\', 'P']
  | n =>
    if n ≤ 0xFF then '\\' :: 'x' :: Text.hexFixedUpper 2 n
    else if n ≤ 0xFFFF then '\\' :: 'u' :: Text.hexFixedUpper 4 n
    else '\\' :: 'U' :: Text.hexFixedUpper 8 n

/-- Whether a character is escaped between double quotes. -/
def needsEscape (c : Char) : Bool := !(isPrintable c) || isBreak c || c == '"' || c == '\\'

/-- A text between double quotes. -/
def doubleQuoted (cs : List Char) : List Char :=
  '"' :: cs.flatMap (fun c => if needsEscape c then escape c else [c]) ++ ['"']

/-- The inside of single quotes: a quote is doubled, and what follows the end of a line is
indented. -/
def singleInside (indent : Nat) (afterBreak : Bool) : List Char → List Char
  | [] => if afterBreak then pad indent else []
  | c :: rest =>
    if isBreak c then c :: singleInside indent true rest
    else
      (if afterBreak then pad indent else []) ++
        (if c == '\'' then ['\'', '\''] else [c]) ++ singleInside indent false rest

/-- A text between single quotes. -/
def singleQuoted (indent : Nat) (cs : List Char) : List Char :=
  '\'' :: singleInside indent false cs ++ ['\'']

/-- The lines of a literal block: what is not empty is indented. -/
def literalInside (indent : Nat) (afterBreak : Bool) : List Char → List Char
  | [] => []
  | c :: rest =>
    if isBreak c then c :: literalInside indent true rest
    else (if afterBreak then pad indent else []) ++ c :: literalInside indent false rest

/-- The mark for the indentation of a literal block, needed if its first character does not
show it. -/
def indentationMark : List Char → List Char
  | [] => []
  | c :: _ => if c == ' ' || isBreak c then ['2'] else []

/-- The mark for the end of a literal block: `-` if it does not end with the end of a line,
`+` if it ends with an empty line. -/
def chompingMark (cs : List Char) : List Char :=
  match cs.reverse with
  | [] => ['-']
  | last :: rest =>
    if !(isBreak last) then ['-']
    else
      match rest with
      | [] => ['+']
      | c :: _ => if isBreak c then ['+'] else []

/-- A literal block. -/
def literalBlock (indent : Nat) (cs : List Char) : List Char :=
  '|' :: indentationMark cs ++ chompingMark cs ++ '\n' :: literalInside indent true cs

/-- A text in its form. Further lines are indented by `indent`. -/
def styled (indent : Nat) (s : String) : List Char :=
  match Style.of s with
  | .plain => s.toList
  | .single => singleQuoted indent s.toList
  | .double => doubleQuoted s.toList
  | .literal => literalBlock indent s.toList

/-- A text in its form, with the end of the line. A literal block that ends with the end
of a line has it already. -/
def styledLine (indent : Nat) (s : String) : List Char :=
  let cs := styled indent s
  match Style.of s, cs.getLast? with
  | .literal, some last => if isBreak last then cs else cs ++ ['\n']
  | _, _ => cs ++ ['\n']

end ServiceDocs.Yaml
