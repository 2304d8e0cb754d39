/-!
# Positions in a YAML Text

A scanner of YAML needs to know where it is: the column decides what a block belongs to,
and a key must end on the line and near the place where it begins. `Cursor` is the rest of
a text with the position of its first character.

Lines end with a line feed, a carriage return, both, a next line character, or a line or
paragraph separator. The first three and the next line character are read as a line feed.

## Main definitions

* `Cursor`: the rest of a text and its position.
* `Cursor.advance`, `Cursor.skipWhile`, `Cursor.takeWhile`: steps within a line.
* `Cursor.lineBreak`: a step over the end of a line.
-/

namespace ServiceDocs.Yaml

/-- Whether a character ends a line. -/
def isBreak (c : Char) : Bool :=
  c == '\n' || c == '\r' || c.toNat == 0x85 || c.toNat == 0x2028 || c.toNat == 0x2029

/-- Whether a character is a space or a tab. -/
def isBlank (c : Char) : Bool := c == ' ' || c == '\t'

/-- Whether a character is a letter, a digit, a hyphen or an underscore of ASCII. -/
def isWordChar (c : Char) : Bool := c.isAlphanum || c == '-' || c == '_'

/-- Whether a character may stand in a YAML text. -/
def isAllowed (c : Char) : Bool :=
  let n := c.toNat
  n == 0x09 || n == 0x0A || n == 0x0D || (0x20 ≤ n && n ≤ 0x7E) || n == 0x85 ||
    (0xA0 ≤ n && n ≤ 0xD7FF) || (0xE000 ≤ n && n ≤ 0xFFFD) || 0x10000 ≤ n

/-- How many octets some characters take. -/
def octetCount (cs : List Char) : Nat := cs.foldl (fun count c => count + c.utf8Size) 0

/-- The rest of a text and the position of its first character. -/
structure Cursor where
  /-- The characters that follow. -/
  rest : List Char
  /-- How many octets lie before them. -/
  index : Nat := 0
  /-- How many lines lie before them. -/
  line : Nat := 0
  /-- How many characters of the line lie before them. -/
  column : Nat := 0

namespace Cursor

/-- The character at a distance. -/
def peek (c : Cursor) (n : Nat) : Option Char := c.rest[n]?

/-- Whether a given character follows at a distance. -/
def sees (c : Cursor) (n : Nat) (ch : Char) : Bool := c.peek n == some ch

/-- Whether the text or the line ends at a distance. -/
def endsLine (c : Cursor) (n : Nat) : Bool :=
  match c.peek n with
  | none => true
  | some ch => isBreak ch

/-- Whether a blank, the end of the line or the end of the text follows at a distance. -/
def endsWord (c : Cursor) (n : Nat) : Bool :=
  match c.peek n with
  | none => true
  | some ch => isBlank ch || isBreak ch

/-- Whether the text ends here. -/
def atEnd (c : Cursor) : Bool := c.rest.isEmpty

/-- Whether the marker of a document stands here: three times the same character at the
beginning of a line. -/
def atMarker (c : Cursor) (ch : Char) : Bool :=
  c.column == 0 && c.sees 0 ch && c.sees 1 ch && c.sees 2 ch && c.endsWord 3

/-- Whether the beginning or the end of a document is marked here. -/
def atDocumentMarker (c : Cursor) : Bool := c.atMarker '-' || c.atMarker '.'

/-- Steps over characters of the line. -/
def advance (c : Cursor) (n : Nat) : Cursor :=
  { c with
    rest := c.rest.drop n, index := c.index + octetCount (c.rest.take n), column := c.column + n }

/-- Steps over the characters of the line with a property. -/
def skipWhile (p : Char → Bool) (c : Cursor) : Cursor := c.advance (c.rest.takeWhile p).length

/-- The characters of the line with a property. -/
def takeWhile (p : Char → Bool) (c : Cursor) : List Char := c.rest.takeWhile p

/-- Steps over the end of a line, if it is here. Returns what it is read as. -/
def lineBreak (c : Cursor) : List Char × Cursor :=
  let next := fun (rest : List Char) (octets : Nat) =>
    { c with rest := rest, index := c.index + octets, line := c.line + 1, column := 0 }
  match c.rest with
  | '\r' :: '\n' :: rest => (['\n'], next rest 2)
  | ch :: rest =>
    if ch.toNat == 0x2028 || ch.toNat == 0x2029 then ([ch], next rest ch.utf8Size)
    else if isBreak ch then (['\n'], next rest ch.utf8Size)
    else ([], c)
  | [] => ([], c)

end Cursor

end ServiceDocs.Yaml
