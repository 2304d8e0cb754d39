import ServiceDocs.Reading.Node
import ServiceDocs.Text.Hex
import ServiceDocs.Yaml.Cursor

/-!
# Lexemes of YAML

The parts of a YAML text that are read by themselves, without regard to what they belong
to: scalars in their five styles, anchors, tags and directives. Each function takes the
cursor at the beginning of its lexeme and returns what it read with the cursor behind it,
or nothing if the text is wrong.

Loops are bounded by the number of characters that follow, of which each round takes one.

## Main definitions

* `plainScalar`, `quotedScalar`, `blockScalar`: scalars.
* `name`, `tag`, `directive`: anchors and aliases, tags, directives.
-/

namespace ServiceDocs.Yaml

/-! ### Folding -/

/-- Blanks and line ends between two words of a scalar. -/
structure Gap where
  /-- Blanks of the line. -/
  blanks : List Char := []
  /-- The first line end. -/
  firstBreak : List Char := []
  /-- The line ends after it. -/
  furtherBreaks : List Char := []
  /-- Whether a line has ended. -/
  folded : Bool := false

namespace Gap

/-- What a gap is read as: blanks stay, a single line feed becomes a space, and of several
line ends the first is dropped if it is a line feed. -/
def text (g : Gap) : List Char :=
  if g.folded then
    if g.firstBreak == ['\n'] then
      if g.furtherBreaks.isEmpty then [' '] else g.furtherBreaks
    else g.firstBreak ++ g.furtherBreaks
  else g.blanks

/-- Adds a blank. -/
def addBlank (g : Gap) (c : Char) : Gap :=
  if g.folded then g else { g with blanks := g.blanks ++ [c] }

/-- Adds a line end. -/
def addBreak (g : Gap) (cs : List Char) : Gap :=
  if g.folded then { g with furtherBreaks := g.furtherBreaks ++ cs }
  else { g with blanks := [], firstBreak := cs, folded := true }

end Gap

/-- Reads a gap. `forbidden` says at which places a tab may not stand after a line end. -/
def readGap (forbidden : Cursor → Bool) : Nat → Gap → Cursor → Option (Gap × Cursor)
  | 0, g, c => some (g, c)
  | fuel + 1, g, c =>
    match c.peek 0 with
    | none => some (g, c)
    | some ch =>
      if isBlank ch then
        if g.folded && ch == '\t' && forbidden c then none
        else readGap forbidden fuel (g.addBlank ch) (c.advance 1)
      else if isBreak ch then
        let (cs, next) := c.lineBreak
        readGap forbidden fuel (g.addBreak cs) next
      else some (g, c)

/-! ### Plain scalars -/

/-- Whether a character has a meaning of its own inside brackets. -/
def isFlowIndicator (c : Char) : Bool :=
  c == ',' || c == '[' || c == ']' || c == '\x7b' || c == '\x7d'

/-- Where a colon may not stand in a plain scalar inside brackets. -/
def isBadColon (flow : Bool) (c : Cursor) : Bool :=
  flow && c.sees 0 ':' &&
    match c.peek 1 with
    | some ch => isFlowIndicator ch || ch == '?'
    | none => false

/-- Whether a plain scalar ends before the next character. -/
def endsPlain (flow : Bool) (c : Cursor) : Bool :=
  match c.peek 0 with
  | none => true
  | some ch => (ch == ':' && c.endsWord 1) || (flow && isFlowIndicator ch)

/-- Reads a word of a plain scalar. -/
def plainWord (flow : Bool) : Nat → List Char → Cursor → Option (List Char × Cursor)
  | 0, read, c => some (read, c)
  | fuel + 1, read, c =>
    if c.endsWord 0 then some (read, c)
    else if isBadColon flow c then none
    else if endsPlain flow c then some (read, c)
    else
      match c.peek 0 with
      | none => some (read, c)
      | some ch => plainWord flow fuel (ch :: read) (c.advance 1)

/-- Reads the words of a plain scalar. `read` holds the characters so far, last first. The
last component says whether a line ended after the last word. -/
def plainWords (flow : Bool) (indent : Int) :
    Nat → List Char → Gap → Cursor → Option (List Char × Cursor × Bool)
  | 0, read, gap, c => some (read.reverse, c, gap.folded)
  | fuel + 1, read, gap, c =>
    if c.atDocumentMarker || c.sees 0 '#' then some (read.reverse, c, gap.folded)
    else do
      let (word, next) ← plainWord flow (c.rest.length + 1) [] c
      let (read, gap) :=
        if word.isEmpty then (read, gap) else (word ++ gap.text.reverse ++ read, {})
      match next.peek 0 with
      | none => return (read.reverse, next, gap.folded)
      | some ch =>
        if !(isBlank ch || isBreak ch) then return (read.reverse, next, gap.folded)
        else
          let (gap, after) ←
            readGap (fun c => (c.column : Int) < indent) (next.rest.length + 1) gap next
          if !flow && (after.column : Int) < indent then
            return (read.reverse, after, gap.folded)
          plainWords flow indent fuel read gap after

/-- Reads a plain scalar. `indent` is the least column of its further lines. -/
def plainScalar (flow : Bool) (indent : Int) (c : Cursor) : Option (String × Cursor × Bool) := do
  let (cs, next, folded) ← plainWords flow indent (c.rest.length + 1) [] {} c
  return (String.ofList cs, next, folded)

/-! ### Quoted scalars -/

/-- The character that a backslash makes of another one. -/
def escapedChar? (c : Char) : Option Char :=
  match c with
  | '0' => some (Char.ofNat 0x00)
  | 'a' => some (Char.ofNat 0x07)
  | 'b' => some (Char.ofNat 0x08)
  | 't' => some '\t'
  | '\t' => some '\t'
  | 'n' => some '\n'
  | 'v' => some (Char.ofNat 0x0B)
  | 'f' => some (Char.ofNat 0x0C)
  | 'r' => some '\r'
  | 'e' => some (Char.ofNat 0x1B)
  | ' ' => some ' '
  | '"' => some '"'
  | '/' => some '/'
  | '\\' => some '\\'
  | 'N' => some (Char.ofNat 0x85)
  | '_' => some (Char.ofNat 0xA0)
  | 'L' => some (Char.ofNat 0x2028)
  | 'P' => some (Char.ofNat 0x2029)
  | _ => none

/-- The number of digits of an escape that names a character by its code. -/
def codeLength? (c : Char) : Option Nat :=
  match c with
  | 'x' => some 2
  | 'u' => some 4
  | 'U' => some 8
  | _ => none

/-- Reads an escape at its backslash. -/
def readEscape (c : Cursor) : Option (Char × Cursor) := do
  let kind ← c.peek 1
  match codeLength? kind with
  | none => return (← escapedChar? kind, c.advance 2)
  | some length =>
    let digits := (c.rest.drop 2).take length
    if digits.length < length then none
    else
      let code ← Text.readHex? digits
      if (0xD800 ≤ code && code ≤ 0xDFFF) || 0x10FFFF < code then none
      else return (Char.ofNat code, c.advance (2 + length))

/-- Reads a part of a quoted scalar without blanks. The last component says whether it
ended with an escaped line end. -/
def quotedWord (single : Bool) : Nat → List Char → Cursor → Option (List Char × Cursor × Bool)
  | 0, read, c => some (read, c, false)
  | fuel + 1, read, c =>
    if c.endsWord 0 then some (read, c, false)
    else
      match c.peek 0 with
      | none => some (read, c, false)
      | some ch =>
        if single then
          if ch == '\'' then
            if c.sees 1 '\'' then quotedWord single fuel ('\'' :: read) (c.advance 2)
            else some (read, c, false)
          else quotedWord single fuel (ch :: read) (c.advance 1)
        else if ch == '"' then some (read, c, false)
        else if ch == '\\' then
          match c.peek 1 with
          | none => none
          | some kind =>
            if isBreak kind then some (read, (c.advance 1).lineBreak.2, true)
            else
              match readEscape c with
              | none => none
              | some (e, next) => quotedWord single fuel (e :: read) next
        else quotedWord single fuel (ch :: read) (c.advance 1)

/-- Reads the parts of a quoted scalar up to its closing quote. -/
def quotedWords (single : Bool) (quote : Char) :
    Nat → List Char → Cursor → Option (List Char × Cursor)
  | 0, _, _ => none
  | fuel + 1, read, c =>
    if c.atDocumentMarker || c.atEnd then none
    else do
      let (read, next, escapedBreak) ← quotedWord single (c.rest.length + 1) read c
      if next.sees 0 quote then return (read.reverse, next.advance 1)
      let (gap, after) ←
        readGap (fun _ => false) (next.rest.length + 1) { folded := escapedBreak } next
      quotedWords single quote fuel (gap.text.reverse ++ read) after

/-- Reads a quoted scalar at its opening quote. -/
def quotedScalar (single : Bool) (c : Cursor) : Option (String × Cursor) := do
  let quote := if single then '\'' else '"'
  let (cs, next) ← quotedWords single quote (2 * c.rest.length + 2) [] (c.advance 1)
  return (String.ofList cs, next)

/-! ### Block scalars -/

/-- What happens to the line ends at the end of a block. -/
inductive Chomping where
  /-- All are dropped. -/
  | strip
  /-- One is kept. -/
  | clip
  /-- All are kept. -/
  | keep
  deriving DecidableEq

/-- Reads the marks of a block after its indicator: what happens at its end, and how far it
is indented. -/
def blockMarks (c : Cursor) : Option (Chomping × Option Nat × Cursor) :=
  let chomping := fun ch : Char =>
    if ch == '+' then some Chomping.keep else if ch == '-' then some Chomping.strip else none
  let digit := fun ch : Char => if ch.isDigit then some (ch.toNat - '0'.toNat) else none
  match c.peek 0 with
  | none => some (.clip, none, c)
  | some first =>
    match chomping first with
    | some mark =>
      match (c.peek 1).bind digit with
      | some 0 => none
      | some n => some (mark, some n, c.advance 2)
      | none => some (mark, none, c.advance 1)
    | none =>
      match digit first with
      | some 0 => none
      | some n =>
        match (c.peek 1).bind chomping with
        | some mark => some (mark, some n, c.advance 2)
        | none => some (.clip, some n, c.advance 1)
      | none => some (.clip, none, c)

/-- Reads the indentation and the empty lines before a line of a block. `indent` is the
indentation of the block, if it is known; `widest` the greatest one seen. -/
def blockBreaks (indent : Option Nat) :
    Nat → List Char → Nat → Cursor → Option (List Char × Nat × Cursor)
  | 0, breaks, widest, c => some (breaks, widest, c)
  | fuel + 1, breaks, widest, c =>
    let inside := fun c : Cursor =>
      match indent with
      | none => true
      | some n => c.column < n
    let spaces := (c.takeWhile (· == ' ')).length
    let step := match indent with
      | none => spaces
      | some n => min spaces (n - c.column)
    let c := c.advance step
    let widest := max widest c.column
    if inside c && c.sees 0 '\t' then none
    else if !c.atEnd && c.endsLine 0 then
      let (cs, next) := c.lineBreak
      blockBreaks indent fuel (breaks ++ cs) widest next
    else some (breaks, widest, c)

/-- The parts of a block that are read and wait to be joined. -/
structure BlockState where
  /-- The characters so far, last first. -/
  read : List Char := []
  /-- The end of the last line. -/
  lastBreak : List Char := []
  /-- The empty lines after it. -/
  emptyLines : List Char := []
  /-- Whether the last line began with a blank. -/
  startedBlank : Bool := false

/-- Reads the lines of a block. -/
def blockLines (literal : Bool) (indent : Nat) :
    Nat → BlockState → Cursor → Option (BlockState × Cursor)
  | 0, st, c => some (st, c)
  | fuel + 1, st, c =>
    if c.column ≠ indent || c.atEnd then some (st, c)
    else do
      let blank := match c.peek 0 with
        | some ch => isBlank ch
        | none => false
      let joint :=
        if !literal && st.lastBreak == ['\n'] && !st.startedBlank && !blank then
          if st.emptyLines.isEmpty then [' '] else []
        else st.lastBreak
      let text := c.takeWhile fun ch => !isBreak ch
      let (lastBreak, next) := (c.advance text.length).lineBreak
      let (emptyLines, _, next) ←
        blockBreaks (some indent) (next.rest.length + 1) [] 0 next
      let read := text.reverse ++ st.emptyLines.reverse ++ joint.reverse ++ st.read
      blockLines literal indent fuel ⟨read, lastBreak, emptyLines, blank⟩ next

/-- Reads a block at its indicator. `parent` is the indentation of what it belongs to. -/
def blockScalar (literal : Bool) (parent : Int) (c : Cursor) : Option (String × Cursor) := do
  let (chomping, mark, c) ← blockMarks (c.advance 1)
  let c := c.skipWhile isBlank
  let c := if c.sees 0 '#' then c.skipWhile (fun ch => !isBreak ch) else c
  if !c.endsLine 0 then none
  else
    let (_, c) := c.lineBreak
    let given := mark.map fun n => if 0 ≤ parent then parent.toNat + n else n
    let (emptyLines, widest, c) ← blockBreaks given (c.rest.length + 1) [] 0 c
    let indent := match given with
      | some n => n
      | none => max widest (max (parent + 1).toNat 1)
    let (st, c) ← blockLines literal indent (c.rest.length + 1) { emptyLines } c
    let tail := match chomping with
      | .strip => []
      | .clip => st.lastBreak
      | .keep => st.lastBreak ++ st.emptyLines
    return (String.ofList (st.read.reverse ++ tail), c)

/-! ### Anchors, tags and directives -/

/-- Reads the name of an anchor or alias at its indicator. -/
def name (c : Cursor) : Option (String × Cursor) :=
  let c := c.advance 1
  let cs := c.takeWhile isWordChar
  let next := c.advance cs.length
  let ends := next.endsWord 0 ||
    match next.peek 0 with
    | some ch => ['?', ':', ',', ']', '\x7d', '%', '@', '\x60'].contains ch
    | none => true
  if cs.isEmpty || !ends then none else some (String.ofList cs, next)

/-- Whether a character may stand in a tag. Commas and brackets may stand only between
angle brackets. -/
def isUriChar (verbatim : Bool) (c : Char) : Bool :=
  isWordChar c || ";/?:@&=+$.!~*'()%".toList.contains c ||
    (verbatim && (c == ',' || c == '[' || c == ']'))

/-- The number of octets of a character, by the first of them. -/
def octetWidth? (octet : Nat) : Option Nat :=
  if octet < 0x80 then some 1
  else if octet / 0x20 == 0x06 then some 2
  else if octet / 0x10 == 0x0E then some 3
  else if octet / 0x08 == 0x1E then some 4
  else none

/-- Reads one octet that is written as a percent sign and two digits. -/
def readOctet (c : Cursor) : Option (Nat × Cursor) := do
  if !c.sees 0 '%' then none
  else
    let digits := (c.rest.drop 1).take 2
    if digits.length < 2 then none
    else return (← Text.readHex? digits, c.advance 3)

/-- Reads the further octets of a character. -/
def readOctets : Nat → Cursor → Option (List UInt8 × Cursor)
  | 0, c => some ([], c)
  | n + 1, c => do
    let (octet, c) ← readOctet c
    if octet / 0x40 == 0x02 then do
      let (octets, c) ← readOctets n c
      return (octet.toUInt8 :: octets, c)
    else none

/-- Reads the octets of a character. They have the shape of a character, but there need not
be one with these octets. -/
def readUriEscape (c : Cursor) : Option (List UInt8 × Cursor) := do
  let (first, c) ← readOctet c
  let width ← octetWidth? first
  let (octets, c) ← readOctets (width - 1) c
  return (first.toUInt8 :: octets, c)

/-- Reads the octets of a tag. `read` holds those so far, last first. -/
def uriOctets (verbatim : Bool) : Nat → List UInt8 → Cursor → Option (List UInt8 × Cursor)
  | 0, read, c => some (read.reverse, c)
  | fuel + 1, read, c =>
    match c.peek 0 with
    | none => some (read.reverse, c)
    | some ch =>
      if ch == '%' then
        match readUriEscape c with
        | none => none
        | some (octets, next) => uriOctets verbatim fuel (octets.reverse ++ read) next
      else if isUriChar verbatim ch then
        uriOctets verbatim fuel (ch.toNat.toUInt8 :: read) (c.advance 1)
      else some (read.reverse, c)

/-- Reads a handle of tags: an exclamation mark, a word and perhaps another mark. -/
def handle (c : Cursor) : Option (List Char × Cursor) :=
  if !c.sees 0 '!' then none
  else
    let cs := (c.advance 1).takeWhile isWordChar
    let next := c.advance (cs.length + 1)
    if next.sees 0 '!' then some ('!' :: cs ++ ['!'], next.advance 1)
    else some ('!' :: cs, next)

/-- Reads a tag at its indicator: its handle and the rest of it. A tag between angle brackets
has no handle, and neither has an exclamation mark alone. -/
def tag (flow : Bool) (c : Cursor) : Option (String × Tag × Cursor) := do
  let (handle, suffix, next) ←
    if c.sees 1 '<' then do
      let (octets, next) ← uriOctets true (c.rest.length + 1) [] (c.advance 2)
      if octets.isEmpty || !next.sees 0 '>' then none
      else some ([], Tag.ofOctets octets, next.advance 1)
    else do
      let (start, next) ← handle c
      let (octets, next) ← uriOctets false (c.rest.length + 1) [] next
      if start.length ≥ 2 && start.getLast? == some '!' then
        if octets.isEmpty then none else some (start, Tag.ofOctets octets, next)
      else
        let suffix := (Tag.ofString (String.ofList (start.drop 1))).append (.ofOctets octets)
        if suffix.octets.isEmpty then some ([], Tag.own, next) else some (['!'], suffix, next)
  if next.endsWord 0 || (flow && next.sees 0 ',') then
    return (String.ofList handle, suffix, next)
  else none

/-- A directive before a document. -/
inductive Directive where
  /-- The version of YAML. -/
  | version (major minor : Nat)
  /-- What a handle of tags stands for. -/
  | handle (handle : String) (meaning : Tag)
  deriving DecidableEq

/-- Reads a number of a version. -/
def versionNumber (c : Cursor) : Option (Nat × Cursor) :=
  let cs := c.takeWhile Char.isDigit
  if cs.isEmpty || 9 < cs.length then none
  else some (cs.foldl (fun n ch => 10 * n + (ch.toNat - '0'.toNat)) 0, c.advance cs.length)

/-- Reads a directive at its percent sign, with its line. -/
def directive (c : Cursor) : Option (Directive × Cursor) := do
  let c := c.advance 1
  let word := c.takeWhile isWordChar
  let c := c.advance word.length
  if word.isEmpty || !c.endsWord 0 then none
  else
    let (found, c) ←
      if word == "YAML".toList then do
        let (major, c) ← versionNumber (c.skipWhile isBlank)
        if !c.sees 0 '.' then none
        else
          let (minor, c) ← versionNumber (c.advance 1)
          some (Directive.version major minor, c)
      else if word == "TAG".toList then do
        let (start, c) ← handle (c.skipWhile isBlank)
        if start ≠ ['!'] && start.getLast? ≠ some '!' then none
        else
          let blank := match c.peek 0 with
            | some ch => isBlank ch
            | none => false
          if !blank then none
          else
            let (octets, c) ← uriOctets true (c.rest.length + 1) [] (c.skipWhile isBlank)
            if octets.isEmpty || !c.endsWord 0 then none
            else some (Directive.handle (String.ofList start) (.ofOctets octets), c)
      else none
    let c := c.skipWhile isBlank
    let c := if c.sees 0 '#' then c.skipWhile (fun ch => !isBreak ch) else c
    if !c.endsLine 0 then none else some (found, c.lineBreak.2)

end ServiceDocs.Yaml
