import ServiceDocs.Yaml.Lexeme

/-!
# Tokens of YAML

Blocks of YAML are marked by indentation, and a simple key is recognised only by the colon
behind it. The scanner therefore keeps the columns of the blocks that are open and, for
each level of brackets, the place where a simple key may have begun; when the colon comes,
the token of the key is put in at that place. A key must end on its line and within 1024
octets.

## Main definitions

* `Token`: the tokens.
* `Scanner`: the state of the scanner, with one function for each kind of token.
* `Token.scan`: the tokens of a text.
-/

namespace ServiceDocs.Yaml

/-- A token of a YAML text. -/
inductive Token where
  /-- A directive before a document. -/
  | directive (directive : Directive)
  /-- The marked beginning of a document. -/
  | documentStart
  /-- The marked end of a document. -/
  | documentEnd
  /-- The first entry of a block list comes. -/
  | blockSequenceStart
  /-- The first entry of a block map comes. -/
  | blockMappingStart
  /-- The end of a block. -/
  | blockEnd
  /-- An opening square bracket. -/
  | flowSequenceStart
  /-- A closing square bracket. -/
  | flowSequenceEnd
  /-- An opening brace. -/
  | flowMappingStart
  /-- A closing brace. -/
  | flowMappingEnd
  /-- The hyphen of a block list. -/
  | blockEntry
  /-- A comma between brackets. -/
  | flowEntry
  /-- A key comes. -/
  | key
  /-- A value comes. -/
  | value
  /-- An alias. -/
  | alias (name : String)
  /-- An anchor. -/
  | anchor (name : String)
  /-- A tag, its handle and the rest of it. -/
  | tag (handle : String) (suffix : Tag)
  /-- A scalar. -/
  | scalar (text : String) (style : Scalar.Style)
  /-- The end of the text. -/
  | streamEnd
  deriving DecidableEq

/-- A place where a simple key may have begun. -/
structure SimpleKey where
  /-- Whether there is such a place. -/
  possible : Bool := false
  /-- Whether a key must begin there, since a block has its entries in this column. -/
  required : Bool := false
  /-- How many tokens lie before it. -/
  token : Nat := 0
  /-- How many octets of the text lie before it. -/
  index : Nat := 0
  /-- Its line. -/
  line : Nat := 0
  /-- Its column. -/
  column : Nat := 0

/-- The state of the scanner. -/
structure Scanner where
  /-- Where it is. -/
  cursor : Cursor
  /-- The tokens so far. -/
  tokens : Array Token := #[]
  /-- The column of the innermost block. -/
  indent : Int := -1
  /-- The columns of the blocks around it. -/
  indents : List Int := []
  /-- The simple key of the innermost brackets. -/
  simpleKey : SimpleKey := {}
  /-- The simple keys of the brackets around them. -/
  outerKeys : List SimpleKey := []
  /-- Whether a simple key may begin here. -/
  keyAllowed : Bool := true

namespace Scanner

/-- Whether the scanner is between brackets. -/
def inFlow (s : Scanner) : Bool := !s.outerKeys.isEmpty

/-- The column of the next character. -/
def column (s : Scanner) : Int := s.cursor.column

/-- Adds a token. -/
def push (t : Token) (s : Scanner) : Scanner := { s with tokens := s.tokens.push t }

/-- Puts a token in after the first `n` tokens. -/
def putIn (n : Nat) (t : Token) (s : Scanner) : Scanner :=
  { s with tokens := (s.tokens.extract 0 n).push t ++ s.tokens.extract n s.tokens.size }

/-- Steps over characters. -/
def advance (n : Nat) (s : Scanner) : Scanner := { s with cursor := s.cursor.advance n }

/-! ### Simple keys and blocks -/

/-- Gives up a key that no longer can be one. -/
def expire (c : Cursor) (k : SimpleKey) : Option SimpleKey :=
  if k.possible && (k.line < c.line || k.index + 1024 < c.index) then
    if k.required then none else some { k with possible := false }
  else some k

/-- Gives up all keys that no longer can be one. -/
def expireKeys (s : Scanner) : Option Scanner := do
  let simpleKey ← expire s.cursor s.simpleKey
  let outerKeys ← s.outerKeys.mapM (expire s.cursor)
  return { s with simpleKey, outerKeys }

/-- Gives up the key of the innermost brackets. -/
def removeKey (s : Scanner) : Option Scanner :=
  if s.simpleKey.possible && s.simpleKey.required then none
  else some { s with simpleKey := { s.simpleKey with possible := false } }

/-- Remembers that a key may begin here. -/
def saveKey (s : Scanner) : Option Scanner :=
  if s.keyAllowed then do
    let s ← s.removeKey
    let key : SimpleKey :=
      { possible := true, required := !s.inFlow && s.indent == s.column, token := s.tokens.size,
        index := s.cursor.index, line := s.cursor.line, column := s.cursor.column }
    return { s with simpleKey := key }
  else some s

/-- Opens a block in a column, unless one is open there. Its token is put in after the
first `at?` tokens, or comes last. -/
def openBlock (column : Nat) (at? : Option Nat) (start : Token) (s : Scanner) : Scanner :=
  if s.inFlow || (column : Int) ≤ s.indent then s
  else
    let s := { s with indents := s.indent :: s.indents, indent := column }
    match at? with
    | none => s.push start
    | some n => s.putIn n start

/-- Closes the blocks that lie further to the right than a column. -/
def closeBlocksFrom (column : Int) : List Int → Int → Array Token → List Int × Int × Array Token
  | [], indent, tokens => ([], indent, tokens)
  | outer :: rest, indent, tokens =>
    if column < indent then closeBlocksFrom column rest outer (tokens.push .blockEnd)
    else (outer :: rest, indent, tokens)

/-- Closes the blocks that lie further to the right than a column. -/
def closeBlocks (column : Int) (s : Scanner) : Scanner :=
  if s.inFlow then s
  else
    let (indents, indent, tokens) := closeBlocksFrom column s.indents s.indent s.tokens
    { s with indents, indent, tokens }

/-! ### Between tokens -/

/-- Whether a mark of the byte order stands at the beginning of a line. -/
def atByteOrderMark (c : Cursor) : Bool :=
  c.column == 0 &&
    match c.peek 0 with
    | some ch => ch.toNat == 0xFEFF
    | none => false

/-- Steps over blanks, comments and line ends, and over a mark of the byte order at the
beginning of a line, which takes a column. A tab may not indent a key of a block. -/
def toNextToken : Nat → Scanner → Scanner
  | 0, s => s
  | fuel + 1, s =>
    let c := if atByteOrderMark s.cursor then s.cursor.advance 1 else s.cursor
    let tabs := s.inFlow || !s.keyAllowed
    let c := c.skipWhile fun ch => ch == ' ' || (tabs && ch == '\t')
    let c := if c.sees 0 '#' then c.skipWhile (fun ch => !isBreak ch) else c
    if !c.atEnd && c.endsLine 0 then
      let keyAllowed := s.keyAllowed || !s.inFlow
      toNextToken fuel { s with cursor := c.lineBreak.2, keyAllowed }
    else { s with cursor := c }

/-! ### Tokens -/

/-- Reads the end of the text. -/
def fetchEnd (s : Scanner) : Option Scanner := do
  let s ← (s.closeBlocks (-1)).removeKey
  return { s with keyAllowed := false }.push .streamEnd

/-- Reads a directive. -/
def fetchDirective (s : Scanner) : Option Scanner := do
  let s ← (s.closeBlocks (-1)).removeKey
  let (d, cursor) ← directive s.cursor
  return { s with keyAllowed := false, cursor }.push (.directive d)

/-- Reads the marker of a document. -/
def fetchDocumentMarker (t : Token) (s : Scanner) : Option Scanner := do
  let s ← (s.closeBlocks (-1)).removeKey
  return ({ s with keyAllowed := false }.advance 3).push t

/-- Reads an opening bracket. -/
def fetchOpening (t : Token) (s : Scanner) : Option Scanner := do
  let s ← s.saveKey
  let s := { s with outerKeys := s.simpleKey :: s.outerKeys, simpleKey := {}, keyAllowed := true }
  return (s.advance 1).push t

/-- Reads a closing bracket. -/
def fetchClosing (t : Token) (s : Scanner) : Option Scanner := do
  let s ← s.removeKey
  let s := match s.outerKeys with
    | [] => s
    | key :: rest => { s with simpleKey := key, outerKeys := rest }
  return ({ s with keyAllowed := false }.advance 1).push t

/-- Reads a comma between brackets. -/
def fetchFlowEntry (s : Scanner) : Option Scanner := do
  let s ← s.removeKey
  return ({ s with keyAllowed := true }.advance 1).push .flowEntry

/-- Reads the hyphen of a block list. -/
def fetchBlockEntry (s : Scanner) : Option Scanner := do
  if !s.inFlow && !s.keyAllowed then none
  else
    let s ← (s.openBlock s.cursor.column none .blockSequenceStart).removeKey
    return ({ s with keyAllowed := true }.advance 1).push .blockEntry

/-- Reads the question mark of a key. -/
def fetchKey (s : Scanner) : Option Scanner := do
  if !s.inFlow && !s.keyAllowed then none
  else
    let s ← (s.openBlock s.cursor.column none .blockMappingStart).removeKey
    return ({ s with keyAllowed := !s.inFlow }.advance 1).push .key

/-- Reads the colon of a value. The token of a simple key is put in before it. -/
def fetchValue (s : Scanner) : Option Scanner :=
  let k := s.simpleKey
  if k.possible then
    let s := (s.putIn k.token .key).openBlock k.column (some k.token) .blockMappingStart
    let s := { s with simpleKey := { k with possible := false }, keyAllowed := false }
    some ((s.advance 1).push .value)
  else if !s.inFlow && !s.keyAllowed then none
  else
    let s := s.openBlock s.cursor.column none .blockMappingStart
    some (({ s with keyAllowed := !s.inFlow }.advance 1).push .value)

/-- Reads an anchor or an alias. -/
def fetchName (make : String → Token) (s : Scanner) : Option Scanner := do
  let s ← s.saveKey
  let (text, cursor) ← name s.cursor
  return { s with keyAllowed := false, cursor }.push (make text)

/-- Reads a tag. -/
def fetchTag (s : Scanner) : Option Scanner := do
  let s ← s.saveKey
  let (handle, suffix, cursor) ← tag s.inFlow s.cursor
  return { s with keyAllowed := false, cursor }.push (.tag handle suffix)

/-- Reads a block scalar. -/
def fetchBlockScalar (literal : Bool) (s : Scanner) : Option Scanner := do
  let s ← s.removeKey
  let (text, cursor) ← blockScalar literal s.indent s.cursor
  let style := if literal then Scalar.Style.literal else .quoted
  return { s with keyAllowed := true, cursor }.push (.scalar text style)

/-- Reads a quoted scalar. -/
def fetchQuoted (single : Bool) (s : Scanner) : Option Scanner := do
  let s ← s.saveKey
  let (text, cursor) ← quotedScalar single s.cursor
  return { s with keyAllowed := false, cursor }.push (.scalar text .quoted)

/-- Reads a plain scalar. -/
def fetchPlain (s : Scanner) : Option Scanner := do
  let s ← s.saveKey
  let (text, cursor, folded) ← plainScalar s.inFlow (s.indent + 1) s.cursor
  return { s with keyAllowed := folded, cursor }.push (.scalar text .plain)

/-- Whether a plain scalar may begin with a character. A hyphen, and outside of brackets a
question mark or a colon, may do so if no blank follows. -/
def startsPlain (s : Scanner) (ch : Char) : Bool :=
  let c := s.cursor
  let special := "-?:,[]\x7b\x7d#&*!|>'\"%@\x60".toList.contains ch
  let blankNext := match c.peek 1 with
    | some next => isBlank next
    | none => false
  !(c.endsWord 0 || special) || (ch == '-' && !blankNext) ||
    (!s.inFlow && (ch == '?' || ch == ':') && !c.endsWord 1)

/-- Reads the next token. -/
def fetch (s : Scanner) : Option Scanner := do
  let s ← (toNextToken (s.cursor.rest.length + 1) s).expireKeys
  let s := s.closeBlocks s.column
  let c := s.cursor
  match c.peek 0 with
  | none => s.fetchEnd
  | some ch =>
    if c.column == 0 && ch == '%' then s.fetchDirective
    else if c.atMarker '-' then s.fetchDocumentMarker .documentStart
    else if c.atMarker '.' then s.fetchDocumentMarker .documentEnd
    else if ch == '[' then s.fetchOpening .flowSequenceStart
    else if ch == '\x7b' then s.fetchOpening .flowMappingStart
    else if ch == ']' then s.fetchClosing .flowSequenceEnd
    else if ch == '\x7d' then s.fetchClosing .flowMappingEnd
    else if ch == ',' then s.fetchFlowEntry
    else if ch == '-' && c.endsWord 1 then s.fetchBlockEntry
    else if ch == '?' && (s.inFlow || c.endsWord 1) then s.fetchKey
    else if ch == ':' && (s.inFlow || c.endsWord 1) then s.fetchValue
    else if ch == '*' then s.fetchName .alias
    else if ch == '&' then s.fetchName .anchor
    else if ch == '!' then s.fetchTag
    else if ch == '|' && !s.inFlow then s.fetchBlockScalar true
    else if ch == '>' && !s.inFlow then s.fetchBlockScalar false
    else if ch == '\'' then s.fetchQuoted true
    else if ch == '"' then s.fetchQuoted false
    else if s.startsPlain ch then s.fetchPlain
    else none

/-- Reads tokens up to the end of the text. -/
def run : Nat → Scanner → Option Scanner
  | 0, _ => none
  | fuel + 1, s => do
    let s ← s.fetch
    if s.tokens.back? == some .streamEnd then return s else run fuel s

end Scanner

/-- The tokens of a text, or nothing if the text is wrong. -/
def Token.scan (text : String) : Option (List Token) := do
  let cs := text.toList
  if cs.all isAllowed then
    let s ← Scanner.run (cs.length + 2) { cursor := { rest := cs } }
    return s.tokens.toList
  else none

end ServiceDocs.Yaml
