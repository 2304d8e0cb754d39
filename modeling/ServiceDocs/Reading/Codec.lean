import ServiceDocs.Reading.Mode
import ServiceDocs.Reading.Outline

/-!
# Codecs of Simple Types

A `Codec` holds how a type is read from a tree and how it is written as a JSON value. This
module has the codecs of texts, truth values, numbers, lists, maps and choices among
names, and two ways of combining readers: a value that may be null, and a value that has
one of several forms.

A choice is normally written as its name. It may also be written as an object whose only
member has that name and the value null.

## Main definitions

* `Codec`: reading and writing of a type, and what is looked at when it is read.
* `Codec.string`, `Codec.bool`, `Codec.list`, `Codec.map`, `Codec.option`, `Codec.json`.
* `Codec.choice`: a type of named constants.
* `Reader.oneOf`: a type with several forms.
-/

namespace ServiceDocs

/-- How the values of a type are read and written. -/
structure Codec (α : Type) where
  /-- Reads a value from a tree. -/
  read : Reader α
  /-- Writes a value as JSON. -/
  write : α → Json
  /-- What is looked at when a value is read. -/
  outline : Outline := .whole

/-- Reads a complete JSON text. -/
def Reader.ofText {α : Type} (read : Reader α) (tree : Node × Close) : Except Fault α := do
  let value ← read .jsonText tree.1
  tree.2.pass
  return value

/-- Reads a JSON value in memory. -/
def Reader.ofJson {α : Type} (read : Reader α) (value : Json) : Except Fault α :=
  read .value (.ofJson value)

/-! ### Scalars -/

/-- Reads a text. A scalar of a YAML text is read as it is written. -/
def readString (wanted : String) : Reader String
  | _, .string value => .ok value
  | _, .scalar s => .ok s.text
  | _, n => .error (n.clash wanted)

/-- Reads a truth value. -/
def readBool : Reader Bool
  | _, .bool value => .ok value
  | _, .scalar s =>
    match s.truth? with
    | some value => .ok value
    | none => .error (Node.scalar s |>.clash "a boolean")
  | _, n => .error (n.clash "a boolean")

/-- Reads a natural number of at most `greatest`. -/
def readNat (wanted : String) (greatest : Nat) : Reader Nat
  | _, .number (.int value) =>
    if 0 ≤ value && value ≤ greatest then .ok value.toNat
    else .error (.mismatch (.value (.number (.int value)) wanted))
  | _, n => .error (n.clash wanted)

/-- Reads a number as a double. -/
def readDouble : Reader Binary64
  | _, .number (.int value) => .ok (.ofInt value)
  | _, .number (.float value) => .ok value
  | _, n => .error (n.clash "f64")

/-! ### Containers -/

/-- Reads the items of a list one after the other. -/
def readItems {α : Type} (read : Node → Except Fault α) : List Node → Except Fault (List α)
  | [] => .ok []
  | item :: rest => do
    let value ← read item
    let values ← readItems read rest
    return value :: values

/-- Reads a list. -/
def readList {α : Type} (read : Reader α) : Reader (List α)
  | m, .array items close => do
    let inner ← m.enter
    let values ← readItems (read inner) items
    close.pass
    return values
  | m, .scalar s =>
    if m.isYaml && s.isEmptyPlain then .ok [] else .error (Node.scalar s |>.clash "a sequence")
  | m, .tagged _ n =>
    match n with
    | .array items close => do
      let inner ← m.enter
      let values ← readItems (read inner) items
      close.pass
      return values
    | n => .error (n.clash "a sequence")
  | _, n => .error (n.clash "a sequence")

/-- Reads the members of an object, the last value of a key winning. -/
def readMembers {κ α : Type} [DecidableEq κ] (key : Node → Except Fault κ)
    (read : Node → Except Fault α) :
    List (Node × Node) → List (κ × α) → Except Fault (List (κ × α))
  | [], entries => .ok entries
  | (name, value) :: rest, entries => do
    let name ← key name
    let value ← read value
    readMembers key read rest (OrderedMap.insertEntry name value entries)

/-- Reads an object as a list of entries with distinct keys. -/
def readEntries {κ α : Type} [DecidableEq κ] (key : Mode → Node → Except Fault κ)
    (read : Reader α) : Reader (List (κ × α))
  | m, .object fields close => do
    let inner ← m.enter
    let entries ← readMembers (key inner) (read inner) fields []
    close.pass
    return entries
  | m, .scalar s =>
    if m.isYaml && s.isEmptyPlain then .ok [] else .error (Node.scalar s |>.clash "a map")
  | m, .tagged _ n =>
    match n with
    | .object fields close => do
      let inner ← m.enter
      let entries ← readMembers (key inner) (read inner) fields []
      close.pass
      return entries
    | n => .error (n.clash "a map")
  | _, n => .error (n.clash "a map")

/-- Reads a value that may be null. -/
def readOption {α : Type} (read : Reader α) : Reader (Option α)
  | _, .null => .ok none
  | m, .scalar s => do
    if ← s.isAbsent then return none
    let value ← read m (.scalar s)
    return some value
  | m, n => do
    let value ← read m n
    return some value

/-! ### Choices -/

/-- Looks a name up among the choices. -/
def chooseName {α : Type} (choices : List (String × α)) (name : String) : Except Fault α :=
  match OrderedMap.findEntry name choices with
  | some value => .ok value
  | none => .error (.mismatch (.choice name (choices.map (·.1))))

/-- Reads the null that a choice in the form of an object holds. -/
def readUnit (m : Mode) : Node → Except Fault Unit
  | .null => .ok ()
  | .scalar s => do
    if m.isYaml then
      if ← s.isAbsent then return () else throw .malformed
    else throw (Node.scalar s |>.clash "unit")
  | n => .error (n.clash "unit")

/-- Reads the name in a choice that has the form of an object. -/
def readChoiceKey : Node → Except Fault String
  | .string name => .ok name
  | .misplaced token => .error (token.clash "variant identifier")
  | n => .error (n.clash "variant identifier")

/-- Reads a choice in the form of an object from a JSON text, member by member. -/
def readChoiceMembers {α : Type} (choices : List (String × α)) (m : Mode)
    (fields : List (Node × Node)) (close : Close) : Except Fault α :=
  match fields with
  | [] => do
    close.pass
    throw .malformed
  | (key, unit) :: rest => do
    let name ← readChoiceKey key
    let value ← chooseName choices name
    readUnit m unit
    if rest.isEmpty then
      close.pass
      return value
    else throw .malformed

/-- What is wanted of an object that stands for a choice. -/
def singleKey : Fault := .mismatch (.value .map "map with a single key")

/-- Reads a choice among names. -/
def readChoice {α : Type} (choices : List (String × α)) : Reader α
  | _, .string name => chooseName choices name
  | .text room, .object fields close => do
    let inner ← (Mode.text room).enter
    readChoiceMembers choices inner fields close
  | .text _, .defect d =>
    match d.start with
    | .other => .error .malformed
    | _ => .error (.text d.whenRead)
  | .text _, _ => .error .malformed
  | .yaml room, .scalar s =>
    match s.tag.bind (·.variant?) with
    | some name => do
      let value ← chooseName choices name
      readUnit (.yaml room) (.scalar { s with tag := none })
      return value
    | none => chooseName choices s.text
  | .yaml _, _ => .error .malformed
  | m, .object [(key, unit)] _ => do
    let name ← readChoiceKey key
    let value ← chooseName choices name
    readUnit m unit
    return value
  | _, .object _ _ => .error singleKey
  | _, n => .error (n.clash "string or map")

/-! ### Several forms -/

/-- The first reader that succeeds on a tree. -/
def firstForm {α : Type} (n : Node) : List (Reader α) → Option α
  | [] => none
  | read :: rest =>
    match read .aside n with
    | .ok value => some value
    | .error _ => firstForm n rest

/-- Reads a value that has one of several forms. It is set aside, and the first form that
fits is taken. -/
def Reader.oneOf {α : Type} (type : String) (forms : List (Reader α)) : Reader α :=
  fun m n => do
    let kept ← n.setAside m
    match firstForm kept forms with
    | some value => return value
    | none => throw (.mismatch (.noForm type))

/-- Applies a function to what is read. -/
def Reader.map {α β : Type} (f : α → β) (read : Reader α) : Reader β :=
  fun m n => (read m n).map f

namespace Codec

/-- Texts. -/
def string : Codec String where
  read := readString "a string"
  write := .string

/-- Paths of files. -/
def path : Codec String where
  read := readString "path string"
  write := .string

/-- Truth values. -/
def bool : Codec Bool where
  read := readBool
  write := .bool

/-- Natural numbers below `2 ^ 16`. -/
def nat16 : Codec Nat where
  read := readNat "u16" 0xFFFF
  write n := .int n

/-- Doubles. One that is not finite is written as null. -/
def double : Codec Binary64 where
  read := readDouble
  write := .float

/-- Values of any kind. -/
def json : Codec Json where
  read := Json.read
  write := id

/-- Lists. -/
def list {α : Type} (item : Codec α) : Codec (List α) where
  read := readList item.read
  write values := .array (values.map item.write)
  outline := .each item.outline

/-- Maps. -/
def map {α : Type} (item : Codec α) : Codec (OrderedMap α) where
  read := Reader.map OrderedMap.mk (readEntries readKey item.read)
  write values := .ofMap (values.mapValues item.write)
  outline := .each item.outline

/-- Values that may be null. -/
def option {α : Type} (item : Codec α) : Codec (Option α) where
  read := readOption item.read
  write value := (value.map item.write).getD .null
  outline := item.outline

/-- Constants with names. -/
def choice {α : Type} (choices : List (String × α)) (name : α → String) : Codec α where
  read := readChoice choices
  write value := .string (name value)

/-- Reads a complete JSON text. -/
def ofText {α : Type} (c : Codec α) (tree : Node × Close) : Except Fault α := c.read.ofText tree

/-- Reads a JSON value in memory. -/
def ofJson {α : Type} (c : Codec α) (value : Json) : Except Fault α := c.read.ofJson value

end Codec

end ServiceDocs
