import ServiceDocs.Reading.Codec

/-!
# Codecs of Records

A record type is described by the list of its fields. The description serves both ways:
a value is written as an object with its fields in that order, and it is read from an
object whose members may stand in any order. A record that does not keep unknown members
may also be read from a list with its fields in order, and ignores members that it does
not know. A record with a `Rest` keeps them.

A field that is given twice is a fault, even if nothing else is wrong. Members are read in
the order of the text, and absent fields are reported last.

## Main definitions

* `Field`: one field of a record type.
* `Record`: the description of a record type.
* `Record.read`, `Record.write`, `Record.codec`.
-/

namespace ServiceDocs

/-- What an absent field means. -/
inductive Need where
  /-- It must be given. -/
  | required
  /-- It may be left out of an object, but not of a list. -/
  | optional
  /-- It may be left out, and then has the value of the blank record. -/
  | defaulted
  deriving DecidableEq, Repr

/-- A field of a record type: a part of the record, and how the part is read and written. -/
structure Field (α : Type) where
  /-- The name of the member. -/
  name : String
  /-- What its absence means. -/
  need : Need
  /-- The type of the part. -/
  Part : Type
  /-- How the part is read and written. -/
  codec : Codec Part
  /-- The part of a record. -/
  get : α → Part
  /-- Sets the part of a record. -/
  set : Part → α → α
  /-- Whether the member is left out when the part is written. -/
  omits : Part → Bool := fun _ => false

/-- How a record type keeps the members that it has no field for. -/
structure Rest (α : Type) where
  /-- Keeps a member. -/
  keep : String → Json → α → α
  /-- The members that were kept. -/
  kept : α → OrderedMap Json

/-- A record type. -/
structure Record (α : Type) where
  /-- The name of the type in messages. -/
  name : String
  /-- The record before any field is read. -/
  blank : α
  /-- The fields in order. -/
  fields : List (Field α)
  /-- How unknown members are kept, if they are. -/
  rest : Option (Rest α) := none
  /-- Whether the record may be given as a list. -/
  listed : Bool := true

namespace Field

variable {α β : Type}

/-- Reads the value of the member into a record. -/
def read (f : Field α) (m : Mode) (n : Node) (a : α) : Except Fault α := do
  let part ← f.codec.read m n
  return f.set part a

/-- Writes the value of the member, unless it is left out. -/
def write (f : Field α) (a : α) : Option Json :=
  if f.omits (f.get a) then none else some (f.codec.write (f.get a))

/-- A field that is always written. -/
def plain (name : String) (need : Need) (item : Codec β) (get : α → β) (set : β → α → α) :
    Field α where
  name := name
  need := need
  Part := β
  codec := item
  get := get
  set := set

/-- A field that may be null. An absent value is left out when it is written. -/
def hidden (name : String) (need : Need) (item : Codec β) (get : α → Option β)
    (set : Option β → α → α) : Field α where
  name := name
  need := need
  Part := Option β
  codec := item.option
  get := get
  set := set
  omits := Option.isNone

/-- A field that may be null. An absent value is written as null. -/
def shown (name : String) (need : Need) (item : Codec β) (get : α → Option β)
    (set : Option β → α → α) : Field α :=
  plain name need item.option get set

end Field

namespace Record

variable {α : Type}

/-- The name of the type in messages. -/
def wanted (r : Record α) : String := "struct " ++ r.name

/-- A number of elements in words. -/
def countText (n : Nat) : String :=
  digitsText n ++ (if n = 1 then " element" else " elements")

/-! ### Objects -/

/-- The field that a key names, or the name of an unknown member. A key that was set aside
as a number counts the fields. -/
def find (r : Record α) (m : Mode) (key : Node) : Except Fault (Option (Field α) × String) :=
  match m, key with
  | .aside, .number (.int i) =>
    if 0 ≤ i && r.rest.isNone then .ok (r.fields[i.toNat]?, "")
    else .error (key.clash "field identifier")
  | _, _ =>
    match readKey m key with
    | .ok name => .ok (r.fields.find? (·.name == name), name)
    | .error fault => .error fault

/-- Reads the members of an object in their order. `seen` holds the fields read so far. -/
def readMembers (r : Record α) (m : Mode) :
    List (Node × Node) → List String → α → Except Fault (List String × α)
  | [], seen, a => .ok (seen, a)
  | (key, value) :: rest, seen, a =>
    match r.find m key with
    | .error fault => .error fault
    | .ok (some f, _) => do
      if f.name ∈ seen then throw (.mismatch (.duplicate f.name))
      let a ← f.read m value a
      readMembers r m rest (f.name :: seen) a
    | .ok (none, name) =>
      match r.rest with
      | none => do
        m.skip value
        readMembers r m rest seen a
      | some kept => do
        let value ← Json.read m value
        readMembers r m rest seen (kept.keep name value a)

/-- Checks that no required field is absent. -/
def checkComplete (r : Record α) (seen : List String) : Except Fault Unit :=
  match r.fields.find? fun f => f.need = .required && !(seen.contains f.name) with
  | none => .ok ()
  | some f => .error (.mismatch (.missing f.name))

/-- Reads a record from the members of an object. -/
def readObject (r : Record α) (m : Mode) (fields : List (Node × Node)) (close : Close) :
    Except Fault α := do
  let inner ← m.enter
  let (seen, a) ← r.readMembers inner fields [] r.blank
  close.pass
  r.checkComplete seen
  return a

/-! ### Lists -/

/-- Checks that a list ends after the last field. -/
def checkSurplus (r : Record α) (m : Mode) (items : List Node) (close : Close) :
    Except Fault Unit :=
  if items.isEmpty then close.pass
  else
    let total := r.fields.length + items.length
    match m with
    | .aside => .error (.mismatch (.length total (countText r.fields.length ++ " in sequence")))
    | .value => .error (.mismatch (.length total "fewer elements in array"))
    | _ => .error .malformed

/-- Reads the fields of a record from a list. `index` counts the items read so far. -/
def readPositions (r : Record α) (m : Mode) (close : Close) :
    List (Field α) → List Node → Nat → α → Except Fault α
  | [], items, _, a => do
    r.checkSurplus m items close
    return a
  | f :: fields, item :: items, index, a => do
    let a ← f.read m item a
    readPositions r m close fields items (index + 1) a
  | f :: fields, [], index, a => do
    close.pass
    if f.need = .defaulted then readPositions r m close fields [] (index + 1) a
    else
      let elements := r.wanted ++ " with " ++ countText r.fields.length
      throw (.mismatch (.length index elements))

/-- Reads a record from a list. -/
def readListed (r : Record α) (m : Mode) (items : List Node) (close : Close) :
    Except Fault α := do
  let inner ← m.enter
  r.readPositions inner close r.fields items 0 r.blank

/-! ### Records -/

/-- Reads a record. -/
def read (r : Record α) : Reader α
  | m, .object fields close => r.readObject m fields close
  | m, .array items close =>
    if r.listed && !m.isYaml then r.readListed m items close
    else .error (Node.array items close |>.clash r.wanted)
  | m, .scalar s =>
    if m.isYaml && s.isEmptyPlain then r.readObject m [] .closed
    else .error (Node.scalar s |>.clash r.wanted)
  | m, .tagged _ n =>
    match n with
    | .object fields close => r.readObject m fields close
    | n => .error (n.clash r.wanted)
  | _, n => .error (n.clash r.wanted)

/-- The members of a record. -/
def members (r : Record α) (a : α) : List (String × Json) :=
  r.fields.filterMap (fun f => (f.write a).map fun value => (f.name, value)) ++
    match r.rest with
    | none => []
    | some kept => (kept.kept a).entries

/-- Writes a record. -/
def write (r : Record α) (a : α) : Json := .object (r.members a)

/-- What is looked at when a record is read: the members that it has fields for, or all of
them if it keeps the others. -/
def outline (r : Record α) : Outline :=
  match r.rest with
  | none => .members (r.fields.map fun f => (f.name, f.codec.outline))
  | some _ => .whole

/-- The codec of a record type. -/
def codec (r : Record α) : Codec α where
  read := r.read
  write := r.write
  outline := r.outline

end Record

end ServiceDocs
