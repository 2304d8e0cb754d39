/-!
# Tags of YAML Nodes

A tag says what kind of thing a node is. The octets of a tag may be written one by one, as a
percent sign and two digits, so a tag need not be a text: `Tag` holds the octets. A tag ends
before an octet that is zero.

A tag that begins with an exclamation mark is one of the writer's own. If the rest of it is a
text, it names a variant; the exclamation mark alone is a name as well.

## Main definitions

* `Tag`: the tags.
* `Tag.standard`: the tags that YAML itself defines.
* `Tag.isOwn`, `Tag.variant?`: the tags of the writer and what they name.
-/

namespace ServiceDocs.Yaml

/-- A tag. -/
structure Tag where
  /-- Its octets. -/
  octets : List UInt8
  deriving DecidableEq, Repr

namespace Tag

/-- The tag with the octets of a text. -/
def ofString (s : String) : Tag := ⟨s.toUTF8.data.toList⟩

/-- The part of some octets before one that is zero. -/
def ofOctets (octets : List UInt8) : Tag := ⟨octets.takeWhile (· ≠ 0)⟩

/-- The text of a tag, if its octets are those of a text. -/
def text? (t : Tag) : Option String := String.fromUTF8? ⟨t.octets.toArray⟩

/-- Puts two tags together. -/
def append (t u : Tag) : Tag := ⟨t.octets ++ u.octets⟩

/-- The octet of an exclamation mark. -/
def ownMark : UInt8 := 0x21

/-- The tag that is an exclamation mark alone. -/
def own : Tag := ⟨[ownMark]⟩

/-- What the standard tags begin with. -/
def standardStart : Tag := ofString "tag:yaml.org,2002:"

/-- A standard tag. -/
def standard (name : String) : Tag := standardStart.append (ofString name)

/-- Whether a tag is one of the writer's own. -/
def isOwn (t : Tag) : Bool := t.octets.head? == some ownMark

/-- The variant that a tag names. -/
def variant? (t : Tag) : Option String :=
  match t.octets with
  | [] => none
  | mark :: name =>
    if mark = ownMark then
      if name.isEmpty then t.text? else (Tag.mk name).text?
    else none

end Tag

end ServiceDocs.Yaml
