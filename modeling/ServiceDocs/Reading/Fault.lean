import ServiceDocs.Json.Basic
import ServiceDocs.Text.Shown

/-!
# Why Reading Fails

Reading a text into a typed value fails for one of two reasons: the text is no text of
its format, or what it says does not fit the type. The first kind of fault says only
whether the text is wrong or ends too early; the second kind is a `Mismatch`, a cause
with its data. `Mismatch.message` is the only place that holds their wording.

## Main definitions

* `TextFault`, `Mismatch`, `Fault`: the causes.
* `Mismatch.message`: the wording.
-/

namespace ServiceDocs

/-- Why a text is not a text of its format. -/
inductive TextFault where
  /-- Something stands where it may not stand. -/
  | malformed
  /-- The text ends before it is complete. -/
  | truncated
  deriving DecidableEq, Repr

/-- What was found where something else was wanted. -/
inductive Found where
  /-- The null value. -/
  | null
  /-- A truth value. -/
  | bool (value : Bool)
  /-- A number. -/
  | number (value : Number)
  /-- A text. -/
  | string (value : String)
  /-- A list. -/
  | sequence
  /-- An object. -/
  | map
  deriving DecidableEq, Repr

/-- The wording of what was found. -/
def Found.message : Found → String
  | .null => "null"
  | .bool value => "boolean `" ++ (if value then "true" else "false") ++ "`"
  | .number (.int value) => "integer `" ++ integerText value ++ "`"
  | .number (.float value) => "floating point `" ++ (Number.float value).render ++ "`"
  | .string value => "string " ++ Text.shown value
  | .sequence => "sequence"
  | .map => "map"

/-- Why a well formed value does not fit the type it is read into. -/
inductive Mismatch where
  /-- A value of another kind than the wanted one. -/
  | kind (found : Found) (wanted : String)
  /-- A value of the right kind that is not among the wanted ones. -/
  | value (found : Found) (wanted : String)
  /-- A list with too few or too many items. -/
  | length (count : Nat) (wanted : String)
  /-- A name that is none of the choices. -/
  | choice (name : String) (choices : List String)
  /-- A field that must be given is absent. -/
  | missing (field : String)
  /-- A field is given twice. -/
  | duplicate (field : String)
  /-- A value that fits none of the forms of a type. -/
  | noForm (type : String)
  deriving DecidableEq, Repr

/-- A name in a list of choices. -/
def choiceText (name : String) : String := "`" ++ name ++ "`"

/-- The list of choices of a message. -/
def choicesText : List String → String
  | [] => "there are no variants"
  | [a] => "expected " ++ choiceText a
  | [a, b] => "expected " ++ choiceText a ++ " or " ++ choiceText b
  | choices => "expected one of " ++ ", ".intercalate (choices.map choiceText)

/-- The wording of a mismatch. -/
def Mismatch.message : Mismatch → String
  | .kind found wanted => "invalid type: " ++ found.message ++ ", expected " ++ wanted
  | .value found wanted => "invalid value: " ++ found.message ++ ", expected " ++ wanted
  | .length count wanted => "invalid length " ++ digitsText count ++ ", expected " ++ wanted
  | .choice name choices => "unknown variant `" ++ name ++ "`, " ++ choicesText choices
  | .missing field => "missing field `" ++ field ++ "`"
  | .duplicate field => "duplicate field `" ++ field ++ "`"
  | .noForm type => "data did not match any variant of untagged enum " ++ type

/-- Why a text or a value cannot be read. -/
inductive Fault where
  /-- The text is no text of its format. -/
  | text (fault : TextFault)
  /-- The value does not fit the type. -/
  | mismatch (cause : Mismatch)
  deriving DecidableEq, Repr

/-- The fault of a text with something in a wrong place. -/
def Fault.malformed : Fault := .text .malformed

/-- The fault of a text that ends too early. -/
def Fault.truncated : Fault := .text .truncated

end ServiceDocs
