import ServiceDocs.OrderedMap
import ServiceDocs.Decimal.Notation

/-!
# JSON Values

The value type of documents: what free values, extension keys and partial documents are
made of. A number that is written as an integer stays one, any other is a double. The
members of an object keep their order.

## Main definitions

* `Number`, `Json`: the values.
* `Json.object`, `Json.ofMap`: objects from entries.
* `Json.unrepeated`: a value whose objects have each member once.
* `Number.render`: the JSON text of a number.
-/

namespace ServiceDocs

/-- A number of a JSON value. -/
inductive Number where
  /-- An integer between `-2 ^ 63` and `2 ^ 64 - 1`. -/
  | int (value : Int)
  /-- Any other number. -/
  | float (value : Binary64)
  deriving DecidableEq, Repr

/-- A JSON value. -/
inductive Json where
  /-- The null value. -/
  | null
  /-- A truth value. -/
  | bool (value : Bool)
  /-- A number. -/
  | number (value : Number)
  /-- A text. -/
  | string (value : String)
  /-- A list of values. -/
  | array (items : List Json)
  /-- Named members in their order. -/
  | object (fields : List (String × Json))

instance : Inhabited Json := ⟨.null⟩

/-- JSON writes a double positionally between `0.00001` and `1e+16`, gives a positive
exponent its sign, and has no text for a number that is not finite. -/
def Number.layout : Layout :=
  { leastPositional := -5, greatestPositional := 15, plus := "+",
    infinity := "null", undefined := "null" }

/-- The JSON text of a number. -/
def Number.render : Number → String
  | .int value => integerText value
  | .float value => if value.isFinite then value.render layout else "null"

namespace Json

/-- The value of an integer. -/
def int (value : Int) : Json := .number (.int value)

/-- The value of a double; one that is not finite is null. -/
def float (value : Binary64) : Json :=
  if value.isFinite then .number (.float value) else .null

/-- The object of a map. -/
def ofMap (m : OrderedMap Json) : Json := .object m.entries

/-! ### Equality -/

mutual

/-- Whether two values are the same. -/
def same : Json → Json → Bool
  | .null, .null => true
  | .bool a, .bool b => a == b
  | .number a, .number b => a == b
  | .string a, .string b => a == b
  | .array a, .array b => sameItems a b
  | .object a, .object b => sameFields a b
  | _, _ => false

/-- Whether two lists have the same items. -/
def sameItems : List Json → List Json → Bool
  | [], [] => true
  | a :: as, b :: bs => same a b && sameItems as bs
  | _, _ => false

/-- Whether two objects have the same members in the same order. -/
def sameFields : List (String × Json) → List (String × Json) → Bool
  | [], [] => true
  | (name, a) :: as, (name', b) :: bs => name == name' && same a b && sameFields as bs
  | _, _ => false

end

mutual

/-- The comparison of two values decides their equality. -/
theorem same_iff : ∀ a b : Json, same a b = true ↔ a = b
  | .array as, b => by cases b <;> simp [same, sameItems_iff as]
  | .object as, b => by cases b <;> simp [same, sameFields_iff as]
  | .null, b | .bool _, b | .number _, b | .string _, b => by cases b <;> simp [same]

/-- The comparison of two lists of values decides their equality. -/
theorem sameItems_iff : ∀ as bs : List Json, sameItems as bs = true ↔ as = bs
  | [], bs => by cases bs <;> simp [sameItems]
  | a :: as, bs => by cases bs <;> simp [sameItems, same_iff a, sameItems_iff as]

/-- The comparison of two lists of members decides their equality, names and order included. -/
theorem sameFields_iff : ∀ as bs : List (String × Json), sameFields as bs = true ↔ as = bs
  | [], bs => by cases bs <;> simp [sameFields]
  | (name, a) :: as, bs => by
      cases bs <;> simp [sameFields, same_iff a, sameFields_iff as, Prod.ext_iff]

end

instance : DecidableEq Json := fun a b => decidable_of_iff _ (same_iff a b)

/-! ### Objects -/

/-- The members of an object, none for any other value. -/
def members : Json → OrderedMap Json
  | .object fields => ⟨fields⟩
  | _ => .empty

mutual

/-- A value in which no object has two members of one name: the later value stands in the place of
the earlier one. -/
def unrepeated : Json → Json
  | .array items => .array (unrepeatedItems items)
  | .object fields => .ofMap (.ofList (unrepeatedFields fields))
  | value => value

/-- The items of a list, without repeated members. -/
def unrepeatedItems : List Json → List Json
  | [] => []
  | item :: rest => unrepeated item :: unrepeatedItems rest

/-- The values of members, without repeated members. -/
def unrepeatedFields : List (String × Json) → List (String × Json)
  | [] => []
  | (name, value) :: rest => (name, unrepeated value) :: unrepeatedFields rest

end

end Json

end ServiceDocs
