import ServiceDocs.Proofs.Document.Collapse
import ServiceDocs.Proofs.Json.Alike

/-!
# Collapsing Keeps What a Schema Accepts

A schema accepts some values and rejects others. Types, constants, enumerations, alternatives,
items, properties, required and further properties mean what they mean in JSON schemas: a number
equals another one of the same value, members have no order, `integer` admits numbers without a
fraction, and a keyword about lists or objects says nothing of other values. What a reference, a
format or a keyword without a field of its own admits is left open, in `Schema.Meaning`. Defaults
and descriptions admit every value.

Collapsing turns alternatives of constants into an enumeration and forgets what else they say. So
it keeps what a schema accepts if its unions are literal: an alternative has a constant, perhaps a
type that admits the constant, and nothing else, and the schema has no enumeration of its own that
would be replaced.

## Main definitions

* `Json.equals`, `Json.hasType`: equality and types of values.
* `Schema.Meaning`, `Schema.accepts`: the values that a schema accepts.
* `Schema.isLiteralUnion`: whether a union has no more than literals.

## Main results

* `Schema.accepts_of_isLiteral`: a literal accepts what equals its constant.
* `Schema.accepts_collapse`: collapsing keeps what a schema accepts.
-/

namespace ServiceDocs

/-! ### Numbers and values -/

/-- The exact value of a double, if it is finite. -/
def Binary64.toRat? : Binary64 → Option Rat
  | .finite negative mantissa exponent =>
    let (num, den) := magnitudeRatio mantissa exponent
    some (mkRat (if negative then -num else num) den)
  | _ => none

namespace Number

/-- The exact value of a number. -/
def toRat? : Number → Option Rat
  | .int value => some value
  | .float value => value.toRat?

/-- Whether two numbers have the same value. -/
def equals (a b : Number) : Bool :=
  match a.toRat?, b.toRat? with
  | some x, some y => x == y
  | _, _ => false

/-- Whether a number has no fraction. -/
def isInteger (a : Number) : Bool := a.toRat?.any Rat.isInt

/-- Equal numbers are integers alike. -/
theorem isInteger_of_equals {a b : Number} (h : a.equals b = true) : a.isInteger = b.isInteger := by
  rw [equals] at h
  rw [isInteger, isInteger]
  split at h
  · next x y ha hb => rw [ha, hb, beq_iff_eq.mp h]
  · exact absurd h Bool.false_ne_true

end Number

namespace Json

/-- Whether two values are equal: numbers by their value, members in any order. -/
def equals (v w : Json) : Bool := v.alike Number.equals w

/-- Whether a value has a type. There is no other type than these. -/
def hasType (type : String) : Json → Bool
  | .null => type = "null"
  | .bool _ => type = "boolean"
  | .number a => type = "number" || type = "integer" && a.isInteger
  | .string _ => type = "string"
  | .array _ => type = "array"
  | .object _ => type = "object"

/-- Equal values have the same types. -/
theorem hasType_of_equals {v w : Json} (h : v.equals w = true) (type : String) :
    v.hasType type = w.hasType type := by
  cases v with
  | number a =>
      cases w with
      | number b => rw [hasType, hasType, Number.isInteger_of_equals h]
      | null | bool | string | array | object => exact absurd h Bool.false_ne_true
  | null | bool | string | array | object =>
      cases w <;> first | rfl | exact absurd h Bool.false_ne_true

/-- The items of a list, none for any other value. -/
def elements : Json → List Json
  | .array items => items
  | _ => []

/-- Whether a value, if it is an object, has members of all these names. -/
def hasMembers (names : List String) : Json → Bool
  | .object fields => names.all fun name => (OrderedMap.findEntry name fields).isSome
  | _ => true

/-- The members of an object besides those of some names. -/
def membersBesides (names : List String) (v : Json) : List Json :=
  (v.members.entries.filter fun entry => entry.1 ∉ names).map (·.2)

end Json

namespace Schema

/-! ### Acceptance -/

/-- What references, formats and keywords without a field admit. -/
structure Meaning where
  /-- Whether the schema at a place admits a value. -/
  reference : String → Json → Bool
  /-- Whether a format admits a value. -/
  format : String → Json → Bool
  /-- Whether keywords without a field admit a value. -/
  extensions : OrderedMap Json → Json → Bool
  /-- Where there are none of them, they admit every value. -/
  extensions_empty : ∀ v, extensions .empty v = true

/-- Whether the keywords that hold no schema admit a value. -/
def Keywords.accepts (M : Meaning) (k : Keywords) (v : Json) : Bool :=
  k.type.all v.hasType && k.ref.all (M.reference · v) && k.format.all (M.format · v) &&
    k.required.all v.hasMembers && k.enum.all (fun values => values.any v.equals) &&
    k.const.all v.equals && M.extensions k.extensions v

mutual

/-- Whether a schema accepts a value. -/
def accepts (M : Meaning) : Schema → Json → Bool
  | .node k i a p o, v =>
    k.accepts M v && acceptsItems M i v && acceptsProperties M p v &&
      acceptsAdditional M a (v.membersBesides ((p.getD []).map (·.1))) && acceptsAlternatives M o v

/-- Whether every item of a list is accepted. -/
def acceptsItems (M : Meaning) : Option Schema → Json → Bool
  | none, _ => true
  | some s, v => v.elements.all (accepts M s)

/-- Whether every property that an object has is accepted. -/
def acceptsProperties (M : Meaning) : Option (List (String × Schema)) → Json → Bool
  | none, _ => true
  | some entries, v => acceptsEntries M entries v

/-- Whether every one of these properties that an object has is accepted. -/
def acceptsEntries (M : Meaning) : List (String × Schema) → Json → Bool
  | [], _ => true
  | (name, s) :: rest, v => (v.members.get? name).all (accepts M s) && acceptsEntries M rest v

/-- Whether an object may have other members than its properties. -/
def acceptsAdditional (M : Meaning) : Option AdditionalProperties → List Json → Bool
  | none, _ => true
  | some (.allowed flag), others => flag || others.isEmpty
  | some (.schema s), others => others.all (accepts M s)

/-- Whether one of the alternatives accepts a value. -/
def acceptsAlternatives (M : Meaning) : Option (List Schema) → Json → Bool
  | none, _ => true
  | some schemas, v => acceptsOne M schemas v

/-- Whether one of the schemas of a list accepts a value. -/
def acceptsOne (M : Meaning) : List Schema → Json → Bool
  | [], _ => false
  | s :: rest, v => accepts M s v || acceptsOne M rest v

end

/-- The properties accept a value whose members they accept, where it has them. -/
theorem acceptsEntries_eq (M : Meaning) (entries : List (String × Schema)) (v : Json) :
    acceptsEntries M entries v =
      entries.all fun entry => (v.members.get? entry.1).all (accepts M entry.2) := by
  induction entries with
  | nil => rfl
  | cons entry rest ih => rw [acceptsEntries, ih, List.all_cons]

/-- Alternatives accept what one of them accepts. -/
theorem acceptsOne_eq (M : Meaning) (schemas : List Schema) (v : Json) :
    acceptsOne M schemas v = schemas.any (accepts M · v) := by
  induction schemas with
  | nil => rfl
  | cons s rest ih => rw [acceptsOne, ih, List.any_cons]

/-! ### Collapsing the parts -/

variable {M : Meaning}

/-- If collapsing the parts keeps what they accept, the schema accepts the same values. -/
theorem accepts_collapseParts {s : Schema}
    (h : ∀ part ∈ s.parts, ∀ v, (collapse part).accepts M v = part.accepts M v) (v : Json) :
    (collapseParts s).accepts M v = s.accepts M v := by
  obtain ⟨k, i, a, p, o⟩ := s
  simp only [parts, List.mem_append, or_imp, forall_and, Option.mem_toList,
    List.forall_mem_map] at h
  obtain ⟨⟨hi, hp⟩, ho⟩ := h
  have hitems : acceptsItems M (i.map collapse) v = acceptsItems M i v := by
    cases i with
    | none => rfl
    | some s =>
        have hs : (collapse s).accepts M = s.accepts M := funext (hi s rfl)
        rw [Option.map_some, acceptsItems, acceptsItems, hs]
  have hproperties : acceptsProperties M
      (p.map fun entries => entries.map fun entry => (entry.1, collapse entry.2)) v =
        acceptsProperties M p v := by
    cases p with
    | none => rfl
    | some entries =>
        rw [Option.map_some, acceptsProperties, acceptsProperties, acceptsEntries_eq,
          acceptsEntries_eq, List.all_map, Bool.eq_iff_iff, List.all_eq_true, List.all_eq_true]
        refine forall_congr' fun entry => imp_congr_right fun hentry => ?_
        have hs : (collapse entry.2).accepts M = entry.2.accepts M := funext (hp entry hentry)
        rw [Function.comp_apply, hs]
  have hnames : ((p.map fun entries => entries.map fun entry => (entry.1, collapse entry.2)).getD
      []).map (·.1) = (p.getD []).map (·.1) := by
    cases p with
    | none => rfl
    | some entries => rw [Option.map_some, Option.getD_some, List.map_map]; rfl
  have halternatives : acceptsAlternatives M (o.map fun schemas => schemas.map collapse) v =
      acceptsAlternatives M o v := by
    cases o with
    | none => rfl
    | some schemas =>
        rw [Option.map_some, acceptsAlternatives, acceptsAlternatives, acceptsOne_eq, acceptsOne_eq,
          List.any_map, Bool.eq_iff_iff, List.any_eq_true, List.any_eq_true]
        refine exists_congr fun s => and_congr_right fun hs => ?_
        rw [Function.comp_apply, ho s hs v]
  rw [collapseParts, accepts, accepts, hitems, hproperties, hnames, halternatives]

/-! ### Literal unions -/

deriving instance DecidableEq for Keywords

/-- The schema that has a constant, perhaps a type, and nothing else. -/
def literal (type : Option String) (c : Json) : Schema :=
  .node { type := type, const := some c } none none none none

/-- Whether a schema has a constant, perhaps a type that admits it, and nothing else. -/
def isLiteral : Schema → Bool
  | .node k none none none none =>
    k = { type := k.type, const := k.const } && k.const.any fun c => k.type.all c.hasType
  | _ => false

/-- Whether the alternatives of a schema are literals and it has no enumeration besides. -/
def isLiteralUnion (s : Schema) : Bool := s.keywords.enum.isNone && (s.anyOf.getD []).all isLiteral

/-- A type and a constant admit the values of the type that equal the constant. -/
theorem Keywords.accepts_literal (type : Option String) (c v : Json) :
    Keywords.accepts M { type := type, const := some c } v =
      (type.all v.hasType && v.equals c) := by
  simp [Keywords.accepts, M.extensions_empty]

/-- A literal is a schema with a constant and perhaps a type that admits it. -/
theorem exists_of_isLiteral {s : Schema} (h : s.isLiteral = true) :
    ∃ type c, s = literal type c ∧ type.all c.hasType = true := by
  rw [isLiteral.eq_def] at h
  split at h
  · next k =>
      rw [Bool.and_eq_true, decide_eq_true_eq, Option.any_eq_true] at h
      obtain ⟨hk, c, hc, htype⟩ := h
      exact ⟨k.type, c, by rw [literal, ← hc, ← hk], htype⟩
  · exact absurd h Bool.false_ne_true

/-- A literal accepts the values that equal its constant. -/
theorem accepts_of_isLiteral {s : Schema} (h : s.isLiteral = true) (v : Json) :
    s.accepts M v = s.keywords.const.any v.equals := by
  obtain ⟨type, c, rfl, htype⟩ := exists_of_isLiteral h
  rw [literal, accepts, Keywords.accepts_literal]
  simp only [acceptsItems, acceptsProperties, acceptsAdditional, acceptsAlternatives, Bool.and_true,
    keywords, Option.any_some]
  cases hequals : v.equals c with
  | false => rw [Bool.and_false]
  | true =>
      have hv : v.hasType = c.hasType := funext (Json.hasType_of_equals hequals)
      rw [Bool.and_true, hv]
      exact htype

/-- A schema that is a literal stays as it is. -/
theorem collapse_of_isLiteral {s : Schema} (h : s.isLiteral = true) : collapse s = s := by
  obtain ⟨type, c, rfl, -⟩ := exists_of_isLiteral h
  rfl

/-- A literal union is still one after its parts are collapsed. -/
theorem isLiteralUnion_collapseParts {s : Schema} (h : s.isLiteralUnion = true) :
    (collapseParts s).isLiteralUnion = true := by
  obtain ⟨k, i, a, p, o⟩ := s
  cases o with
  | none => exact h
  | some alternatives =>
      rw [isLiteralUnion, Bool.and_eq_true, List.all_eq_true] at h ⊢
      refine ⟨h.1, List.forall_mem_map.mpr fun s hs => ?_⟩
      rw [collapse_of_isLiteral (h.2 s hs)]
      exact h.2 s hs

/-- The common type of alternatives is the type of each of them. -/
theorem type_of_commonType? {alternatives : List Schema} {type : String}
    (h : commonType? alternatives = some type) :
    ∀ s ∈ alternatives, s.keywords.type = some type := by
  cases alternatives with
  | nil => exact nomatch h
  | cons first rest =>
      rw [commonType?] at h
      split at h
      · next hall =>
          rw [List.all_eq_true] at hall
          refine List.forall_mem_cons.mpr ⟨h, fun s hs => ?_⟩
          rw [beq_iff_eq.mp (hall s hs), h]
      · exact nomatch h

/-- Literals accept the values that equal one of their constants. -/
theorem any_accepts_of_isLiteral {alternatives : List Schema} {values : List Json}
    (h : ∀ s ∈ alternatives, s.isLiteral = true) (hvalues : constants? alternatives = some values)
    (v : Json) : alternatives.any (accepts M · v) = values.any v.equals := by
  have hconst : values.any v.equals = alternatives.any fun s => s.keywords.const.any v.equals := by
    have hmap := congrArg (List.any · (Option.any v.equals)) (map_const_of_constants? hvalues)
    simp only [List.any_map] at hmap
    exact hmap.symm
  rw [hconst, Bool.eq_iff_iff, List.any_eq_true, List.any_eq_true]
  refine exists_congr fun s => and_congr_right fun hs => ?_
  rw [accepts_of_isLiteral (h s hs)]

/-- A value that equals one of the constants of literals has their common type. -/
theorem hasType_of_commonType? {alternatives : List Schema} {type : String}
    (h : ∀ s ∈ alternatives, s.isLiteral = true) (hcommon : commonType? alternatives = some type)
    {v : Json} (hv : alternatives.any (accepts M · v) = true) : v.hasType type = true := by
  obtain ⟨s, hs, haccepts⟩ := List.any_eq_true.mp hv
  have htype := type_of_commonType? hcommon s hs
  rw [accepts_of_isLiteral (h s hs)] at haccepts
  obtain ⟨type', c, rfl, hc⟩ := exists_of_isLiteral (h s hs)
  obtain rfl : type' = some type := htype
  rw [Json.hasType_of_equals haccepts]
  exact hc

/-- Where a value equals one of the constants of literals, their common type admits it. -/
theorem all_hasType_of_commonType? {alternatives : List Schema} (type : Option String)
    (h : ∀ s ∈ alternatives, s.isLiteral = true) {v : Json}
    (hv : alternatives.any (accepts M · v) = true) :
    (type.or (commonType? alternatives)).all v.hasType = type.all v.hasType := by
  cases type with
  | some type => rfl
  | none =>
      cases hcommon : commonType? alternatives with
      | none => rfl
      | some type => exact hasType_of_commonType? h hcommon hv

/-- The enumeration of the constants of literals admits what one of the literals accepts. -/
theorem Keywords.accepts_enum {k : Keywords} {alternatives : List Schema} {values : List Json}
    (henum : k.enum = none) (h : ∀ s ∈ alternatives, s.isLiteral = true)
    (hvalues : constants? alternatives = some values) (v : Json) :
    Keywords.accepts M
        { k with type := k.type.or (commonType? alternatives), enum := some values } v =
      (k.accepts M v && alternatives.any (Schema.accepts M · v)) := by
  rw [Keywords.accepts, Keywords.accepts, henum, Option.all_some, Option.all_none,
    ← any_accepts_of_isLiteral (M := M) h hvalues v]
  cases hv : alternatives.any (Schema.accepts M · v) with
  | false => simp only [Bool.and_false, Bool.false_and]
  | true =>
      rw [all_hasType_of_commonType? k.type h hv]
      simp only [Bool.and_true]

/-- Turning a literal union into an enumeration keeps what the schema accepts. -/
theorem accepts_collapseHere {s : Schema} (h : s.isUnion = true → s.isLiteralUnion = true)
    (v : Json) : (collapseHere s).accepts M v = s.accepts M v := by
  rcases collapseHere_cases s with
    ⟨-, he⟩ | ⟨hunion, alternatives, values, type, ho, hvalues, rfl, he⟩
  · rw [he]
  · have hliteral := h hunion
    rw [isLiteralUnion, Bool.and_eq_true, ho, Option.getD_some, List.all_eq_true] at hliteral
    obtain ⟨henum, hall⟩ := hliteral
    obtain ⟨k, i, a, p, o⟩ := s
    obtain rfl : o = some alternatives := ho
    have hkeywords :=
      Keywords.accepts_enum (M := M) (Option.isNone_iff_eq_none.mp henum) hall hvalues v
    simp only [keywords] at he hkeywords
    rw [he, accepts, accepts, acceptsAlternatives, acceptsAlternatives, acceptsOne_eq, hkeywords]
    simp only [stored, items, additional, Bool.and_true]
    -- the alternatives, which are tested last, have become a keyword, which is tested first
    ac_rfl

/-- Collapsing keeps what a schema accepts, if all unions that it replaces are literal. -/
theorem accepts_collapse {s : Schema}
    (h : ∀ t ∈ s.places false, t.isUnion = true → t.isLiteralUnion = true) (v : Json) :
    (collapse s).accepts M v = s.accepts M v := by
  induction s using induction_on_children false generalizing v with
  | node s ih =>
      rw [children_false] at ih
      have hparts : ∀ part ∈ s.parts, ∀ v, (collapse part).accepts M v = part.accepts M v := by
        intro part hpart v
        refine ih part hpart (fun t ht => h t ?_) v
        rw [← children_false] at hpart
        exact mem_places_of_mem_children hpart ht
      have hhere : (collapseParts s).isUnion = true → (collapseParts s).isLiteralUnion = true := by
        rw [isUnion_collapseParts]
        exact fun hunion => isLiteralUnion_collapseParts (h s (mem_places_self false s) hunion)
      rw [collapse_eq, accepts_collapseHere hhere, accepts_collapseParts hparts]

/-- References, formats and keywords without a field admit every value. -/
def Meaning.any : Meaning where
  reference _ _ := true
  format _ _ := true
  extensions _ _ := true
  extensions_empty _ := rfl

/-- An order must have a status, either of two texts, and may have a list of labels, each of them a
text, a number or null. -/
def sampleOrder : Schema :=
  .node { type := some "object", required := some ["status"] } none (some (.allowed false))
    (some [
      ("status", .node {} none none none
        (some [literal (some "string") (.string "open"),
          literal (some "string") (.string "paid")])),
      ("labels", .node { type := some "array" }
        (some (.node {} none none none
          (some [literal (some "string") (.string "new"), literal none (.number (.int 1)),
            literal (some "null") .null])))
        none none none)])
    none

/-- The value of an order with these labels and this status. -/
def sampleOrderValue (labels : List Json) (status : String) : Json :=
  .object [("labels", .array labels), ("status", .string status)]

/-- The unions of the sample are literal, so that it accepts and rejects the same orders after
collapsing. -/
theorem accepts_collapse_sampleOrder :
    (∀ t ∈ sampleOrder.places false, t.isUnion = true → t.isLiteralUnion = true) ∧
      (collapse sampleOrder).accepts .any (sampleOrderValue [.null, .number (.int 1)] "paid") =
        true ∧
      (collapse sampleOrder).accepts .any (sampleOrderValue [.bool true] "paid") = false := by
  have hliteral : ∀ t ∈ sampleOrder.places false, t.isUnion = true → t.isLiteralUnion = true := by
    decide
  refine ⟨hliteral, ?_, ?_⟩
  · rw [accepts_collapse hliteral]
    decide +kernel
  · rw [accepts_collapse hliteral]
    decide +kernel

end Schema

end ServiceDocs
