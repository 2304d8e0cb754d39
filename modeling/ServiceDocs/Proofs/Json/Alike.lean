import ServiceDocs.Proofs.Json.Sound
import ServiceDocs.Proofs.OrderedMap

/-!
# Values that Are Alike

Two values are alike if they are the same but for the order of members: a list has items that are
alike, one by one, and an object has the members of the other one, each under its name. How two
numbers are compared is left open. As they are given, they make values the same up to order; by
what they count, one number may be written in several ways.

## Main definitions

* `Json.alike`: whether two values are alike.
* `Json.sameUpToOrder`: whether two values are the same up to the order of members.

## Main results

* `Json.alike_array_iff`, `Json.alike_object_iff`: containers.
* `Json.sameUpToOrder_refl`: a sound value is the same as itself.
-/

namespace ServiceDocs.Json

mutual

/-- Whether two values are the same but for the order of members. `same` compares numbers. -/
def alike (same : Number → Number → Bool) : Json → Json → Bool
  | .null, .null => true
  | .bool a, .bool b => a == b
  | .number a, .number b => same a b
  | .string a, .string b => a == b
  | .array items, .array items' => alikeItems same items items'
  | .object fields, .object fields' =>
    alikeFields same fields fields' && fields'.all fun entry => entry.1 ∈ fields.map (·.1)
  | _, _ => false

/-- Whether the items of two lists are alike, one by one. -/
def alikeItems (same : Number → Number → Bool) : List Json → List Json → Bool
  | [], [] => true
  | v :: rest, w :: rest' => alike same v w && alikeItems same rest rest'
  | _, _ => false

/-- Whether each member is like the one of its name among others. -/
def alikeFields (same : Number → Number → Bool) :
    List (String × Json) → List (String × Json) → Bool
  | [], _ => true
  | (name, v) :: rest, fields =>
    ((OrderedMap.findEntry name fields).any fun w => alike same v w) && alikeFields same rest fields

end

variable {same : Number → Number → Bool}

/-- Two lists are alike if their items are, one by one. -/
theorem alike_array_iff {items items' : List Json} :
    (Json.array items).alike same (.array items') = true ↔
      List.Forall₂ (fun v w => v.alike same w = true) items items' := by
  rw [alike]
  induction items generalizing items' with
  | nil => cases items' <;> simp [alikeItems]
  | cons v rest ih => cases items' <;> simp [alikeItems, ih]

/-- Two objects are alike if they have the same names and alike members under them, in any order. -/
theorem alike_object_iff {fields fields' : List (String × Json)} :
    (Json.object fields).alike same (.object fields') = true ↔
      (∀ entry ∈ fields, ∃ w, OrderedMap.findEntry entry.1 fields' = some w ∧
        entry.2.alike same w = true) ∧
      ∀ entry ∈ fields', entry.1 ∈ fields.map (·.1) := by
  have hfields : alikeFields same fields fields' = true ↔ ∀ entry ∈ fields,
      ∃ w, OrderedMap.findEntry entry.1 fields' = some w ∧ entry.2.alike same w = true := by
    induction fields with
    | nil => simp [alikeFields]
    | cons entry rest ih =>
        obtain ⟨name, v⟩ := entry
        rw [alikeFields, Bool.and_eq_true, ih, List.forall_mem_cons, Option.any_eq_true]
  rw [alike, Bool.and_eq_true, hfields, List.all_eq_true]
  simp only [decide_eq_true_eq]

/-- Whether two values are the same up to the order of members, at every depth. -/
def sameUpToOrder (v w : Json) : Bool := v.alike (fun a b => a == b) w

/-- A sound value is the same as itself. -/
theorem sameUpToOrder_refl {v : Json} (hv : v.Sound) : v.sameUpToOrder v = true := by
  induction hv with
  | null | bool | number | string => simp [sameUpToOrder, alike]
  | array _ ih => exact alike_array_iff.mpr (List.forall₂_same.mpr ih)
  | object hd _ ih =>
      refine alike_object_iff.mpr ⟨fun entry hentry => ?_, fun entry => List.mem_map_of_mem⟩
      exact ⟨entry.2, OrderedMap.findEntry_of_mem hd hentry, ih entry hentry⟩

end ServiceDocs.Json
