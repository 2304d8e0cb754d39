import ServiceDocs.Proofs.Json.Sound
import ServiceDocs.Proofs.OrderedMap

/-!
# Values within Others

A value is within another one if the other says all that it says: a scalar is the same, a list
has items within the items of the other, one by one, and each member of an object that is not
null is within the member of its name. The other may have members in another order and more of
them.

## Main definitions

* `Json.within`: whether a value is within another one.

## Main results

* `Json.within_object_iff`, `Json.within_array_iff`: containers.
* `Json.within_refl`: every sound value is within itself.
-/

namespace ServiceDocs.Json

mutual

/-- Whether a value says all that another one says. -/
def within : Json → Json → Bool
  | .array items, .array items' => withinItems items items'
  | .object fields, .object fields' => withinFields fields fields'
  | v, w => v = w

/-- Whether the items of a list are within those of another one, one by one. -/
def withinItems : List Json → List Json → Bool
  | [], [] => true
  | v :: rest, w :: rest' => within v w && withinItems rest rest'
  | _, _ => false

/-- Whether the members that are not null are within those of the same names. -/
def withinFields : List (String × Json) → List (String × Json) → Bool
  | [], _ => true
  | (name, v) :: rest, fields =>
    (v = .null || (OrderedMap.findEntry name fields).any fun w => within v w) &&
      withinFields rest fields

end

/-- A list is within another one if its items are, one by one. -/
theorem within_array_iff {items items' : List Json} :
    (Json.array items).within (.array items') = true ↔
      List.Forall₂ (fun v w => v.within w = true) items items' := by
  rw [within]
  induction items generalizing items' with
  | nil => cases items' <;> simp [withinItems]
  | cons v rest ih => cases items' <;> simp [withinItems, ih]

/-- An object is within another one if its members are, except for those that are null. -/
theorem within_object_iff {fields fields' : List (String × Json)} :
    (Json.object fields).within (.object fields') = true ↔ ∀ entry ∈ fields, entry.2 ≠ .null →
      ∃ w, OrderedMap.findEntry entry.1 fields' = some w ∧ entry.2.within w = true := by
  rw [within]
  induction fields with
  | nil => simp [withinFields]
  | cons entry rest ih =>
      obtain ⟨name, v⟩ := entry
      rw [withinFields, Bool.and_eq_true, ih, List.forall_mem_cons]
      refine and_congr_left fun _ => ?_
      rw [Bool.or_eq_true, decide_eq_true_eq, Option.any_eq_true]
      exact or_iff_not_imp_left

/-- Only a null is within a null. -/
theorem eq_null_of_within_null {v : Json} (h : v.within .null = true) : v = .null := by
  cases v with
  | null => rfl
  | bool | number | string | array | object => simp [within] at h

/-- Only an object is within an object. -/
theorem exists_of_within_object {v : Json} {fields : List (String × Json)}
    (h : v.within (.object fields) = true) : ∃ fields', v = .object fields' := by
  cases v with
  | object fields' => exact ⟨fields', rfl⟩
  | null | bool | number | string | array => simp [within] at h

/-- Every sound value is within itself. -/
theorem within_refl {v : Json} (hv : v.Sound) : v.within v = true := by
  induction hv with
  | null | bool | number | string => simp [within]
  | array _ ih => exact within_array_iff.mpr (List.forall₂_same.mpr ih)
  | object hd _ ih =>
      refine within_object_iff.mpr fun entry hentry _ => ?_
      exact ⟨entry.2, OrderedMap.findEntry_of_mem hd hentry, ih entry hentry⟩

end ServiceDocs.Json
