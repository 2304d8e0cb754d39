import Mathlib.Algebra.Group.Int.Defs
import ServiceDocs.Reading.Node

/-!
# Values and Trees that a JSON Text Can Hold

A value that comes out of a JSON text has distinct keys in every object, integers between
`-2 ^ 63` and `2 ^ 64 - 1`, and finite doubles. `Json.Sound` states this of a value. A tree
that comes out of a JSON text may hold defects and repeat a key, but its numbers are in
range as well and its keys are texts; `Node.IsJson` states that. Both predicates are
inductive, so that their proofs are also the way to go through a value or a tree.

`Json.depth` counts how many containers lie inside each other, which is what a text limits,
and `Json.doubles` lists the doubles of a value.

## Main results

* `Json.depth_array_le_iff`, `Json.depth_object_le_iff`: a depth is bounded member by member.
* `Node.isJson_ofJson`, `Node.depth_ofJson`: the tree of a sound value.
-/

namespace ServiceDocs

/-! ### Sound values -/

/-- A number that a JSON text can hold. -/
inductive Number.Sound : Number → Prop
  | int {value : Int} (low : -2 ^ 63 ≤ value) (high : value ≤ 2 ^ 64 - 1) : Sound (.int value)
  | float {value : Binary64} (finite : value.isFinite = true) : Sound (.float value)

/-- A value that a JSON text can hold. -/
inductive Json.Sound : Json → Prop
  | null : Sound .null
  | bool (value : Bool) : Sound (.bool value)
  | number {value : Number} (h : value.Sound) : Sound (.number value)
  | string (value : String) : Sound (.string value)
  | array {items : List Json} (h : ∀ item ∈ items, Sound item) : Sound (.array items)
  | object {fields : List (String × Json)} (distinct : (fields.map (·.1)).Nodup)
      (values : ∀ entry ∈ fields, Sound entry.2) : Sound (.object fields)

namespace Json

/-! ### Depth -/

mutual

/-- How many containers of a value lie inside each other. -/
def depth : Json → Nat
  | .array items => depthItems items + 1
  | .object fields => depthFields fields + 1
  | _ => 0

/-- The greatest depth of the items of a list. -/
def depthItems : List Json → Nat
  | [] => 0
  | item :: rest => max (depth item) (depthItems rest)

/-- The greatest depth of the members of an object. -/
def depthFields : List (String × Json) → Nat
  | [] => 0
  | (_, value) :: rest => max (depth value) (depthFields rest)

end

/-- Items lie no deeper than a bound if each of them does. -/
theorem depthItems_le_iff {items : List Json} {d : Nat} :
    depthItems items ≤ d ↔ ∀ item ∈ items, item.depth ≤ d := by
  induction items with
  | nil => simp [depthItems]
  | cons item rest ih => rw [depthItems, Nat.max_le, ih, List.forall_mem_cons]

/-- Members lie no deeper than a bound if each of their values does. -/
theorem depthFields_le_iff {fields : List (String × Json)} {d : Nat} :
    depthFields fields ≤ d ↔ ∀ entry ∈ fields, entry.2.depth ≤ d := by
  induction fields with
  | nil => simp [depthFields]
  | cons entry rest ih => rw [depthFields, Nat.max_le, ih, List.forall_mem_cons]

/-- A list is one deeper than its deepest item. -/
theorem depth_array_le_iff {items : List Json} {d : Nat} :
    (Json.array items).depth ≤ d ↔ 1 ≤ d ∧ ∀ item ∈ items, item.depth + 1 ≤ d := by
  rw [depth]
  constructor
  · intro h
    refine ⟨by omega, fun item hitem => ?_⟩
    have := depthItems_le_iff.mp (Nat.le_refl (depthItems items)) item hitem
    omega
  · rintro ⟨hd, hitems⟩
    have h : depthItems items ≤ d - 1 := depthItems_le_iff.mpr fun item hitem => by
      have := hitems item hitem
      omega
    omega

/-- An object is one deeper than its deepest member. -/
theorem depth_object_le_iff {fields : List (String × Json)} {d : Nat} :
    (Json.object fields).depth ≤ d ↔ 1 ≤ d ∧ ∀ entry ∈ fields, entry.2.depth + 1 ≤ d := by
  rw [depth]
  constructor
  · intro h
    refine ⟨by omega, fun entry hentry => ?_⟩
    have := depthFields_le_iff.mp (Nat.le_refl (depthFields fields)) entry hentry
    omega
  · rintro ⟨hd, hfields⟩
    have h : depthFields fields ≤ d - 1 := depthFields_le_iff.mpr fun entry hentry => by
      have := hfields entry hentry
      omega
    omega

/-- An item of a list is less deep than the list. -/
theorem depth_lt_of_mem_array {items : List Json} {item : Json} (h : item ∈ items) :
    item.depth < (Json.array items).depth :=
  (depth_array_le_iff.mp (Nat.le_refl _)).2 item h

/-- A member of an object is less deep than the object. -/
theorem depth_lt_of_mem_object {fields : List (String × Json)} {entry : String × Json}
    (h : entry ∈ fields) : entry.2.depth < (Json.object fields).depth :=
  (depth_object_le_iff.mp (Nat.le_refl _)).2 entry h

/-! ### Doubles -/

mutual

/-- The doubles of a value. -/
def doubles : Json → List Binary64
  | .number (.float value) => [value]
  | .array items => doublesItems items
  | .object fields => doublesFields fields
  | _ => []

/-- The doubles of the items of a list. -/
def doublesItems : List Json → List Binary64
  | [] => []
  | item :: rest => doubles item ++ doublesItems rest

/-- The doubles of the members of an object. -/
def doublesFields : List (String × Json) → List Binary64
  | [] => []
  | (_, value) :: rest => doubles value ++ doublesFields rest

end

/-- The doubles of an item are doubles of the list. -/
theorem doubles_subset_array {items : List Json} {item : Json} (h : item ∈ items) :
    item.doubles ⊆ (Json.array items).doubles := by
  rw [doubles]
  induction items with
  | nil => simp at h
  | cons head rest ih =>
      rw [doublesItems]
      rcases List.mem_cons.mp h with rfl | h
      · exact List.subset_append_left _ _
      · exact List.subset_append_of_subset_right _ (ih h)

/-- The doubles of a member are doubles of the object. -/
theorem doubles_subset_object {fields : List (String × Json)} {entry : String × Json}
    (h : entry ∈ fields) : entry.2.doubles ⊆ (Json.object fields).doubles := by
  rw [doubles]
  induction fields with
  | nil => simp at h
  | cons head rest ih =>
      rw [doublesFields]
      rcases List.mem_cons.mp h with rfl | h
      · exact List.subset_append_left _ _
      · exact List.subset_append_of_subset_right _ (ih h)

end Json

/-! ### Trees -/

namespace Node

/-- A key of an object of a JSON text: a text, or a fault. -/
def IsKey (key : Node) : Prop :=
  (∃ name, key = .string name) ∨ (∃ token, key = .misplaced token) ∨ ∃ d, key = .defect d

/-- A tree that a JSON text can have. -/
inductive IsJson : Node → Prop
  | null : IsJson .null
  | bool (value : Bool) : IsJson (.bool value)
  | number {value : Number} (h : value.Sound) : IsJson (.number value)
  | string (value : String) : IsJson (.string value)
  | array {items : List Node} (close : Close) (h : ∀ item ∈ items, IsJson item) :
      IsJson (.array items close)
  | object {fields : List (Node × Node)} (close : Close) (keys : ∀ entry ∈ fields, entry.1.IsKey)
      (values : ∀ entry ∈ fields, IsJson entry.2) : IsJson (.object fields close)
  | misplaced (token : Node) : IsJson (.misplaced token)
  | defect (d : Defect) : IsJson (.defect d)

/-- A part of a container: an item or the value of a member. -/
def IsPart (part : Node) : Node → Prop
  | .array items _ => part ∈ items
  | .object fields _ => ∃ key, (key, part) ∈ fields
  | _ => False

mutual

/-- How many containers of a tree lie inside each other. -/
def depth : Node → Nat
  | .array items _ => depthItems items + 1
  | .object fields _ => depthFields fields + 1
  | _ => 0

/-- The greatest depth of the items of a list. -/
def depthItems : List Node → Nat
  | [] => 0
  | item :: rest => max (depth item) (depthItems rest)

/-- The greatest depth of the members of an object. -/
def depthFields : List (Node × Node) → Nat
  | [] => 0
  | (_, value) :: rest => max (depth value) (depthFields rest)

end

/-- The items of a tree lie no deeper than a bound if each of them does. -/
theorem depthItems_le_iff {items : List Node} {d : Nat} :
    depthItems items ≤ d ↔ ∀ item ∈ items, item.depth ≤ d := by
  induction items with
  | nil => simp [depthItems]
  | cons item rest ih => rw [depthItems, Nat.max_le, ih, List.forall_mem_cons]

/-- The members of a tree lie no deeper than a bound if each of their values does. -/
theorem depthFields_le_iff {fields : List (Node × Node)} {d : Nat} :
    depthFields fields ≤ d ↔ ∀ entry ∈ fields, entry.2.depth ≤ d := by
  induction fields with
  | nil => simp [depthFields]
  | cons entry rest ih => rw [depthFields, Nat.max_le, ih, List.forall_mem_cons]

/-- A part of a container is less deep. -/
theorem IsPart.depth_lt {part n : Node} (h : part.IsPart n) : part.depth + 1 ≤ n.depth := by
  cases n with
  | array items close =>
      rw [depth]
      exact Nat.succ_le_succ (depthItems_le_iff.mp (Nat.le_refl _) part h)
  | object fields close =>
      obtain ⟨key, hentry⟩ := h
      rw [depth]
      exact Nat.succ_le_succ (depthFields_le_iff.mp (Nat.le_refl _) _ hentry)
  | _ => exact h.elim

/-- A part of a tree of a JSON text is one as well. -/
theorem IsPart.isJson {part n : Node} (h : part.IsPart n) (hn : n.IsJson) : part.IsJson := by
  cases hn with
  | array _ hitems => exact hitems part h
  | object _ _ hvalues =>
      obtain ⟨key, hentry⟩ := h
      exact hvalues _ hentry
  | null | bool | number | string | misplaced | defect => exact h.elim

/-- The tree of a list has the trees of its items. -/
theorem ofJsonItems_eq_map (items : List Json) : ofJsonItems items = items.map ofJson := by
  induction items with
  | nil => rfl
  | cons item rest ih => rw [ofJsonItems, ih, List.map_cons]

/-- The tree of an object has the trees of its members, under their names. -/
theorem ofJsonFields_eq_map (fields : List (String × Json)) :
    ofJsonFields fields = fields.map fun entry => (.string entry.1, ofJson entry.2) := by
  induction fields with
  | nil => rfl
  | cons entry rest ih => rw [ofJsonFields, ih, List.map_cons]

/-- The tree of a sound value is a tree that a JSON text can have. -/
theorem isJson_ofJson {v : Json} (h : v.Sound) : (ofJson v).IsJson := by
  induction h with
  | null => exact .null
  | bool value => exact .bool value
  | number h => exact .number h
  | string value => exact .string value
  | array _ ih =>
      rw [ofJson, ofJsonItems_eq_map]
      refine .array _ fun item hitem => ?_
      obtain ⟨v, hv, rfl⟩ := List.mem_map.mp hitem
      exact ih v hv
  | object _ _ ih =>
      rw [ofJson, ofJsonFields_eq_map]
      refine .object _ (fun entry hentry => ?_) (fun entry hentry => ?_)
      · obtain ⟨e, _, rfl⟩ := List.mem_map.mp hentry
        exact .inl ⟨e.1, rfl⟩
      · obtain ⟨e, he, rfl⟩ := List.mem_map.mp hentry
        exact ih e he

mutual

/-- The tree of a value is as deep as the value. -/
theorem depth_ofJson : ∀ v : Json, (ofJson v).depth = v.depth
  | .null | .bool _ | .number _ | .string _ => rfl
  | .array items => by rw [ofJson, depth, Json.depth, depthItems_ofJson]
  | .object fields => by rw [ofJson, depth, Json.depth, depthFields_ofJson]

/-- The tree of a list is as deep as the list. -/
theorem depthItems_ofJson :
    ∀ items : List Json, depthItems (ofJsonItems items) = Json.depthItems items
  | [] => rfl
  | item :: rest => by
      rw [ofJsonItems, depthItems, Json.depthItems, depth_ofJson item, depthItems_ofJson rest]

/-- The tree of an object is as deep as the object. -/
theorem depthFields_ofJson :
    ∀ fields : List (String × Json), depthFields (ofJsonFields fields) = Json.depthFields fields
  | [] => rfl
  | (_, value) :: rest => by
      rw [ofJsonFields, depthFields, Json.depthFields, depth_ofJson value, depthFields_ofJson rest]

end

end Node

end ServiceDocs
