import ServiceDocs.Document.Schema

/-!
# Places of a Schema

A schema holds schemas at four kinds of places: for items, for properties, as alternatives, and
for what an object may hold besides its properties. The schemas of the first three kinds are its
`parts`, and the one of the last kind is `further`. They are told apart because some rewriting
goes through the parts only.

`Schema.places` lists all schemas that are found by going down, so that statements about every
place of a schema can be decided. Proofs go down one step at a time, by
`Schema.mem_places_iff` and `Schema.induction_on_children`.

## Main definitions

* `Schema.parts`, `Schema.further`, `Schema.children`: the schemas one step down.
* `Schema.places`: the schemas any number of steps down.

## Main results

* `Schema.induction_on_children`: what holds of a schema if it holds of its children holds of
  every schema.
* `Schema.mem_places_iff`: the places of a schema, one step down.
-/

namespace ServiceDocs.Schema

/-! ### One step down -/

/-- The schemas of items, of properties and of alternatives. -/
def parts : Schema → List Schema
  | .node _ i _ p o => i.toList ++ (p.getD []).map (·.2) ++ o.getD []

/-- The schema of what an object may hold besides its properties, if there is one. -/
def further (s : Schema) : List Schema :=
  match s.additional with
  | some (.schema x) => [x]
  | _ => []

/-- The schemas one step down. `whole` tells whether the one for what an object may hold besides
its properties is among them. -/
def children (whole : Bool) (s : Schema) : List Schema :=
  s.parts ++ if whole then s.further else []

/-- One step down that leaves out what an object may hold besides leads to the parts. -/
@[simp] theorem children_false (s : Schema) : s.children false = s.parts := List.append_nil _

/-- One step down of the whole schema leads to a part or to what an object may hold besides. -/
theorem mem_children_true_iff {s child : Schema} :
    child ∈ s.children true ↔ child ∈ s.parts ∨ child ∈ s.further := List.mem_append

/-- A child is smaller than the schema that holds it. -/
theorem sizeOf_lt_of_mem_children {whole : Bool} {s child : Schema}
    (h : child ∈ s.children whole) : sizeOf child < sizeOf s := by
  obtain ⟨k, i, a, p, o⟩ := s
  simp only [children, parts, List.mem_append, List.mem_map, Option.mem_toList] at h
  rw [node.sizeOf_spec]
  rcases h with ((hi | ⟨entry, hp, rfl⟩) | ho) | ha
  · obtain rfl := Option.mem_def.mp hi
    rw [Option.some.sizeOf_spec]
    omega
  · cases p with
    | none => exact nomatch hp
    | some entries =>
        have hentry : sizeOf entry < sizeOf entries := List.sizeOf_lt_of_mem hp
        obtain ⟨name, value⟩ := entry
        rw [Prod.mk.sizeOf_spec] at hentry
        show sizeOf value < _
        rw [Option.some.sizeOf_spec]
        omega
  · cases o with
    | none => exact nomatch ho
    | some alternatives =>
        have halternative : sizeOf child < sizeOf alternatives := List.sizeOf_lt_of_mem ho
        rw [Option.some.sizeOf_spec]
        omega
  · cases whole with
    | false => exact nomatch ha
    | true =>
        match a with
        | some (.schema s) =>
            obtain rfl : child = s := List.mem_singleton.mp ha
            rw [Option.some.sizeOf_spec, AdditionalProperties.schema.sizeOf_spec]
            omega
        | some (.allowed _) | none => exact nomatch ha

/-- What holds of a schema if it holds of its children holds of every schema. -/
@[elab_as_elim]
theorem induction_on_children {motive : Schema → Prop} (whole : Bool) (s : Schema)
    (node : ∀ s : Schema, (∀ child ∈ s.children whole, motive child) → motive s) : motive s :=
  node s fun child _ => induction_on_children whole child node
termination_by sizeOf s
decreasing_by exact sizeOf_lt_of_mem_children ‹_›

/-! ### Any number of steps down -/

mutual

/-- The schemas any number of steps down, the schema itself first. `whole` tells whether the way
may lead through what an object may hold besides its properties. -/
def places (whole : Bool) : Schema → List Schema
  | .node k i a p o =>
    .node k i a p o :: (placesOfItems whole i ++ placesOfProperties whole p ++
      placesOfAlternatives whole o ++ placesOfAdditional whole a)

/-- The places in the schema of items. -/
def placesOfItems (whole : Bool) : Option Schema → List Schema
  | none => []
  | some s => places whole s

/-- The places in the schemas of properties. -/
def placesOfProperties (whole : Bool) : Option (List (String × Schema)) → List Schema
  | none => []
  | some entries => placesOfEntries whole entries

/-- The places in named schemas. -/
def placesOfEntries (whole : Bool) : List (String × Schema) → List Schema
  | [] => []
  | (_, s) :: rest => places whole s ++ placesOfEntries whole rest

/-- The places in alternatives. -/
def placesOfAlternatives (whole : Bool) : Option (List Schema) → List Schema
  | none => []
  | some schemas => placesOfAll whole schemas

/-- The places in the schemas of a list. -/
def placesOfAll (whole : Bool) : List Schema → List Schema
  | [] => []
  | s :: rest => places whole s ++ placesOfAll whole rest

/-- The places in what an object may hold besides its properties. -/
def placesOfAdditional (whole : Bool) : Option AdditionalProperties → List Schema
  | some (.schema s) => if whole then places whole s else []
  | _ => []

end

/-- The places in properties are those in each of them. -/
theorem placesOfEntries_eq (whole : Bool) (entries : List (String × Schema)) :
    placesOfEntries whole entries = (entries.map (·.2)).flatMap (places whole) := by
  induction entries with
  | nil => rfl
  | cons entry rest ih => rw [placesOfEntries, ih, List.map_cons, List.flatMap_cons]

/-- The places in alternatives are those in each of them. -/
theorem placesOfAll_eq (whole : Bool) (schemas : List Schema) :
    placesOfAll whole schemas = schemas.flatMap (places whole) := by
  induction schemas with
  | nil => rfl
  | cons s rest ih => rw [placesOfAll, ih, List.flatMap_cons]

/-- The places of a schema are the schema itself and the places of its children. -/
theorem places_eq (whole : Bool) (s : Schema) :
    s.places whole = s :: (s.children whole).flatMap (places whole) := by
  obtain ⟨k, i, a, p, o⟩ := s
  have hitems : placesOfItems whole i = i.toList.flatMap (places whole) := by
    cases i <;> simp [placesOfItems]
  have hproperties :
      placesOfProperties whole p = ((p.getD []).map (·.2)).flatMap (places whole) := by
    cases p with
    | none => rfl
    | some entries => rw [placesOfProperties, placesOfEntries_eq, Option.getD_some]
  have halternatives : placesOfAlternatives whole o = (o.getD []).flatMap (places whole) := by
    cases o with
    | none => rfl
    | some schemas => rw [placesOfAlternatives, placesOfAll_eq, Option.getD_some]
  have hadditional : placesOfAdditional whole a =
      (if whole then (node k i a p o).further else []).flatMap (places whole) := by
    match a with
    | none | some (.allowed _) => cases whole <;> rfl
    | some (.schema s) => cases whole <;> simp [placesOfAdditional, further, additional]
  rw [places, hitems, hproperties, halternatives, hadditional, children, parts]
  simp only [List.flatMap_append]

/-- A place in a schema is the schema itself or lies in one of its children. -/
theorem mem_places_iff {whole : Bool} {s t : Schema} :
    t ∈ s.places whole ↔ t = s ∨ ∃ child ∈ s.children whole, t ∈ child.places whole := by
  rw [places_eq, List.mem_cons, List.mem_flatMap]

/-- A schema is a place in itself. -/
theorem mem_places_self (whole : Bool) (s : Schema) : s ∈ s.places whole :=
  mem_places_iff.mpr (.inl rfl)

/-- A place in a child is a place in the schema. -/
theorem mem_places_of_mem_children {whole : Bool} {s child t : Schema}
    (hchild : child ∈ s.children whole) (ht : t ∈ child.places whole) : t ∈ s.places whole :=
  mem_places_iff.mpr (.inr ⟨child, hchild, ht⟩)

end ServiceDocs.Schema
