import ServiceDocs.Document.Schema.Collapse
import ServiceDocs.Proofs.Document.Places
import ServiceDocs.Proofs.Document.Schema

/-!
# What Collapsing Does

Collapsing replaces alternatives of constants by an enumeration, at every place of a schema
that it reaches. A schema that is read back from what is written of it still is after that,
and is no deeper: the constants move out of schemas of their own into a list.

A schema with alternatives that are all constants is a union. Collapsing changes no constant, so
it makes no union of a schema that was none: after collapsing no union is left at the places that
it reaches, and a schema without unions there is left as it is. Collapsing twice is therefore
collapsing once.

What an object may hold besides its properties is not reached. A union is left exactly if it lies
below it, at a place that is not lost with the alternatives of another union.

## Main definitions

* `Schema.isUnion`: whether a schema has alternatives that are all constants.
* `Schema.collapseParts`: collapsing of the parts of a schema, but not of the schema itself.
* `Schema.Missed`: the schemas that collapsing does not reach.

## Main results

* `Schema.stable_collapse`: collapsing keeps a schema stable.
* `Schema.isUnion_of_mem_places_collapse`: no union is left at the places that are reached.
* `Schema.mem_places_collapse_iff`: where unions are left.
* `Schema.collapse_idempotent`: collapsing twice is collapsing once, and which schemas it leaves
  as they are.
-/

namespace ServiceDocs.Schema

variable {d : Nat} {k : Keywords} {i : Option Schema} {a : Option AdditionalProperties}
  {p : Option (List (String × Schema))} {o : Option (List Schema)}

/-- Keywords that are read back from what is written of them, up to a depth. -/
structure Keywords.Settled (d : Nat) (k : Keywords) : Prop where
  default : Codec.json.option.Stable d k.default
  required : (Codec.list .string).option.Stable d k.required
  enum : (Codec.list .json).option.Stable d k.enum
  const : Codec.json.option.Stable d k.const
  distinct : k.extensions.Distinct
  notMem : ∀ entry ∈ k.extensions.entries, entry.1 ∉ Schema.record.names
  sound : ∀ entry ∈ k.extensions.entries, entry.2.Sound ∧ entry.2.depth ≤ d

/-- A part that may be left out is stable exactly when it is if it is written. -/
theorem option_stable_iff {α : Type} {c : Codec α} {x : Option α} :
    c.option.Stable d x ↔ (x.isNone = false → c.option.Stable d x) := by
  cases x with
  | none => simp [Codec.option_stable_none]
  | some x => simp

/-- A schema is stable exactly when its keywords and the schemas in it are. -/
theorem stable_node_iff : codec.Stable (d + 1) (.node k i a p o) ↔
    k.Settled d ∧ codec.option.Stable d i ∧ AdditionalProperties.codec.option.Stable d a ∧
      (Codec.map codec).option.Stable d (p.map .mk) ∧ (Codec.list codec).option.Stable d o := by
  rw [stable_iff]
  constructor
  · intro h
    have hparts := h.parts
    simp only [record, Field.hidden, List.forall_mem_cons, ← option_stable_iff] at hparts
    obtain ⟨-, -, hi, -, hdefault, -, hrequired, ha, henum, hconst, hp, ho, -⟩ := hparts
    exact ⟨⟨hdefault, hrequired, henum, hconst, h.distinct _ rfl, h.notMem _ rfl, h.sound _ rfl⟩,
      hi, ha, hp, ho⟩
  · rintro ⟨hk, hi, ha, hp, ho⟩
    have hkept : ∀ rest ∈ record.rest, rest.kept (.node k i a p o) = k.extensions := by
      simp [record]
      rfl
    refine ⟨?_, ?_, ?_, ?_⟩
    · have text := Codec.option_string_stable d
      simp only [record, Field.hidden, List.forall_mem_cons, ← option_stable_iff]
      exact ⟨text _, text _, hi, text _, hk.default, text _, hk.required, ha, hk.enum, hk.const,
        hp, ho, List.forall_mem_nil _⟩
    · intro rest hrest
      exact hkept rest hrest ▸ hk.distinct
    · intro rest hrest
      exact hkept rest hrest ▸ hk.notMem
    · intro rest hrest
      exact hkept rest hrest ▸ hk.sound

/-- A schema is written as an object, so it is stable at positive depths only. -/
theorem exists_of_stable {s : Schema} (h : codec.Stable d s) : ∃ e, d = e + 1 := by
  obtain ⟨fields, hfields⟩ := exists_write_eq s
  have hdepth : (write s).depth ≤ d := h.depth_le
  rw [hfields] at hdepth
  exact Nat.exists_eq_add_of_le' (Json.depth_object_le_iff.mp hdepth).1

/-- A list is written as an array, so it is stable at positive depths only. -/
theorem exists_of_list_stable {α : Type} {c : Codec α} {values : List α}
    (h : (Codec.list c).Stable d values) : ∃ e, d = e + 1 :=
  Nat.exists_eq_add_of_le' (Json.depth_array_le_iff.mp h.depth_le).1

/-- A map is written as an object, so it is stable at positive depths only. -/
theorem exists_of_map_stable {α : Type} {c : Codec α} {values : OrderedMap α}
    (h : (Codec.map c).Stable d values) : ∃ e, d = e + 1 :=
  Nat.exists_eq_add_of_le' (Json.depth_object_le_iff.mp h.depth_le).1

/-! ### The replacement at one schema -/

/-- Whether a schema has alternatives, at least one, that all have a constant. -/
def isUnion (s : Schema) : Bool :=
  s.anyOf.any fun alternatives =>
    !alternatives.isEmpty && alternatives.all (·.keywords.const.isSome)

/-- Alternatives have constants exactly if there is one and each of them has one. -/
theorem isSome_constants? (alternatives : List Schema) :
    (constants? alternatives).isSome =
      (!alternatives.isEmpty && alternatives.all (·.keywords.const.isSome)) := by
  have hmap : (alternatives.mapM fun s : Schema => s.keywords.const).isSome =
      alternatives.all (·.keywords.const.isSome) := by
    induction alternatives with
    | nil => rfl
    | cons s rest ih =>
        rw [List.all_cons, ← ih, List.mapM_cons]
        cases s.keywords.const with
        | none => rfl
        | some v => cases rest.mapM (·.keywords.const) <;> rfl
  rw [constants?]
  cases alternatives.isEmpty with
  | true => rfl
  | false => simpa using hmap

/-- What becomes of a schema by itself: one that is no union stays as it is, and a union loses its
alternatives. -/
theorem collapseHere_cases (s : Schema) :
    (s.isUnion = false ∧ collapseHere s = s) ∨
      s.isUnion = true ∧ ∃ alternatives values type, s.anyOf = some alternatives ∧
        constants? alternatives = some values ∧
        type = s.keywords.type.or (commonType? alternatives) ∧
        collapseHere s = .node { s.keywords with type := type, enum := some values }
          s.items s.additional s.stored none := by
  obtain ⟨k, i, a, p, o⟩ := s
  cases o with
  | none => exact .inl ⟨rfl, rfl⟩
  | some alternatives =>
      have hsome : (node k i a p (some alternatives)).isUnion = (constants? alternatives).isSome :=
        (isSome_constants? alternatives).symm
      cases hvalues : constants? alternatives with
      | none =>
          rw [hvalues] at hsome
          exact .inl ⟨hsome, by rw [collapseHere, hvalues]⟩
      | some values =>
          rw [hvalues] at hsome
          exact .inr
            ⟨hsome, alternatives, values, _, rfl, hvalues, rfl, by rw [collapseHere, hvalues]; rfl⟩

/-- The constants of alternatives are theirs, one by one. -/
theorem map_const_of_constants? {alternatives : List Schema} {values : List Json}
    (h : constants? alternatives = some values) :
    alternatives.map (·.keywords.const) = values.map some := by
  have hmap : ∀ (alternatives : List Schema) (values : List Json),
      alternatives.mapM (·.keywords.const) = some values →
      alternatives.map (·.keywords.const) = values.map some := by
    intro alternatives
    induction alternatives with
    | nil =>
        intro values h
        simp only [List.mapM_nil, Option.pure_def, Option.some.injEq] at h
        rw [← h, List.map_nil, List.map_nil]
    | cons s rest ih =>
        intro values h
        simp only [List.mapM_cons, Option.bind_eq_bind, Option.bind_eq_some_iff, Option.pure_def,
          Option.some.injEq] at h
        obtain ⟨w, hw, ws, hws, rfl⟩ := h
        rw [List.map_cons, hw, ih ws hws, List.map_cons]
  rw [constants?] at h
  split at h
  · exact nomatch h
  · exact hmap alternatives values h

/-- The constants of stable alternatives make a stable list that is less deep. -/
theorem stable_enum {alternatives : List Schema} {values : List Json}
    (ho : (Codec.list codec).option.Stable d (some alternatives))
    (h : constants? alternatives = some values) :
    (Codec.list .json).option.Stable d (some values) := by
  obtain ⟨hlist, -⟩ := Codec.option_stable_some_iff.mp ho
  obtain ⟨d, rfl⟩ := exists_of_list_stable hlist
  have hschemas := Codec.list_stable_iff.mp hlist
  refine Codec.option_stable_some_iff.mpr ⟨Codec.list_stable_iff.mpr fun v hv => ?_, nofun⟩
  have hmem : some v ∈ alternatives.map (·.keywords.const) :=
    map_const_of_constants? h ▸ List.mem_map_of_mem hv
  obtain ⟨s, hs, hconst⟩ := List.mem_map.mp hmem
  have hstable := hschemas s hs
  obtain ⟨k, i, a, p, o⟩ := s
  obtain ⟨d, rfl⟩ := exists_of_stable hstable
  have hk := (stable_node_iff.mp hstable).1.const
  rw [show k.const = some v from hconst] at hk
  exact (Codec.option_stable_some_iff.mp hk).1.mono (by omega)

/-- The replacement at one schema keeps it stable. -/
theorem stable_collapseHere {s : Schema} (h : codec.Stable d s) :
    codec.Stable d (collapseHere s) := by
  rcases collapseHere_cases s with ⟨-, he⟩ | ⟨-, alternatives, values, type, ho', hvalues, -, he⟩
  · rwa [he]
  · obtain ⟨d, rfl⟩ := exists_of_stable h
    obtain ⟨k, i, a, p, o⟩ := s
    obtain ⟨hk, hi, ha, hp, ho⟩ := stable_node_iff.mp h
    obtain rfl : o = some alternatives := ho'
    rw [he]
    refine stable_node_iff.mpr ⟨?_, hi, ha, hp, Codec.option_stable_none _ d⟩
    exact { hk with enum := stable_enum ho hvalues }

/-! ### One step of collapsing -/

/-- Properties are collapsed one by one and keep their names. -/
theorem collapseEntries_eq_map (entries : List (String × Schema)) :
    collapseEntries entries = entries.map fun entry => (entry.1, collapse entry.2) := by
  induction entries with
  | nil => rfl
  | cons entry rest ih => rw [collapseEntries, ih, List.map_cons]

/-- Alternatives are collapsed one by one. -/
theorem collapseAll_eq_map (schemas : List Schema) :
    collapseAll schemas = schemas.map collapse := by
  induction schemas with
  | nil => rfl
  | cons s rest ih => rw [collapseAll, ih, List.map_cons]

/-- Collapses the parts of a schema, but not the schema itself. -/
def collapseParts : Schema → Schema
  | .node k i a p o =>
    .node k (i.map collapse) a
      (p.map fun entries => entries.map fun entry => (entry.1, collapse entry.2))
      (o.map fun schemas => schemas.map collapse)

/-- A schema is collapsed after its parts. -/
theorem collapse_eq (s : Schema) : collapse s = collapseHere (collapseParts s) := by
  obtain ⟨k, i, a, p, o⟩ := s
  have hitems : collapseItems i = i.map collapse := by cases i <;> rfl
  have hproperties : collapseProperties p =
      p.map fun entries => entries.map fun entry => (entry.1, collapse entry.2) := by
    cases p with
    | none => rfl
    | some entries => rw [collapseProperties, collapseEntries_eq_map, Option.map_some]
  have halternatives : collapseAlternatives o = o.map fun schemas => schemas.map collapse := by
    cases o with
    | none => rfl
    | some schemas => rw [collapseAlternatives, collapseAll_eq_map, Option.map_some]
  rw [collapse, hitems, hproperties, halternatives, collapseParts]

/-- The parts of a schema whose parts are collapsed are the collapsed parts. -/
theorem parts_collapseParts (s : Schema) : (collapseParts s).parts = s.parts.map collapse := by
  obtain ⟨k, i, a, p, o⟩ := s
  cases i <;> cases p <;> cases o <;> simp [collapseParts, parts]

/-- If the parts stay as they are, then so does the schema, but for itself. -/
theorem collapseParts_eq_self {s : Schema} (h : ∀ part ∈ s.parts, collapse part = part) :
    collapseParts s = s := by
  obtain ⟨k, i, a, p, o⟩ := s
  simp only [parts, List.mem_append, or_imp, forall_and, Option.mem_toList,
    List.forall_mem_map] at h
  obtain ⟨⟨hi, hp⟩, ho⟩ := h
  have hitems : i.map collapse = i := by
    cases i with
    | none => rfl
    | some s => rw [Option.map_some, hi s rfl]
  have hproperties :
      (p.map fun entries => entries.map fun entry => (entry.1, collapse entry.2)) = p := by
    cases p with
    | none => rfl
    | some entries =>
        have hentries : ∀ entry ∈ entries, (entry.1, collapse entry.2) = entry :=
          fun entry hentry => Prod.ext rfl (hp entry hentry)
        rw [Option.map_some, List.map_congr_left hentries, List.map_id']
  have halternatives : (o.map fun schemas => schemas.map collapse) = o := by
    cases o with
    | none => rfl
    | some schemas =>
        have hschemas : ∀ s ∈ schemas, collapse s = s := ho
        rw [Option.map_some, List.map_congr_left hschemas, List.map_id']
  rw [collapseParts, hitems, hproperties, halternatives]

/-- If collapsing keeps the parts stable, the schema with collapsed parts is stable. -/
theorem stable_collapseParts {s : Schema}
    (hparts : ∀ part ∈ s.parts, ∀ {d : Nat}, codec.Stable d part → codec.Stable d (collapse part))
    (h : codec.Stable d s) : codec.Stable d (collapseParts s) := by
  obtain ⟨d, rfl⟩ := exists_of_stable h
  obtain ⟨k, i, a, p, o⟩ := s
  simp only [parts, List.mem_append, or_imp, forall_and, Option.mem_toList,
    List.forall_mem_map] at hparts
  obtain ⟨⟨hitems, hproperties⟩, halternatives⟩ := hparts
  obtain ⟨hk, hi, ha, hp, ho⟩ := stable_node_iff.mp h
  refine stable_node_iff.mpr ⟨hk, ?_, ha, ?_, ?_⟩
  · cases i with
    | none => exact hi
    | some s =>
        obtain ⟨hs, -⟩ := Codec.option_stable_some_iff.mp hi
        exact Codec.option_stable_some_iff.mpr ⟨hitems s rfl hs, write_ne_null _⟩
  · cases p with
    | none => exact hp
    | some entries =>
        obtain ⟨hmap, -⟩ := Codec.option_stable_some_iff.mp hp
        obtain ⟨d, rfl⟩ := exists_of_map_stable hmap
        obtain ⟨hd, hentries⟩ := Codec.map_stable_iff.mp hmap
        refine Codec.option_stable_some_iff.mpr
          ⟨Codec.map_stable_iff.mpr ⟨?_, ?_⟩, fun h => Json.noConfusion h⟩
        · exact OrderedMap.Distinct.mapValues hd collapse
        · exact List.forall_mem_map.mpr fun entry hentry =>
            hproperties entry hentry (hentries entry hentry)
  · cases o with
    | none => exact ho
    | some schemas =>
        obtain ⟨hlist, -⟩ := Codec.option_stable_some_iff.mp ho
        obtain ⟨d, rfl⟩ := exists_of_list_stable hlist
        have hschemas := Codec.list_stable_iff.mp hlist
        refine Codec.option_stable_some_iff.mpr
          ⟨Codec.list_stable_iff.mpr ?_, fun h => Json.noConfusion h⟩
        exact List.forall_mem_map.mpr fun s hs => halternatives s hs (hschemas s hs)

/-- Collapsing keeps a schema stable. -/
theorem stable_collapse {s : Schema} (h : codec.Stable d s) : codec.Stable d (collapse s) := by
  induction s using induction_on_children false generalizing d with
  | node s ih =>
      rw [children_false] at ih
      rw [collapse_eq]
      exact stable_collapseHere (stable_collapseParts (fun part hpart _ => ih part hpart) h)

/-! ### What collapsing changes at a schema -/

/-- Collapsing changes no constant. -/
theorem const_collapse (s : Schema) : (collapse s).keywords.const = s.keywords.const := by
  have hparts : (collapseParts s).keywords = s.keywords := by cases s; rfl
  rw [collapse_eq]
  rcases collapseHere_cases (collapseParts s) with ⟨-, he⟩ | ⟨-, _, _, _, -, -, -, he⟩
  · rw [he, hparts]
  · rw [he, keywords, hparts]

/-- Collapsing changes nothing about what an object may hold besides its properties. -/
theorem further_collapse (s : Schema) : (collapse s).further = s.further := by
  have hparts : (collapseParts s).further = s.further := by cases s; rfl
  rw [collapse_eq, ← hparts]
  rcases collapseHere_cases (collapseParts s) with ⟨-, he⟩ | ⟨-, _, _, _, -, -, -, he⟩
  · rw [he]
  · rw [he]
    rfl

/-- A schema is a union exactly if it is one after its parts are collapsed. -/
theorem isUnion_collapseParts (s : Schema) : (collapseParts s).isUnion = s.isUnion := by
  obtain ⟨k, i, a, p, o⟩ := s
  cases o with
  | none => rfl
  | some alternatives =>
      simp [isUnion, collapseParts, anyOf, List.all_map, Function.comp_def, const_collapse]

/-- The parts that stay when a schema is collapsed: a union loses its alternatives. -/
def keptParts (s : Schema) : List Schema :=
  s.items.toList ++ (s.stored.getD []).map (·.2) ++ if s.isUnion then [] else s.anyOf.getD []

/-- A schema that is no union keeps all its parts. -/
theorem keptParts_of_isUnion_eq_false {s : Schema} (h : s.isUnion = false) :
    s.keptParts = s.parts := by
  rw [keptParts, h]
  cases s
  rfl

/-- What stays when a schema is collapsed was a part of it. -/
theorem keptParts_subset (s : Schema) : s.keptParts ⊆ s.parts := by
  cases h : s.isUnion with
  | false =>
      rw [keptParts_of_isUnion_eq_false h]
      exact List.Subset.refl _
  | true =>
      rw [keptParts, h, if_pos rfl, List.append_nil]
      cases s
      exact List.subset_append_left _ _

/-- The parts of a collapsed schema are the parts that stay, collapsed. -/
theorem parts_collapse (s : Schema) : (collapse s).parts = s.keptParts.map collapse := by
  have hunion := isUnion_collapseParts s
  rw [collapse_eq]
  rcases collapseHere_cases (collapseParts s) with ⟨hnot, he⟩ | ⟨his, _, _, _, -, -, -, he⟩
  · rw [he, parts_collapseParts, keptParts_of_isUnion_eq_false (hunion.symm.trans hnot)]
  · rw [he, keptParts, ← hunion, his]
    obtain ⟨k, i, a, p, o⟩ := s
    cases i <;> cases p <;> simp [parts, collapseParts, items, stored]

/-- A collapsed schema is no union. -/
theorem isUnion_collapse (s : Schema) : (collapse s).isUnion = false := by
  rw [collapse_eq]
  rcases collapseHere_cases (collapseParts s) with ⟨hunion, he⟩ | ⟨-, _, _, _, -, -, -, he⟩
  · rw [he, hunion]
  · rw [he]
    rfl

/-! ### What is left -/

/-- No union is left at the places that are reached through parts alone. -/
theorem isUnion_of_mem_places_collapse {s t : Schema} (h : t ∈ (collapse s).places false) :
    t.isUnion = false := by
  induction s using induction_on_children false with
  | node s ih =>
      rw [children_false] at ih
      rw [mem_places_iff, children_false, parts_collapse] at h
      rcases h with rfl | ⟨part, hpart, ht⟩
      · exact isUnion_collapse s
      · obtain ⟨part, hmem, rfl⟩ := List.mem_map.mp hpart
        exact ih part (keptParts_subset s hmem) ht

/-- The schemas that collapsing misses: they lie below what an object may hold besides its
properties, at the schema itself or at a part that stays. -/
inductive Missed : Schema → Schema → Prop
  | further {s x t : Schema} (hx : x ∈ s.further) (ht : t ∈ x.places true) : Missed s t
  | part {s part t : Schema} (hpart : part ∈ s.keptParts) (ht : Missed part t) : Missed s t

/-- A schema that is missed is there after collapsing. -/
theorem Missed.mem_places_collapse {s t : Schema} (h : s.Missed t) :
    t ∈ (collapse s).places true := by
  induction h with
  | @further s x t hx ht =>
      rw [← further_collapse] at hx
      exact mem_places_of_mem_children (mem_children_true_iff.mpr (.inr hx)) ht
  | @part s part t hpart _ ih =>
      have hchild : collapse part ∈ (collapse s).parts := by
        rw [parts_collapse]
        exact List.mem_map_of_mem hpart
      exact mem_places_of_mem_children (mem_children_true_iff.mpr (.inl hchild)) ih

/-- A union is left exactly if it is missed. -/
theorem mem_places_collapse_iff {s t : Schema} (hunion : t.isUnion = true) :
    t ∈ (collapse s).places true ↔ s.Missed t := by
  refine ⟨fun h => ?_, Missed.mem_places_collapse⟩
  induction s using induction_on_children false with
  | node s ih =>
      rw [children_false] at ih
      rcases mem_places_iff.mp h with rfl | ⟨child, hchild, ht⟩
      · exact absurd ((isUnion_collapse s).symm.trans hunion) Bool.false_ne_true
      · rcases mem_children_true_iff.mp hchild with hpart | hfurther
        · rw [parts_collapse] at hpart
          obtain ⟨part, hmem, rfl⟩ := List.mem_map.mp hpart
          exact .part hmem (ih part (keptParts_subset s hmem) ht)
        · rw [further_collapse] at hfurther
          exact .further hfurther ht

/-! ### Collapsing twice -/

/-- A schema without unions at the places that are reached stays as it is. -/
theorem collapse_eq_self {s : Schema} (h : ∀ t ∈ s.places false, t.isUnion = false) :
    collapse s = s := by
  induction s using induction_on_children false with
  | node s ih =>
      rw [children_false] at ih
      have hparts : collapseParts s = s := by
        refine collapseParts_eq_self fun part hpart => ih part hpart fun t ht => ?_
        rw [← children_false] at hpart
        exact h t (mem_places_of_mem_children hpart ht)
      rw [collapse_eq, hparts]
      rcases collapseHere_cases s with ⟨-, he⟩ | ⟨hunion, -⟩
      · exact he
      · exact absurd ((h s (mem_places_self false s)).symm.trans hunion) Bool.false_ne_true

/-- Collapsing twice is collapsing once. -/
theorem collapse_collapse (s : Schema) : collapse (collapse s) = collapse s :=
  collapse_eq_self fun _ => isUnion_of_mem_places_collapse

/-- Collapsing twice is collapsing once, and it leaves exactly those schemas as they are that have
no union at the places that it reaches. -/
theorem collapse_idempotent (s : Schema) :
    collapse (collapse s) = collapse s ∧
      (collapse s = s ↔ ∀ t ∈ s.places false, t.isUnion = false) := by
  refine ⟨collapse_collapse s, fun h t ht => ?_, collapse_eq_self⟩
  rw [← h] at ht
  exact isUnion_of_mem_places_collapse ht

end ServiceDocs.Schema
