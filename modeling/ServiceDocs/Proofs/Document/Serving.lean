import ServiceDocs.Proofs.Document.Schema
import ServiceDocs.Proofs.Reading.Restoring

/-!
# Schemas That Are Read and Served

A schema keeps the keywords that it has no field for, so that it is served as it was read. What it
does not keep is a keyword that is null and has a field: it is read as an absent one, be it the
default or the constant of a schema, for which null is a value like any other.

`Schema.served` leaves these keywords out, of the schema and of all schemas in it. Values that are
no schemas, such as defaults, examples and unknown keywords, are not looked into. A schema is
written as `served` says, up to the order of members, and so it is served untouched only if there is
no such keyword.

## Main definitions

* `Schema.served`: the value of a schema as it is served.

## Main results

* `Schema.served_eq`: one step of it is the spelling of a record.
* `Schema.restores`: schemas are restored as they are served.
* `Schema.write_of_read`: what is written of a schema that was read.
-/

namespace ServiceDocs.Schema

open Codec

/-! ### What is served -/

/-- What a keyword of a schema holds. -/
inductive Holding where
  /-- A schema. -/
  | schema
  /-- An object of schemas. -/
  | properties
  /-- A list of schemas. -/
  | alternatives
  /-- No schema. -/
  | value

/-- What a keyword holds. What an object may hold besides its properties is a schema or a flag,
which is told by the value. -/
def holding (name : String) : Holding :=
  if name ∈ ["items", "additionalProperties"] then .schema
  else if name = "properties" then .properties
  else if name = "anyOf" then .alternatives
  else .value

mutual

/-- The value of a keyword as it is served. -/
def servedAs : Holding → Json → Json
  | .schema, .object fields => .object (servedKeywords fields)
  | .properties, .object fields => .object (servedProperties fields)
  | .alternatives, .array items => .array (servedAlternatives items)
  | _, v => v

/-- The keywords of a schema without those that are null and have a field. -/
def servedKeywords : List (String × Json) → List (String × Json)
  | [] => []
  | (name, v) :: rest =>
    if v = .null ∧ name ∈ fieldNames then servedKeywords rest
    else (name, servedAs (holding name) v) :: servedKeywords rest

/-- The schemas of properties as they are served. -/
def servedProperties : List (String × Json) → List (String × Json)
  | [] => []
  | (name, v) :: rest => (name, servedAs .schema v) :: servedProperties rest

/-- The alternatives as they are served. -/
def servedAlternatives : List Json → List Json
  | [] => []
  | v :: rest => servedAs .schema v :: servedAlternatives rest

end

/-- The value of a schema as it is served: without keywords that are null and have a field, in the
schema and in all schemas in it. -/
def served (v : Json) : Json := servedAs .schema v

/-- A value that is no schema is served as it is. -/
theorem servedAs_value (v : Json) : servedAs .value v = v := by cases v <;> rfl

/-- A keyword that holds no schema is served as it is. -/
theorem servedAs_of_notMem {name : String} (h : name ∉ schemaNames) (v : Json) :
    servedAs (holding name) v = v := by
  simp only [schemaNames, List.mem_cons, List.not_mem_nil, or_false, not_or] at h
  obtain ⟨hitems, hadditional, hproperties, hanyOf⟩ := h
  have hholding : holding name = .value := by
    simp [holding, hitems, hadditional, hproperties, hanyOf]
  rw [hholding, servedAs_value]

/-- Alternatives are served one by one. -/
theorem servedAlternatives_eq (items : List Json) :
    servedAlternatives items = items.map served := by
  induction items with
  | nil => rfl
  | cons v rest ih => rw [servedAlternatives, ih, List.map_cons, served]

/-- Properties are served one by one under their names. -/
theorem servedProperties_eq (fields : List (String × Json)) :
    servedProperties fields = fields.map fun entry => (entry.1, served entry.2) := by
  induction fields with
  | nil => rfl
  | cons entry rest ih => rw [servedProperties, ih, List.map_cons, served]

/-- One step of serving a schema is the spelling of a record. -/
theorem served_eq : served = record.spelling fun name => servedAs (holding name) := by
  have hkeywords : ∀ fields, servedKeywords fields =
      (fields.filter fun entry => !record.ignores entry).map fun entry =>
        (entry.1, servedAs (holding entry.1) entry.2) := by
    intro fields
    induction fields with
    | nil => rfl
    | cons entry rest ih =>
        obtain ⟨name, v⟩ := entry
        have hignores : record.ignores (name, v) = true ↔ v = .null ∧ name ∈ fieldNames := by
          rw [Record.ignores, Bool.and_eq_true, decide_eq_true_eq, List.contains_iff_mem]
          rfl
        by_cases h : v = .null ∧ name ∈ fieldNames
        · rw [servedKeywords, if_pos h, ih, List.filter_cons_of_neg (by simp [hignores.mpr h])]
        · have hkeep : record.ignores (name, v) = false := Bool.eq_false_iff.mpr (mt hignores.mp h)
          rw [servedKeywords, if_neg h, ih, List.filter_cons_of_pos (by simp [hkeep]),
            List.map_cons]
  funext v
  cases v with
  | object fields => rw [served, servedAs, hkeywords, Record.spelling]
  | null | bool | number | string | array => rfl

/-! ### Schemas are restored -/

/-- What an object may hold besides its properties is restored if schemas are. -/
theorem additional_restores {P : Json → Prop} (h : codec.Restores P served) :
    AdditionalProperties.codec.Restores P served :=
  .either additional_either (bool_regular _) (regular (K := Node.Exact))
    (bool_restores fun _ => rfl) h

/-- The fields of a schema are restored below a depth if schemas are. -/
theorem fieldsRestore {d : Nat} (h : codec.Restores (fun v => v.depth < d) served) :
    record.FieldsRestore (fun v => v.depth < d) fun name => servedAs (holding name) where
  lawful := lawful
  rest := rfl
  blank := by simp [record, Field.hidden, blank, keywords, items, additional, properties, anyOf]
  field := by
    have text : ∀ name, name ∉ schemaNames →
        string.Restores (fun v => v.depth < d) (servedAs (holding name)) := fun _ hname =>
      string_restores (servedAs_of_notMem hname)
    have any : ∀ name, name ∉ schemaNames →
        json.Restores (fun v => v.depth < d) (servedAs (holding name)) := fun _ hname =>
      json_restores (servedAs_of_notMem hname)
    have hrequired :
        (list string).Restores (fun v => v.depth < d) (servedAs (holding "required")) :=
      (string_restores fun _ => rfl).list (fun _ _ _ _ => trivial) fun items => by
        rw [servedAs_of_notMem (by decide), List.map_id']
    have henum : (list json).Restores (fun v => v.depth < d) (servedAs (holding "enum")) :=
      (json_restores fun _ => rfl).list (fun _ _ _ _ => trivial) fun items => by
        rw [servedAs_of_notMem (by decide), List.map_id']
    have hproperties :
        (map codec).Restores (fun v => v.depth < d) (servedAs (holding "properties")) :=
      h.map (fun _ hd _ hentry => Nat.lt_trans (Json.depth_lt_of_mem_object hentry) hd)
        fun fields => congrArg Json.object (servedProperties_eq fields)
    have hanyOf : (list codec).Restores (fun v => v.depth < d) (servedAs (holding "anyOf")) :=
      h.list (fun _ hd _ hitem => Nat.lt_trans (Json.depth_lt_of_mem_array hitem) hd) fun items =>
        congrArg Json.array (servedAlternatives_eq items)
    simp only [record, List.forall_mem_cons]
    exact ⟨(text "type" (by decide)).hidden, (text "$ref" (by decide)).hidden, h.hidden,
      (text "format" (by decide)).hidden, (any "default" (by decide)).hidden,
      (text "description" (by decide)).hidden, hrequired.hidden, (additional_restores h).hidden,
      henum.hidden, (any "const" (by decide)).hidden, hproperties.hidden, hanyOf.hidden,
      List.forall_mem_nil _⟩
  unknown name hname := by
    refine servedAs_of_notMem fun hin => hname ?_
    have hsub : schemaNames ⊆ fieldNames := by decide
    exact hsub hin

/-- Schemas are restored below a depth. -/
theorem restores_below (d : Nat) : codec.Restores (fun v => v.depth < d) served := by
  -- a schema is read from the members and items of an object, which are less deep
  induction d with
  | zero => exact ⟨fun _ hdepth => absurd hdepth (Nat.not_lt_zero _)⟩
  | succ d ih =>
      have hrecord : record.codec.Restores (fun v => v.depth < d + 1) served := by
        rw [served_eq]
        exact Record.restores (fieldsRestore ih) rfl fun _ hd _ hentry =>
          Nat.lt_of_lt_of_le (Json.depth_lt_of_mem_object hentry) (Nat.le_of_lt_succ hd)
      refine hrecord.rename id (fun n hn => ?_) write_eq
      rw [map_id_read]
      exact read_eq rfl hn

/-- Schemas are restored as they are served. -/
theorem restores : codec.Restores (fun _ => True) served where
  spelled hv _ hr := (restores_below _).spelled hv (Nat.lt_succ_self _) hr

/-- A schema that was read, in whatever way, is written as it is served, up to the order of members.
It is written as the value that it was read from only if no keyword of the value, in the schema or
in a schema in it, is null and has a field. -/
theorem write_of_read {m : Mode} {v : Json} {s : Schema} (hv : v.Sound) (hm : m.Holds v)
    (h : codec.read m (.ofJson v) = .ok s) :
    (served v).sameUpToOrder s.write = true ∧ (v.sameUpToOrder s.write = true ↔ served v = v) := by
  have hread : codec.ofJson v = .ok s :=
    (regular (K := Node.Exact).read_iff hv ⟨v, hv, rfl⟩ hm).mp h
  have hspelled : v.Spelled served s.write := restores.spelled hv trivial hread
  refine ⟨hspelled.same, hspelled.eq_self, fun heq => ?_⟩
  rw [← heq]
  exact hspelled.same

/-- A list with an unknown keyword that is null, and with null in its default and among the values
of its items. -/
def listSample : Json :=
  .object [("default", .array [.null]), ("x-source", .null),
    ("items", .object [("enum", .array [.string "a", .null])])]

/-- No keyword with a field is null in the sample, so it is served untouched. -/
theorem write_of_read_listSample :
    listSample.Sound ∧ ∃ s, codec.read .value (.ofJson listSample) = .ok s ∧
      listSample.sameUpToOrder s.write = true := by
  have hsound : listSample.Sound := by
    have henum : ∀ item ∈ [Json.string "a", .null], item.Sound :=
      List.forall_mem_cons.mpr ⟨.string "a", List.forall_mem_singleton.mpr .null⟩
    refine .object (by decide) ?_
    simp only [List.forall_mem_cons]
    exact ⟨.array (List.forall_mem_singleton.mpr .null), .null,
      .object (by decide) (List.forall_mem_singleton.mpr (.array henum)), List.forall_mem_nil _⟩
  have hholds : Mode.value.Holds listSample := trivial
  have hserved : served listSample = listSample := rfl
  exact ⟨hsound, _, rfl, (write_of_read hsound hholds rfl).2.mpr hserved⟩

/-- A schema of one value, which is null. -/
def nullSample : Json := .object [("const", .null)]

/-- The constant is read as an absent one, so the schema is not served untouched. -/
theorem write_of_read_nullSample :
    nullSample.Sound ∧ codec.read .value (.ofJson nullSample) = .ok blank ∧
      nullSample.sameUpToOrder blank.write = false :=
  ⟨.object (by decide) (List.forall_mem_singleton.mpr .null), rfl, by decide⟩

end ServiceDocs.Schema
