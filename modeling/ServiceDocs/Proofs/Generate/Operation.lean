import ServiceDocs.Generate.Operation
import ServiceDocs.Proofs.Document.Collapse
import ServiceDocs.Proofs.Document.Operation
import ServiceDocs.Proofs.Generate.ParameterSource

/-!
# Generated Operations Are Stable

An operation that is made of an event holds nothing that a text could not hold: its
parameters and responses have no extensions and refer to schemas by name only. It is read
back from what is written of it, and it is less deep than any operation of a text may be.

## Main results

* `HttpEvent.stable_operation`: the operation of an event is stable.
-/

namespace ServiceDocs

variable {d : Nat}

/-- The schema that refers to a definition is stable. -/
theorem Schema.stable_reference (d : Nat) (name : String) :
    codec.Stable (d + 1) (reference name) := by
  refine stable_node_iff.mpr ⟨?_, Codec.option_stable_none _ d, Codec.option_stable_none _ d,
    Codec.option_stable_none _ d, Codec.option_stable_none _ d⟩
  exact
    { default := Codec.option_stable_none _ d
      required := Codec.option_stable_none _ d
      enum := Codec.option_stable_none _ d
      const := Codec.option_stable_none _ d
      distinct := OrderedMap.distinct_empty
      notMem := fun _ h => nomatch h
      sound := fun _ h => nomatch h }

/-- A schema that is left out or refers to a definition is stable. -/
theorem Schema.option_stable_reference (d : Nat) (name : Option String) :
    codec.option.Stable (d + 1) (name.map reference) := by
  cases name with
  | none => exact Codec.option_stable_none _ _
  | some name => exact Codec.option_stable_some_iff.mpr ⟨stable_reference d name, write_ne_null _⟩

/-! ### Parameters -/

namespace Parameter

/-- A parameter without extensions that at most refers to a schema. -/
structure IsPlain (p : Parameter) : Prop where
  extensions : p.extensions = .empty
  schema : ∃ name : Option String, p.schema = name.map Schema.reference
  items : ∀ i ∈ p.items, i.extensions = .empty

/-- A plain parameter is stable: it has no member that is not one of its fields. -/
theorem IsPlain.stable {p : Parameter} (h : p.IsPlain) (d : Nat) : codec.Stable (d + 2) p := by
  obtain ⟨name, hschema⟩ := h.schema
  have hschema : Schema.codec.option.Stable (d + 1) p.schema :=
    hschema ▸ Schema.option_stable_reference d name
  have hitems : Items.codec.option.Stable (d + 1) p.items := by
    cases hi : p.items with
    | none => exact Codec.option_stable_none _ _
    | some i =>
        refine Codec.option_stable_some_iff.mpr ⟨?_, nofun⟩
        refine Record.stable_of_kept_eq_empty Items.lawful ?_ ?_
        · rintro k ⟨⟩
          exact h.items i hi
        · simp [Items.record, Field.hidden, Codec.option_string_stable]
  have hformat := Codec.option_stable (CollectionFormat.stable (d + 1))
    (fun _ h => Json.noConfusion h) p.collectionFormat
  refine Record.stable_of_kept_eq_empty lawful ?_ ?_
  · rintro k ⟨⟩
    exact h.extensions
  · simp [record, Field.hidden, Field.plain, Codec.string_stable, Codec.bool_stable,
      ParameterLocation.stable, Codec.option_string_stable, hschema, hitems, hformat]

/-- So is a plain parameter that is given in its place. -/
theorem IsPlain.stable_inline {p : Parameter} (h : p.IsPlain) (d : Nat) :
    (RefOr.codec codec).Stable (d + 2) (.inline p) := by
  refine RefOr.stable_inline regular (h.stable d) (by decide) ?_
  rw [Record.keptEntries_eq (r := record) rfl]
  show OrderedMap.findEntry "$ref" p.extensions.entries = none
  rw [h.extensions]
  rfl

end Parameter

/-- What a path parameter of an event is documented as is plain. -/
theorem PathFlag.isPlain_parameter (name : String) (flag : PathFlag) :
    (flag.parameter name).IsPlain := by
  cases flag <;> exact ⟨rfl, ⟨none, rfl⟩, fun _ h => nomatch h⟩

/-- What the settings of a parameter make is plain. -/
theorem ParameterSettings.isPlain_parameter (location : ParameterLocation) (name : String)
    (settings : ParameterSettings) : (settings.parameter location name).IsPlain := by
  rw [parameter]
  split
  · refine ⟨rfl, ⟨none, rfl⟩, ?_⟩
    rintro i ⟨⟩
    rfl
  · exact ⟨rfl, ⟨none, rfl⟩, fun _ h => nomatch h⟩

/-- What a flag of the request settings makes is plain. -/
theorem RequestFlag.isPlain_parameter (location : ParameterLocation) (name : String)
    (flag : RequestFlag) : (flag.parameter location name).IsPlain :=
  ⟨rfl, ⟨none, rfl⟩, fun _ h => nomatch h⟩

namespace HttpEvent

/-- The parameters of an event are plain. -/
theorem isPlain_of_mem_parameters (e : HttpEvent) : ∀ p ∈ e.parameters, p.IsPlain := by
  intro p hp
  cases mem_parameters_iff.mp hp with
  | @body type h => exact ⟨rfl, ⟨some type, rfl⟩, fun _ h => nomatch h⟩
  | declared h => exact PathFlag.isPlain_parameter _ _
  | placeholder h => exact ⟨rfl, ⟨none, rfl⟩, fun _ h => nomatch h⟩
  | settings location hmap h => exact ParameterSettings.isPlain_parameter location _ _
  | flag location hnone hmap h => exact RequestFlag.isPlain_parameter location _ _

end HttpEvent

/-! ### Responses -/

namespace Response

/-- A response without extensions that at most refers to a schema. -/
structure IsPlain (r : Response) : Prop where
  extensions : r.extensions = .empty
  schema : ∃ name : Option String, r.schema = name.map Schema.reference

/-- A plain response is stable: it has no member that is not one of its fields. -/
theorem IsPlain.stable {r : Response} (h : r.IsPlain) (d : Nat) : codec.Stable (d + 2) r := by
  obtain ⟨name, hschema⟩ := h.schema
  have hschema : Schema.codec.option.Stable (d + 1) r.schema :=
    hschema ▸ Schema.option_stable_reference d name
  refine Record.stable_of_kept_eq_empty lawful ?_ ?_
  · rintro k ⟨⟩
    exact h.extensions
  · simp [record, Field.hidden, Field.plain, Codec.string_stable, hschema]

/-- So is a plain response that is given in its place. -/
theorem IsPlain.stable_inline {r : Response} (h : r.IsPlain) (d : Nat) :
    (RefOr.codec codec).Stable (d + 2) (.inline r) := by
  refine RefOr.stable_inline regular (h.stable d) (by decide) ?_
  rw [Record.keptEntries_eq (r := record) rfl]
  show OrderedMap.findEntry "$ref" r.extensions.entries = none
  rw [h.extensions]
  rfl

end Response

/-- What a response of an event is documented as is plain. -/
theorem ResponseForm.isPlain_response (status : String) (form : ResponseForm) :
    (form.response status).IsPlain := by
  cases form with
  | text description => exact ⟨rfl, none, rfl⟩
  | detailed description bodyType => exact ⟨rfl, bodyType, rfl⟩

/-- The responses of an operation are stable. -/
theorem stable_documentedResponses (forms : Option (OrderedMap ResponseForm)) (d : Nat) :
    (Codec.map (RefOr.codec Response.codec)).Stable (d + 3)
      ((documentedResponses forms).mapValues .inline) := by
  have hplain : (documentedResponses forms).Distinct ∧
      ∀ entry ∈ (documentedResponses forms).entries, entry.2.IsPlain := by
    cases forms with
    | none =>
        refine ⟨List.nodup_singleton _, fun entry hentry => ?_⟩
        obtain rfl := List.mem_singleton.mp hentry
        exact ⟨rfl, none, rfl⟩
    | some forms =>
        refine ⟨OrderedMap.distinct_ofList _, fun entry hentry => ?_⟩
        obtain ⟨form, -, rfl⟩ := List.mem_map.mp (OrderedMap.mem_of_mem_ofList hentry)
        exact ResponseForm.isPlain_response form.1 form.2
  refine Codec.map_stable_iff.mpr ⟨hplain.1.mapValues _, fun entry hentry => ?_⟩
  obtain ⟨response, hresponse, rfl⟩ := List.mem_map.mp hentry
  exact (hplain.2 response hresponse).stable_inline d

/-! ### Security -/

/-- A requirement that schemes are added to names each of them once. -/
theorem SecurityRequirement.distinct_foldl {α : Type} (scheme : α → String × List String)
    (entries : List α) {r : SecurityRequirement} (h : r.schemes.Distinct) :
    (entries.foldl (fun r a => r.withScheme (scheme a).1 (scheme a).2) r).schemes.Distinct := by
  induction entries generalizing r with
  | nil => exact h
  | cons a rest ih => exact ih (OrderedMap.distinct_insert h _ _)

/-- What an operation requires is stable. -/
theorem stable_documentedSecurity (headers : List String) (e : HttpEvent) (d : Nat) :
    (Codec.list SecurityRequirement.codec).option.Stable (d + 3)
      (documentedSecurity headers e) := by
  have hlist : ∀ requirements : List SecurityRequirement,
      (∀ r ∈ requirements, r.schemes.Distinct) →
      (Codec.list SecurityRequirement.codec).option.Stable (d + 3) (some requirements) := by
    intro requirements h
    exact Codec.option_stable_some_iff.mpr
      ⟨Codec.list_stable_iff.mpr fun r hr => SecurityRequirement.stable d (h r hr), nofun⟩
  rw [documentedSecurity]
  split
  · cases e.security with
    | none => exact Codec.option_stable_none _ _
    | some schemes =>
        refine hlist _ fun r hr => ?_
        obtain ⟨map, -, rfl⟩ := List.mem_map.mp hr
        exact SecurityRequirement.distinct_foldl id _ OrderedMap.distinct_empty
  · refine hlist _ fun r hr => ?_
    obtain rfl := List.mem_singleton.mp hr
    exact SecurityRequirement.distinct_foldl (fun header => (header, [])) _
      OrderedMap.distinct_empty

/-! ### Operations -/

/-- The operation of an event is stable. -/
theorem HttpEvent.stable_operation (headers : List String) (function : String) (method : Method)
    (e : HttpEvent) (d : Nat) :
    Operation.codec.Stable (d + 4) (e.operation headers function method) := by
  have texts : ∀ names : Option (List String), (Codec.list .string).option.Stable (d + 3) names :=
    Codec.option_stable
      (fun names => Codec.list_stable_iff.mpr fun name _ => Codec.string_stable _ name)
      fun _ h => Json.noConfusion h
  have text := Codec.option_string_stable (d + 3)
  have hparameters : (Codec.list (RefOr.codec Parameter.codec)).option.Stable (d + 3)
      (some (e.parameters.map .inline)) := by
    refine Codec.option_stable_some_iff.mpr ⟨Codec.list_stable_iff.mpr fun p hp => ?_,
      Json.noConfusion⟩
    obtain ⟨q, hq, rfl⟩ := List.mem_map.mp hp
    exact (e.isPlain_of_mem_parameters q hq).stable_inline d
  refine Record.stable_of_kept_eq_empty Operation.lawful ?_ ?_
  · rintro k ⟨⟩
    rfl
  · simp only [Operation.record, List.forall_mem_cons]
    exact ⟨fun _ => texts _, fun _ => text _, fun _ => text _, fun _ => text _, fun _ => texts _,
      fun _ => texts _, fun _ => hparameters, fun _ => stable_documentedResponses _ d,
      fun _ => Codec.option_stable_none _ _, fun _ => stable_documentedSecurity headers e d,
      List.forall_mem_nil _⟩

end ServiceDocs
