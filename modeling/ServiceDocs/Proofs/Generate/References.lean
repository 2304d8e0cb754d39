import ServiceDocs.Proofs.Generate.Security
import ServiceDocs.Proofs.Json.Pointer

/-!
# References of Generated Operations

The schemas of a generated operation say nothing but where the definition of a type stands: the
body refers to the type of the body, and each response to its own. The place is the name of the
type as it is, below the definitions of the document. For a literal name it is the place of the
definition of that name. The place of any other name leads to the definition of a shorter name, and
perhaps into it, so that a definition whose name holds a slash is never referred to.

## Main definitions

* `Operation.schemas`: the schemas that an operation holds itself.
* `HttpEvent.bodyTypes`: the types that an event names.
* `Schema.target?`: what a schema refers to.

## Main results

* `HttpEvent.schemas_operation`: the schemas of the operation of an event.
* `Document.Settled.resolve?_definitionPlace`: what stands at the place of a definition.
* `Generator.generate_references`: what the schemas of generated operations refer to.
-/

namespace ServiceDocs

/-! ### Schemas of operations -/

/-- The value, unless it is given by reference. -/
def RefOr.inline? {α : Type} : RefOr α → Option α
  | .ref _ => none
  | .inline value => some value

/-- The schemas of the parameters and of the responses that an operation holds itself. -/
def Operation.schemas (o : Operation) : List Schema :=
  (o.parameters.getD []).filterMap (·.inline?.bind (·.schema)) ++
    o.responses.values.filterMap (·.inline?.bind (·.schema))

/-- The type of the body of a response. -/
def ResponseForm.bodyType? : ResponseForm → Option String
  | .text _ => none
  | .detailed _ bodyType => bodyType

/-- The schema of a response refers to its type, if it names one. -/
theorem ResponseForm.schema_response (status : String) (form : ResponseForm) :
    (form.response status).schema = form.bodyType?.map Schema.reference := by
  cases form <;> rfl

namespace OrderedMap

variable {α β : Type}

/-- Values may be made of their entries before an insertion or after it. -/
theorem insertEntry_map (f : String → α → β) (key : String) (value : α)
    (entries : List (String × α)) :
    insertEntry key (f key value) (entries.map fun entry => (entry.1, f entry.1 entry.2)) =
      (insertEntry key value entries).map fun entry => (entry.1, f entry.1 entry.2) := by
  induction entries with
  | nil => rfl
  | cons entry rest ih =>
      by_cases hkey : entry.1 = key
      · simp only [List.map_cons, insertEntry, if_pos hkey]
      · simp only [List.map_cons, insertEntry, if_neg hkey, ih]

/-- Values may be made of their entries before a map is made of these or after it. -/
theorem entries_ofList_map (f : String → α → β) (entries : List (String × α)) :
    (ofList (entries.map fun entry => (entry.1, f entry.1 entry.2))).entries =
      (ofList entries).entries.map fun entry => (entry.1, f entry.1 entry.2) := by
  have hinsertAll : ∀ (m : OrderedMap α) (m' : OrderedMap β),
      m'.entries = m.entries.map (fun entry => (entry.1, f entry.1 entry.2)) →
      (m'.insertAll (entries.map fun entry => (entry.1, f entry.1 entry.2))).entries =
        (m.insertAll entries).entries.map fun entry => (entry.1, f entry.1 entry.2) := by
    induction entries with
    | nil => exact fun _ _ h => h
    | cons entry rest ih =>
        intro m m' h
        refine ih (m.insert entry.1 entry.2) (m'.insert entry.1 (f entry.1 entry.2)) ?_
        rw [insert, h]
        exact insertEntry_map f entry.1 entry.2 m.entries
  exact hinsertAll empty empty rfl

end OrderedMap

namespace HttpEvent

/-- The types that an event names: that of its body, then those of its responses, of which the last
one of a status counts. -/
def bodyTypes (e : HttpEvent) : List String :=
  e.bodyType.toList ++
    (OrderedMap.ofList ((e.responseData.or e.responses).getD .empty).entries).values.filterMap
      ResponseForm.bodyType?

/-- Of the parameters of an event, only the body has a schema. -/
theorem filterMap_schema_parameters (e : HttpEvent) :
    e.parameters.filterMap (·.schema) = e.bodyType.toList.map Schema.reference := by
  have hpaths : e.pathParameters.filterMap (·.schema) = [] := by
    refine List.filterMap_eq_nil_iff.mpr fun p hp => ?_
    rcases List.mem_append.mp hp with hp | hp
    · obtain ⟨⟨name, flag⟩, -, rfl⟩ := List.mem_map.mp hp
      cases flag <;> rfl
    · obtain ⟨name, -, rfl⟩ := List.mem_map.mp hp
      rfl
  have hconfigured : ∀ location settings declared,
      (configuredParameters location settings declared).filterMap (·.schema) = [] := by
    intro location settings declared
    refine List.filterMap_eq_nil_iff.mpr fun p hp => ?_
    cases settings with
    | none =>
        obtain ⟨entry, -, rfl⟩ := List.mem_map.mp hp
        rfl
    | some settings =>
        obtain ⟨entry, -, rfl⟩ := List.mem_map.mp hp
        rw [ParameterSettings.parameter]
        split <;> rfl
  have hbody : e.bodyParameters.filterMap (·.schema) = e.bodyType.toList.map Schema.reference := by
    rw [bodyParameters]
    cases e.bodyType <;> rfl
  simp only [parameters, List.filterMap_append, hpaths, hconfigured, hbody, List.append_nil]

/-- The schemas of the responses of an event. -/
theorem filterMap_schema_documentedResponses (forms : Option (OrderedMap ResponseForm)) :
    (documentedResponses forms).values.filterMap (·.schema) =
      ((OrderedMap.ofList (forms.getD .empty).entries).values.filterMap
        ResponseForm.bodyType?).map Schema.reference := by
  cases forms with
  | none => rfl
  | some forms =>
      rw [documentedResponses, OrderedMap.values,
        OrderedMap.entries_ofList_map ResponseForm.response]
      simp only [OrderedMap.values, Option.getD_some, List.map_map, List.filterMap_map,
        List.map_filterMap, Function.comp_def, ResponseForm.schema_response]

/-- The schemas of the operation of an event refer to the types that the event names, in order. -/
theorem schemas_operation (headers : List String) (function : String) (method : Method)
    (e : HttpEvent) :
    (e.operation headers function method).schemas = e.bodyTypes.map Schema.reference := by
  have hvalues : ∀ responses : OrderedMap Response,
      (responses.mapValues RefOr.inline).values.filterMap (·.inline?.bind (·.schema)) =
        responses.values.filterMap (·.schema) := by
    intro responses
    simp [OrderedMap.values, OrderedMap.mapValues, Function.comp_def, RefOr.inline?]
  have hparameters : (e.parameters.map RefOr.inline).filterMap (·.inline?.bind (·.schema)) =
      e.parameters.filterMap (·.schema) := by
    simp [RefOr.inline?]
  rw [Operation.schemas, operation, Option.getD_some, hvalues, hparameters,
    filterMap_schema_parameters, filterMap_schema_documentedResponses, bodyTypes, List.map_append]

end HttpEvent

/-! ### Places of definitions -/

/-- What a schema refers to in a document, if it refers to anything. -/
def Schema.target? (s : Schema) (document : Json) : Option Json :=
  s.keywords.ref.bind document.resolve?

namespace Document

open Pointer (names IsLiteral)

variable {d : Document}

/-- At the place of a definition stands what the steps of its name lead to. -/
theorem Settled.resolve?_definitionPlace (h : d.Settled deepestPart) (name : String) :
    d.toJson.resolve? (Schema.definitionPlace name) =
      (definitionsCodec.write d.definitions).under? (names name.toList) := by
  have hplace : (Schema.definitionPlace name).toList =
      '#' :: '/' :: ("definitions".toList ++ '/' :: name.toList) := by
    simp [Schema.definitionPlace]
  have hmember : OrderedMap.findEntry "definitions" d.toJson.children =
      some (definitionsCodec.write d.definitions) :=
    get?_members (f := .plain "definitions" .defaulted definitionsCodec (·.definitions)
      (fun v d => { d with definitions := v })) h (by simp [record])
  rw [Json.resolve?, hplace]
  show d.toJson.under? (names _) = _
  rw [Pointer.names_append (by decide)]
  show (OrderedMap.findEntry "definitions" d.toJson.children).bind _ = _
  rw [hmember, Option.bind_some]

/-- Going into the definitions begins at one of them. -/
theorem under?_definitions (d : Document) (name : String) (rest : List String) :
    (definitionsCodec.write d.definitions).under? (name :: rest) =
      ((d.definitions.get? name).map Schema.write).bind (Json.under? rest) :=
  congrArg (Option.bind · (Json.under? rest))
    (OrderedMap.get?_mapValues Schema.write d.definitions name)

/-- A reference to a literal name leads to the definition of that name. -/
theorem Settled.target?_reference (h : d.Settled deepestPart) {name : String}
    (hname : IsLiteral name) :
    (Schema.reference name).target? d.toJson = (d.definitions.get? name).map Schema.write := by
  show d.toJson.resolve? (Schema.definitionPlace name) = _
  rw [h.resolve?_definitionPlace, Pointer.names_of_isLiteral hname, under?_definitions]
  exact Option.bind_fun_some _

/-- A reference to any other name leads to the definition of another name, or into it: the steps of
the name are taken one after the other. -/
theorem Settled.exists_target?_reference (h : d.Settled deepestPart) {name : String}
    (hname : ¬IsLiteral name) :
    ∃ first rest, first ≠ name ∧ names name.toList = first :: rest ∧
      (Schema.reference name).target? d.toJson =
        ((d.definitions.get? first).map Schema.write).bind (Json.under? rest) := by
  obtain ⟨first, rest, hfirst, hnames⟩ := Pointer.exists_names_of_not_isLiteral hname
  refine ⟨first, rest, hfirst, hnames, ?_⟩
  show d.toJson.resolve? (Schema.definitionPlace name) = _
  rw [h.resolve?_definitionPlace, hnames, under?_definitions]

end Document

/-! ### References of generated documents -/

namespace Generator

variable {g : Generator} {d : Document}

/-- Every request event that is not left out has a slot in the generated document, and what stands
at such a slot is the operation of a request event. The schemas of such an operation refer to the
types that its event names. The reference to a type with a literal name leads to the definition of
that name, if there is one; that to any other type leads to, or into, the definition of the name
that its first step has, which is another one. -/
theorem generate_references (h : g.generate = .ok d) :
    (∀ request ∈ g.description.requests, ∀ p,
      request.2.placement? g.description.keyHeaders request.1 = some p →
        d.HasSlot p.path p.method ∧
          p.operation.schemas = request.2.bodyTypes.map Schema.reference) ∧
      (∀ p ∈ d.placements,
        (∃ q ∈ g.description.placements, q.path = p.path ∧ q.method = p.method) →
          ∃ request ∈ g.description.requests,
            request.2.placement? g.description.keyHeaders request.1 = some p) ∧
      ∀ type : String,
        (Pointer.IsLiteral type →
          (Schema.reference type).target? d.toJson = (d.definitions.get? type).map Schema.write) ∧
        (¬Pointer.IsLiteral type → ∃ first rest, first ≠ type ∧
          Pointer.names type.toList = first :: rest ∧
          (Schema.reference type).target? d.toJson =
            ((d.definitions.get? first).map Schema.write).bind (Json.under? rest)) := by
  have hsettled := (reachable_of_generate h).settled
  obtain ⟨-, rfl⟩ := generate_eq_ok_iff.mp h
  refine ⟨fun request hrequest p hp => ⟨?_, ?_⟩, fun p hp hslot => ?_, fun type =>
    ⟨hsettled.target?_reference, hsettled.exists_target?_reference⟩⟩
  · exact hasSlot_foldl_place.mpr
      (.inl ⟨p, List.mem_filterMap.mpr ⟨request, hrequest, hp⟩, rfl, rfl⟩)
  · rw [HttpEvent.placement?] at hp
    split at hp
    · simp at hp
    · obtain ⟨method, -, rfl⟩ := Option.map_eq_some_iff.mp hp
      exact request.2.schemas_operation _ _ _
  · exact List.mem_filterMap.mp
      (mem_placements_of_finish (hsettled.mem_placements_iff.mp hp) hslot)

/-- A service with a body of a type whose name holds a slash and a response of another type. -/
def slashed : Generator where
  description :=
    { functions := ⟨[("list", { events := [{ http := some (.detailed event) }] })]⟩
      custom := { autoswagger := { swaggerFiles := ["types.json"] } } }
  files := { entries := [(⟨false, ["types.json"]⟩, .file text.toUTF8)] }
where
  event :=
    { method := "get", path := "/pets", bodyType := some "a/b",
      responses := some ⟨[("200", .detailed none (some "Pet"))]⟩ }
  text :=
    "\x7b\"definitions\": \x7b\"a/b\": \x7b\"type\": \"string\"\x7d, " ++
    "\"Pet\": \x7b\"type\": \"object\"\x7d\x7d\x7d"

/-- Its document has both definitions, but nothing stands at the place of the first one. -/
theorem document_slashed :
    let d := slashed.finish slashed.merged.document
    slashed.merged.failure.isNone ∧
      (∃ p ∈ d.placements,
        ∃ q ∈ slashed.description.placements, q.path = p.path ∧ q.method = p.method) ∧
      (d.definitions.get? "Pet").map Schema.write = some (.object [("type", .string "object")]) ∧
      "a/b" ∈ d.definitions.keys ∧ ((Schema.reference "a/b").target? d.toJson).isNone := by
  decide +kernel

/-- The sample with a slash in a type is generated. -/
theorem generate_slashed : slashed.generate = .ok (slashed.finish slashed.merged.document) :=
  generate_eq_ok_iff.mpr ⟨Option.isNone_iff_eq_none.mp document_slashed.1, rfl⟩

/-- The operation of its event refers to both types, and the response to the definition of its
type. -/
theorem generate_references_slashed :
    let d := slashed.finish slashed.merged.document
    slashed.generate = .ok d ∧
      (∃ p ∈ d.placements,
        p.operation.schemas = [Schema.reference "a/b", Schema.reference "Pet"]) ∧
      Pointer.IsLiteral "Pet" ∧
      (Schema.reference "Pet").target? d.toJson = some (.object [("type", .string "object")]) := by
  intro d
  obtain ⟨hschemas, hevents, htargets⟩ := generate_references generate_slashed
  obtain ⟨-, ⟨p, hp, hslot⟩, hpet, -, -⟩ := document_slashed
  obtain ⟨request, hrequest, hplacement⟩ := hevents p hp hslot
  have htypes : request.2.bodyTypes = ["a/b", "Pet"] := by
    obtain rfl : request = ("list", slashed.event) := List.mem_singleton.mp hrequest
    decide
  have hliteral : Pointer.IsLiteral "Pet" := by decide
  refine ⟨generate_slashed, ⟨p, hp, ?_⟩, hliteral, ((htargets "Pet").1 hliteral).trans hpet⟩
  rw [(hschemas request hrequest p hplacement).2, htypes]
  rfl

/-- Its document defines the type of the body, but the reference of the body leads nowhere. -/
theorem target?_slashed :
    let d := slashed.finish slashed.merged.document
    slashed.generate = .ok d ∧
      (∃ request ∈ slashed.description.requests,
        (request.2.placement? slashed.description.keyHeaders request.1).isSome ∧
          "a/b" ∈ request.2.bodyTypes) ∧
      "a/b" ∈ d.definitions.keys ∧ (Schema.reference "a/b").target? d.toJson = none := by
  obtain ⟨-, -, -, hdefined, hnowhere⟩ := document_slashed
  exact ⟨generate_slashed, by decide +kernel, hdefined, Option.isNone_iff_eq_none.mp hnowhere⟩

end Generator

end ServiceDocs
