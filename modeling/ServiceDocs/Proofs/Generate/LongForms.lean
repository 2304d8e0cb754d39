import ServiceDocs.Proofs.Generate.Placement
import ServiceDocs.Proofs.Service.Shorthand

/-!
# Short and Long Forms

Settings that may be given in short can all be given at length, and a description in which
every short form is replaced by its long form says the same. Each replacement is one function
on a form, defined from the form alone; what is made of the form does not change, so neither do
the operations of the service nor its document. The long form of a text that is a method and a
path is the event that has these, and a text that is anything else has none.

There is one exception. A response that is an empty text has the empty description, but at
length an empty description counts as none, and the response is described by its status code.
The replacement of responses is therefore a parameter: the document stays the same for every
replacement that documents the same responses, in particular for the one that leaves empty
texts alone.

## Main definitions

* `ServiceDescription.atLength`: a description with all forms at length.
* `ResponseForm.atLength`, `ResponseForm.atLengthUnlessEmpty`: replacements of responses.

## Main results

* `ServiceDescription.placements_atLength`: the operations stay the same.
* `Generator.generate_atLength`: so does the document, and empty texts are the only exception.
* `Generator.generate_atLength_empty`: a service with an empty text.
-/

namespace ServiceDocs

/-! ### The long forms -/

/-- A response at length. -/
def ResponseForm.atLength : ResponseForm → ResponseForm
  | .text description => .detailed (some description) none
  | .detailed description bodyType => .detailed description bodyType

/-- A response at length, but an empty text as it is. -/
def ResponseForm.atLengthUnlessEmpty (form : ResponseForm) : ResponseForm :=
  if form = .text "" then form else form.atLength

/-- A declared path parameter at length. -/
def PathFlag.atLength : PathFlag → PathFlag
  | .required value => .detailed (some value) none
  | .detailed needed description => .detailed needed description

/-- A declared header or query parameter at length. -/
def RequestFlag.atLength : RequestFlag → RequestFlag
  | .required value => .mapped value none
  | .mapped needed mappedValue => .mapped needed mappedValue

/-- Declared parameters at length. -/
def RequestParameters.atLength (p : RequestParameters) : RequestParameters where
  paths := p.paths.map (·.mapValues PathFlag.atLength)
  headers := p.headers.map (·.mapValues RequestFlag.atLength)
  querystrings := p.querystrings.map (·.mapValues RequestFlag.atLength)

/-- Request settings at length. -/
def RequestSettings.atLength (r : RequestSettings) : RequestSettings where
  parameters := r.parameters.map (·.atLength)

section

variable (response : ResponseForm → ResponseForm)

/-- An event with its settings at length. -/
def HttpEvent.atLength (e : HttpEvent) : HttpEvent :=
  { e with
    responseData := e.responseData.map (·.mapValues response)
    responses := e.responses.map (·.mapValues response)
    request := e.request.map (·.atLength) }

/-- An event in its long form. A text that is not exactly a method and a path has none. -/
def EventForm.atLength : EventForm → EventForm
  | .detailed event => .detailed (event.atLength response)
  | .shorthand text =>
    match Text.words text with
    | [method, path] => .detailed { method, path }
    | _ => .shorthand text

/-- An event of a function at length. -/
def FunctionEvent.atLength (e : FunctionEvent) : FunctionEvent where
  http := e.http.map (·.atLength response)
  httpApi := e.httpApi.map (·.atLength response)

/-- A function with its events at length. -/
def ServiceFunction.atLength (f : ServiceFunction) : ServiceFunction :=
  { f with events := f.events.map (·.atLength response) }

/-- The name of a service in an object. -/
def ServiceName.atLength : ServiceName → ServiceName
  | .name text => .detailed text
  | .detailed text => .detailed text

/-- A description with all forms at length. -/
def ServiceDescription.atLength (d : ServiceDescription) : ServiceDescription :=
  { d with service := d.service.atLength, functions := d.functions.mapValues (·.atLength response) }

/-- The generator of a description with all forms at length. -/
def Generator.atLength (g : Generator) : Generator :=
  { g with description := g.description.atLength response }

end

/-! ### What is made of a form -/

/-- A service has the same name in an object. -/
theorem ServiceName.text_atLength (name : ServiceName) : name.atLength.text = name.text := by
  cases name <;> rfl

/-- A path parameter is documented alike in both forms. -/
theorem PathFlag.parameter_atLength (name : String) (flag : PathFlag) :
    flag.atLength.parameter name = flag.parameter name := by
  cases flag <;> rfl

/-- A header or a query of the request settings is documented alike in both forms. -/
theorem RequestFlag.parameter_atLength (location : ParameterLocation) (name : String)
    (flag : RequestFlag) :
    flag.atLength.parameter location name = flag.parameter location name := by
  cases flag <;> rfl

/-- A text is described alike in both forms exactly if it is not empty. -/
theorem ResponseForm.response_atLength_text_iff (status description : String) :
    (ResponseForm.text description).atLength.response status =
      (ResponseForm.text description).response status ↔ description ≠ "" := by
  by_cases h : description = ""
  · subst h
    -- the status code is described by a text that is not empty
    have hne : defaultResponseDescription status ≠ "" := by
      simp [defaultResponseDescription]
    simpa [atLength, response, nonEmpty?, Option.filter] using hne
  · simp [atLength, response, nonEmpty?, Option.filter, h]

/-- A response whose text is not empty is documented alike in both forms. -/
theorem ResponseForm.response_atLengthUnlessEmpty (status : String) (form : ResponseForm) :
    form.atLengthUnlessEmpty.response status = form.response status := by
  rw [atLengthUnlessEmpty]
  split
  · rfl
  · next hne =>
      cases form with
      | text description =>
          exact (response_atLength_text_iff status description).mpr fun h => hne (h ▸ rfl)
      | detailed description bodyType => rfl

/-! ### Operations -/

/-- The response of a status is made of the form that the event gives for it. -/
theorem HttpEvent.get?_responses_operation {e : HttpEvent} {forms : OrderedMap ResponseForm}
    (h : e.responseData.or e.responses = some forms) (hd : forms.Distinct) (headers : List String)
    (function : String) (method : Method) (status : String) :
    (e.operation headers function method).responses.get? status =
      (forms.get? status).map fun form => .inline (form.response status) := by
  have hentries : (OrderedMap.ofList (forms.entries.map fun entry =>
      (entry.1, entry.2.response entry.1))).entries =
        forms.entries.map fun entry => (entry.1, entry.2.response entry.1) := by
    refine OrderedMap.entries_insertAll_empty ?_
    rw [List.map_map]
    exact hd
  have hfind : ∀ entries : List (String × ResponseForm),
      OrderedMap.findEntry status (entries.map fun entry => (entry.1, entry.2.response entry.1)) =
        (OrderedMap.findEntry status entries).map (·.response status) := by
    intro entries
    induction entries with
    | nil => rfl
    | cons entry rest ih =>
        by_cases hkey : entry.1 = status
        · simp [OrderedMap.findEntry, hkey]
        · simp [OrderedMap.findEntry, hkey, ih]
  rw [operation, h, OrderedMap.get?_mapValues, documentedResponses, OrderedMap.get?, hentries,
    hfind, Option.map_map]
  rfl

/-- Parameters are made of a map of forms entry by entry. -/
theorem parametersOf_mapValues {α : Type} {parameter : String → α → Parameter} {f : α → α}
    (h : ∀ name a, parameter name (f a) = parameter name a) (map : OrderedMap α) :
    parametersOf parameter (map.mapValues f) = parametersOf parameter map := by
  simp [parametersOf, OrderedMap.mapValues, h]

section

variable {response : ResponseForm → ResponseForm}

/-- The responses of an operation are made of their forms one by one. -/
theorem documentedResponses_mapValues
    (h : ∀ status form, (response form).response status = form.response status)
    (forms : Option (OrderedMap ResponseForm)) :
    documentedResponses (forms.map (·.mapValues response)) = documentedResponses forms := by
  cases forms with
  | none => rfl
  | some forms => simp [documentedResponses, OrderedMap.mapValues, Function.comp_def, h]

namespace HttpEvent

/-- The request settings of an event are brought to their long form with it. -/
theorem requestParameters_atLength (e : HttpEvent) :
    (e.atLength response).requestParameters = e.requestParameters.map (·.atLength) := by
  rw [requestParameters, requestParameters, atLength]
  cases e.request <;> rfl

/-- The path parameters are the same at length: as many are declared, under the same names. -/
theorem pathParameters_atLength (e : HttpEvent) :
    (e.atLength response).pathParameters = e.pathParameters := by
  have hdeclared : (e.atLength response).declaredPaths =
      e.declaredPaths.mapValues PathFlag.atLength := by
    rw [declaredPaths, declaredPaths, requestParameters_atLength]
    cases e.requestParameters with
    | none => rfl
    | some p =>
        obtain ⟨paths, headers, querystrings⟩ := p
        cases paths <;> rfl
  have hundeclared : (e.atLength response).undeclaredPlaceholders = e.undeclaredPlaceholders := by
    rw [undeclaredPlaceholders, undeclaredPlaceholders, hdeclared]
    simp [OrderedMap.contains, atLength]
  rw [pathParameters, pathParameters, hdeclared, hundeclared,
    parametersOf_mapValues PathFlag.parameter_atLength]

/-- The parameters of a location are the same at length. -/
theorem configuredParameters_atLength (location : ParameterLocation)
    (settings : Option (OrderedMap ParameterSettings)) (flags : Option (OrderedMap RequestFlag)) :
    configuredParameters location settings (flags.map (·.mapValues RequestFlag.atLength)) =
      configuredParameters location settings flags := by
  cases settings with
  | some settings => rfl
  | none =>
      cases flags with
      | none => rfl
      | some flags => exact parametersOf_mapValues (RequestFlag.parameter_atLength location) flags

/-- An event has the same parameters in both forms. -/
theorem parameters_atLength (e : HttpEvent) : (e.atLength response).parameters = e.parameters := by
  have hbody : (e.atLength response).bodyParameters = e.bodyParameters := rfl
  have hheaders : (e.atLength response).requestParameters.bind (·.headers) =
      (e.requestParameters.bind (·.headers)).map (·.mapValues RequestFlag.atLength) := by
    rw [requestParameters_atLength]
    cases e.requestParameters <;> rfl
  have hqueries : (e.atLength response).requestParameters.bind (·.querystrings) =
      (e.requestParameters.bind (·.querystrings)).map (·.mapValues RequestFlag.atLength) := by
    rw [requestParameters_atLength]
    cases e.requestParameters <;> rfl
  rw [parameters, parameters, hbody, pathParameters_atLength, hheaders, hqueries,
    configuredParameters_atLength, configuredParameters_atLength]
  rfl

/-- The operation of an event, and where it goes, is the same at length. -/
theorem placement?_atLength
    (h : ∀ status form, (response form).response status = form.response status)
    (headers : List String) (function : String) (e : HttpEvent) :
    (e.atLength response).placement? headers function = e.placement? headers function := by
  have hresponses : documentedResponses
      ((e.atLength response).responseData.or (e.atLength response).responses) =
        documentedResponses (e.responseData.or e.responses) := by
    rw [← documentedResponses_mapValues h (e.responseData.or e.responses), atLength, Option.map_or]
  have hoperation : ∀ method, (e.atLength response).operation headers function method =
      e.operation headers function method := by
    intro method
    rw [operation, operation, parameters_atLength, hresponses]
    rfl
  simp only [placement?, hoperation]
  rfl

end HttpEvent

/-- The long form of a text that is a method and a path is the event that has these. -/
theorem EventForm.atLength_of_shortFor {method path text : String} (h : ShortFor method path text) :
    (shorthand text).atLength response = .detailed { method, path } := by
  rw [atLength, words_eq_pair_iff.mpr h]

/-- A text that is anything else has no long form. -/
theorem EventForm.atLength_of_not_shortFor {text : String}
    (h : ∀ method path, ¬ShortFor method path text) :
    (shorthand text).atLength response = .shorthand text := by
  rw [atLength]
  split
  · next method path hwords => exact absurd (words_eq_pair_iff.mp hwords) (h method path)
  · rfl

/-- An event in its long form stands for the same request at length. -/
theorem EventForm.event?_atLength (form : EventForm) :
    (form.atLength response).event? = form.event?.map (·.atLength response) := by
  cases form with
  | detailed event => rfl
  | shorthand text =>
      by_cases h : ∃ method path, ShortFor method path text
      · obtain ⟨method, path, h⟩ := h
        rw [atLength_of_shortFor h, h.event?_eq]
        rfl
      · rw [atLength_of_not_shortFor fun method path hshort => h ⟨method, path, hshort⟩]
        have hnone : (shorthand text).event? = none :=
          Option.eq_none_iff_forall_ne_some.mpr fun event hevent =>
            h (exists_shortFor_of_event? hevent)
        rw [hnone, Option.map_none]

/-- The operations of a service are the same at length. -/
theorem ServiceDescription.placements_atLength
    (h : ∀ status form, (response form).response status = form.response status)
    (d : ServiceDescription) : (d.atLength response).placements = d.placements :=
  placements_of_events rfl (fun _ => FunctionEvent.event?_eq_map EventForm.event?_atLength rfl rfl)
    (HttpEvent.placement?_atLength h d.keyHeaders)

/-- The document is the same if the responses are. -/
theorem Generator.generate_atLength_of_response
    (h : ∀ status form, (response form).response status = form.response status) (g : Generator) :
    (g.atLength response).generate = g.generate :=
  generate_congr (ServiceName.text_atLength g.description.service) rfl rfl rfl
    (ServiceDescription.placements_atLength h g.description)

end

namespace Generator

/-- A service whose settings are given at length has the same document, for the same files, if its
empty responses stay as they are. The long form of an event that is a text has the method and the
path that the text is, and a text that is anything else stays as it is. The empty response is the
only text that says something else at length: as a text it is described by nothing, and at length by
its status code, like a response without a description. -/
theorem generate_atLength :
    (∀ g : Generator, (g.atLength .atLengthUnlessEmpty).generate = g.generate) ∧
      (∀ response text,
        (∀ method path, EventForm.ShortFor method path text →
          (EventForm.shorthand text).atLength response = .detailed { method, path }) ∧
        ((∀ method path, ¬EventForm.ShortFor method path text) →
          (EventForm.shorthand text).atLength response = .shorthand text)) ∧
      (∀ status description : String,
        (ResponseForm.text description).atLength.response status =
          (ResponseForm.text description).response status ↔ description ≠ "") ∧
      ∀ (e : HttpEvent) (forms : OrderedMap ResponseForm) headers function method status,
        e.responseData.or e.responses = some forms → forms.Distinct →
        (forms.get? status = some (.text "") →
          (e.operation headers function method).responses.get? status =
            some (.inline { description := "" })) ∧
        (forms.get? status = some (ResponseForm.text "").atLength ∨
            forms.get? status = some (.detailed none none) →
          (e.operation headers function method).responses.get? status =
            some (.inline { description := status ++ " response" })) := by
  refine ⟨generate_atLength_of_response ResponseForm.response_atLengthUnlessEmpty,
    fun response text => ⟨fun method path h => EventForm.atLength_of_shortFor h,
      EventForm.atLength_of_not_shortFor⟩,
    ResponseForm.response_atLength_text_iff, ?_⟩
  intro e forms headers function method status hforms hdistinct
  have hget := HttpEvent.get?_responses_operation hforms hdistinct headers function method status
  refine ⟨fun h => ?_, fun h => ?_⟩
  · rw [hget, h]
    rfl
  · rcases h with h | h
    · rw [hget, h]
      rfl
    · rw [hget, h]
      rfl

/-- A service with an event that has an empty response. -/
def silent : Generator where
  description := { functions := ⟨[("list", { events := [{ http := some (.detailed event) }] })]⟩ }
where
  event := { method := "get", path := "pets", responses := some ⟨[("200", .text "")]⟩ }

/-- Its empty response is described by nothing as a text, and by its status code at length. -/
theorem generate_atLength_silent :
    (EventForm.shorthand "get pets").atLength .atLength =
        .detailed { method := "get", path := "pets" } ∧
      (silent.event.operation [] "list" .get).responses.get? "200" =
        some (.inline { description := "" }) ∧
      ((silent.event.atLength .atLength).operation [] "list" .get).responses.get? "200" =
        some (.inline { description := "200 response" }) := by
  obtain ⟨-, hforms, -, hresponses⟩ := generate_atLength
  have hshort : EventForm.ShortFor "get" "pets" "get pets" := ⟨"", " ", "", by decide +kernel⟩
  have hdistinct := List.nodup_singleton "200"
  have htext := hresponses silent.event _ [] "list" .get "200" rfl hdistinct
  have hlong :=
    hresponses (silent.event.atLength .atLength) _ [] "list" .get "200" rfl hdistinct
  exact ⟨(hforms _ _).1 _ _ hshort, htext.1 rfl, hlong.2 (.inl rfl)⟩

/-- At length, an empty response is described by its status code. -/
theorem generate_atLength_empty : (silent.atLength .atLength).generate ≠ silent.generate := by
  have htexts : (silent.atLength .atLength).generate.toOption.map (·.compact) ≠
      silent.generate.toOption.map (·.compact) := by decide +kernel
  exact fun h => htexts (congrArg (fun r => r.toOption.map (·.compact)) h)

end Generator

end ServiceDocs
