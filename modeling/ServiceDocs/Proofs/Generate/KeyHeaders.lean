import ServiceDocs.Proofs.Generate.Security

/-!
# Key Headers

The headers of a service that hold keys are used twice: every operation of an event requires them,
and the document defines them. Both are made of the list of headers on their own, one by requiring
a scheme after the other, the other one by collecting definitions into a map. A header that is
listed again counts for nothing in either, so the two name the same schemes in the same order.

What an event itself requires is not looked at then: services that differ in nothing else have the
same document.

## Main definitions

* `Generator.withoutSecurity`: a service whose events require nothing.

## Main results

* `OrderedMap.keys_ofList`: the keys of a map that is made of a list.
* `Generator.generate_keyHeaders`: required and defined schemes of a service with key headers.
-/

namespace ServiceDocs

/-! ### Maps that are made of lists -/

namespace OrderedMap

variable {α : Type}

/-- The keys after entries are inserted one after the other, whatever keys they repeat. -/
theorem keys_insertAll_eq_withNew (m : OrderedMap α) (entries : List (String × α)) :
    (m.insertAll entries).keys = withNew m.keys (entries.map (·.1)) := by
  induction entries generalizing m with
  | nil => exact (withNew_nil m.keys).symm
  | cons entry rest ih =>
      have hstep : m.insertAll (entry :: rest) = (m.insert entry.1 entry.2).insertAll rest := rfl
      rw [hstep, ih, keys_insert, List.map_cons, withNew_cons]

/-- The keys of a map that is made of a list stand in the order of their first appearance. -/
theorem keys_ofList (entries : List (String × α)) :
    (ofList entries).keys = (entries.map (·.1)).eraseDups := by
  rw [ofList, keys_insertAll_eq_withNew, withNew, keys_empty, List.nil_append, List.removeAll]
  simp

end OrderedMap

/-! ### Required and defined headers -/

/-- Each header is required once. -/
theorem SecurityRequirement.keys_ofHeaders (headers : List String) :
    (ofHeaders headers).schemes.keys = headers.eraseDups := by
  rw [schemes_ofHeaders, OrderedMap.keys_ofList, List.map_map]
  exact congrArg List.eraseDups (List.map_id headers)

/-- The headers are required without scopes. -/
theorem SecurityRequirement.eq_nil_of_mem_ofHeaders {headers : List String}
    {entry : String × List String} (h : entry ∈ (ofHeaders headers).schemes.entries) :
    entry.2 = [] := by
  rw [schemes_ofHeaders] at h
  obtain ⟨header, -, rfl⟩ := List.mem_map.mp (OrderedMap.mem_of_mem_ofList h)
  rfl

namespace Generator

variable {g g' : Generator} {d : Document}

/-- Each header is defined once. -/
theorem keys_headerSchemes (headers : List String) :
    (headerSchemes headers).keys = headers.eraseDups := by
  rw [headerSchemes, OrderedMap.keys_ofList, List.map_map]
  exact congrArg List.eraseDups (List.map_id headers)

/-- A header is defined as a key in the header of its name, and nothing else is said of it. -/
theorem eq_of_mem_headerSchemes {headers : List String} {entry : String × SecurityDefinition}
    (h : entry ∈ (headerSchemes headers).entries) :
    entry.2 = { type := .apiKey, name := some entry.1, location := some .header } := by
  obtain ⟨header, -, rfl⟩ := List.mem_map.mp (OrderedMap.mem_of_mem_ofList h)
  rfl

/-- With key headers, all that is defined in the end are these. -/
theorem securityDefinitions_finish (h : g.description.keyHeaders ≠ []) (d : Document) :
    (g.finish d).securityDefinitions = headerSchemes g.description.keyHeaders := by
  rw [finish, generatePaths_eq, generateSecurity, if_neg (by simpa using h)]

/-- With key headers, the operation of an event requires these and nothing else. -/
theorem security_operation {headers : List String} (h : headers ≠ []) (function : String)
    (method : Method) (e : HttpEvent) :
    (e.operation headers function method).security = some [.ofHeaders headers] := by
  rw [HttpEvent.operation, documentedSecurity, if_neg (by simpa using h)]

end Generator

/-! ### What events require by themselves -/

/-- An event that requires nothing by itself. -/
def HttpEvent.withoutSecurity (e : HttpEvent) : HttpEvent := { e with security := none }

/-- An event in either form that requires nothing by itself. -/
def EventForm.withoutSecurity : EventForm → EventForm
  | .shorthand text => .shorthand text
  | .detailed event => .detailed event.withoutSecurity

/-- An event of a function that requires nothing by itself. -/
def FunctionEvent.withoutSecurity (e : FunctionEvent) : FunctionEvent where
  http := e.http.map (·.withoutSecurity)
  httpApi := e.httpApi.map (·.withoutSecurity)

/-- A function whose events require nothing by themselves. -/
def ServiceFunction.withoutSecurity (f : ServiceFunction) : ServiceFunction :=
  { f with events := f.events.map (·.withoutSecurity) }

/-- A service whose events require nothing by themselves. -/
def ServiceDescription.withoutSecurity (d : ServiceDescription) : ServiceDescription :=
  { d with functions := d.functions.mapValues (·.withoutSecurity) }

/-- The generator of a service whose events require nothing by themselves. -/
def Generator.withoutSecurity (g : Generator) : Generator :=
  { g with description := g.description.withoutSecurity }

/-- A text that stands for a request says nothing of what it requires. -/
theorem EventForm.event?_withoutSecurity (form : EventForm) :
    form.withoutSecurity.event? = form.event?.map (·.withoutSecurity) := by
  cases form with
  | detailed event => rfl
  | shorthand text =>
      rw [withoutSecurity, event?]
      split <;> rfl

/-- With key headers, what an event says of security does not show in its operation. -/
theorem HttpEvent.placement?_withoutSecurity {headers : List String} (h : headers ≠ [])
    (function : String) (e : HttpEvent) :
    e.withoutSecurity.placement? headers function = e.placement? headers function := by
  have hsecurity : documentedSecurity headers e.withoutSecurity = documentedSecurity headers e := by
    rw [documentedSecurity, documentedSecurity, if_neg (by simpa using h),
      if_neg (by simpa using h)]
  have hoperation : ∀ method, e.withoutSecurity.operation headers function method =
      e.operation headers function method := by
    intro method
    rw [operation, operation, hsecurity]
    rfl
  simp only [placement?, hoperation]
  rfl

/-- With key headers, the operations of a service do not depend on what its events require by
themselves. -/
theorem ServiceDescription.placements_withoutSecurity {d : ServiceDescription}
    (h : d.keyHeaders ≠ []) : d.withoutSecurity.placements = d.placements :=
  placements_of_events rfl
    (fun _ => FunctionEvent.event?_eq_map EventForm.event?_withoutSecurity rfl rfl)
    (HttpEvent.placement?_withoutSecurity h)

namespace Generator

variable {g g' : Generator} {d : Document}

/-- So nothing that events say of security shows in the document. -/
theorem generate_withoutSecurity (h : g.description.keyHeaders ≠ []) :
    g.withoutSecurity.generate = g.generate :=
  generate_congr rfl rfl rfl rfl (ServiceDescription.placements_withoutSecurity h)

/-- A service with key headers defines each of them once, in the order in which they are first
listed, as a key in the header of its name. Every operation that an event has put into the document
requires exactly these schemes in one requirement, in the same order and without scopes. What events
require by themselves changes nothing about the document. -/
theorem generate_keyHeaders (hheaders : g.description.keyHeaders ≠ []) (h : g.generate = .ok d) :
    d.securityDefinitions.keys = g.description.keyHeaders.eraseDups ∧
      (∀ entry ∈ d.securityDefinitions.entries,
        entry.2 = { type := .apiKey, name := some entry.1, location := some .header }) ∧
      (∀ q ∈ g.description.placements, d.HasSlot q.path q.method) ∧
      (∀ p ∈ d.placements,
        (∃ q ∈ g.description.placements, q.path = p.path ∧ q.method = p.method) →
          ∃ requirement, p.operation.security = some [requirement] ∧
            requirement.schemes.keys = d.securityDefinitions.keys ∧
            ∀ entry ∈ requirement.schemes.entries, entry.2 = []) ∧
      ∀ g' : Generator, g'.withoutSecurity = g.withoutSecurity → g'.generate = .ok d := by
  have hsettled := (reachable_of_generate h).settled
  have hgenerate := h
  obtain ⟨-, rfl⟩ := generate_eq_ok_iff.mp h
  have hdefined := securityDefinitions_finish hheaders g.merged.document
  rw [hdefined]
  refine ⟨keys_headerSchemes _, fun _ => eq_of_mem_headerSchemes, fun q hq => ?_,
    fun p hp hslot => ?_, fun g' hsame => ?_⟩
  · exact hasSlot_foldl_place.mpr (.inl ⟨q, hq, rfl, rfl⟩)
  · have hq := mem_placements_of_finish (hsettled.mem_placements_iff.mp hp) hslot
    obtain ⟨request, -, method, rfl⟩ := exists_of_mem_placements hq
    exact ⟨.ofHeaders g.description.keyHeaders, security_operation hheaders _ _ _,
      (SecurityRequirement.keys_ofHeaders _).trans (keys_headerSchemes _).symm,
      fun _ => SecurityRequirement.eq_nil_of_mem_ofHeaders⟩
  · have hsettings : g'.description.settings = g.description.settings :=
      congrArg (fun g => g.description.settings) hsame
    have hheaders' : g'.description.keyHeaders ≠ [] := by
      rwa [ServiceDescription.keyHeaders, hsettings]
    rw [← generate_withoutSecurity hheaders', hsame, generate_withoutSecurity hheaders, hgenerate]

/-- A service that lists a key header twice, with an event that requires a scheme of a file. -/
def repeated : Generator where
  description :=
    { functions := ⟨[("list", { events := [{ http := some (.detailed event) }] })]⟩
      custom := { autoswagger :=
        { apiKeyHeaders := ["x-key", "x-tenant", "x-key"], swaggerFiles := ["basic.json"] } } }
  files := { entries := [(⟨false, ["basic.json"]⟩, .file text.toUTF8)] }
where
  event := { method := "get", path := "/pets", security := some [⟨[("basic", ["read"])]⟩] }
  text := "\x7b\"securityDefinitions\": \x7b\"basic\": \x7b\"type\": \"basic\"\x7d\x7d\x7d"

/-- Its event requires both headers, each of them once, and so it does without its own scheme. -/
theorem generate_keyHeaders_repeated :
    let d := repeated.finish repeated.merged.document
    repeated.description.keyHeaders ≠ [] ∧ repeated.generate = .ok d ∧
      d.securityDefinitions.keys = ["x-key", "x-tenant"] ∧
      (∃ p ∈ d.placements, p.path = "/pets" ∧ ∃ requirement,
        p.operation.security = some [requirement] ∧
          requirement.schemes.keys = ["x-key", "x-tenant"]) ∧
      repeated.withoutSecurity.generate = .ok d := by
  intro d
  have hheaders : repeated.description.keyHeaders ≠ [] := List.cons_ne_nil _ _
  have hfailure : repeated.merged.failure = none := Option.isNone_iff_eq_none.mp (by decide +kernel)
  have hgenerate : repeated.generate = .ok d := generate_eq_ok_iff.mpr ⟨hfailure, rfl⟩
  obtain ⟨hkeys, -, -, hrequired, hsame⟩ := generate_keyHeaders hheaders hgenerate
  obtain ⟨p, hp, hpath, hslot⟩ : ∃ p ∈ d.placements, p.path = "/pets" ∧
      ∃ q ∈ repeated.description.placements, q.path = p.path ∧ q.method = p.method := by
    decide +kernel
  obtain ⟨requirement, hsecurity, hnames, -⟩ := hrequired p hp hslot
  have hlisted : d.securityDefinitions.keys = ["x-key", "x-tenant"] := hkeys.trans (by decide)
  exact ⟨hheaders, hgenerate, hlisted, ⟨p, hp, hpath, requirement, hsecurity, hnames.trans hlisted⟩,
    hsame _ rfl⟩

end Generator

end ServiceDocs
