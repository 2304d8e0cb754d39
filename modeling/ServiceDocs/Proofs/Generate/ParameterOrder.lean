import ServiceDocs.Proofs.Generate.ParameterSource
import ServiceDocs.Proofs.Generate.Placeholder
import ServiceDocs.Proofs.OrderedMap

/-!
# Order of Parameters

The parameters of an event stand in a fixed order: the body, the declared path parameters, the
names between braces in the path that are not declared, the headers and the queries. For headers and
for queries one map counts as a whole. Settings made for the documentation hide the flags of the
request settings, even if there are no settings in their map.

A parameter must be given as the event says. Where it does not say so, the body and the path must be
given, and a header or a query need not.

## Main definitions

* `Parameter.signature`: the location and the name of a parameter, and whether it must be given.
* `PathFlag.needed?`, `RequestFlag.needed`: what a declaration says of that.
* `HttpEvent.declared`: the path parameters that an event declares.
* `HttpEvent.needs`: what an event says of its headers or of its queries.

## Main results

* `HttpEvent.signatures_parameters`: the parameters of an event, in order.
-/

namespace ServiceDocs

/-- The location and the name of a parameter, and whether it must be given. -/
def Parameter.signature (p : Parameter) : ParameterLocation × String × Bool :=
  (p.location, p.name, p.required)

/-- What a declaration says of whether a path parameter must be given. -/
def PathFlag.needed? : PathFlag → Option Bool
  | .required value => some value
  | .detailed needed _ => needed

/-- What a declaration says of whether a header or a query must be given. -/
def RequestFlag.needed : RequestFlag → Bool
  | .required value => value
  | .mapped needed _ => needed

/-- The path parameters that the request settings of an event declare, in order. -/
def HttpEvent.declared (e : HttpEvent) : List (String × PathFlag) :=
  match (e.request.bind (·.parameters)).bind (·.paths) with
  | some map => map.entries
  | none => []

/-- What an event says of the headers or of the queries, in order: the name of each with whether it
must be given, if this is said. -/
def HttpEvent.needs (e : HttpEvent) (location : ParameterLocation) : List (String × Option Bool) :=
  match e.settings? location, e.flags? location with
  | some map, _ => map.entries.map fun entry => (entry.1, entry.2.required)
  | none, some map => map.entries.map fun entry => (entry.1, some entry.2.needed)
  | none, none => []

/-! ### The parts of an event -/

/-- A declared path parameter must be given unless its declaration says otherwise. -/
theorem PathFlag.signature_parameter (name : String) (flag : PathFlag) :
    (flag.parameter name).signature = (.path, name, flag.needed?.getD true) := by
  cases flag <;> rfl

/-- A parameter with settings need not be given unless they say so. -/
theorem ParameterSettings.signature_parameter (location : ParameterLocation) (name : String)
    (settings : ParameterSettings) :
    (settings.parameter location name).signature =
      (location, name, settings.required.getD false) := by
  rw [parameter]
  split <;> rfl

/-- A parameter with a flag must be given if the flag says so. -/
theorem RequestFlag.signature_parameter (location : ParameterLocation) (name : String)
    (flag : RequestFlag) :
    (flag.parameter location name).signature = (location, name, flag.needed) := by
  cases flag <;> rfl

/-- The signatures of a map are made of its entries. -/
theorem map_signature_parametersOf {α : Type} {parameter : String → α → Parameter}
    {signature : String → α → ParameterLocation × String × Bool}
    (h : ∀ name a, (parameter name a).signature = signature name a) (map : OrderedMap α) :
    (parametersOf parameter map).map Parameter.signature =
      map.entries.map fun entry => signature entry.1 entry.2 := by
  simp only [parametersOf, List.map_map, Function.comp_def, h]

namespace HttpEvent

/-- The body of an event, if it has one, must be given. -/
theorem map_signature_bodyParameters (e : HttpEvent) :
    e.bodyParameters.map Parameter.signature =
      e.bodyType.toList.map fun _ => (.body, "body", true) := by
  rw [bodyParameters]
  cases e.bodyType <;> rfl

/-- The declared path parameters are those of the request settings. -/
theorem entries_declaredPaths (e : HttpEvent) : e.declaredPaths.entries = e.declared := by
  rw [declaredPaths, requestParameters, declared]
  cases (e.request.bind (·.parameters)).bind (·.paths) <;> rfl

/-- A name between braces gives no parameter of its own if it is among the declared names. -/
theorem undeclaredPlaceholders_eq (e : HttpEvent) :
    e.undeclaredPlaceholders = ((List.range e.path.length).filterMap (nameAt? e.path)).filter
      (· ∉ e.declared.map (·.1)) := by
  rw [undeclaredPlaceholders, placeholders_eq_filterMap]
  refine List.filter_congr fun name _ => ?_
  rw [Bool.eq_iff_iff, decide_eq_true_iff, ← entries_declaredPaths,
    ← OrderedMap.findEntry_eq_none_iff, OrderedMap.contains, OrderedMap.get?]
  cases OrderedMap.findEntry name e.declaredPaths.entries <;> simp

/-- The declared path parameters come before the other names between braces. -/
theorem map_signature_pathParameters (e : HttpEvent) :
    e.pathParameters.map Parameter.signature =
      (e.declared.map fun entry => (.path, entry.1, entry.2.needed?.getD true)) ++
        (((List.range e.path.length).filterMap (nameAt? e.path)).filter
          (· ∉ e.declared.map (·.1))).map fun name => (.path, name, true) := by
  rw [pathParameters, List.map_append, map_signature_parametersOf PathFlag.signature_parameter,
    List.map_map, undeclaredPlaceholders_eq, entries_declaredPaths]
  rfl

/-- The headers and the queries must be given only where the event says so. -/
theorem map_signature_configuredParameters (e : HttpEvent) (location : ParameterLocation) :
    (configuredParameters location (e.settings? location) (e.flags? location)).map
        Parameter.signature =
      (e.needs location).map fun need => (location, need.1, need.2.getD false) := by
  rw [needs]
  cases e.settings? location with
  | some settings =>
      rw [configuredParameters,
        map_signature_parametersOf (ParameterSettings.signature_parameter location), List.map_map]
      rfl
  | none =>
      cases e.flags? location with
      | some flags =>
          rw [configuredParameters, Option.getD_some,
            map_signature_parametersOf (RequestFlag.signature_parameter location), List.map_map]
          rfl
      | none => rfl

/-! ### All parameters -/

/-- The parameters of an event, in order: the body, the declared path parameters, the names between
braces in the path that are not declared, the headers and the queries. A path parameter must be
given unless its declaration says otherwise, a header or a query only if the event says so. -/
theorem signatures_parameters (e : HttpEvent) :
    e.parameters.map Parameter.signature =
      (e.bodyType.toList.map fun _ => (.body, "body", true)) ++
      (e.declared.map fun entry => (.path, entry.1, entry.2.needed?.getD true)) ++
      ((((List.range e.path.length).filterMap (nameAt? e.path)).filter
        (· ∉ e.declared.map (·.1))).map fun name => (.path, name, true)) ++
      ((e.needs .header).map fun need => (.header, need.1, need.2.getD false)) ++
      ((e.needs .query).map fun need => (.query, need.1, need.2.getD false)) := by
  have hheaders : (configuredParameters .header e.headerParameters
      (e.requestParameters.bind (·.headers))).map Parameter.signature = _ :=
    e.map_signature_configuredParameters .header
  have hqueries : (configuredParameters .query e.queryStringParameters
      (e.requestParameters.bind (·.querystrings))).map Parameter.signature = _ :=
    e.map_signature_configuredParameters .query
  rw [parameters, List.map_append, List.map_append, List.map_append, map_signature_bodyParameters,
    map_signature_pathParameters, hheaders, hqueries]
  simp only [List.append_assoc]

/-- An empty map of settings hides the headers of the request settings. -/
example :
    ({ path := "/pets/\x7bid\x7d/toys/\x7btoy\x7d", bodyType := some "Toy",
       headerParameters := some .empty,
       request := some { parameters := some {
         paths := some ⟨[("toy", .required false), ("shelf", .detailed none none)]⟩
         headers := some ⟨[("trace", .required true)]⟩
         querystrings := some ⟨[("page", .mapped true none)]⟩ } } } :
        HttpEvent).parameters.map Parameter.signature =
      [(.body, "body", true), (.path, "toy", false), (.path, "shelf", true), (.path, "id", true),
        (.query, "page", true)] := by
  decide +kernel

end HttpEvent

end ServiceDocs
