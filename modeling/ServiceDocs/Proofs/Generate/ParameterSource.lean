import ServiceDocs.Generate.Parameters

/-!
# Where Parameters Come From

An event gives its parameters in five ways: a body, declared path parameters, placeholders of the
path that are not declared, and for headers and queries either settings made for the documentation
or flags of the request settings. Every parameter of the event is made in one of these ways, so
what all of them share is proved once for each way.

## Main definitions

* `HttpEvent.settings?`, `HttpEvent.flags?`: what an event gives for a location.
* `HttpEvent.Gives`: the ways in which an event gives a parameter.

## Main results

* `HttpEvent.mem_parameters_iff`: the parameters of an event are those that it gives.
-/

namespace ServiceDocs

/-- The parameters of a map are made of its entries. -/
theorem mem_parametersOf_iff {α : Type} {parameter : String → α → Parameter} {map : OrderedMap α}
    {p : Parameter} :
    p ∈ parametersOf parameter map ↔ ∃ name a, (name, a) ∈ map.entries ∧ p = parameter name a := by
  simp only [parametersOf, List.mem_map, Prod.exists, eq_comm]

/-- The flags count only where there are no settings. -/
theorem mem_configuredParameters_iff {location : ParameterLocation}
    {settings : Option (OrderedMap ParameterSettings)} {flags : Option (OrderedMap RequestFlag)}
    {p : Parameter} :
    p ∈ configuredParameters location settings flags ↔
      (∃ map, settings = some map ∧ p ∈ parametersOf (ParameterSettings.parameter location) map) ∨
        (settings = none ∧
          ∃ map, flags = some map ∧ p ∈ parametersOf (RequestFlag.parameter location) map) := by
  cases settings with
  | some settings => simp [configuredParameters]
  | none => cases flags <;> simp [configuredParameters, parametersOf, OrderedMap.empty]

namespace HttpEvent

/-- The settings made for the documentation of a location. -/
def settings? (e : HttpEvent) : ParameterLocation → Option (OrderedMap ParameterSettings)
  | .header => e.headerParameters
  | .query => e.queryStringParameters
  | .body | .path | .formData => none

/-- The flags of the request settings for a location. -/
def flags? (e : HttpEvent) : ParameterLocation → Option (OrderedMap RequestFlag)
  | .header => (e.request.bind (·.parameters)).bind (·.headers)
  | .query => (e.request.bind (·.parameters)).bind (·.querystrings)
  | .body | .path | .formData => none

/-- The ways in which an event gives a parameter. -/
inductive Gives (e : HttpEvent) : Parameter → Prop
  /-- The body. -/
  | body {type : String} (h : e.bodyType = some type) : Gives e (.body type)
  /-- A declared path parameter. -/
  | declared {name : String} {flag : PathFlag} (h : (name, flag) ∈ e.declaredPaths.entries) :
      Gives e (flag.parameter name)
  /-- A placeholder that is not declared. -/
  | placeholder {name : String} (h : name ∈ e.undeclaredPlaceholders) :
      Gives e (placeholderParameter name)
  /-- Settings made for the documentation. -/
  | settings (location : ParameterLocation) {map : OrderedMap ParameterSettings} {name : String}
      {settings : ParameterSettings} (hmap : e.settings? location = some map)
      (h : (name, settings) ∈ map.entries) : Gives e (settings.parameter location name)
  /-- A flag, if there are no settings for its location. -/
  | flag (location : ParameterLocation) {map : OrderedMap RequestFlag} {name : String}
      {flag : RequestFlag} (hnone : e.settings? location = none)
      (hmap : e.flags? location = some map) (h : (name, flag) ∈ map.entries) :
      Gives e (flag.parameter location name)

variable {e : HttpEvent} {p : Parameter}

/-- The body is documented exactly if the event names its type. -/
theorem mem_bodyParameters_iff :
    p ∈ e.bodyParameters ↔ ∃ type, e.bodyType = some type ∧ p = .body type := by
  rw [bodyParameters]
  cases e.bodyType <;> simp

/-- A path parameter is declared or a name between braces that is not declared. -/
theorem mem_pathParameters_iff :
    p ∈ e.pathParameters ↔
      (∃ name flag, (name, flag) ∈ e.declaredPaths.entries ∧ p = flag.parameter name) ∨
        ∃ name ∈ e.undeclaredPlaceholders, p = placeholderParameter name := by
  simp only [pathParameters, List.mem_append, mem_parametersOf_iff, List.mem_map, eq_comm]

/-- What is configured for a location is given. -/
theorem gives_of_mem_configuredParameters (location : ParameterLocation)
    (h : p ∈ configuredParameters location (e.settings? location) (e.flags? location)) :
    e.Gives p := by
  rcases mem_configuredParameters_iff.mp h with ⟨map, hmap, hp⟩ | ⟨hnone, map, hmap, hp⟩
  · obtain ⟨name, settings, hentry, rfl⟩ := mem_parametersOf_iff.mp hp
    exact .settings location hmap hentry
  · obtain ⟨name, flag, hentry, rfl⟩ := mem_parametersOf_iff.mp hp
    exact .flag location hnone hmap hentry

/-- What is configured for a location is a parameter of the event. -/
theorem mem_parameters_of_mem_configuredParameters {location : ParameterLocation}
    (h : p ∈ configuredParameters location (e.settings? location) (e.flags? location)) :
    p ∈ e.parameters := by
  cases location with
  | header => exact List.mem_append_left _ (List.mem_append_right _ h)
  | query => exact List.mem_append_right _ h
  | body | path | formData => exact nomatch h

/-- The parameters of an event are those that it gives. -/
theorem mem_parameters_iff : p ∈ e.parameters ↔ e.Gives p := by
  constructor
  · intro h
    rw [parameters, List.mem_append, List.mem_append, List.mem_append] at h
    rcases h with ((h | h) | h) | h
    · obtain ⟨type, htype, rfl⟩ := mem_bodyParameters_iff.mp h
      exact .body htype
    · rcases mem_pathParameters_iff.mp h with ⟨name, flag, hflag, rfl⟩ | ⟨name, hname, rfl⟩
      · exact .declared hflag
      · exact .placeholder hname
    · exact gives_of_mem_configuredParameters .header h
    · exact gives_of_mem_configuredParameters .query h
  · intro h
    have hpath : ∀ {p}, p ∈ e.pathParameters → p ∈ e.parameters := fun hp =>
      List.mem_append_left _ (List.mem_append_left _ (List.mem_append_right _ hp))
    cases h with
    | body h =>
        exact List.mem_append_left _ (List.mem_append_left _ (List.mem_append_left _
          (mem_bodyParameters_iff.mpr ⟨_, h, rfl⟩)))
    | declared h => exact hpath (mem_pathParameters_iff.mpr (.inl ⟨_, _, h, rfl⟩))
    | placeholder h => exact hpath (mem_pathParameters_iff.mpr (.inr ⟨_, h, rfl⟩))
    | settings location hmap h =>
        exact mem_parameters_of_mem_configuredParameters (mem_configuredParameters_iff.mpr
          (.inl ⟨_, hmap, mem_parametersOf_iff.mpr ⟨_, _, h, rfl⟩⟩))
    | flag location hnone hmap h =>
        exact mem_parameters_of_mem_configuredParameters (mem_configuredParameters_iff.mpr
          (.inr ⟨hnone, _, hmap, mem_parametersOf_iff.mpr ⟨_, _, h, rfl⟩⟩))

end HttpEvent

end ServiceDocs
