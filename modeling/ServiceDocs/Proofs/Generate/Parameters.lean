import Mathlib.Data.List.Count
import ServiceDocs.Proofs.OrderedMap
import ServiceDocs.Proofs.Service.Maps

/-!
# Parameters Stand Once

A parameter is known by its name and its location, so no two of an operation may share both. What
an event declares is given in maps, one for each location, and a placeholder of the path that is
declared gives no parameter of its own. A placeholder that is not declared gives one wherever it
stands in the path. So a name and a location are shared exactly if the path repeats a placeholder
that is not declared.

## Main definitions

* `Parameter.slot`: what a parameter is known by.
* `HttpEvent.parameterNames`: the names of the parameters of a location.

## Main results

* `HttpEvent.slots_parameters`: the names and locations of the parameters of an event, in order.
* `HttpEvent.count_slots`: how often a name and a location stand.
* `HttpEvent.nodup_slots`: when no two parameters share both.
-/

namespace ServiceDocs

/-- What a parameter is known by: its name and its location. -/
def Parameter.slot (p : Parameter) : String × ParameterLocation := (p.name, p.location)

/-- The names that are configured for a location: those made for the documentation if there is a
map of them, otherwise the declared ones. -/
def configuredNames (settings : Option (OrderedMap ParameterSettings))
    (declared : Option (OrderedMap RequestFlag)) : List String :=
  match settings with
  | some settings => settings.keys
  | none => (declared.getD .empty).keys

/-- The names of the parameters of a location, in order. -/
def HttpEvent.parameterNames (e : HttpEvent) : ParameterLocation → List String
  | .body => e.bodyType.toList.map fun _ => "body"
  | .path => e.declaredPaths.keys ++ e.undeclaredPlaceholders
  | .header => configuredNames e.headerParameters (e.requestParameters.bind (·.headers))
  | .query => configuredNames e.queryStringParameters (e.requestParameters.bind (·.querystrings))
  | .formData => []

/-! ### Names by location -/

/-- A declared path parameter is found under its name in the path. -/
theorem PathFlag.slot_parameter (name : String) (flag : PathFlag) :
    (flag.parameter name).slot = (name, .path) := by
  cases flag <;> rfl

/-- A parameter with settings is found under its name in its location. -/
theorem ParameterSettings.slot_parameter (location : ParameterLocation) (name : String)
    (settings : ParameterSettings) :
    (settings.parameter location name).slot = (name, location) := by
  rw [parameter]
  split <;> rfl

/-- The parameters of a map have its keys as names. -/
theorem map_slot_parametersOf {α : Type} {parameter : String → α → Parameter}
    {location : ParameterLocation} (h : ∀ name a, (parameter name a).slot = (name, location))
    (map : OrderedMap α) :
    (parametersOf parameter map).map Parameter.slot = map.keys.map (·, location) := by
  simp only [parametersOf, OrderedMap.keys, List.map_map, Function.comp_def, h]

/-- The parameters of a location are found under the configured names. -/
theorem map_slot_configuredParameters (location : ParameterLocation)
    (settings : Option (OrderedMap ParameterSettings))
    (declared : Option (OrderedMap RequestFlag)) :
    (configuredParameters location settings declared).map Parameter.slot =
      (configuredNames settings declared).map (·, location) := by
  cases settings with
  | some settings =>
    exact map_slot_parametersOf (ParameterSettings.slot_parameter location) settings
  | none => exact map_slot_parametersOf (fun _ _ => rfl) (declared.getD .empty)

namespace HttpEvent

/-- The names and locations of the parameters of an event, in order. -/
theorem slots_parameters (e : HttpEvent) :
    e.parameters.map Parameter.slot =
      [.body, .path, .header, .query].flatMap fun location =>
        (e.parameterNames location).map (·, location) := by
  have hbody : e.bodyParameters.map Parameter.slot = (e.parameterNames .body).map (·, .body) := by
    rw [bodyParameters, parameterNames]
    cases e.bodyType <;> rfl
  have hpath : e.pathParameters.map Parameter.slot = (e.parameterNames .path).map (·, .path) := by
    rw [pathParameters, parameterNames, List.map_append, List.map_append, List.map_map,
      map_slot_parametersOf PathFlag.slot_parameter]
    rfl
  simp only [parameters, List.map_append, hbody, hpath, map_slot_configuredParameters,
    List.flatMap_cons, List.flatMap_nil, List.append_nil, List.append_assoc]
  rfl

/-- A name and a location stand as often as the name among those of the location. -/
theorem count_slots (e : HttpEvent) (name : String) (location : ParameterLocation) :
    (e.parameters.map Parameter.slot).count (name, location) =
      (e.parameterNames location).count name := by
  have hhere : ∀ names : List String, (names.map (·, location)).count (name, location) =
      names.count name := fun names =>
    List.count_map_of_injective names (·, location) (fun _ _ h => (Prod.mk.inj h).1) name
  have hother : ∀ other ≠ location, ∀ names : List String,
      (names.map (·, other)).count (name, location) = 0 := by
    intro other hne names
    refine List.count_eq_zero_of_not_mem fun hmem => hne ?_
    obtain ⟨_, -, h⟩ := List.mem_map.mp hmem
    exact (Prod.mk.inj h).2
  have hform : e.parameterNames .formData = [] := rfl
  rw [slots_parameters]
  simp only [List.flatMap_cons, List.flatMap_nil, List.append_nil, List.count_append]
  cases location <;> simp [hhere, hother, hform]

/-! ### Maps and placeholders -/

variable {e : HttpEvent}

/-- The maps of the request settings of an event have distinct keys. -/
theorem MapsDistinct.requestParameters (h : e.MapsDistinct) :
    ∀ p ∈ e.requestParameters, p.MapsDistinct := by
  intro p hp
  obtain ⟨settings, hsettings, hp⟩ := Option.bind_eq_some_iff.mp hp
  exact h.request settings hsettings p hp

/-- The declared path parameters of an event have distinct names. -/
theorem MapsDistinct.declaredPaths (h : e.MapsDistinct) : e.declaredPaths.Distinct := by
  rw [HttpEvent.declaredPaths]
  cases hpaths : e.requestParameters.bind (·.paths) with
  | none => exact OrderedMap.distinct_empty
  | some map =>
      obtain ⟨p, hp, hmap⟩ := Option.bind_eq_some_iff.mp hpaths
      exact (h.requestParameters p hp).paths map hmap

/-- The configured names of a location stand once. -/
theorem nodup_configuredNames {settings : Option (OrderedMap ParameterSettings)}
    {flags : RequestParameters → Option (OrderedMap RequestFlag)}
    {declared : Option RequestParameters}
    (hsettings : ∀ map ∈ settings, map.Distinct)
    (hdeclared : ∀ p ∈ declared, ∀ map ∈ flags p, map.Distinct) :
    (configuredNames settings (declared.bind flags)).Nodup := by
  cases settings with
  | some settings => exact hsettings settings rfl
  | none =>
      rw [configuredNames]
      cases hflags : declared.bind flags with
      | none => exact List.nodup_nil
      | some map =>
          obtain ⟨p, hp, hmap⟩ := Option.bind_eq_some_iff.mp hflags
          exact hdeclared p hp map hmap

/-- Of any other location than the path, no name stands twice. -/
theorem MapsDistinct.nodup_parameterNames (h : e.MapsDistinct) {location : ParameterLocation}
    (hlocation : location ≠ .path) : (e.parameterNames location).Nodup := by
  cases location with
  | path => exact absurd rfl hlocation
  | body =>
      rw [parameterNames]
      cases e.bodyType with
      | none => exact List.nodup_nil
      | some type => exact List.nodup_singleton "body"
  | header =>
      exact nodup_configuredNames h.headerParameters fun p hp => (h.requestParameters p hp).headers
  | query =>
      exact nodup_configuredNames h.queryStringParameters fun p hp =>
        (h.requestParameters p hp).querystrings
  | formData => exact List.nodup_nil

/-- A declared name stands once among those of the path, any other one as often as in the path. -/
theorem MapsDistinct.count_parameterNames (h : e.MapsDistinct) (name : String) :
    (e.parameterNames .path).count name =
      if e.declaredPaths.contains name then 1 else (placeholders e.path).count name := by
  have hmem : e.declaredPaths.contains name = true ↔ name ∈ e.declaredPaths.keys := by
    rw [OrderedMap.contains, Option.isSome_iff_ne_none, Ne, OrderedMap.get?_eq_none_iff, not_not]
  rw [parameterNames, List.count_append, undeclaredPlaceholders]
  split
  · next hdeclared =>
      rw [List.count_eq_one_of_mem h.declaredPaths (hmem.mp hdeclared),
        List.count_eq_zero_of_not_mem (by simp [hdeclared])]
  · next hundeclared =>
      rw [List.count_eq_zero_of_not_mem (fun hin => hundeclared (hmem.mpr hin)),
        List.count_filter (by simpa using hundeclared), Nat.zero_add]

/-- In an event whose maps are maps, a declared path parameter stands once, any other placeholder
as often as in the path, and a name of another location at most once. So no two parameters share
their name and their location exactly if no placeholder stands twice in the path without being
declared. An event of a description that is read has such maps. -/
theorem nodup_slots (e : HttpEvent) :
    (e.MapsDistinct →
      (∀ name, (e.parameters.map Parameter.slot).count (name, .path) =
        if e.declaredPaths.contains name then 1 else (placeholders e.path).count name) ∧
      (∀ name, ∀ location ≠ .path,
        (e.parameters.map Parameter.slot).count (name, location) ≤ 1) ∧
      ((e.parameters.map Parameter.slot).Nodup ↔
        ∀ name, e.declaredPaths.contains name = false → (placeholders e.path).count name ≤ 1)) ∧
    ∀ (d : ServiceDescription) (text : String),
      ServiceDescription.ofJsonText text = .ok d ∨ ServiceDescription.ofYamlText text = .ok d →
      ∀ function, (function, e) ∈ d.requests → e.MapsDistinct := by
  refine ⟨fun h => ?_, ?_⟩
  · have hpath := fun name => (e.count_slots name .path).trans (h.count_parameterNames name)
    have hother : ∀ name, ∀ location ≠ .path,
        (e.parameters.map Parameter.slot).count (name, location) ≤ 1 := by
      intro name location hlocation
      rw [count_slots]
      exact List.nodup_iff_count_le_one.mp (h.nodup_parameterNames hlocation) name
    refine ⟨hpath, hother, List.nodup_iff_count_le_one.trans ⟨fun hnodup name hname => ?_, ?_⟩⟩
    · have hcount := hnodup (name, .path)
      rwa [hpath, if_neg (by simp [hname])] at hcount
    · rintro honce ⟨name, location⟩
      by_cases hlocation : location = .path
      · subst hlocation
        rw [hpath]
        split
        · exact Nat.le_refl 1
        · next hname => exact honce name (by simpa using hname)
      · exact hother name location hlocation
  · rintro d text (h | h) function hrequest
    · exact ServiceDescription.mapsDistinct_of_ofJsonText h _ hrequest
    · exact ServiceDescription.mapsDistinct_of_ofYamlText h _ hrequest

/-- An event whose path repeats a placeholder that it declares. -/
def declaring : HttpEvent where
  method := "get"
  path := "/pets/\x7bid\x7d/toys/\x7btoy\x7d/\x7bid\x7d"
  bodyType := some "Toy"
  request := some { parameters := some { paths := some ⟨[("id", .required true)]⟩ } }

/-- Each of its placeholders gives one parameter. -/
theorem nodup_slots_declaring :
    declaring.MapsDistinct ∧
      (∀ name ∈ placeholders declaring.path,
        (declaring.parameters.map Parameter.slot).count (name, .path) = 1) ∧
      (declaring.parameters.map Parameter.slot).Nodup := by
  have hmaps : declaring.MapsDistinct := by
    refine ⟨nofun, nofun, ?_⟩
    rintro _ ⟨⟩ _ ⟨⟩
    refine ⟨?_, nofun, nofun⟩
    rintro _ ⟨⟩
    exact List.nodup_singleton "id"
  obtain ⟨hpath, -, hnodup⟩ := (nodup_slots declaring).1 hmaps
  have hplaceholders : placeholders declaring.path = ["id", "toy", "id"] := by decide +kernel
  refine ⟨hmaps, fun name hname => (hpath name).trans ?_, hnodup.mpr fun name hname => ?_⟩
  · rw [hplaceholders] at hname
    revert name
    decide +kernel
  · have hne : name ≠ "id" := by
      rintro rfl
      exact absurd hname (by decide)
    rw [hplaceholders, List.count_cons_of_ne hne.symm, List.count_cons,
      List.count_cons_of_ne hne.symm]
    simp only [List.count_nil]
    split <;> omega

/-- A placeholder that is not declared and stands twice gives the same parameter twice. -/
theorem not_nodup_slots_repeated :
    let e : HttpEvent := { method := "get", path := "/pets/\x7bid\x7d/toys/\x7bid\x7d" }
    e.MapsDistinct ∧ (e.parameters.map Parameter.slot).count ("id", .path) = 2 ∧
      ¬(e.parameters.map Parameter.slot).Nodup :=
  ⟨⟨nofun, nofun, nofun⟩, by decide +kernel, by decide +kernel⟩

end HttpEvent

end ServiceDocs
