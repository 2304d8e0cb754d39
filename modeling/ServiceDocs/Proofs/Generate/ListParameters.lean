import ServiceDocs.Proofs.Generate.ParameterSource

/-!
# Elements of List Parameters

A parameter of a list type should say what its elements are. Only settings made for the
documentation can give a list type. Of these, the settings of a query hand the type of the elements
on, if they have one. The settings of a header may have one as well, but it is dropped. So the list
parameters of an event name the types of their elements exactly if none of them is a header and all
of them have one.

## Main definitions

* `Parameter.IsList`, `Parameter.elementType?`: parameters of a list type and their elements.

## Main results

* `ParameterSettings.items_parameter`: the elements of a parameter of a list type.
* `HttpEvent.mem_parameters_and_isList_iff`: where parameters of a list type come from.
* `HttpEvent.elementTypes_parameters`: when they name the types of their elements.
-/

namespace ServiceDocs

namespace Parameter

/-- Whether a parameter has a list type. -/
def IsList (p : Parameter) : Prop := p.type = some listParameterType

/-- The type of the elements of a parameter, if it is named. -/
def elementType? (p : Parameter) : Option String := p.items.bind (·.type)

end Parameter

/-! ### Settings -/

namespace ParameterSettings

variable {location : ParameterLocation} {name : String} {settings : ParameterSettings}

/-- The type of a parameter is the one of its settings, or text. -/
theorem type_parameter :
    (settings.parameter location name).type = some (settings.type.getD defaultParameterType) := by
  rw [parameter]
  split <;> rfl

/-- A type that is not given is no list type. -/
theorem isList_parameter_iff :
    (settings.parameter location name).IsList ↔ settings.type = some listParameterType := by
  rw [Parameter.IsList, type_parameter]
  cases settings.type with
  | none => decide
  | some type => rfl

/-- Only a query of a list type describes its elements. -/
theorem items_parameter (h : settings.type = some listParameterType) :
    (settings.parameter location name).items =
      if location = .query then some { type := settings.arrayItemsType } else none := by
  rw [parameter, h, Option.getD_some]
  by_cases hquery : location = .query <;> simp [hquery]

end ParameterSettings

/-! ### Events -/

namespace HttpEvent

variable {e : HttpEvent}

/-- The parameters of a list type are those of settings of such a type. -/
theorem mem_parameters_and_isList_iff {p : Parameter} :
    p ∈ e.parameters ∧ p.IsList ↔
      ∃ location map name settings, e.settings? location = some map ∧
        (name, settings) ∈ map.entries ∧ settings.type = some listParameterType ∧
          p = settings.parameter location name := by
  have hdefault : some defaultParameterType ≠ some listParameterType := by decide
  constructor
  · rintro ⟨hp, hlist⟩
    cases mem_parameters_iff.mp hp with
    | body h => exact nomatch hlist
    | declared h => next flag => cases flag <;> exact absurd hlist hdefault
    | placeholder h => exact absurd hlist hdefault
    | settings location hmap h =>
        exact ⟨location, _, _, _, hmap, h, ParameterSettings.isList_parameter_iff.mp hlist, rfl⟩
    | flag location hnone hmap h => exact absurd hlist hdefault
  · rintro ⟨location, map, name, settings, hmap, hentry, htype, rfl⟩
    exact ⟨mem_parameters_iff.mpr (.settings location hmap hentry),
      ParameterSettings.isList_parameter_iff.mpr htype⟩

/-- The parameters of a list type are those of settings of such a type, and only a query among them
describes its elements, by the type that its settings give. So all of them name the types of their
elements exactly if no header has a list type and every query of a list type has a type of its
elements. -/
theorem elementTypes_parameters (e : HttpEvent) :
    (∀ p, p ∈ e.parameters ∧ p.IsList ↔
      ∃ location map name settings, e.settings? location = some map ∧
        (name, settings) ∈ map.entries ∧ settings.type = some listParameterType ∧
          p = settings.parameter location name) ∧
      (∀ location name (settings : ParameterSettings), settings.type = some listParameterType →
        (settings.parameter location name).items =
          if location = .query then some { type := settings.arrayItemsType } else none) ∧
      ((∀ p ∈ e.parameters, p.IsList → p.elementType?.isSome) ↔
        (∀ map ∈ e.headerParameters, ∀ entry ∈ map.entries,
          entry.2.type ≠ some listParameterType) ∧
        ∀ map ∈ e.queryStringParameters, ∀ entry ∈ map.entries,
          entry.2.type = some listParameterType → entry.2.arrayItemsType.isSome) := by
  refine ⟨fun _ => mem_parameters_and_isList_iff, fun _ _ _ => ParameterSettings.items_parameter,
    fun h => ?_, ?_⟩
  · have hsettings : ∀ location {map}, e.settings? location = some map → ∀ entry ∈ map.entries,
        entry.2.type = some listParameterType →
          (entry.2.parameter location entry.1).elementType?.isSome := by
      intro location map hmap entry hentry htype
      obtain ⟨hp, hlist⟩ :=
        mem_parameters_and_isList_iff.mpr ⟨_, _, _, _, hmap, hentry, htype, rfl⟩
      exact h _ hp hlist
    constructor
    · intro map hmap entry hentry htype
      have hnamed := hsettings .header hmap entry hentry htype
      rw [Parameter.elementType?, ParameterSettings.items_parameter htype] at hnamed
      exact nomatch hnamed
    · intro map hmap entry hentry htype
      have hnamed := hsettings .query hmap entry hentry htype
      rwa [Parameter.elementType?, ParameterSettings.items_parameter htype] at hnamed
  · rintro ⟨hheaders, hqueries⟩ p hp hlist
    obtain ⟨location, map, name, settings, hmap, hentry, htype, rfl⟩ :=
      mem_parameters_and_isList_iff.mp ⟨hp, hlist⟩
    rw [Parameter.elementType?, ParameterSettings.items_parameter htype]
    cases location with
    | header => exact absurd htype (hheaders map hmap _ hentry)
    | query => exact hqueries map hmap _ hentry htype
    | body | path | formData => exact nomatch hmap

/-- An event with headers and queries, of which only the query has a list type. -/
def listing : HttpEvent where
  method := "get"
  path := "/pets/\x7bid\x7d"
  headerParameters := some ⟨[("trace", { arrayItemsType := some "string" })]⟩
  queryStringParameters := some ⟨[("page", { type := some "integer" }),
    ("ids", { type := some listParameterType, arrayItemsType := some "integer" })]⟩

/-- Its query is a list of integers. -/
theorem elementTypes_parameters_listing :
    ∃ p ∈ listing.parameters, p.IsList ∧ p.elementType? = some "integer" ∧
      ∀ q ∈ listing.parameters, q.IsList → q.elementType?.isSome := by
  obtain ⟨hlists, hitems, hnamed⟩ := elementTypes_parameters listing
  obtain ⟨hp, hlist⟩ := (hlists _).mpr
    ⟨.query, _, "ids", _, rfl, List.mem_cons_of_mem _ List.mem_cons_self, rfl, rfl⟩
  refine ⟨_, hp, hlist, ?_, hnamed.mpr ⟨?_, ?_⟩⟩
  · rw [Parameter.elementType?, hitems _ _ _ rfl]
    rfl
  · rintro _ ⟨⟩
    decide
  · rintro _ ⟨⟩
    decide

/-- A header of a list type drops the type of its elements, and a query without one describes its
elements without a type. -/
theorem not_elementTypes_parameters :
    let header : ParameterSettings :=
      { type := some listParameterType, arrayItemsType := some "string" }
    let query : ParameterSettings := { type := some listParameterType }
    let e : HttpEvent :=
      { method := "get", path := "/pets", headerParameters := some ⟨[("ids", header)]⟩,
        queryStringParameters := some ⟨[("ids", query)]⟩ }
    (header.parameter .header "ids" ∈ e.parameters ∧ (header.parameter .header "ids").IsList ∧
        (header.parameter .header "ids").items = none) ∧
      (query.parameter .query "ids" ∈ e.parameters ∧ (query.parameter .query "ids").IsList ∧
        (query.parameter .query "ids").elementType? = none) :=
  ⟨⟨mem_parameters_iff.mpr (.settings .header rfl (List.mem_singleton.mpr rfl)),
      rfl, rfl⟩,
    mem_parameters_iff.mpr (.settings .query rfl (List.mem_singleton.mpr rfl)),
      rfl, rfl⟩

end HttpEvent

end ServiceDocs
