import ServiceDocs.Document.Parameter
import ServiceDocs.Generate.Placeholder
import ServiceDocs.Service.Event

/-!
# Parameters of an Event

The parameters of an operation come from five places of its event: the body, the declared
path parameters, the placeholders of the path that are not declared, the headers and the
queries. For headers and for queries, the parameters that are made for the documentation
take the place of the declared ones, even if there are none.

## Main definitions

* `HttpEvent.parameters`: the parameters of an event in order.
-/

namespace ServiceDocs

/-- The type of a parameter that has none. -/
def defaultParameterType : String := "string"

/-- The type whose parameters have elements. -/
def listParameterType : String := "array"

/-- The path parameter of a declaration. It must be given unless the declaration says
otherwise. -/
def PathFlag.parameter (name : String) : PathFlag → Parameter
  | .required needed =>
    { name, location := .path, type := some defaultParameterType, required := needed }
  | .detailed needed description =>
    { name, location := .path, type := some defaultParameterType,
      required := needed.getD true, description }

/-- The path parameter of a placeholder without a declaration. -/
def placeholderParameter (name : String) : Parameter :=
  { name, location := .path, type := some defaultParameterType, required := true }

/-- The parameter of settings made for the documentation. A query of a list type names the
type of its elements. -/
def ParameterSettings.parameter (location : ParameterLocation) (name : String)
    (settings : ParameterSettings) : Parameter :=
  let type := settings.type.getD defaultParameterType
  let p : Parameter :=
    { name, location, type := some type, required := settings.required.getD false,
      description := settings.description }
  if location = .query && type == listParameterType then
    { p with items := some { type := settings.arrayItemsType }, collectionFormat := some .multi }
  else p

/-- The parameter of a declared header or query. -/
def RequestFlag.parameter (location : ParameterLocation) (name : String) (flag : RequestFlag) :
    Parameter :=
  { name, location, type := some defaultParameterType, required := flag.isRequired }

/-- One parameter for each entry of a map, in its order. -/
def parametersOf {α : Type} (parameter : String → α → Parameter) (map : OrderedMap α) :
    List Parameter :=
  map.entries.map fun entry => parameter entry.1 entry.2

/-- The parameters of a location: those made for the documentation if there is a map of
them, otherwise the declared ones. -/
def configuredParameters (location : ParameterLocation)
    (settings : Option (OrderedMap ParameterSettings))
    (declared : Option (OrderedMap RequestFlag)) : List Parameter :=
  match settings with
  | some settings => parametersOf (ParameterSettings.parameter location) settings
  | none => parametersOf (RequestFlag.parameter location) (declared.getD .empty)

namespace HttpEvent

/-- The parameter of the body. -/
def bodyParameters (e : HttpEvent) : List Parameter :=
  match e.bodyType with
  | none => []
  | some type => [.body type]

/-- The declared path parameters. -/
def declaredPaths (e : HttpEvent) : OrderedMap PathFlag :=
  (e.requestParameters.bind (·.paths)).getD .empty

/-- The placeholders of the path that are not declared. -/
def undeclaredPlaceholders (e : HttpEvent) : List String :=
  (placeholders e.path).filter fun name => !(e.declaredPaths.contains name)

/-- The path parameters: the declared ones, then the other placeholders. -/
def pathParameters (e : HttpEvent) : List Parameter :=
  parametersOf PathFlag.parameter e.declaredPaths ++
    e.undeclaredPlaceholders.map placeholderParameter

/-- The parameters of an event: body, path, headers and queries. -/
def parameters (e : HttpEvent) : List Parameter :=
  e.bodyParameters ++ e.pathParameters ++
    configuredParameters .header e.headerParameters (e.requestParameters.bind (·.headers)) ++
    configuredParameters .query e.queryStringParameters
      (e.requestParameters.bind (·.querystrings))

end HttpEvent

end ServiceDocs
