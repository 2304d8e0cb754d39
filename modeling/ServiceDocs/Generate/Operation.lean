import ServiceDocs.Document.Operation
import ServiceDocs.Generate.Parameters
import ServiceDocs.Log
import ServiceDocs.Service.Description

/-!
# Operations of a Service

Each request event of a function becomes an operation at a place: its path, with a slash
in front, and its method. An event can be excluded from the documentation, and one with a
method that documents have no place for is passed over.

## Main definitions

* `Placement`: an operation and where it goes.
* `ServiceDescription.placement?`: the operation of an event.
* `ServiceDescription.placements`: the operations of a service in order.
* `ServiceDescription.placementRecords`: what is reported about them.
-/

namespace ServiceDocs

/-! ### Parts of an operation -/

/-- The response of an event that describes none. -/
def defaultStatus : String := "200"

/-- The description of a response that has none. -/
def defaultResponseDescription (status : String) : String := status ++ " response"

/-- A text, unless it is empty. -/
def nonEmpty? (text : Option String) : Option String := text.filter fun t => !t.isEmpty

/-- The response of a form. -/
def ResponseForm.response (status : String) : ResponseForm → Response
  | .text description => { description }
  | .detailed description bodyType =>
    { description := (nonEmpty? description).getD (defaultResponseDescription status),
      schema := bodyType.map Schema.reference }

/-- The responses of an operation. An event without any has one that says nothing. -/
def documentedResponses (forms : Option (OrderedMap ResponseForm)) : OrderedMap Response :=
  match forms with
  | none => ⟨[(defaultStatus, { description := defaultResponseDescription defaultStatus })]⟩
  | some forms => .ofList (forms.entries.map fun entry => (entry.1, entry.2.response entry.1))

/-- The requirement of several schemes at once, each with its scopes. -/
def SecurityRequirement.ofMap (schemes : OrderedMap (List String)) : SecurityRequirement :=
  schemes.entries.foldl (fun r entry => r.withScheme entry.1 entry.2) {}

/-- The requirement of a key in each of the headers. -/
def SecurityRequirement.ofHeaders (headers : List String) : SecurityRequirement :=
  headers.foldl (fun r header => r.withScheme header []) {}

/-- What an operation requires. Key headers go before the settings of the event. -/
def documentedSecurity (headers : List String) (e : HttpEvent) :
    Option (List SecurityRequirement) :=
  if headers.isEmpty then e.security.map fun schemes => schemes.map SecurityRequirement.ofMap
  else some [.ofHeaders headers]

/-! ### Placements -/

/-- An operation and where it goes. -/
structure Placement where
  /-- The path. -/
  path : String
  /-- The method. -/
  method : Method
  /-- The operation. -/
  operation : Operation

namespace HttpEvent

/-- The path of an event, with a slash in front. -/
def documentedPath (e : HttpEvent) : String :=
  if e.path.startsWith "/" then e.path else "/" ++ e.path

/-- The name of an operation that has none: its function, its method and its path. -/
def defaultOperationId (function : String) (method : Method) (e : HttpEvent) : String :=
  function ++ "." ++ method.name ++ "." ++ e.path

/-- The operation of an event. -/
def operation (headers : List String) (function : String) (method : Method) (e : HttpEvent) :
    Operation where
  operationId := some ((nonEmpty? e.operationId).getD (e.defaultOperationId function method))
  summary := some ((nonEmpty? e.summary).getD function)
  description := some (e.description.getD "")
  consumes := some (e.consumes.getD [jsonMediaType])
  produces := some (e.produces.getD [jsonMediaType])
  parameters := some (e.parameters.map .inline)
  responses := (documentedResponses (e.responseData.or e.responses)).mapValues .inline
  tags := e.swaggerTags
  security := documentedSecurity headers e

/-- The operation of an event and where it goes, unless the event is excluded or documents
have no place for its method. -/
def placement? (headers : List String) (function : String) (e : HttpEvent) : Option Placement :=
  if e.exclude then none
  else (Method.ofText? e.method).map fun method =>
    ⟨e.documentedPath, method, e.operation headers function method⟩

/-- What is reported about an event. -/
def placementRecord (function : String) (e : HttpEvent) : LogRecord :=
  if e.exclude then ⟨.debug, "Excluding " ++ e.method ++ " " ++ e.path ++ " from swagger"⟩
  else
    match Method.ofText? e.method with
    | none =>
      ⟨.warn, "Skipping " ++ e.path ++ " event of function " ++ function ++ ": " ++
        unsupportedMethod e.method⟩
    | some method =>
      ⟨.debug, "Adding swagger operation " ++ method.name ++ " " ++ e.documentedPath⟩

end HttpEvent

namespace ServiceDescription

/-- The request events of all functions, each with the name of its function. -/
def requests (d : ServiceDescription) : List (String × HttpEvent) :=
  d.functions.entries.flatMap fun entry =>
    (entry.2.events.filterMap FunctionEvent.event?).map fun e => (entry.1, e)

/-- The headers that hold keys. -/
def keyHeaders (d : ServiceDescription) : List String := d.settings.apiKeyHeaders

/-- The operations of a service and where they go, in order. -/
def placements (d : ServiceDescription) : List Placement :=
  d.requests.filterMap fun request => request.2.placement? d.keyHeaders request.1

/-- What is reported about the events of a service. -/
def placementRecords (d : ServiceDescription) : List LogRecord :=
  d.requests.map fun request => request.2.placementRecord request.1

end ServiceDescription

end ServiceDocs
