import ServiceDocs.Reading.Record
import ServiceDocs.Text.Blank

/-!
# Events of a Service

A function of a service is called for events. The events that matter here are requests: a
method and a path, with settings for the documentation. An event is given in short, as a
text like `GET pets`, or at length; so are responses, path parameters and flags of headers
and queries.

## Main definitions

* `HttpEvent`: a request event at length.
* `EventForm`, `EventForm.event?`: an event in either form, and what it stands for.
* `ResponseForm`, `PathFlag`, `RequestFlag`: the other short and long forms.
* `ParameterSettings`: the settings of a header or query parameter.
-/

namespace ServiceDocs

/-! ### Responses -/

/-- A response in the settings of an event. -/
inductive ResponseForm where
  /-- A description alone. -/
  | text (description : String)
  /-- A description and the type of the body, both optional. -/
  | detailed (description : Option String) (bodyType : Option String)
  deriving DecidableEq, Repr

namespace ResponseForm

/-- The parts of a detailed response. -/
structure Detail where
  /-- The description. -/
  description : Option String := none
  /-- The type of the body. -/
  bodyType : Option String := none

/-- The fields of a detailed response. -/
def Detail.record : Record Detail where
  name := "HttpResponse"
  blank := {}
  fields := [
    .shown "description" .defaulted .string (·.description)
      (fun v d => { d with description := v }),
    .shown "bodyType" .defaulted .string (·.bodyType) (fun v d => { d with bodyType := v })]
  listed := false

/-- The codec of responses. -/
def codec : Codec ResponseForm where
  read := .oneOf "HttpResponse"
    [Reader.map .text Codec.string.read,
      Reader.map (fun d => .detailed d.description d.bodyType) Detail.record.read]
  write
    | .text description => .string description
    | .detailed description bodyType => Detail.record.write ⟨description, bodyType⟩

end ResponseForm

/-- The key of a response: a status code as a number or as a text. -/
inductive StatusCode where
  /-- A number. -/
  | number (value : Nat)
  /-- A text. -/
  | text (value : String)
  deriving DecidableEq, Repr

namespace StatusCode

/-- The text of a status code. -/
def render : StatusCode → String
  | .number value => digitsText value
  | .text value => value

/-- Reads a status code. -/
def read (m : Mode) (key : Node) : Except Fault StatusCode := do
  let key ← key.setAside m
  match key with
  | .number (.int code) =>
    if 0 ≤ code then return .number code.toNat else throw (.mismatch (.noForm "StatusCode"))
  | .string code => return .text code
  | .misplaced _ => throw .malformed
  | _ => throw (.mismatch (.noForm "StatusCode"))

end StatusCode

/-- The responses by the texts of their status codes. A number and a text that agree in
writing count as one code here, though not while the responses are read. -/
def responsesByText (entries : List (StatusCode × ResponseForm)) : OrderedMap ResponseForm :=
  .ofList (entries.map fun entry => (entry.1.render, entry.2))

/-- The codec of responses by status code. -/
def responsesCodec : Codec (OrderedMap ResponseForm) where
  read := Reader.map responsesByText (readEntries StatusCode.read ResponseForm.codec.read)
  write := (Codec.map ResponseForm.codec).write

/-! ### Parameters -/

/-- The settings of a header or query parameter. -/
structure ParameterSettings where
  /-- Whether it must be given. -/
  required : Option Bool := none
  /-- Its type. -/
  type : Option String := none
  /-- What it means. -/
  description : Option String := none
  /-- Its least value. -/
  minimum : Option Binary64 := none
  /-- The type of the elements of a list. -/
  arrayItemsType : Option String := none
  deriving DecidableEq, Repr

/-- The fields of the settings. -/
def ParameterSettings.record : Record ParameterSettings where
  name := "ParameterConfig"
  blank := {}
  fields := [
    .shown "required" .defaulted .bool (·.required) (fun v p => { p with required := v }),
    .shown "type" .defaulted .string (·.type) (fun v p => { p with type := v }),
    .shown "description" .defaulted .string (·.description)
      (fun v p => { p with description := v }),
    .shown "minimum" .defaulted .double (·.minimum) (fun v p => { p with minimum := v }),
    .shown "arrayItemsType" .defaulted .string (·.arrayItemsType)
      (fun v p => { p with arrayItemsType := v })]

/-- The codec of the settings. -/
def ParameterSettings.codec : Codec ParameterSettings := record.codec

/-- A declared path parameter. -/
inductive PathFlag where
  /-- Whether it must be given. -/
  | required (value : Bool)
  /-- Whether it must be given, and what it means, both optional. -/
  | detailed (required : Option Bool) (description : Option String)
  deriving DecidableEq, Repr

namespace PathFlag

/-- The parts of a detailed path parameter. -/
structure Detail where
  /-- Whether it must be given. -/
  required : Option Bool := none
  /-- What it means. -/
  description : Option String := none

/-- The fields of a detailed path parameter. -/
def Detail.record : Record Detail where
  name := "PathParameterConfig"
  blank := {}
  fields := [
    .shown "required" .defaulted .bool (·.required) (fun v d => { d with required := v }),
    .shown "description" .defaulted .string (·.description)
      (fun v d => { d with description := v })]
  listed := false

/-- The codec of declared path parameters. -/
def codec : Codec PathFlag where
  read := .oneOf "PathParameterConfig"
    [Reader.map .required readBool,
      Reader.map (fun d => .detailed d.required d.description) Detail.record.read]
  write
    | .required value => .bool value
    | .detailed needed description => Detail.record.write ⟨needed, description⟩

end PathFlag

/-- A declared header or query parameter. -/
inductive RequestFlag where
  /-- Whether it must be given. -/
  | required (value : Bool)
  /-- Whether it must be given, and the value that it is mapped to. -/
  | mapped (required : Bool) (mappedValue : Option String)
  deriving DecidableEq, Repr

namespace RequestFlag

/-- The parts of a mapped parameter. -/
structure Detail where
  /-- Whether it must be given. -/
  required : Bool := false
  /-- The value that it is mapped to. -/
  mappedValue : Option String := none

/-- The fields of a mapped parameter. -/
def Detail.record : Record Detail where
  name := "BuiltinParameter"
  blank := {}
  fields := [
    .plain "required" .required .bool (·.required) (fun v d => { d with required := v }),
    .shown "mappedValue" .defaulted .string (·.mappedValue)
      (fun v d => { d with mappedValue := v })]
  listed := false

/-- The codec of declared header and query parameters. -/
def codec : Codec RequestFlag where
  read := .oneOf "BuiltinParameter"
    [Reader.map .required readBool,
      Reader.map (fun d => .mapped d.required d.mappedValue) Detail.record.read]
  write
    | .required value => .bool value
    | .mapped needed mappedValue => Detail.record.write ⟨needed, mappedValue⟩

/-- Whether the parameter must be given. -/
def isRequired : RequestFlag → Bool
  | .required value => value
  | .mapped needed _ => needed

end RequestFlag

/-- The parameters that the request settings of an event declare. -/
structure RequestParameters where
  /-- Path parameters. -/
  paths : Option (OrderedMap PathFlag) := none
  /-- Headers. -/
  headers : Option (OrderedMap RequestFlag) := none
  /-- Query parameters. -/
  querystrings : Option (OrderedMap RequestFlag) := none
  deriving DecidableEq, Repr

/-- The fields of declared parameters. -/
def RequestParameters.record : Record RequestParameters where
  name := "RequestParameters"
  blank := {}
  fields := [
    .shown "paths" .defaulted (.map PathFlag.codec) (·.paths) (fun v p => { p with paths := v }),
    .shown "headers" .defaulted (.map RequestFlag.codec) (·.headers)
      (fun v p => { p with headers := v }),
    .shown "querystrings" .defaulted (.map RequestFlag.codec) (·.querystrings)
      (fun v p => { p with querystrings := v })]

/-- The request settings of an event. -/
structure RequestSettings where
  /-- The declared parameters. -/
  parameters : Option RequestParameters := none
  deriving DecidableEq, Repr

/-- The fields of request settings. -/
def RequestSettings.record : Record RequestSettings where
  name := "RequestConfig"
  blank := {}
  fields := [
    .shown "parameters" .defaulted RequestParameters.record.codec (·.parameters)
      (fun v r => { r with parameters := v })]

/-! ### Events -/

/-- A request event at length. -/
structure HttpEvent where
  /-- The path. -/
  path : String := ""
  /-- The method. -/
  method : String := ""
  /-- What the operation does, in short. -/
  summary : Option String := none
  /-- What the operation does. -/
  description : Option String := none
  /-- The tags of the operation. -/
  swaggerTags : Option (List String) := none
  /-- The name of the operation. -/
  operationId : Option String := none
  /-- The media types that it takes. -/
  consumes : Option (List String) := none
  /-- The media types that it answers with. -/
  produces : Option (List String) := none
  /-- What it requires. -/
  security : Option (List (OrderedMap (List String))) := none
  /-- Whether it is left out of the document. -/
  exclude : Bool := false
  /-- The type of the body. -/
  bodyType : Option String := none
  /-- The responses. -/
  responseData : Option (OrderedMap ResponseForm) := none
  /-- The responses under another name, which counts only without the first. -/
  responses : Option (OrderedMap ResponseForm) := none
  /-- The headers. -/
  headerParameters : Option (OrderedMap ParameterSettings) := none
  /-- The query parameters. -/
  queryStringParameters : Option (OrderedMap ParameterSettings) := none
  /-- The request settings. -/
  request : Option RequestSettings := none
  deriving DecidableEq, Repr

namespace HttpEvent

/-- The fields of an event. -/
def record : Record HttpEvent where
  name := "HttpEvent"
  blank := {}
  fields := [
    .plain "path" .defaulted .string (·.path) (fun v e => { e with path := v }),
    .plain "method" .defaulted .string (·.method) (fun v e => { e with method := v }),
    .shown "summary" .defaulted .string (·.summary) (fun v e => { e with summary := v }),
    .shown "description" .defaulted .string (·.description)
      (fun v e => { e with description := v }),
    .shown "swaggerTags" .defaulted (.list .string) (·.swaggerTags)
      (fun v e => { e with swaggerTags := v }),
    .shown "operationId" .defaulted .string (·.operationId)
      (fun v e => { e with operationId := v }),
    .shown "consumes" .defaulted (.list .string) (·.consumes)
      (fun v e => { e with consumes := v }),
    .shown "produces" .defaulted (.list .string) (·.produces)
      (fun v e => { e with produces := v }),
    .shown "security" .defaulted (.list (.map (.list .string))) (·.security)
      (fun v e => { e with security := v }),
    .plain "exclude" .defaulted .bool (·.exclude) (fun v e => { e with exclude := v }),
    .shown "bodyType" .defaulted .string (·.bodyType) (fun v e => { e with bodyType := v }),
    .shown "responseData" .defaulted responsesCodec (·.responseData)
      (fun v e => { e with responseData := v }),
    .shown "responses" .defaulted responsesCodec (·.responses)
      (fun v e => { e with responses := v }),
    .shown "headerParameters" .defaulted (.map ParameterSettings.codec) (·.headerParameters)
      (fun v e => { e with headerParameters := v }),
    .shown "queryStringParameters" .defaulted (.map ParameterSettings.codec)
      (·.queryStringParameters) (fun v e => { e with queryStringParameters := v }),
    .shown "request" .defaulted RequestSettings.record.codec (·.request)
      (fun v e => { e with request := v })]

/-- The codec of events. -/
def codec : Codec HttpEvent := record.codec

/-- The parameters that the request settings declare. -/
def requestParameters (e : HttpEvent) : Option RequestParameters :=
  e.request.bind (·.parameters)

end HttpEvent

/-- A request event in either form. -/
inductive EventForm where
  /-- A method and a path in one text. -/
  | shorthand (text : String)
  /-- An event at length. -/
  | detailed (event : HttpEvent)
  deriving DecidableEq, Repr

namespace EventForm

/-- The codec of events in either form. -/
def codec : Codec EventForm where
  read := .oneOf "HttpEventConfig"
    [Reader.map .shorthand Codec.string.read, Reader.map .detailed HttpEvent.codec.read]
  write
    | .shorthand text => .string text
    | .detailed event => HttpEvent.codec.write event

/-- The event that a form stands for. A text that is not exactly a method and a path, such
as the route `*` for everything else, stands for none. -/
def event? : EventForm → Option HttpEvent
  | .detailed event => some event
  | .shorthand text =>
    match Text.words text with
    | [method, path] => some { method, path }
    | _ => none

end EventForm

end ServiceDocs
