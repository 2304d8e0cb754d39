import ServiceDocs.Document.Basic
import ServiceDocs.Service.Event

/-!
# Service Descriptions

The description of a service names it, says in which stage it runs and lists its functions
with their events. A block of settings under `custom.autoswagger` controls its
documentation. Everything else in a description is ignored.

## Main definitions

* `ServiceDescription`: the descriptions.
* `Settings`: the settings of the documentation.
* `ServiceDescription.codec`: reading and writing.
-/

namespace ServiceDocs

/-- The kind of event that documentation functions are attached to. -/
inductive ApiType where
  /-- Plain request events. -/
  | http
  /-- Request events of the newer gateway. -/
  | httpApi
  deriving DecidableEq, Repr

/-- The name of a kind of event. -/
def ApiType.name : ApiType → String
  | .http => "http"
  | .httpApi => "httpApi"

/-- The codec of kinds of event. -/
def ApiType.codec : Codec ApiType := .choice [("http", .http), ("httpApi", .httpApi)] name

/-- The settings of the documentation. -/
structure Settings where
  /-- The kind of event that documentation functions are attached to. -/
  apiType : ApiType := .httpApi
  /-- The headers that hold keys. -/
  apiKeyHeaders : List String := []
  /-- The files with partial documents. -/
  swaggerFiles : List String := []
  /-- Whether a deployment generates the document. -/
  generateSwaggerOnDeploy : Bool := true
  /-- Whether the paths of documentation functions begin with the stage. -/
  useStage : Bool := false
  /-- The path of the viewer page. -/
  swaggerPath : String := "swagger"
  /-- The path below which the interface is served. -/
  basePath : Option String := none
  /-- The host that serves the interface. -/
  host : Option String := none
  /-- The protocols. -/
  schemes : Option (List Scheme) := none
  /-- The title of the document. -/
  title : Option String := none
  /-- The description of the document. -/
  description : Option String := none
  /-- The version of the document. -/
  version : Option String := none
  /-- The stages without documentation. -/
  excludeStages : List String := []
  /-- What guards the documentation functions. -/
  lambdaAuthorizer : Option Json := none
  /-- Whether there is a page that an authorisation returns to. -/
  useRedirectUI : Bool := false

/-- The fields of the settings. -/
def Settings.record : Record Settings where
  name := "AutoSwaggerConfig"
  blank := {}
  fields := [
    .plain "apiType" .defaulted ApiType.codec (·.apiType) (fun v s => { s with apiType := v }),
    .plain "apiKeyHeaders" .defaulted (.list .string) (·.apiKeyHeaders)
      (fun v s => { s with apiKeyHeaders := v }),
    .plain "swaggerFiles" .defaulted (.list .path) (·.swaggerFiles)
      (fun v s => { s with swaggerFiles := v }),
    .plain "generateSwaggerOnDeploy" .defaulted .bool (·.generateSwaggerOnDeploy)
      (fun v s => { s with generateSwaggerOnDeploy := v }),
    .plain "useStage" .defaulted .bool (·.useStage) (fun v s => { s with useStage := v }),
    .plain "swaggerPath" .defaulted .string (·.swaggerPath)
      (fun v s => { s with swaggerPath := v }),
    .shown "basePath" .defaulted .string (·.basePath) (fun v s => { s with basePath := v }),
    .shown "host" .defaulted .string (·.host) (fun v s => { s with host := v }),
    .shown "schemes" .defaulted (.list Scheme.codec) (·.schemes)
      (fun v s => { s with schemes := v }),
    .shown "title" .defaulted .string (·.title) (fun v s => { s with title := v }),
    .shown "description" .defaulted .string (·.description)
      (fun v s => { s with description := v }),
    .shown "version" .defaulted .string (·.version) (fun v s => { s with version := v }),
    .plain "excludeStages" .defaulted (.list .string) (·.excludeStages)
      (fun v s => { s with excludeStages := v }),
    .shown "lambdaAuthorizer" .defaulted .json (·.lambdaAuthorizer)
      (fun v s => { s with lambdaAuthorizer := v }),
    .plain "useRedirectUI" .defaulted .bool (·.useRedirectUI)
      (fun v s => { s with useRedirectUI := v })]

/-- The codec of the settings. -/
def Settings.codec : Codec Settings := record.codec

/-- An event of a function. One that is no request has neither member. -/
structure FunctionEvent where
  /-- A plain request event. -/
  http : Option EventForm := none
  /-- A request event of the newer gateway. -/
  httpApi : Option EventForm := none
  deriving DecidableEq, Repr

/-- The fields of an event of a function. -/
def FunctionEvent.record : Record FunctionEvent where
  name := "FunctionEvent"
  blank := {}
  fields := [
    .hidden "http" .defaulted EventForm.codec (·.http) (fun v e => { e with http := v }),
    .hidden "httpApi" .defaulted EventForm.codec (·.httpApi) (fun v e => { e with httpApi := v })]

/-- The request event of a function event. A plain one counts before the other. -/
def FunctionEvent.form? (e : FunctionEvent) : Option EventForm := e.http.or e.httpApi

/-- The request event of a function event, at length. -/
def FunctionEvent.event? (e : FunctionEvent) : Option HttpEvent := e.form?.bind (·.event?)

/-- A function of a service. -/
structure ServiceFunction where
  /-- What handles its events. -/
  handler : Option String := none
  /-- Its events. -/
  events : List FunctionEvent := []
  deriving DecidableEq, Repr

/-- The fields of a function. -/
def ServiceFunction.record : Record ServiceFunction where
  name := "FunctionConfig"
  blank := {}
  fields := [
    .shown "handler" .defaulted .string (·.handler) (fun v f => { f with handler := v }),
    .plain "events" .defaulted (.list FunctionEvent.record.codec) (·.events)
      (fun v f => { f with events := v })]

/-- The codec of functions. -/
def ServiceFunction.codec : Codec ServiceFunction := record.codec

/-- The name of a service, given alone or in an object. -/
inductive ServiceName where
  /-- The name alone. -/
  | name (text : String)
  /-- The name in an object. -/
  | detailed (text : String)
  deriving DecidableEq, Repr

namespace ServiceName

/-- The fields of an object that names a service. -/
def record : Record String where
  name := "ServiceName"
  blank := ""
  fields := [.plain "name" .required .string id (fun v _ => v)]
  listed := false

/-- The codec of service names. -/
def codec : Codec ServiceName where
  read := .oneOf "ServiceName"
    [Reader.map .name Codec.string.read, Reader.map .detailed record.read]
  write
    | .name text => .string text
    | .detailed text => record.write text

/-- The name itself. -/
def text : ServiceName → String
  | .name text => text
  | .detailed text => text

end ServiceName

/-- Where a service runs. -/
structure Provider where
  /-- The name of the provider. -/
  name : String := ""
  /-- What its functions are run by. -/
  runtime : Option String := none
  /-- The stage. -/
  stage : Option String := none
  deriving DecidableEq, Repr

/-- The fields of a provider. -/
def Provider.record : Record Provider where
  name := "Provider"
  blank := {}
  fields := [
    .plain "name" .defaulted .string (·.name) (fun v p => { p with name := v }),
    .shown "runtime" .defaulted .string (·.runtime) (fun v p => { p with runtime := v }),
    .shown "stage" .defaulted .string (·.stage) (fun v p => { p with stage := v })]

/-- The custom block of a description. -/
structure Custom where
  /-- The settings of the documentation. -/
  autoswagger : Settings := {}

/-- The fields of a custom block. -/
def Custom.record : Record Custom where
  name := "Custom"
  blank := {}
  fields := [
    .plain "autoswagger" .defaulted Settings.codec (·.autoswagger)
      (fun v c => { c with autoswagger := v })]

/-- The description of a service. -/
structure ServiceDescription where
  /-- Its name. -/
  service : ServiceName := .name ""
  /-- Where it runs. -/
  provider : Provider := {}
  /-- Its functions by name. -/
  functions : OrderedMap ServiceFunction := .empty
  /-- Its custom block. -/
  custom : Custom := {}

namespace ServiceDescription

/-- The fields of a description. -/
def record : Record ServiceDescription where
  name := "ServerlessConfig"
  blank := {}
  fields := [
    .plain "service" .defaulted ServiceName.codec (·.service)
      (fun v d => { d with service := v }),
    .plain "provider" .defaulted Provider.record.codec (·.provider)
      (fun v d => { d with provider := v }),
    .plain "functions" .defaulted (.map ServiceFunction.codec) (·.functions)
      (fun v d => { d with functions := v }),
    .plain "custom" .defaulted Custom.record.codec (·.custom)
      (fun v d => { d with custom := v })]

/-- The codec of descriptions. -/
def codec : Codec ServiceDescription := record.codec

/-- Reads a description from JSON text. -/
def ofJsonText (text : String) : Except Fault ServiceDescription :=
  codec.ofText (JsonText.tree text)

/-- The description with another stage. -/
def withStage (stage : String) (d : ServiceDescription) : ServiceDescription :=
  { d with provider := { d.provider with stage := some stage } }

/-- The name of the service. -/
def serviceName (d : ServiceDescription) : String := d.service.text

/-- The stage, unless it is empty. -/
def stage? (d : ServiceDescription) : Option String :=
  d.provider.stage.filter fun stage => !stage.isEmpty

/-- The settings of the documentation. -/
def settings (d : ServiceDescription) : Settings := d.custom.autoswagger

end ServiceDescription

end ServiceDocs
