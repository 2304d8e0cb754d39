import ServiceDocs.Log
import ServiceDocs.Service.Description

/-!
# Documentation Routes

A deployment adds a function for each documentation endpoint of a service: the viewer page,
the document beside it at the same path with `.json` appended, and, if the settings ask
for it, the page that an authorisation returns to.

## Main definitions

* `RouteKind`, `Route`: the endpoints.
* `Routes.ofDescription`, `Routes.toList`: the endpoints of a service.
* `Route.toFunction`: the definition of the function behind an endpoint.
* `ServiceDescription.shouldDeploy`, `ServiceDescription.generateOnDeploy`: what a
  deployment does.
-/

namespace ServiceDocs

/-- What an endpoint serves. -/
inductive RouteKind where
  /-- The viewer page. -/
  | viewer
  /-- The document. -/
  | document
  /-- The page that an authorisation returns to. -/
  | redirect
  deriving DecidableEq, Repr

namespace RouteKind

/-- The name of a kind. -/
def name : RouteKind → String
  | .viewer => "swaggerUi"
  | .document => "swaggerJson"
  | .redirect => "redirectUri"

/-- The handler of an endpoint. -/
def handler : RouteKind → String
  | .viewer => "swagger/swagger-html.handler"
  | .document => "swagger/swagger-json.handler"
  | .redirect => "swagger/oauth2-redirect-html.handler"

/-- The end of the name of the function behind an endpoint. -/
def functionEnding : RouteKind → String
  | .viewer => "swagger-ui"
  | .document => "swagger-json"
  | .redirect => "swagger-redirect-uri"

end RouteKind

/-- An endpoint. -/
structure Route where
  /-- What it serves. -/
  kind : RouteKind
  /-- The name of the function behind it, if the service and the stage have names. -/
  functionName : Option String := none
  /-- The kind of event that the function is attached to. -/
  apiType : ApiType
  /-- The method. -/
  method : Method := .get
  /-- The path. -/
  path : String
  /-- What guards the endpoint. -/
  authorizer : Option Json := none
  /-- Whether calls are kept out of the logs. -/
  disableLogs : Bool

/-- The endpoints of a service. -/
structure Routes where
  /-- The viewer page. -/
  viewer : Route
  /-- The document. -/
  document : Route
  /-- The page that an authorisation returns to. -/
  redirect : Option Route := none

/-- The definition of the function behind an endpoint. -/
def Route.toFunction (r : Route) : Json :=
  let event := [("method", Json.string r.method.name), ("path", .string r.path)] ++
    (match r.authorizer with
      | none => []
      | some authorizer => [("authorizer", authorizer)])
  let name := match r.functionName with
    | none => []
    | some name => [("name", Json.string name)]
  let logs := if r.disableLogs then [("disableLogs", Json.bool true)] else []
  .object (name ++ ("handler", .string r.kind.handler) :: logs ++
    [("events", .array [.object [(r.apiType.name, .object event)]])])

namespace Routes

/-- The endpoints in order. -/
def toList (r : Routes) : List Route := [r.viewer, r.document] ++ r.redirect.toList

/-- The name of the page that an authorisation returns to. -/
def redirectPage : String := "oauth2-redirect.html"

/-- A path without the slashes in front. -/
def withoutLeadingSlashes (path : String) : String :=
  String.ofList (path.toList.dropWhile (· == '/'))

/-- What stands before the path of every endpoint: the stage, if the settings ask for it. -/
def stagePath (d : ServiceDescription) : String :=
  match d.stage? with
  | some stage => if d.settings.useStage then "/" ++ stage else ""
  | none => ""

/-- The name of the function behind an endpoint. -/
def functionName? (d : ServiceDescription) (kind : RouteKind) : Option String :=
  match d.stage? with
  | some stage =>
    if d.serviceName.isEmpty then none
    else some (d.serviceName ++ "-" ++ stage ++ "-" ++ kind.functionEnding)
  | none => none

/-- The endpoint of a kind at a path below that of the stage. Calls of the page that an
authorisation returns to are logged. -/
def route (d : ServiceDescription) (kind : RouteKind) (path : String) (authorizer : Option Json) :
    Route where
  kind := kind
  functionName := functionName? d kind
  apiType := d.settings.apiType
  path := stagePath d ++ "/" ++ path
  authorizer := authorizer
  disableLogs := kind != .redirect

/-- The endpoints of a service. -/
def ofDescription (d : ServiceDescription) : Routes :=
  let page := withoutLeadingSlashes d.settings.swaggerPath
  { viewer := route d .viewer page d.settings.lambdaAuthorizer,
    document := route d .document (page ++ ".json") d.settings.lambdaAuthorizer,
    redirect := if d.settings.useRedirectUI then some (route d .redirect redirectPage none)
      else none }

end Routes

namespace ServiceDescription

/-- Whether documentation functions are deployed for the stage. -/
def shouldDeploy (d : ServiceDescription) : Bool :=
  match d.stage? with
  | some stage => !(d.settings.excludeStages.contains stage)
  | none => true

/-- What is reported when a deployment leaves the documentation out. -/
def shouldDeployRecords (d : ServiceDescription) : List LogRecord :=
  if d.shouldDeploy then []
  else
    [⟨.info, "Swagger functions will not be deployed for stage " ++ d.stage?.getD "" ++
      ", it is excluded"⟩]

/-- Whether a deployment generates the document. -/
def generateOnDeploy (d : ServiceDescription) : Bool := d.settings.generateSwaggerOnDeploy

end ServiceDescription

end ServiceDocs
