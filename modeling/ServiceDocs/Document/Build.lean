import ServiceDocs.Document.Basic

/-!
# Building Documents

A document can be put together in a program, value by value. Each function here sets one
part of a value and keeps the others; a function that adds to a map replaces the entry
that is there under the same name.

## Main definitions

* `Document.ofInfo`, `Document.withDefinition`, …: documents.
* `Operation.withResponse`, …: operations and paths.
* `Parameter.ofName`, `Response.ofDescription`, …: parameters and responses.
* `Info.ofTitle`, `Contact.withName`, `License.withUrl`, …: descriptive objects.
-/

namespace ServiceDocs

/-! ### Descriptive objects -/

namespace Info

/-- A head with a title and a version. -/
def ofTitle (title version : String) : Info := { title, version }

/-- Sets the description. -/
def withDescription (text : String) (i : Info) : Info := { i with description := some text }

/-- Sets the terms of use. -/
def withTermsOfService (text : String) (i : Info) : Info := { i with termsOfService := some text }

/-- Sets whom to contact. -/
def withContact (contact : Contact) (i : Info) : Info := { i with contact := some contact }

/-- Sets the licence. -/
def withLicense (license : License) (i : Info) : Info := { i with license := some license }

end Info

namespace Contact

/-- Sets the name. -/
def withName (name : String) (c : Contact) : Contact := { c with name := some name }

/-- Sets the mail address. -/
def withEmail (email : String) (c : Contact) : Contact := { c with email := some email }

end Contact

namespace License

/-- A licence with a name. -/
def ofName (name : String) : License := { name }

/-- Sets the address of the text. -/
def withUrl (url : String) (l : License) : License := { l with url := some url }

end License

namespace ExternalDocs

/-- Documentation at an address. -/
def ofUrl (url : String) : ExternalDocs := { url }

/-- Sets the description. -/
def withDescription (text : String) (e : ExternalDocs) : ExternalDocs :=
  { e with description := some text }

end ExternalDocs

namespace Tag

/-- A tag with a name. -/
def ofName (name : String) : Tag := { name }

/-- Sets the description. -/
def withDescription (text : String) (t : Tag) : Tag := { t with description := some text }

/-- Sets the further documentation. -/
def withExternalDocs (docs : ExternalDocs) (t : Tag) : Tag := { t with externalDocs := some docs }

end Tag

/-! ### Security -/

namespace SecurityDefinition

/-- A scheme of a kind. -/
def ofType (type : SecurityType) : SecurityDefinition := { type }

/-- Sets the description. -/
def withDescription (text : String) (s : SecurityDefinition) : SecurityDefinition :=
  { s with description := some text }

end SecurityDefinition

/-! ### Parameters and responses -/

namespace Parameter

/-- An optional parameter with a name and a location. -/
def ofName (name : String) (location : ParameterLocation) : Parameter := { name, location }

/-- Sets the description, or clears it. -/
def withDescription (text : Option String) (p : Parameter) : Parameter :=
  { p with description := text }

/-- Sets whether the parameter must be given. -/
def withRequired (needed : Bool) (p : Parameter) : Parameter := { p with required := needed }

/-- Sets the type. -/
def withType (type : String) (p : Parameter) : Parameter := { p with type := some type }

/-- Sets the schema. -/
def withSchema (schema : Schema) (p : Parameter) : Parameter := { p with schema := some schema }

end Parameter

namespace Response

/-- A response with a description. -/
def ofDescription (description : String) : Response := { description }

/-- Sets the schema of the body. -/
def withSchema (schema : Schema) (r : Response) : Response := { r with schema := some schema }

end Response

/-! ### Operations and paths -/

namespace Operation

/-- Sets the tags. -/
def withTags (tags : List String) (o : Operation) : Operation := { o with tags := some tags }

/-- Sets what the operation does, in short. -/
def withSummary (text : String) (o : Operation) : Operation := { o with summary := some text }

/-- Sets what the operation does. -/
def withDescription (text : String) (o : Operation) : Operation :=
  { o with description := some text }

/-- Sets the media types that the operation takes. -/
def withConsumes (types : List String) (o : Operation) : Operation :=
  { o with consumes := some types }

/-- Sets the media types that the operation answers with. -/
def withProduces (types : List String) (o : Operation) : Operation :=
  { o with produces := some types }

/-- Sets the parameters. -/
def withParameters (parameters : List (RefOr Parameter)) (o : Operation) : Operation :=
  { o with parameters := some parameters }

/-- Sets the response of a status code. -/
def withResponse (status : String) (response : RefOr Response) (o : Operation) : Operation :=
  { o with responses := o.responses.insert status response }

/-- Sets the responses. -/
def withResponses (responses : List (String × Response)) (o : Operation) : Operation :=
  { o with responses := .ofList (responses.map fun entry => (entry.1, .inline entry.2)) }

/-- Sets whether the operation should no longer be used. -/
def withDeprecated (value : Bool) (o : Operation) : Operation := { o with deprecated := some value }

/-- Sets what the operation requires. -/
def withSecurity (security : List SecurityRequirement) (o : Operation) : Operation :=
  { o with security := some security }

end Operation

/-- The path with a single operation. -/
def PathItem.ofOperation (method : Method) (operation : Operation) : PathItem :=
  ({} : PathItem).withOperation method operation

/-! ### Documents -/

namespace Document

/-- The document with a head and no content. -/
def ofInfo (info : Info) : Document := { info }

/-- Sets the host. -/
def withHost (host : String) (d : Document) : Document := { d with host := some host }

/-- Sets the path below which the interface is served. -/
def withBasePath (path : String) (d : Document) : Document := { d with basePath := some path }

/-- Sets the protocols. -/
def withSchemes (schemes : List Scheme) (d : Document) : Document :=
  { d with schemes := some schemes }

/-- Sets the tags. -/
def withTags (tags : List Tag) (d : Document) : Document := { d with tags := some tags }

/-- Sets the security scheme of a name. -/
def withSecurityDefinition (name : String) (definition : SecurityDefinition) (d : Document) :
    Document :=
  { d with securityDefinitions := d.securityDefinitions.insert name definition }

/-- Sets the schema of a name. -/
def withDefinition (name : String) (definition : Schema) (d : Document) : Document :=
  { d with definitions := d.definitions.insert name definition }

/-- Sets the further documentation. -/
def withExternalDocs (docs : ExternalDocs) (d : Document) : Document :=
  { d with externalDocs := some docs }

end Document

end ServiceDocs
