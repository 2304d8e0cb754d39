import ServiceDocs.Document.Info
import ServiceDocs.Document.Operation
import ServiceDocs.Json.Parser
import ServiceDocs.Json.Printer

/-!
# Documents

A document describes an interface: its head, where it is served, its paths with their
operations, the security schemes and schemas that these refer to, and extension keys.

## Main definitions

* `Document`: the documents.
* `Document.addOperation`: sets the operation of a path and method.
* `Document.codec`, `Document.ofText`, `Document.compact`, `Document.pretty`: reading and
  writing.
-/

namespace ServiceDocs

/-- The version of the document format. -/
inductive FormatVersion where
  /-- Version 2.0. -/
  | v2
  deriving DecidableEq, Repr

/-- The name of a version. -/
def FormatVersion.name : FormatVersion → String
  | .v2 => "2.0"

/-- The codec of versions. -/
def FormatVersion.codec : Codec FormatVersion := .choice [("2.0", .v2)] name

/-- A protocol that an interface is served by. -/
inductive Scheme where
  /-- Plain. -/
  | http
  /-- Encrypted. -/
  | https
  /-- Sockets. -/
  | ws
  /-- Encrypted sockets. -/
  | wss
  deriving DecidableEq, Repr

/-- The name of a protocol. -/
def Scheme.name : Scheme → String
  | .http => "http"
  | .https => "https"
  | .ws => "ws"
  | .wss => "wss"

/-- The codec of protocols. -/
def Scheme.codec : Codec Scheme :=
  .choice [("http", .http), ("https", .https), ("ws", .ws), ("wss", .wss)] name

/-- A document. -/
structure Document where
  /-- The version of the format. -/
  swagger : FormatVersion := .v2
  /-- The head. -/
  info : Info
  /-- The host that serves the interface. -/
  host : Option String := none
  /-- The path below which it is served. -/
  basePath : Option String := none
  /-- The tags of the operations. -/
  tags : Option (List Tag) := none
  /-- The protocols. -/
  schemes : Option (List Scheme) := none
  /-- The paths. -/
  paths : Paths := .empty
  /-- The security schemes. -/
  securityDefinitions : OrderedMap SecurityDefinition := .empty
  /-- The schemas that are referred to by name. -/
  definitions : OrderedMap Schema := .empty
  /-- Further documentation. -/
  externalDocs : Option ExternalDocs := none
  /-- All other members. -/
  extensions : OrderedMap Json := .empty

namespace Document

/-- The document without content, in version 1. -/
def blank : Document := { info := { title := "", version := "1" } }

instance : Inhabited Document := ⟨blank⟩

/-- Sets the operation of a path and method. -/
def addOperation (path : String) (method : Method) (operation : Operation) (d : Document) :
    Document :=
  let item := (d.paths.get? path).getD {}
  { d with paths := d.paths.insert path (item.withOperation method operation) }

/-- The codec of paths by name. -/
def pathsCodec : Codec Paths := .map PathItem.codec

/-- The codec of schemas by name. -/
def definitionsCodec : Codec (OrderedMap Schema) := .map Schema.codec

/-- The fields of a document. -/
def record : Record Document where
  name := "Swagger"
  blank := blank
  fields := [
    .plain "swagger" .defaulted FormatVersion.codec (·.swagger)
      (fun v d => { d with swagger := v }),
    .plain "info" .defaulted Info.codec (·.info) (fun v d => { d with info := v }),
    .hidden "host" .defaulted .string (·.host) (fun v d => { d with host := v }),
    .hidden "basePath" .defaulted .string (·.basePath) (fun v d => { d with basePath := v }),
    .hidden "tags" .defaulted (.list Tag.codec) (·.tags) (fun v d => { d with tags := v }),
    .hidden "schemes" .defaulted (.list Scheme.codec) (·.schemes)
      (fun v d => { d with schemes := v }),
    .plain "paths" .defaulted pathsCodec (·.paths) (fun v d => { d with paths := v }),
    .plain "securityDefinitions" .defaulted (.map SecurityDefinition.codec)
      (·.securityDefinitions) (fun v d => { d with securityDefinitions := v }),
    .plain "definitions" .defaulted definitionsCodec (·.definitions)
      (fun v d => { d with definitions := v }),
    .hidden "externalDocs" .defaulted ExternalDocs.codec (·.externalDocs)
      (fun v d => { d with externalDocs := v })]
  rest := some ⟨fun name value d => { d with extensions := d.extensions.insert name value },
    (·.extensions)⟩
  listed := false

/-- The codec of documents. -/
def codec : Codec Document := record.codec

/-- The JSON value of a document. -/
def toJson (d : Document) : Json := codec.write d

/-- The text of a document without spaces. -/
def compact (d : Document) : String := d.toJson.compact

/-- The indented text of a document. -/
def pretty (d : Document) : String := d.toJson.pretty

/-- Reads a document from its text. -/
def ofText (text : String) : Except Fault Document := codec.ofText (JsonText.tree text)

end Document

end ServiceDocs
