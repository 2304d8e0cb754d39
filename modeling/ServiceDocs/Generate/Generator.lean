import ServiceDocs.Document.Schema.Collapse
import ServiceDocs.Generate.Fragment
import ServiceDocs.Generate.Operation

/-!
# Generating a Document

The document of a service begins as an empty one with the name of the service as its
title. The settings of the documentation are copied into it, the files with partial
documents are merged, the schemas are simplified, the keys of the service replace the
security schemes, and the operations of the service are added.

Each step is a function on documents, so that a step says exactly what it changes. What it
reports is a function beside it.

## Main definitions

* `Generator`: the description of a service, the files and the base of their paths.
* `Generator.start`, `Generator.applyOverrides`, `Generator.mergeSwaggerFiles`,
  `Generator.generateSecurity`, `Generator.generatePaths`: the steps.
* `Generator.generate`: all steps in order.
-/

namespace ServiceDocs

/-- What a document is generated from. -/
structure Generator where
  /-- The description of the service. -/
  description : ServiceDescription
  /-- The files. -/
  files : Files := {}
  /-- The directory of relative paths, if it is not the working directory. -/
  baseDirectory : Option String := none

namespace Generator

/-- The document before the first step. -/
def start (g : Generator) : Document :=
  { Document.blank with
    info := { Document.blank.info with title := g.description.serviceName } }

/-! ### Settings -/

/-- Copies the settings of the documentation into the head of a document. -/
def overrideInfo (s : Settings) (info : Info) : Info :=
  { info with
    title := s.title.getD info.title, description := s.description.or info.description,
    version := s.version.getD info.version }

/-- Copies the settings of the documentation that are given into a document. -/
def applyOverrides (g : Generator) (d : Document) : Document :=
  let s := g.description.settings
  { d with
    basePath := s.basePath.or d.basePath, host := s.host.or d.host,
    schemes := s.schemes.or d.schemes, info := overrideInfo s d.info }

/-! ### Files -/

/-- The paths of the files with partial documents. -/
def fragmentPaths (g : Generator) : List String :=
  g.description.settings.swaggerFiles.map (resolvePath g.baseDirectory)

/-- Merges the files with partial documents. -/
def mergeSwaggerFiles (g : Generator) (d : Document) : Progress :=
  mergeFiles g.files g.fragmentPaths d

/-- What is reported while the files are merged. -/
def mergeSwaggerFilesRecords (g : Generator) (d : Document) : List LogRecord :=
  mergeRecords g.files g.fragmentPaths d

/-! ### Schemas -/

/-- Simplifies the schemas that are referred to by name. -/
def collapseDefinitions (d : Document) : Document :=
  { d with definitions := d.definitions.mapValues Schema.collapse }

/-! ### Security -/

/-- The security schemes of headers that hold keys. -/
def headerSchemes (headers : List String) : OrderedMap SecurityDefinition :=
  .ofList (headers.map fun header => (header, SecurityDefinition.apiKey header .header))

/-- Replaces the security schemes by those of the headers that hold keys, if there are
such headers. -/
def generateSecurity (g : Generator) (d : Document) : Document :=
  let headers := g.description.keyHeaders
  if headers.isEmpty then d else { d with securityDefinitions := headerSchemes headers }

/-- What is reported when the security schemes are replaced. -/
def generateSecurityRecords (g : Generator) (d : Document) : List LogRecord :=
  if g.description.keyHeaders.isEmpty || d.securityDefinitions.isEmpty then []
  else [⟨.debug, "Replacing existing security definitions with api key headers"⟩]

/-! ### Paths -/

/-- Puts an operation into a document. -/
def place (d : Document) (p : Placement) : Document := d.addOperation p.path p.method p.operation

/-- Adds the operations of the service. -/
def generatePaths (g : Generator) (d : Document) : Document :=
  g.description.placements.foldl place d

/-- What is reported while operations are added. -/
def generatePathsRecords (g : Generator) : List LogRecord := g.description.placementRecords

/-! ### All steps -/

/-- The document after the files are merged. -/
def merged (g : Generator) : Progress := g.mergeSwaggerFiles (g.applyOverrides g.start)

/-- The steps after the files are merged. -/
def finish (g : Generator) (d : Document) : Document :=
  g.generatePaths (g.generateSecurity (collapseDefinitions d))

/-- Generates the document of a service. -/
def generate (g : Generator) : Except Failure Document :=
  match g.merged.failure with
  | some failure => .error failure
  | none => .ok (g.finish g.merged.document)

/-- What is reported while a document is generated. -/
def generateRecords (g : Generator) : List LogRecord :=
  g.mergeSwaggerFilesRecords (g.applyOverrides g.start) ++
    match g.merged.failure with
    | some _ => []
    | none =>
      g.generateSecurityRecords (collapseDefinitions g.merged.document) ++ g.generatePathsRecords

end Generator

end ServiceDocs
