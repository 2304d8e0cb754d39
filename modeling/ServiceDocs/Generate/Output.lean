import ServiceDocs.Document.Basic
import ServiceDocs.Failure
import ServiceDocs.Log
import ServiceDocs.Yaml.Printer

/-!
# Writing a Document

A document is written as JSON without spaces, as indented JSON or as YAML. The indented
text is what a deployment writes to a file, in a directory that is created if it is
missing.

## Main definitions

* `Document.yaml`: the YAML text of a document.
* `Document.writeFile`: writes a document to its file in a directory.
-/

namespace ServiceDocs

/-- The name of the file of a document. -/
def documentFileName : String := "swagger.json"

namespace Document

/-- The YAML text of a document. -/
def yaml (d : Document) : String := d.toJson.yaml

/-- The path of the file of a document in a directory. -/
def filePath (directory : String) : String := joinPath directory documentFileName

/-- Names the path at which a fault was found. -/
def atPath {α : Type} (path : String) : Except FileFault α → Except Failure α
  | .ok value => .ok value
  | .error fault => .error (.file path fault)

/-- Writes a document to its file in a directory, which is created if it is missing. -/
def writeFile (directory : String) (d : Document) (files : Files) : Except Failure Files := do
  let files ← atPath directory (files.createDirectories directory)
  atPath (filePath directory) (files.writeText (filePath directory) d.pretty)

/-- What is reported when a document was written. -/
def writeFileRecord (directory : String) : LogRecord :=
  ⟨.info, "Wrote swagger document to " ++ filePath directory⟩

end Document

end ServiceDocs
