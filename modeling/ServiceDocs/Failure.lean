import ServiceDocs.Files
import ServiceDocs.Reading.Fault

/-!
# Failures

Why a description cannot be loaded, a document cannot be generated or written, or a
document cannot be installed. A failure names the file that it is about.

## Main definitions

* `Failure`: the causes.
* `Failure.message?`: the wording.
-/

namespace ServiceDocs

/-- Why an operation fails. -/
inductive Failure where
  /-- A JSON text or value cannot be read. -/
  | reading (fault : Fault)
  /-- A YAML text cannot be read. -/
  | yaml
  /-- A file cannot be read or written. -/
  | file (path : String) (fault : FileFault)
  /-- A file is not a partial document. -/
  | fragment (path : String) (fault : Fault)
  /-- There is an installed document already. -/
  | alreadyInstalled
  deriving DecidableEq, Repr

/-- The wording of a fault. One of a text has none, as it would have to name a place. -/
def Fault.message? : Fault → Option String
  | .text _ => none
  | .mismatch cause => some cause.message

/-- The wording of a failure. One that would have to name a place of a text has none. -/
def Failure.message? : Failure → Option String
  | .reading fault => fault.message?.map fun cause => "serde: " ++ cause
  | .yaml => none
  | .file path fault => some ("io: " ++ path ++ ": " ++ fault.message)
  | .fragment path fault =>
    fault.message?.map fun cause =>
      "swagger file " ++ path ++ " is not a valid document: " ++ cause
  | .alreadyInstalled => some "document provider is already installed"

end ServiceDocs
