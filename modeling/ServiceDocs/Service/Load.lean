import ServiceDocs.Failure
import ServiceDocs.Log
import ServiceDocs.Service.Description
import ServiceDocs.Yaml.Graph

/-!
# Loading Service Descriptions

A description is read from a YAML text, which may be a JSON text as well, or from a JSON
text. `load` reads the YAML text of a file.

## Main definitions

* `ServiceDescription.ofYamlText?`: reads a YAML text.
* `ServiceDescription.load`, `ServiceDescription.loadRecords`: reads a file.
-/

namespace ServiceDocs.ServiceDescription

/-- Reads a description from a YAML text. Of a fault nothing more is said. -/
def ofYamlText? (text : String) : Option ServiceDescription := do
  let graph ← Yaml.graph text
  let tree ← graph.tree codec.outline
  (codec.read .yamlText tree).toOption

/-- Reads a description from a YAML text. -/
def ofYamlText (text : String) : Except Failure ServiceDescription :=
  match ofYamlText? text with
  | some description => .ok description
  | none => .error .yaml

/-- Reads a description from a file. -/
def load (files : Files) (path : String) : Except Failure ServiceDescription :=
  match files.readText path with
  | .ok text => ofYamlText text
  | .error fault => .error (.file path fault)

/-- What is reported when a description is read from a file. -/
def loadRecords (files : Files) (path : String) : List LogRecord :=
  match files.readText path with
  | .ok _ => [⟨.debug, "Loaded service description from " ++ path⟩]
  | .error _ => []

end ServiceDocs.ServiceDescription
