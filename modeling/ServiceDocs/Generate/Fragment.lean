import ServiceDocs.Document.Merge
import ServiceDocs.Failure
import ServiceDocs.Log

/-!
# Files with Partial Documents

A service may name files with partial documents, which are merged into its document one
after the other. The first file that cannot be read or merged ends this; the document is
then what the files before it made of it.

## Main definitions

* `readFragment`: the partial document of a file.
* `mergeFile`, `mergeFiles`: merging one file and several.
* `Progress`: what a step that may fail leaves behind.
-/

namespace ServiceDocs

/-- The path of a file, below a directory if there is one and the path is relative. -/
def resolvePath (directory : Option String) (path : String) : String :=
  match directory with
  | none => path
  | some directory => if isRelative path then joinPath directory path else path

/-- Reads the text of a partial document: the text of an object. -/
def parseFragment (text : String) : Except Fault (OrderedMap Json) :=
  (Codec.map .json).ofText (JsonText.tree text)

/-- Names the file in which a fault was found. -/
def inFragment {α : Type} (path : String) : Except Fault α → Except Failure α
  | .ok value => .ok value
  | .error fault => .error (.fragment path fault)

/-- Reads the partial document of a file. -/
def readFragment (files : Files) (path : String) : Except Failure (OrderedMap Json) :=
  match files.readText path with
  | .ok text => inFragment path (parseFragment text)
  | .error fault => .error (.file path fault)

/-- Merges the partial document of a file into the current document. -/
def mergeFile (files : Files) (path : String) : Document.Change Failure Unit := do
  let fragment ← ofExcept (readFragment files path)
  (Document.mergeFragment fragment).adaptExcept (.fragment path)

/-- What a step that may fail leaves behind. -/
structure Progress where
  /-- The document. -/
  document : Document
  /-- Why the step ended early, if it did. -/
  failure : Option Failure := none

/-- What a change leaves of a document. -/
def Progress.ofChange {α : Type} (change : Document.Change Failure α) (d : Document) : Progress :=
  match change.run d with
  | .ok _ changed => { document := changed }
  | .error failure changed => { document := changed, failure := some failure }

/-- Merges the partial documents of files, until one cannot be merged. -/
def mergeFiles (files : Files) (paths : List String) (d : Document) : Progress :=
  .ofChange (paths.forM (mergeFile files)) d

/-- What is reported while files are merged: each file that holds an object, up to the
first one that cannot be merged. -/
def mergeRecords (files : Files) : List String → Document → List LogRecord
  | [], _ => []
  | path :: rest, d =>
    match readFragment files path with
    | .error _ => []
    | .ok fragment =>
      ⟨.debug, "Merging swagger file " ++ path⟩ ::
        match d.merge fragment with
        | .ok merged => mergeRecords files rest merged
        | .error _ => []

end ServiceDocs
