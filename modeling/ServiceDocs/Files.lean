/-!
# Files

Descriptions and partial documents are read from files, and a document is written to one.
`Files` is the content of a working directory as a value, so that what a program reads is
an argument of it. Paths are resolved step by step: every name but the last must be a
directory, `..` steps out, and a name is at most 255 bytes long.

A path that begins with a slash, or that steps out of the working directory, leads to a
part of the tree that holds nothing at first.

## Main definitions

* `Files`, `Files.Entry`: the content of a directory.
* `FileFault`, `FileFault.message`: why a file cannot be read or written.
* `Files.readText`, `Files.createDirectories`, `Files.writeText`: the operations.
* `joinPath`: a path below a directory.
-/

namespace ServiceDocs

/-- Why a file cannot be read or written. -/
inductive FileFault where
  /-- There is no such file or directory. -/
  | notFound
  /-- There is a file already. -/
  | exists
  /-- A file stands where a directory is needed. -/
  | notDirectory
  /-- A directory stands where a file is needed. -/
  | isDirectory
  /-- A name is too long. -/
  | nameTooLong
  /-- The content is not UTF-8. -/
  | notText
  /-- A name holds the character `U+0000`. -/
  | nulInName
  deriving DecidableEq, Repr

/-- The wording of a fault. -/
def FileFault.message : FileFault → String
  | .notFound => "No such file or directory (os error 2)"
  | .exists => "File exists (os error 17)"
  | .notDirectory => "Not a directory (os error 20)"
  | .isDirectory => "Is a directory (os error 21)"
  | .nameTooLong => "File name too long (os error 36)"
  | .notText => "stream did not contain valid UTF-8"
  | .nulInName => "file name contained an unexpected NUL byte"

/-- A path below a directory. An absolute path stays as it is. -/
def joinPath (directory path : String) : String :=
  if path.startsWith "/" || directory.isEmpty then path
  else if directory.endsWith "/" then directory ++ path
  else directory ++ "/" ++ path

/-- Whether a path is relative. -/
def isRelative (path : String) : Bool := !path.startsWith "/"

/-- What stands at a place. -/
inductive Files.Entry where
  /-- A file with its content. -/
  | file (content : ByteArray)
  /-- A directory. -/
  | directory

/-- A place in the tree of files. -/
structure Files.Place where
  /-- Whether it lies outside of the working directory. -/
  outside : Bool
  /-- The names that lead there, the last one first. -/
  names : List String
  deriving DecidableEq, Repr

/-- The content of a working directory. -/
structure Files where
  /-- The entries, the latest first. -/
  entries : List (Files.Place × Files.Entry) := []

namespace Files

instance : Inhabited Files := ⟨{}⟩

/-- What stands at a place. The working directory and the root are directories. -/
def find? (fs : Files) (place : Place) : Option Entry :=
  if place.names.isEmpty then some .directory else (fs.entries.find? (·.1 == place)).map (·.2)

/-- The greatest length of a name in bytes. -/
def greatestName : Nat := 255

/-- The greatest length of a path in bytes. -/
def greatestPath : Nat := 4095

/-- The place of a name in a directory. -/
def step (fs : Files) (place : Place) (name : String) : Except FileFault Place :=
  match fs.find? place with
  | none => .error .notFound
  | some (.file _) => .error .notDirectory
  | some .directory =>
    if name == "." || name.isEmpty then .ok place
    else if name == ".." then
      match place.names with
      | [] => .ok ⟨true, []⟩
      | _ :: rest => .ok ⟨place.outside, rest⟩
    else if greatestName < name.utf8ByteSize then .error .nameTooLong
    else .ok ⟨place.outside, name :: place.names⟩

/-- The place that names lead to. -/
def walk (fs : Files) (start : Place) (names : List String) : Except FileFault Place :=
  names.foldlM fs.step start

/-- The parts of a list of characters between its slashes. `part` holds the characters of the
current one, last first. -/
def partsFrom (part : List Char) : List Char → List (List Char)
  | [] => if part.isEmpty then [] else [part.reverse]
  | c :: rest =>
    if c = '/' then
      if part.isEmpty then partsFrom [] rest else part.reverse :: partsFrom [] rest
    else partsFrom (c :: part) rest

/-- The parts of a path between its slashes. -/
def parts (path : String) : List String := (partsFrom [] path.toList).map String.ofList

/-- Where a path begins. -/
def startOf (path : String) : Place := ⟨path.startsWith "/", []⟩

/-- Checks what holds of every path. -/
def checkPath (path : String) : Except FileFault Unit :=
  if path.toList.any (·.toNat == 0) then .error .nulInName
  else if path.isEmpty then .error .notFound
  else if greatestPath < path.utf8ByteSize then .error .nameTooLong
  else .ok ()

/-- The place of a path. A path with a slash at its end leads into a directory. -/
def locate (fs : Files) (path : String) : Except FileFault Place := do
  checkPath path
  let place ← fs.walk (startOf path) (parts path)
  if path.endsWith "/" then fs.step place "." else return place

/-- The text of a file. -/
def readText (fs : Files) (path : String) : Except FileFault String := do
  let place ← fs.locate path
  match fs.find? place with
  | none => throw .notFound
  | some .directory => throw .isDirectory
  | some (.file content) =>
    match String.fromUTF8? content with
    | some text => return text
    | none => throw .notText

/-- Whether a directory stands at a path. -/
def isDirectory (fs : Files) (path : String) : Bool :=
  match fs.locate path with
  | .error _ => false
  | .ok place =>
    match fs.find? place with
    | some .directory => true
    | _ => false

/-- Creates the directory of a path in the directory around it. -/
def createDirectory (fs : Files) (path : String) : Except FileFault Files := do
  checkPath path
  let names := parts path
  match names.getLast? with
  | none => throw .exists
  | some last =>
    let around ← fs.walk (startOf path) names.dropLast
    let place ← fs.step around last
    if last == "." || last == ".." then throw .exists
    else
      match fs.find? place with
      | some _ => throw .exists
      | none => return { fs with entries := (place, .directory) :: fs.entries }

/-- Drops the parts `.` at the end of a path, but not the first part. -/
def dropDots (names : List String) : List String :=
  match names with
  | [] => []
  | first :: rest => first :: (rest.reverse.dropWhile (· == ".")).reverse

/-- The path of the directory around a path. -/
def parent? (path : String) : Option String :=
  match dropDots (parts path) with
  | [] => none
  | names =>
    let above := "/".intercalate (dropDots names.dropLast)
    some (if path.startsWith "/" then "/" ++ above else above)

/-- Creates a directory and the directories around it that are missing. -/
def createMissing : Nat → String → Files → Except FileFault Files
  | 0, _, _ => .error .notFound
  | fuel + 1, path, fs =>
    if path.isEmpty then .ok fs
    else
      match fs.createDirectory path with
      | .ok fs => .ok fs
      | .error .notFound =>
        match parent? path with
        | none => .error .notFound
        | some above => do
          let fs ← createMissing fuel above fs
          match fs.createDirectory path with
          | .ok fs => return fs
          | .error fault => if fs.isDirectory path then return fs else throw fault
      | .error fault => if fs.isDirectory path then .ok fs else .error fault

/-- Creates a directory, unless it is there, and the directories around it that are
missing. -/
def createDirectories (path : String) (fs : Files) : Except FileFault Files :=
  createMissing ((parts path).length + 2) path fs

/-- Writes a text to a file. -/
def writeText (path text : String) (fs : Files) : Except FileFault Files := do
  let place ← fs.locate path
  match fs.find? place with
  | some .directory => throw .isDirectory
  | _ => return { fs with entries := (place, .file text.toUTF8) :: fs.entries }

/-- Puts an entry at a path, with the directories around it. -/
def put (path : String) (entry : Entry) (fs : Files) : Files :=
  let names := (parts path).filter (· != ".")
  let place := fun names : List String => (⟨path.startsWith "/", names.reverse⟩ : Place)
  let above := (List.range (names.length - 1)).map fun n => names.take (n + 1)
  let directories := above.map fun names => (place names, Entry.directory)
  { fs with entries := (place names, entry) :: directories ++ fs.entries }

end Files

end ServiceDocs
