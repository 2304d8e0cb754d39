import ServiceDocs.Reading.Codec

/-!
# Methods

A path of a document has a place for each of eight methods. Configurations and documents
write them in any case of letters; the document writes them in lower case.

## Main definitions

* `Method`: the methods.
* `Method.ofText?`: the method that a text names, in any case of letters.
* `unsupportedMethod`: the message about a text that names none.
-/

namespace ServiceDocs

/-- A method that a document has a place for. -/
inductive Method where
  /-- Reading a resource. -/
  | get
  /-- Replacing a resource. -/
  | put
  /-- Adding to a resource. -/
  | post
  /-- Removing a resource. -/
  | delete
  /-- Asking what is possible. -/
  | options
  /-- Reading about a resource. -/
  | head
  /-- Changing a resource. -/
  | patch
  /-- Following a request. -/
  | trace
  deriving DecidableEq, Repr

namespace Method

/-- The name of a method, in lower case. -/
def name : Method → String
  | .get => "get"
  | .put => "put"
  | .post => "post"
  | .delete => "delete"
  | .options => "options"
  | .head => "head"
  | .patch => "patch"
  | .trace => "trace"

/-- The methods with their names, in the order in which a message lists them. -/
def choices : List (String × Method) :=
  [.get, .put, .post, .delete, .options, .head, .patch, .trace].map fun m => (m.name, m)

/-- A text with its letters from `A` to `Z` in lower case. -/
def lowerCase (s : String) : String := String.ofList (s.toList.map Char.toLower)

/-- The method that a text names, in any case of letters. -/
def ofText? (s : String) : Option Method := OrderedMap.findEntry (lowerCase s) choices

/-- The codec of methods, in lower case only. -/
def codec : Codec Method := .choice choices name

end Method

/-- The message about a text that names no method. -/
def unsupportedMethod (text : String) : String := "unsupported http method: " ++ text

end ServiceDocs
