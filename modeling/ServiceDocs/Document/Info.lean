import ServiceDocs.Reading.Record

/-!
# Descriptive Objects of a Document

What a document says about itself: its title and version, whom to contact, under which
licence the interface is offered, the tags that group operations and links to further
documentation.

## Main definitions

* `Info`, `Contact`, `License`: the head of a document.
* `Tag`, `ExternalDocs`: groups of operations and links.
* The codec of each of them.
-/

namespace ServiceDocs

/-- Whom to contact about an interface. -/
structure Contact where
  /-- The name. -/
  name : Option String := none
  /-- The address of a page. -/
  url : Option String := none
  /-- The mail address. -/
  email : Option String := none
  deriving DecidableEq, Repr

/-- The fields of a contact. -/
def Contact.record : Record Contact where
  name := "Contact"
  blank := {}
  fields := [
    .hidden "name" .optional .string (·.name) (fun v c => { c with name := v }),
    .hidden "url" .optional .string (·.url) (fun v c => { c with url := v }),
    .hidden "email" .optional .string (·.email) (fun v c => { c with email := v })]

/-- The codec of contacts. -/
def Contact.codec : Codec Contact := record.codec

/-- The licence of an interface. -/
structure License where
  /-- The name. -/
  name : String
  /-- The address of its text. -/
  url : Option String := none
  deriving DecidableEq, Repr

/-- The fields of a licence. -/
def License.record : Record License where
  name := "License"
  blank := { name := "" }
  fields := [
    .plain "name" .required .string (·.name) (fun v l => { l with name := v }),
    .hidden "url" .optional .string (·.url) (fun v l => { l with url := v })]

/-- The codec of licences. -/
def License.codec : Codec License := record.codec

/-- The head of a document. -/
structure Info where
  /-- The title of the interface. -/
  title : String := ""
  /-- What the interface is for. -/
  description : Option String := none
  /-- The terms of its use. -/
  termsOfService : Option String := none
  /-- Whom to contact. -/
  contact : Option Contact := none
  /-- The licence. -/
  license : Option License := none
  /-- The version of the interface. -/
  version : String := ""
  deriving DecidableEq, Repr

/-- The fields of a head. A partial one has an empty title and version. -/
def Info.record : Record Info where
  name := "Info"
  blank := {}
  fields := [
    .plain "title" .defaulted .string (·.title) (fun v i => { i with title := v }),
    .hidden "description" .optional .string (·.description)
      (fun v i => { i with description := v }),
    .hidden "termsOfService" .optional .string (·.termsOfService)
      (fun v i => { i with termsOfService := v }),
    .hidden "contact" .optional Contact.codec (·.contact) (fun v i => { i with contact := v }),
    .hidden "license" .optional License.codec (·.license) (fun v i => { i with license := v }),
    .plain "version" .defaulted .string (·.version) (fun v i => { i with version := v })]

/-- The codec of heads. -/
def Info.codec : Codec Info := record.codec

/-- A link to further documentation. -/
structure ExternalDocs where
  /-- What is found there. -/
  description : Option String := none
  /-- The address. -/
  url : String
  deriving DecidableEq, Repr

/-- The fields of a link. -/
def ExternalDocs.record : Record ExternalDocs where
  name := "ExternalDocs"
  blank := { url := "" }
  fields := [
    .hidden "description" .optional .string (·.description)
      (fun v e => { e with description := v }),
    .plain "url" .required .string (·.url) (fun v e => { e with url := v })]

/-- The codec of links. -/
def ExternalDocs.codec : Codec ExternalDocs := record.codec

/-- A tag that groups operations. -/
structure Tag where
  /-- The name that operations carry. -/
  name : String
  /-- What the operations have in common. -/
  description : Option String := none
  /-- Further documentation. -/
  externalDocs : Option ExternalDocs := none
  deriving DecidableEq, Repr

/-- The fields of a tag. -/
def Tag.record : Record Tag where
  name := "Tag"
  blank := { name := "" }
  fields := [
    .plain "name" .required .string (·.name) (fun v t => { t with name := v }),
    .hidden "description" .optional .string (·.description)
      (fun v t => { t with description := v }),
    .hidden "externalDocs" .optional ExternalDocs.codec (·.externalDocs)
      (fun v t => { t with externalDocs := v })]

/-- The codec of tags. -/
def Tag.codec : Codec Tag := record.codec

end ServiceDocs
