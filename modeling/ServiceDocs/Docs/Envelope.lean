import ServiceDocs.Document.Basic
import ServiceDocs.Log

/-!
# Responses to Calls

The host of a function expects a response as an object with a status code, a body and
perhaps headers. Handlers of documentation endpoints give the same response to every
event.

## Main definitions

* `Envelope`: a response.
* `DocumentHandler`: the handler that serves a document.
-/

namespace ServiceDocs

/-- A response to the host. -/
structure Envelope where
  /-- The status code. -/
  statusCode : Nat
  /-- The body. -/
  body : String
  /-- The headers. -/
  headers : Option (OrderedMap String) := none
  deriving DecidableEq, Repr

namespace Envelope

/-- A successful response without headers. -/
def ok (body : String) : Envelope := { statusCode := 200, body }

/-- Sets a header. -/
def withHeader (name value : String) (r : Envelope) : Envelope :=
  { r with headers := some ((r.headers.getD .empty).insert name value) }

/-- The fields of a response. -/
def record : Record Envelope where
  name := "ResponseEnvelope"
  blank := ⟨0, "", none⟩
  fields := [
    .plain "statusCode" .required .nat16 (·.statusCode) (fun v r => { r with statusCode := v }),
    .plain "body" .required .string (·.body) (fun v r => { r with body := v }),
    .hidden "headers" .defaulted (.map .string) (·.headers)
      (fun v r => { r with headers := v })]

/-- The codec of responses. -/
def codec : Codec Envelope := record.codec

/-- The text of a response. -/
def text (r : Envelope) : String := (codec.write r).compact

/-- The name of the header for the type of the body. -/
def contentType : String := "content-type"

/-- A response with a page. -/
def page (html : String) : Envelope := (ok html).withHeader contentType "text/html"

end Envelope

/-- The handler that serves a document. -/
structure DocumentHandler where
  /-- The document. -/
  document : Document
  /-- Whether a response names the type of its body. -/
  namesContentType : Bool := false

namespace DocumentHandler

/-- The response to every event. -/
def respond (h : DocumentHandler) : Envelope :=
  let response := Envelope.ok h.document.compact
  if h.namesContentType then response.withHeader Envelope.contentType jsonMediaType else response

/-- What is reported about a call. -/
def record (h : DocumentHandler) : LogRecord :=
  ⟨.debug, "Serving swagger document, " ++ digitsText h.document.compact.utf8ByteSize ++ " bytes"⟩

end DocumentHandler

end ServiceDocs
