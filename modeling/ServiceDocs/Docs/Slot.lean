import ServiceDocs.Docs.Envelope
import ServiceDocs.Failure

/-!
# The Installed Document

A process has one slot for the document that its handlers serve. The slot is empty at
first and is filled once: the first text that is a document fills it, and every later
attempt fails and changes nothing. A text that is no document does not fill it.

## Main definitions

* `Slot`: the slot.
* `Slot.install`: fills the slot.
* `Slot.installText`: reads a document and fills the slot with it.
* `Slot.serve?`: the response that the installed document gives.
-/

namespace ServiceDocs

/-- The slot for the installed document. -/
structure Slot where
  /-- The installed document. -/
  installed : Option Document := none

namespace Slot

/-- Fills the slot, unless it is filled. -/
def install (d : Document) (s : Slot) : Except Failure Document × Slot :=
  match s.installed with
  | none => (.ok d, ⟨some d⟩)
  | some _ => (.error .alreadyInstalled, s)

/-- What is reported at every attempt to fill the slot. -/
def installRecord : LogRecord := ⟨.debug, "Installing global document provider"⟩

/-- Reads a document for the slot. -/
def parse (text : String) : Except Failure Document :=
  match Document.ofText text with
  | .ok d => .ok d
  | .error fault => .error (.reading fault)

/-- Reads a document and fills the slot with it. -/
def installText (text : String) (s : Slot) : Except Failure Document × Slot :=
  match parse text with
  | .ok d => s.install d
  | .error failure => (.error failure, s)

/-- What is reported when a document is read and installed. -/
def installTextRecords (text : String) : List LogRecord :=
  match parse text with
  | .ok _ => [installRecord]
  | .error _ => []

/-- The handler that serves the installed document. -/
def handler? (s : Slot) : Option DocumentHandler := s.installed.map fun d => { document := d }

/-- The response that the installed document gives. -/
def serve? (s : Slot) : Option Envelope := s.handler?.map (·.respond)

/-- What is reported when the installed document is served. -/
def serveRecords (s : Slot) : List LogRecord := (s.handler?.map (·.record)).toList

end Slot

end ServiceDocs
