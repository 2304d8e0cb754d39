import ServiceDocs.Docs.RedirectPage
import ServiceDocs.Docs.Route
import ServiceDocs.Docs.Slot
import ServiceDocs.Docs.Viewer
import ServiceDocs.Document.Build
import ServiceDocs.Generate.Generator
import ServiceDocs.Generate.Output
import ServiceDocs.Service.Load
import ServiceDocs.Proofs.OrderedMap
import ServiceDocs.Proofs.Json.Sound
import ServiceDocs.Proofs.Reading.Values
import ServiceDocs.Proofs.Reading.Codecs
import ServiceDocs.Proofs.Reading.Records
import ServiceDocs.Proofs.Document.Parts
import ServiceDocs.Proofs.Document.Schema
import ServiceDocs.Proofs.Document.Places
import ServiceDocs.Proofs.Document.Parameter
import ServiceDocs.Proofs.Document.Operation
import ServiceDocs.Proofs.Document.Basic
import ServiceDocs.Proofs.Json.Trees
import ServiceDocs.Proofs.Json.Tokens
import ServiceDocs.Proofs.Json.RoundTrip
import ServiceDocs.Proofs.Document.Reload
import ServiceDocs.Proofs.Reading.Overlay
import ServiceDocs.Proofs.Document.Merge
import ServiceDocs.Proofs.Document.Collapse
import ServiceDocs.Proofs.Generate.ParameterSource
import ServiceDocs.Proofs.Generate.Operation
import ServiceDocs.Proofs.Generate.Reachable
import ServiceDocs.Proofs.Document.Change
import ServiceDocs.Proofs.Generate.Override
import ServiceDocs.Proofs.Text.Slash
import ServiceDocs.Proofs.Generate.Fragment
import ServiceDocs.Proofs.Generate.Atomic
import ServiceDocs.Proofs.Generate.Placement
import ServiceDocs.Proofs.Generate.Regeneration
import ServiceDocs.Proofs.Generate.Insertion
import ServiceDocs.Proofs.Document.Loading
import ServiceDocs.Proofs.Generate.Acceptance
import ServiceDocs.Proofs.Json.Within
import ServiceDocs.Proofs.Json.Alike
import ServiceDocs.Proofs.Reading.Coverage
import ServiceDocs.Proofs.Document.Coverage
import ServiceDocs.Proofs.Generate.PassThrough
import ServiceDocs.Proofs.Generate.LongForms
import ServiceDocs.Proofs.Generate.Security
import ServiceDocs.Proofs.Service.Event
import ServiceDocs.Proofs.Service.Description
import ServiceDocs.Proofs.Text.Replace
import ServiceDocs.Proofs.Docs.Template
import ServiceDocs.Proofs.Docs.Script
import ServiceDocs.Proofs.Document.Validation
import ServiceDocs.Proofs.Generate.Definitions
import ServiceDocs.Proofs.Reading.Restoring
import ServiceDocs.Proofs.Document.Serving
import ServiceDocs.Proofs.OrderedMap.Vacated
import ServiceDocs.Proofs.Generate.ExtensionOrder
import ServiceDocs.Proofs.Generate.KeyHeaders
import ServiceDocs.Proofs.Json.Pointer
import ServiceDocs.Proofs.Generate.References
import ServiceDocs.Proofs.Reading.Yields
import ServiceDocs.Proofs.Service.Maps
import ServiceDocs.Proofs.Generate.Parameters
import ServiceDocs.Proofs.Generate.ParameterOrder
import ServiceDocs.Proofs.Generate.ListParameters
import ServiceDocs.Proofs.Generate.OperationIds
import ServiceDocs.Proofs.Docs.Escape
import ServiceDocs.Proofs.Docs.Address
import ServiceDocs.Proofs.Docs.Literal
import ServiceDocs.Proofs.Docs.Announcement
import ServiceDocs.Proofs.Docs.Route
import ServiceDocs.Proofs.Docs.Slot
import ServiceDocs.Proofs.Generate.Placeholder
import ServiceDocs.Proofs.Text.Words
import ServiceDocs.Proofs.Service.Shorthand
