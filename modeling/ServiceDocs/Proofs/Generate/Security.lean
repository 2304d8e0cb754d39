import ServiceDocs.Proofs.Generate.Insertion
import ServiceDocs.Proofs.Generate.Regeneration

/-!
# Required Schemes Are Defined

An operation requires security schemes by name, and a document defines them. The operations of
files and their definitions are merged together, but headers that hold keys replace the
definitions, while they are required only of the operations of events. So all that is required
stays defined if there are no key headers, and what the operations of events require always is.
With key headers, an operation that stems from a file loses every scheme that is not one of the
headers.

## Main definitions

* `Operation.requiredSchemes`, `HttpEvent.requiredSchemes`: the names of schemes.
* `Document.placements`: the operations of a document and where they stand.
* `Document.Secured`: every scheme that an operation requires is defined.

## Main results

* `Generator.mem_requiredSchemes_iff`: what the operation of an event requires.
* `Generator.mem_keys_finish_iff`: what is defined in the end.
* `Generator.generate_secured`: which of the required schemes are defined.
* `Generator.generate_secured_unkeyed`: a scheme of a file that key headers leave undefined.
-/

namespace ServiceDocs

/-! ### Required schemes -/

/-- The schemes that an operation requires. -/
def Operation.requiredSchemes (o : Operation) : List String :=
  (o.security.getD []).flatMap (·.schemes.keys)

/-- The schemes that an event requires by its settings. -/
def HttpEvent.requiredSchemes (e : HttpEvent) : List String := (e.security.getD []).flatMap (·.keys)

namespace SecurityRequirement

/-- Schemes that are required one after the other are inserted one after the other. -/
theorem schemes_foldl {α : Type} (scheme : α → String × List String) (entries : List α)
    (r : SecurityRequirement) :
    (entries.foldl (fun r a => r.withScheme (scheme a).1 (scheme a).2) r).schemes =
      r.schemes.insertAll (entries.map scheme) := by
  induction entries generalizing r with
  | nil => rfl
  | cons a rest ih => exact ih _

/-- The schemes of a requirement that is given by a map are its entries, written in order. -/
theorem schemes_ofMap (schemes : OrderedMap (List String)) :
    (ofMap schemes).schemes = .ofList schemes.entries := by
  rw [← List.map_id schemes.entries]
  exact schemes_foldl id schemes.entries {}

/-- The schemes of a requirement by key headers are the headers, without scopes. -/
theorem schemes_ofHeaders (headers : List String) :
    (ofHeaders headers).schemes = .ofList (headers.map fun header => (header, [])) :=
  schemes_foldl (fun header => (header, [])) headers {}

/-- A requirement that is given by a map names the keys of the map. -/
theorem mem_keys_ofMap {schemes : OrderedMap (List String)} {name : String} :
    name ∈ (ofMap schemes).schemes.keys ↔ name ∈ schemes.keys := by
  rw [schemes_ofMap, OrderedMap.mem_keys_ofList_iff]
  rfl

/-- A requirement by key headers names the headers. -/
theorem mem_keys_ofHeaders {headers : List String} {name : String} :
    name ∈ (ofHeaders headers).schemes.keys ↔ name ∈ headers := by
  rw [schemes_ofHeaders, OrderedMap.mem_keys_ofList_iff, List.map_map]
  simp [Function.comp_def]

end SecurityRequirement

namespace Generator

variable {g : Generator} {d : Document} {p : Placement} {scheme : String}

/-- The operation of an event requires the key headers, or else what its settings say. -/
theorem mem_requiredSchemes_iff {headers : List String} {function : String} {method : Method}
    {e : HttpEvent} : scheme ∈ (e.operation headers function method).requiredSchemes ↔
      (headers = [] ∧ scheme ∈ e.requiredSchemes) ∨ scheme ∈ headers := by
  have hsecurity :
      (e.operation headers function method).security = documentedSecurity headers e := rfl
  rw [Operation.requiredSchemes, hsecurity, documentedSecurity]
  cases headers with
  | nil =>
      rw [HttpEvent.requiredSchemes]
      cases e.security <;> simp [SecurityRequirement.mem_keys_ofMap]
  | cons header rest => simp [SecurityRequirement.mem_keys_ofHeaders]

/-! ### Defined schemes -/

/-- The schemes of key headers are named as the headers. -/
theorem mem_keys_headerSchemes {headers : List String} :
    scheme ∈ (headerSchemes headers).keys ↔ scheme ∈ headers := by
  rw [headerSchemes, OrderedMap.mem_keys_ofList_iff, List.map_map]
  simp [Function.comp_def]

/-- The key headers are defined, or else what was defined before. -/
theorem mem_keys_finish_iff : scheme ∈ (g.finish d).securityDefinitions.keys ↔
    (g.description.keyHeaders = [] ∧ scheme ∈ d.securityDefinitions.keys) ∨
      scheme ∈ g.description.keyHeaders := by
  rw [finish, generatePaths_eq, generateSecurity]
  cases h : g.description.keyHeaders with
  | nil => simp [collapseDefinitions]
  | cons header rest => simp [mem_keys_headerSchemes]

/-- The operation of a request requires only what is defined in the end. -/
theorem mem_keys_finish_of_placement (hp : p ∈ g.description.placements)
    (hrequests : ∀ request ∈ g.description.requests, ∀ scheme ∈ request.2.requiredSchemes,
      scheme ∈ d.securityDefinitions.keys)
    (hscheme : scheme ∈ p.operation.requiredSchemes) :
    scheme ∈ (g.finish d).securityDefinitions.keys := by
  obtain ⟨request, hrequest, method, rfl⟩ := exists_of_mem_placements hp
  rw [mem_keys_finish_iff]
  rcases mem_requiredSchemes_iff.mp hscheme with ⟨hheaders, hscheme⟩ | hscheme
  · exact .inl ⟨hheaders, hrequests request hrequest scheme hscheme⟩
  · exact .inr hscheme

end Generator

/-! ### The operations of a document -/

/-- The last operation of a slot is one of those that are added and goes there. -/
theorem exists_of_lastAt {path : String} {method : Method} {placements : List Placement}
    {operation : Operation} (h : lastAt path method placements = some operation) :
    ∃ p ∈ placements, (p.path = path ∧ p.method = method) ∧ p.operation = operation := by
  obtain ⟨p, hp, rfl⟩ := Option.map_eq_some_iff.mp h
  obtain ⟨hmem, hslot⟩ := List.mem_filter.mp (List.mem_of_getLast? hp)
  exact ⟨p, hmem, of_decide_eq_true hslot, rfl⟩

/-- A slot without a last operation is one that none goes to. -/
theorem not_of_lastAt_eq_none {path : String} {method : Method} {placements : List Placement}
    (h : lastAt path method placements = none) :
    ¬∃ p ∈ placements, p.path = path ∧ p.method = method := by
  rintro ⟨p, hp, hslot⟩
  have hnil := List.getLast?_eq_none_iff.mp (Option.map_eq_none_iff.mp h)
  exact List.not_mem_nil (hnil ▸ List.mem_filter.mpr ⟨hp, decide_eq_true hslot⟩)

namespace Document

/-- The operations of a document and where they stand. -/
def placements (d : Document) : List Placement :=
  d.paths.entries.flatMap fun entry =>
    entry.2.operations.map fun slot => ⟨entry.1, slot.1, slot.2⟩

/-- Every scheme that an operation requires is defined. -/
def Secured (d : Document) : Prop :=
  ∀ p ∈ d.placements, ∀ scheme ∈ p.operation.requiredSchemes, scheme ∈ d.securityDefinitions.keys

instance (d : Document) : Decidable d.Secured :=
  inferInstanceAs (Decidable (∀ p ∈ d.placements, ∀ scheme ∈ p.operation.requiredSchemes,
    scheme ∈ d.securityDefinitions.keys))

/-- An operation of a settled document is the one that is found at its slot. -/
theorem Settled.mem_placements_iff {d : Document} (h : d.Settled deepestPart) {p : Placement} :
    p ∈ d.placements ↔ d.operation? p.path p.method = some p.operation := by
  obtain ⟨hdistinct, hitems⟩ := Codec.map_stable_iff (d := 125).mp h.paths
  have hmethods : ∀ entry ∈ d.paths.entries, (entry.2.operations.map (·.1)).Nodup :=
    fun entry hentry => ((PathItem.stable_iff (by decide)).mp (hitems entry hentry)).methods
  rw [placements, List.mem_flatMap, operation?, item]
  constructor
  · rintro ⟨entry, hentry, hp⟩
    obtain ⟨slot, hslot, rfl⟩ := List.mem_map.mp hp
    have hitem : d.paths.get? entry.1 = some entry.2 := OrderedMap.findEntry_of_mem hdistinct hentry
    rw [hitem]
    exact OrderedMap.findEntry_of_mem (hmethods entry hentry) hslot
  · intro hp
    cases hitem : d.paths.get? p.path with
    | none =>
        rw [hitem] at hp
        cases hp
    | some item =>
        rw [hitem] at hp
        exact ⟨(p.path, item), OrderedMap.mem_entries_of_get? hitem,
          List.mem_map.mpr ⟨(p.method, p.operation), OrderedMap.mem_of_findEntry hp, rfl⟩⟩

end Document

/-! ### Generated documents -/

namespace Generator

variable {g : Generator} {d : Document} {p : Placement} {scheme : String}

/-- An operation in the end is one of a request or one that was there and whose slot no request
has. -/
theorem operation?_finish (h : (g.finish d).operation? p.path p.method = some p.operation) :
    (∃ q ∈ g.description.placements,
        (q.path = p.path ∧ q.method = p.method) ∧ q.operation = p.operation) ∨
      (¬∃ q ∈ g.description.placements, q.path = p.path ∧ q.method = p.method) ∧
        d.operation? p.path p.method = some p.operation := by
  have hpaths : (g.generateSecurity (collapseDefinitions d)).paths = d.paths :=
    g.paths_generateSecurity (collapseDefinitions d)
  have hinserted := Document.inserted_foldl_place g.description.placements
    (g.generateSecurity (collapseDefinitions d))
  rw [finish, generatePaths, hinserted.operations, Option.or_eq_some_iff] at h
  rcases h with h | ⟨hnone, h⟩
  · exact .inl (exists_of_lastAt h)
  · rw [Document.operation?, Document.item, hpaths] at h
    exact .inr ⟨not_of_lastAt_eq_none hnone, h⟩

/-- What stands at the slot of a request in the end is the operation of a request. -/
theorem mem_placements_of_finish (h : (g.finish d).operation? p.path p.method = some p.operation)
    (hslot : ∃ q ∈ g.description.placements, q.path = p.path ∧ q.method = p.method) :
    p ∈ g.description.placements := by
  obtain ⟨⟨path, method, operation⟩, hq, ⟨hpath, hmethod⟩, hoperation⟩ :=
    (operation?_finish h).resolve_right fun hnone => hnone.1 hslot
  obtain rfl : path = p.path := hpath
  obtain rfl : method = p.method := hmethod
  obtain rfl : operation = p.operation := hoperation
  exact hq

/-- If all that is required by the operations of the merged files and by the events of a service
is defined by these files, then all that is required in the generated document is defined there,
unless the service has key headers. Then the operations that no event has put there lose every
scheme that is none of the headers. -/
theorem generate_secured (h : g.generate = .ok d) (hmerged : g.merged.document.Secured)
    (hrequests : ∀ request ∈ g.description.requests, ∀ scheme ∈ request.2.requiredSchemes,
      scheme ∈ g.merged.document.securityDefinitions.keys)
    (hp : p ∈ d.placements) (hscheme : scheme ∈ p.operation.requiredSchemes) :
    scheme ∈ d.securityDefinitions.keys ↔
      g.description.keyHeaders = [] ∨
        (∃ q ∈ g.description.placements, q.path = p.path ∧ q.method = p.method) ∨
          scheme ∈ g.description.keyHeaders := by
  have hsettled := (reachable_of_generate h).settled
  obtain ⟨-, rfl⟩ := generate_eq_ok_iff.mp h
  rcases operation?_finish (hsettled.mem_placements_iff.mp hp) with
    ⟨q, hq, hslot, hoperation⟩ | ⟨hnone, hfile⟩
  · have hdefined := mem_keys_finish_of_placement hq hrequests (hoperation ▸ hscheme)
    exact iff_of_true hdefined (.inr (.inl ⟨q, hq, hslot⟩))
  · have hp' := g.reachable_merged.settled.mem_placements_iff.mpr hfile
    rw [mem_keys_finish_iff, and_iff_left (hmerged p hp' scheme hscheme), or_iff_right hnone]

/-- A service with a key header and a file with an operation and the scheme that it requires. -/
def unkeyed : Generator where
  description :=
    { functions := ⟨[("list", { events := [{ http := some (.shorthand "get /pets") }] })]⟩
      custom := { autoswagger := { apiKeyHeaders := ["x-key"], swaggerFiles := ["cats.json"] } } }
  files := { entries := [(⟨false, ["cats.json"]⟩, .file text.toUTF8)] }
where
  text :=
    "\x7b\"securityDefinitions\": \x7b\"basic\": \x7b\"type\": \"basic\"\x7d\x7d, \"paths\": " ++
    "\x7b\"/cats\": \x7b\"get\": \x7b\"security\": [\x7b\"basic\": []\x7d], " ++
    "\"responses\": \x7b\x7d\x7d\x7d\x7d\x7d"

/-- All that is required is defined by the file, and in the end the key header is. -/
theorem secured_unkeyed :
    let d := unkeyed.finish unkeyed.merged.document
    unkeyed.generate = .ok d ∧ unkeyed.merged.document.Secured ∧
      (∀ request ∈ unkeyed.description.requests, ∀ scheme ∈ request.2.requiredSchemes,
        scheme ∈ unkeyed.merged.document.securityDefinitions.keys) ∧
      ¬d.Secured ∧ ∃ p ∈ d.placements, "x-key" ∈ p.operation.requiredSchemes := by
  intro d
  have hruns : unkeyed.merged.failure.isNone = true ∧ unkeyed.merged.document.Secured ∧
      (∀ request ∈ unkeyed.description.requests, ∀ scheme ∈ request.2.requiredSchemes,
        scheme ∈ unkeyed.merged.document.securityDefinitions.keys) ∧
      ¬d.Secured ∧ ∃ p ∈ d.placements, "x-key" ∈ p.operation.requiredSchemes := by decide +kernel
  exact ⟨generate_eq_ok_iff.mpr ⟨Option.isNone_iff_eq_none.mp hruns.1, rfl⟩, hruns.2⟩

/-- The key that the operation of the event requires is defined. -/
theorem generate_secured_keyed :
    let d := unkeyed.finish unkeyed.merged.document
    unkeyed.generate = .ok d ∧ unkeyed.merged.document.Secured ∧
      ∃ p ∈ d.placements, "x-key" ∈ p.operation.requiredSchemes ∧
        "x-key" ∈ d.securityDefinitions.keys := by
  intro d
  obtain ⟨hgenerate, hmerged, hrequests, -, p, hp, hscheme⟩ := secured_unkeyed
  have hheader : "x-key" ∈ unkeyed.description.keyHeaders := List.mem_singleton_self _
  exact ⟨hgenerate, hmerged, p, hp, hscheme,
    (generate_secured hgenerate hmerged hrequests hp hscheme).mpr (.inr (.inr hheader))⟩

/-- The scheme that the operation of the file requires is not defined any more. -/
theorem generate_secured_unkeyed :
    let d := unkeyed.finish unkeyed.merged.document
    unkeyed.generate = .ok d ∧ unkeyed.merged.document.Secured ∧
      (∀ request ∈ unkeyed.description.requests, ∀ scheme ∈ request.2.requiredSchemes,
        scheme ∈ unkeyed.merged.document.securityDefinitions.keys) ∧
      ¬d.Secured := by
  intro d
  obtain ⟨hgenerate, hmerged, hrequests, hopen, -⟩ := secured_unkeyed
  exact ⟨hgenerate, hmerged, hrequests, hopen⟩

end Generator

end ServiceDocs
