import ServiceDocs.Docs.Slot
import ServiceDocs.Generate.Generator
import ServiceDocs.Proofs.Generate.Fragment
import ServiceDocs.Proofs.Generate.Operation

/-!
# Documents That the Library Makes

A document is reachable if it is the empty one, the first one of a generator or read from a
text, or is made of a reachable one by merging a partial document that was read from a text
or by a step of a generator. Every step keeps a document settled and as shallow as a text may
be, so every reachable document is settled. It is therefore read back from its texts, as long
as the digits of its doubles name them.

## Main results

* `Document.Reachable.settled`: the invariant of reachable documents.
* `Generator.reachable_of_generate`: every generated document is reachable.
* `Document.reload_reachable`: reading a reachable document back.
-/

namespace ServiceDocs

variable {d d' : Document}

/-! ### The steps keep documents settled -/

namespace Document

/-- Adding a stable operation keeps a document settled. -/
theorem settled_addOperation (h : d.Settled deepestPart) (path : String) (method : Method)
    {operation : Operation} (ho : Operation.codec.Stable 4 operation) :
    (d.addOperation path method operation).Settled deepestPart := by
  have hpaths := Codec.map_stable_iff (d := 125).mp h.paths
  have hitem : ((d.paths.get? path).getD {}).Settled 124 := by
    cases hget : d.paths.get? path with
    | none => exact PathItem.settled_empty 124
    | some item =>
        exact (PathItem.stable_iff (by decide)).mp
          (hpaths.2 (path, item) (OrderedMap.mem_entries_of_get? hget))
  have hnew :
      PathItem.codec.Stable 125 (((d.paths.get? path).getD {}).withOperation method operation) :=
    (hitem.withOperation method (ho.mono (by decide))).stable
  refine { h with paths := Codec.map_stable_iff.mpr ⟨OrderedMap.distinct_insert hpaths.1 _ _, ?_⟩ }
  intro entry hentry
  rcases OrderedMap.mem_entries_insert hentry with rfl | hentry
  · exact hnew
  · exact hpaths.2 entry hentry

end Document

namespace Generator

open Document (deepestPart)

/-- The document that generation starts from is settled. -/
theorem settled_start (g : Generator) : g.start.Settled deepestPart :=
  { Document.settled_blank 125 with }

/-- The settings for the head keep a document settled. -/
theorem settled_applyOverrides (g : Generator) (h : d.Settled deepestPart) :
    (g.applyOverrides d).Settled deepestPart :=
  { h with }

/-- Merging files keeps a document settled. -/
theorem settled_mergeFiles (files : Files) (paths : List String) (h : d.Settled deepestPart) :
    (mergeFiles files paths d).document.Settled deepestPart :=
  mergeFiles_induction
    (fun hread hm h => Document.settled_of_merge h (isFragment_of_readFragment hread) hm)
    paths h

/-- Collapsing the definitions keeps a document settled. -/
theorem settled_collapseDefinitions (h : d.Settled deepestPart) :
    (collapseDefinitions d).Settled deepestPart := by
  obtain ⟨hd, hentries⟩ := Codec.map_stable_iff (d := 125).mp h.definitions
  refine { h with definitions := Codec.map_stable_iff.mpr ⟨hd.mapValues _, fun entry hentry => ?_⟩ }
  obtain ⟨schema, hschema, rfl⟩ := List.mem_map.mp hentry
  exact Schema.stable_collapse (hentries schema hschema)

/-- Adding the security schemes keeps a document settled. -/
theorem settled_generateSecurity (g : Generator) (h : d.Settled deepestPart) :
    (g.generateSecurity d).Settled deepestPart := by
  have hschemes : ∀ headers, Document.securityCodec.Stable deepestPart (headerSchemes headers) := by
    intro headers
    refine Codec.map_stable_iff.mpr ⟨OrderedMap.distinct_ofList _, fun entry hentry => ?_⟩
    obtain ⟨header, -, rfl⟩ := List.mem_map.mp (OrderedMap.mem_of_mem_ofList hentry)
    exact SecurityDefinition.stable_apiKey _ header .header
  rw [generateSecurity]
  split
  · exact h
  · exact { h with securityDefinitions := hschemes _ }

/-- An operation that is placed is the operation of a request. -/
theorem exists_of_mem_placements {s : ServiceDescription} {p : Placement} (h : p ∈ s.placements) :
    ∃ request ∈ s.requests, ∃ method : Method,
      p = ⟨request.2.documentedPath, method,
        request.2.operation s.keyHeaders request.1 method⟩ := by
  obtain ⟨request, hrequest, hp⟩ := List.mem_filterMap.mp h
  rw [HttpEvent.placement?] at hp
  split at hp
  · exact nomatch hp
  · obtain ⟨method, -, rfl⟩ := Option.map_eq_some_iff.mp hp
    exact ⟨request, hrequest, method, rfl⟩

/-- Adding the operations of a service keeps a document settled. -/
theorem settled_generatePaths (g : Generator) (h : d.Settled deepestPart) :
    (g.generatePaths d).Settled deepestPart := by
  refine List.foldlRecOn (motive := fun d : Document => d.Settled deepestPart)
    g.description.placements place h fun d hd p hp => ?_
  obtain ⟨request, -, method, rfl⟩ := exists_of_mem_placements hp
  exact Document.settled_addOperation hd _ _ (request.2.stable_operation _ request.1 method 0)

end Generator

/-! ### Reachable documents -/

/-- A document that is made by reading, merging and generating. -/
inductive Document.Reachable : Document → Prop
  /-- The document without content. -/
  | blank : Reachable .blank
  /-- The first document of a generator. -/
  | start (g : Generator) : Reachable g.start
  /-- A document that is read from a text. -/
  | ofText {text : String} {d : Document} (h : ofText text = .ok d) : Reachable d
  /-- A document that a partial document from a text was merged into. -/
  | merge {text : String} {fragment : OrderedMap Json} {d d' : Document} (hd : Reachable d)
      (hf : parseFragment text = .ok fragment) (h : d.merge fragment = .ok d') : Reachable d'
  /-- A document with the settings of a service. -/
  | applyOverrides (g : Generator) {d : Document} (hd : Reachable d) :
      Reachable (g.applyOverrides d)
  /-- A document that the files of a service were merged into, as far as they could be. -/
  | mergeSwaggerFiles (g : Generator) {d : Document} (hd : Reachable d) :
      Reachable (g.mergeSwaggerFiles d).document
  /-- A document with collapsed schemas. -/
  | collapseDefinitions {d : Document} (hd : Reachable d) :
      Reachable (Generator.collapseDefinitions d)
  /-- A document with the security schemes of a service. -/
  | generateSecurity (g : Generator) {d : Document} (hd : Reachable d) :
      Reachable (g.generateSecurity d)
  /-- A document with the operations of a service. -/
  | generatePaths (g : Generator) {d : Document} (hd : Reachable d) :
      Reachable (g.generatePaths d)

/-- Every reachable document is settled, and no deeper than a text may be. -/
theorem Document.Reachable.settled (h : d.Reachable) : d.Settled deepestPart := by
  induction h with
  | blank => exact settled_blank 125
  | start g => exact g.settled_start
  | ofText h => exact stable_iff_settled.mp (stable_of_ofText h)
  | merge _ hf h ih => exact settled_of_merge ih (isFragment_of_parseFragment hf) h
  | applyOverrides g _ ih => exact g.settled_applyOverrides ih
  | mergeSwaggerFiles g _ ih => exact Generator.settled_mergeFiles g.files g.fragmentPaths ih
  | collapseDefinitions _ ih => exact Generator.settled_collapseDefinitions ih
  | generateSecurity g _ ih => exact g.settled_generateSecurity ih
  | generatePaths g _ ih => exact g.settled_generatePaths ih

/-- A generated document is made of the merged one by the steps after merging. -/
theorem Generator.generate_eq_ok_iff {g : Generator} :
    g.generate = .ok d ↔ g.merged.failure = none ∧ g.finish g.merged.document = d := by
  rw [generate]
  cases g.merged.failure <;> simp

/-- The document with all files merged is reachable. -/
theorem Generator.reachable_merged (g : Generator) : g.merged.document.Reachable :=
  .mergeSwaggerFiles g (.applyOverrides g (.start g))

/-- Every generated document is reachable. -/
theorem Generator.reachable_of_generate {g : Generator} (h : g.generate = .ok d) : d.Reachable := by
  obtain ⟨-, rfl⟩ := generate_eq_ok_iff.mp h
  exact .generatePaths g (.generateSecurity g (.collapseDefinitions g.reachable_merged))

/-- A reachable document whose doubles are read back is read back from both of its texts. -/
theorem Document.Reachable.parse_text (h : d.Reachable)
    (hdoubles : ∀ x ∈ d.toJson.doubles, (Json.number (.float x)).Rereads) :
    Slot.parse d.compact = .ok d ∧ Slot.parse d.pretty = .ok d := by
  obtain ⟨hcompact, hpretty⟩ := ofText_text (stable_iff_settled.mpr h.settled) hdoubles
  rw [Slot.parse, Slot.parse, hcompact, hpretty]
  exact ⟨rfl, rfl⟩

/-- Every generated document is reachable, and every reachable document whose doubles are read
back is read back from both of its texts. A handler therefore gives the same response over
what is read back. -/
theorem Document.reload :
    (∀ (g : Generator) (d : Document), g.generate = .ok d → d.Reachable) ∧
      ∀ d : Document, d.Reachable →
        (∀ x ∈ d.toJson.doubles, (Json.number (.float x)).Rereads) →
        Slot.parse d.compact = .ok d ∧ Slot.parse d.pretty = .ok d ∧
          ∀ text ∈ [d.compact, d.pretty], ∀ r, Slot.parse text = .ok r → ∀ namesContentType,
            DocumentHandler.respond ⟨r, namesContentType⟩ =
              DocumentHandler.respond ⟨d, namesContentType⟩ := by
  refine ⟨fun g d h => Generator.reachable_of_generate h, fun d h hdoubles => ?_⟩
  obtain ⟨hcompact, hpretty⟩ := h.parse_text hdoubles
  refine ⟨hcompact, hpretty, fun text htext r hr namesContentType => ?_⟩
  have htext : Slot.parse text = .ok d := by
    rcases List.mem_cons.mp htext with rfl | htext
    · exact hcompact
    · exact List.mem_singleton.mp htext ▸ hpretty
  rw [Except.ok.inj (hr.symm.trans htext)]

/-- A service with a key header, a request and a file with a double and alternatives. -/
def Generator.sample : Generator where
  description :=
    { service := .name "pets"
      functions := ⟨[("list", { events := [{ http := some (.shorthand "get /pets") }] })]⟩
      custom := { autoswagger := { apiKeyHeaders := ["x-key"], swaggerFiles := ["pets.json"] } } }
  files := { entries := [(⟨false, ["pets.json"]⟩, .file sampleText.toUTF8)] }
where
  sampleText :=
    "\x7b\"x-rate\": 1.5, " ++
    "\"definitions\": \x7b\"Size\": \x7b\"anyOf\": [\x7b\"const\": 1\x7d]\x7d\x7d\x7d"

/-- The document of the sample is reachable, has a double and is read back. -/
theorem Document.reload_sample :
    let d := Generator.sample.finish Generator.sample.merged.document
    Generator.sample.generate = .ok d ∧ d.Reachable ∧ d.toJson.doubles.length = 1 ∧
      Slot.parse d.compact = .ok d ∧ Slot.parse d.pretty = .ok d := by
  intro d
  obtain ⟨hfailure, hlength, hdoubles⟩ : Generator.sample.merged.failure.isNone = true ∧
      d.toJson.doubles.length = 1 ∧
        ∀ x ∈ d.toJson.doubles, (Json.number (.float x)).Rereads := by decide +kernel
  have hgenerate : Generator.sample.generate = .ok d :=
    Generator.generate_eq_ok_iff.mpr ⟨Option.isNone_iff_eq_none.mp hfailure, rfl⟩
  have hreachable := reload.1 Generator.sample d hgenerate
  obtain ⟨hcompact, hpretty, -⟩ := reload.2 d hreachable hdoubles
  exact ⟨hgenerate, hreachable, hlength, hcompact, hpretty⟩

end ServiceDocs
