import ServiceDocs.Proofs.Generate.Placement
import ServiceDocs.Proofs.Generate.Reachable

/-!
# Generating Again

A generated document may be kept in a file and named as the last partial document of its own
service. Generating again then gives the same document: what the file says is laid over what
the other files made, where it replaces every part that the later steps had changed, and these
steps change nothing of their own result.

The digits of a double do not always name it, so the file holds the document only if those of
its doubles do.

## Main definitions

* `Generator.withLastFile`: a generator with one more file.

## Main results

* `Document.merge_members`: a document is what its own members make of an earlier one.
* `Generator.finish_finish`: the steps after merging change nothing of their result.
* `Generator.generate_withLastFile`: generating again gives the same document.
* `Generator.generate_withLastFile_drifting`: digits that do not name their double.
-/

namespace ServiceDocs

/-! ### The members of a document as a partial document -/

namespace Document

variable {d d' : Document}

/-- What is written of a settled document is a partial document that a text can hold. -/
theorem isFragment_members (h : d.Settled deepestPart) : IsFragment d.toJson.members := by
  have hstable := stable_iff_settled.mpr h
  exact Codec.jsonMap_stable_iff.mpr ⟨hstable.sound, hstable.depth_le⟩

/-- The text of a settled document is read as its members. -/
theorem parseFragment_text (h : d.Settled deepestPart)
    (hdoubles : ∀ x ∈ d.toJson.doubles, (Json.number (.float x)).Rereads) {text : String}
    (htext : text ∈ [d.compact, d.pretty]) : parseFragment text = .ok d.toJson.members := by
  have hwrite : (Codec.map .json).write d.toJson.members = d.toJson := Codec.jsonMap_write _
  have hsound : d.toJson.Sound := (stable_iff_settled.mpr h).sound
  have hread := (isFragment_members h).ofText (Codec.jsonMap_regular _)
    (hwrite.symm ▸ hsound.legible hdoubles)
  rw [hwrite] at hread
  rcases List.mem_cons.mp htext with rfl | htext
  · exact hread.1
  · obtain rfl := List.mem_singleton.mp htext
    exact hread.2

/-- What a document says under the name of a field that it writes. -/
theorem get?_members (h : d.Settled deepestPart) {f : Field Document} (hf : f ∈ record.fields) :
    d.toJson.members.get? f.name = f.write d :=
  (record_settled (by decide) h).findEntry_members lawful hf

/-- The members of a document that are no fields are its extensions. -/
theorem get?_others_members (h : d.Settled deepestPart) {name : String} {v : Json}
    (hv : (name, v) ∈ (record.others (headMembers d.toJson.members)).entries) :
    d.extensions.get? name = some v := by
  obtain ⟨hhead, hname⟩ := List.mem_filter.mp hv
  have hmember := headMembers_subset (isFragment_members h).distinct _ hhead
  have hsettled := record_settled (by decide) h
  have hview : OrderedMap.findEntry name (record.members d) = some v :=
    OrderedMap.findEntry_of_mem (hsettled.nodup_members lawful) hmember
  rwa [Record.findEntry_members_of_notMem (by simpa using hname)] at hview

/-- The part of a document that is merged key by key replaces what it continues. -/
theorem extendPart_write {α : Type} {c : Codec α} {n : Nat} {m part : OrderedMap α}
    (hpart : (Codec.map c).Stable (n + 1) part) (hkeys : m.keys <+: part.keys) :
    ∃ read, readPart (Codec.map c) (some ((Codec.map c).write part)) = .ok read ∧
      part = extendPart m read :=
  ⟨some part, by rw [readPart, hpart.reread]; rfl,
    (OrderedMap.extend_eq_of_prefix (Codec.map_stable_iff.mp hpart).1 hkeys).symm⟩

/-- A document that continues another one is what its members make of that one. -/
theorem merge_members (hd : d.Settled deepestPart) (hd' : d'.Settled deepestPart)
    (hpaths : d.paths.keys <+: d'.paths.keys)
    (hdefinitions : d.definitions.keys <+: d'.definitions.keys)
    (hextensions : d'.extensions = d.extensions)
    (homitted : ∀ f ∈ record.fields, f.omits (f.get d') = true → f.get d' = f.get d) :
    d.merge d'.toJson.members = .ok d' := by
  have hfits := (record_settled (by decide) hd').fits lawful
  refine (merge_iff (by decide) hd (isFragment_members hd')).mpr ?_
  refine ⟨?_, ?_, fun f hf _ v hv => hfits.given f hf v hv, fun f hf _ hnone => ?_, ?_⟩
  · have hwrite : d'.toJson.members.get? "paths" = some (pathsCodec.write d'.paths) :=
      get?_members hd' pathsField_mem
    rw [hwrite]
    exact extendPart_write hd'.paths hpaths
  · have hwrite :
        d'.toJson.members.get? "definitions" = some (definitionsCodec.write d'.definitions) :=
      get?_members hd' definitionsField_mem
    rw [hwrite]
    exact extendPart_write hd'.definitions hdefinitions
  · rw [get?_members hd' hf] at hnone
    refine homitted f hf ?_
    rw [Field.write] at hnone
    cases h : f.omits (f.get d') with
    | true => rfl
    | false => simp [h] at hnone
  · rw [← hextensions]
    exact (OrderedMap.extend_eq_self fun entry hentry => get?_others_members hd' hentry).symm

end Document

/-! ### The steps after merging -/

namespace Generator

variable {d : Document}

/-- What the steps after merging change. -/
theorem finish_eq (g : Generator) (d : Document) :
    g.finish d =
      { d with
        paths := (g.finish d).paths, securityDefinitions := (g.finish d).securityDefinitions,
        definitions := d.definitions.mapValues Schema.collapse } := by
  rw [finish, generatePaths_eq, generateSecurity]
  split <;> rfl

/-- Adding the security schemes leaves the paths as they are. -/
theorem paths_generateSecurity (g : Generator) (d : Document) :
    (g.generateSecurity d).paths = d.paths := by
  rw [generateSecurity]
  split <;> rfl

/-- The paths that are there keep their places. -/
theorem keys_prefix_finish (g : Generator) (d : Document) :
    d.paths.keys <+: (g.finish d).paths.keys := by
  have h := g.keys_prefix_generatePaths (g.generateSecurity (collapseDefinitions d))
  rwa [paths_generateSecurity] at h

/-- Schemas that were collapsed stay as they are. -/
theorem collapseDefinitions_finish (g : Generator) (d : Document) :
    collapseDefinitions (g.finish d) = g.finish d := by
  have htwice : (d.definitions.mapValues Schema.collapse).mapValues Schema.collapse =
      d.definitions.mapValues Schema.collapse := by
    simp only [OrderedMap.mapValues, List.map_map, Function.comp_def, Schema.collapse_collapse]
  rw [finish_eq, collapseDefinitions, htwice]

/-- Security schemes of headers stay as they are, whatever operations are added. -/
theorem generateSecurity_finish (g : Generator) (d : Document) :
    g.generateSecurity (g.finish d) = g.finish d := by
  rw [finish, generatePaths_eq, generateSecurity, generateSecurity]
  split <;> rfl

/-- The steps after merging change nothing of their result. -/
theorem finish_finish (g : Generator) (d : Document) : g.finish (g.finish d) = g.finish d := by
  conv_lhs => rw [finish, collapseDefinitions_finish, generateSecurity_finish]
  exact g.generatePaths_generatePaths _

/-- What a generator makes of a document continues it. -/
theorem merge_members_finish (g : Generator) (h : d.Settled Document.deepestPart) :
    d.merge (g.finish d).toJson.members = .ok (g.finish d) := by
  have hfinish : (g.finish d).Settled Document.deepestPart :=
    g.settled_generatePaths (g.settled_generateSecurity (settled_collapseDefinitions h))
  refine Document.merge_members h hfinish (g.keys_prefix_finish d) ?_ ?_ ?_
  · have hkeys : (g.finish d).definitions.keys = d.definitions.keys := by
      rw [finish_eq, OrderedMap.keys_mapValues]
    exact hkeys.symm ▸ List.prefix_rfl
  · rw [finish_eq]
  · -- the fields that were changed are never left out
    rw [finish_eq]
    simp only [Document.record, List.forall_mem_cons]
    exact ⟨fun _ => rfl, fun _ => rfl, fun _ => rfl, fun _ => rfl, fun _ => rfl, fun _ => rfl,
      (absurd · Bool.false_ne_true), (absurd · Bool.false_ne_true), (absurd · Bool.false_ne_true),
      fun _ => rfl, List.forall_mem_nil _⟩

end Generator

/-! ### One more file -/

/-- A file with the bytes of a text is read as this text. -/
theorem Files.readText_of_find? {files : Files} {path text : String} {place : Place}
    (hplace : files.locate path = .ok place)
    (hfind : files.find? place = some (.file text.toUTF8)) : files.readText path = .ok text := by
  have htext : String.fromUTF8? text.toUTF8 = some text := dif_pos text.isValidUTF8
  simp only [readText, hplace, ok_bind, hfind, htext]
  rfl

/-- Merging looks at files only through what is read from them. -/
theorem mergeFiles_congr {files files' : Files} {paths : List String}
    (h : ∀ path ∈ paths, files'.readText path = files.readText path) (d : Document) :
    mergeFiles files' paths d = mergeFiles files paths d := by
  induction paths generalizing d with
  | nil => rfl
  | cons path rest ih =>
      obtain ⟨hpath, hrest⟩ := List.forall_mem_cons.mp h
      have hfile : mergeFile files' path = mergeFile files path := by
        rw [mergeFile, mergeFile, readFragment, readFragment, hpath]
      cases hrun : (mergeFile files path).run d with
      | ok _ merged =>
          rw [mergeFiles_cons_of_ok rest hrun, mergeFiles_cons_of_ok rest (hfile ▸ hrun), ih hrest]
      | error failure d' =>
          rw [mergeFiles_cons_of_error rest hrun, mergeFiles_cons_of_error rest (hfile ▸ hrun)]

namespace Generator

variable {g : Generator} {d : Document} {files : Files} {path text : String}

/-- A generator whose service names one more file, the last one, among other files. -/
def withLastFile (path : String) (files : Files) (g : Generator) : Generator :=
  let settings := g.description.settings
  { g with
    files
    description := { g.description with
      custom := { g.description.custom with
        autoswagger := { settings with swaggerFiles := settings.swaggerFiles ++ [path] } } } }

/-- The last file is merged into what the others made of the document. -/
theorem merged_withLastFile (h : g.merged.failure = none)
    (hfiles : ∀ p ∈ g.fragmentPaths, files.readText p = g.files.readText p) :
    (g.withLastFile path files).merged =
      mergeFiles files [resolvePath g.baseDirectory path] g.merged.document := by
  have hpaths : (g.withLastFile path files).fragmentPaths =
      g.fragmentPaths ++ [resolvePath g.baseDirectory path] := List.map_append
  have hmerged : mergeFiles files g.fragmentPaths (g.applyOverrides g.start) = g.merged :=
    mergeFiles_congr hfiles _
  have hall : (g.withLastFile path files).merged =
      mergeFiles files (g.withLastFile path files).fragmentPaths (g.applyOverrides g.start) := rfl
  rw [hall, hpaths, mergeFiles_append, hmerged, h]

/-- A generated document whose doubles are read back may be added to the files of its service, in
either of its texts: generating then gives the same document again. -/
theorem generate_withLastFile (h : g.generate = .ok d)
    (hdoubles : ∀ x ∈ d.toJson.doubles, (Json.number (.float x)).Rereads)
    (hfiles : ∀ p ∈ g.fragmentPaths, files.readText p = g.files.readText p)
    (htext : text ∈ [d.compact, d.pretty])
    (hlast : files.readText (resolvePath g.baseDirectory path) = .ok text) :
    (g.withLastFile path files).generate = .ok d := by
  obtain ⟨hfailure, rfl⟩ := generate_eq_ok_iff.mp h
  have hsettled := g.reachable_merged.settled
  have hread : readFragment files (resolvePath g.baseDirectory path) =
      .ok (g.finish g.merged.document).toJson.members := by
    have hparse := Document.parseFragment_text (reachable_of_generate h).settled hdoubles htext
    rw [readFragment, hlast]
    exact inFragment_eq_ok.mpr hparse
  have hrun := run_mergeFile_eq_ok_iff.mpr ⟨_, hread, g.merge_members_finish hsettled⟩
  have hmerged :
      (g.withLastFile path files).merged = { document := g.finish g.merged.document } := by
    rw [merged_withLastFile hfailure hfiles, mergeFiles_cons_of_ok [] hrun, mergeFiles_nil]
  have hfinish : ∀ d, (g.withLastFile path files).finish d = g.finish d := fun _ => rfl
  refine generate_eq_ok_iff.mpr ?_
  rw [hmerged, hfinish]
  exact ⟨rfl, g.finish_finish _⟩

/-- The files of a generator and one more, `again.json`, with the compact text of its document. -/
def filesWithText (g : Generator) : Files :=
  { entries := (⟨false, ["again.json"]⟩, .file (g.finish g.merged.document).compact.toUTF8) ::
      g.files.entries }

/-- The file with the text is read. -/
theorem readText_filesWithText (g : Generator)
    (h : g.filesWithText.locate "again.json" = .ok ⟨false, ["again.json"]⟩) :
    g.filesWithText.readText "again.json" = .ok (g.finish g.merged.document).compact :=
  Files.readText_of_find? h rfl

/-- The sample generates its document again. -/
theorem generate_withLastFile_sample :
    let d := sample.finish sample.merged.document
    sample.generate = .ok d ∧ d.toJson.doubles.length = 1 ∧
      (sample.withLastFile "again.json" sample.filesWithText).generate = .ok d := by
  intro d
  obtain ⟨hfailure, hlength, hdoubles⟩ : sample.merged.failure.isNone = true ∧
      d.toJson.doubles.length = 1 ∧
        ∀ x ∈ d.toJson.doubles, (Json.number (.float x)).Rereads := by decide +kernel
  have hgenerate : sample.generate = .ok d :=
    generate_eq_ok_iff.mpr ⟨Option.isNone_iff_eq_none.mp hfailure, rfl⟩
  have hfiles : ∀ p ∈ sample.fragmentPaths,
      sample.filesWithText.readText p = sample.files.readText p := by decide +kernel
  have hlast : sample.filesWithText.readText (resolvePath sample.baseDirectory "again.json") =
      .ok d.compact := sample.readText_filesWithText (by decide +kernel)
  exact ⟨hgenerate, hlength,
    generate_withLastFile hgenerate hdoubles hfiles List.mem_cons_self hlast⟩

/-- A service whose file has a double that its shortest digits do not name: they are read as its
neighbour. -/
def drifting : Generator where
  description :=
    { service := .name "pets", custom := { autoswagger := { swaggerFiles := ["rates.json"] } } }
  files := { entries := [(⟨false, ["rates.json"]⟩, .file text.toUTF8)] }
where
  text := "\x7b\"x-rate\": 0.91370285873357736\x7d"

/-- Digits that do not name their double make another document. -/
theorem generate_withLastFile_drifting :
    let d := drifting.finish drifting.merged.document
    drifting.generate = .ok d ∧
      (∀ p ∈ drifting.fragmentPaths,
        drifting.filesWithText.readText p = drifting.files.readText p) ∧
      drifting.filesWithText.readText (resolvePath drifting.baseDirectory "again.json") =
        .ok d.compact ∧
      (drifting.withLastFile "again.json" drifting.filesWithText).generate ≠ .ok d := by
  intro d
  have hfailure : drifting.merged.failure = none :=
    Option.isNone_iff_eq_none.mp (by decide +kernel)
  have hdoubles :
      (drifting.withLastFile "again.json" drifting.filesWithText).generate.toOption.map
        (·.toJson.doubles) ≠ some d.toJson.doubles := by decide +kernel
  refine ⟨generate_eq_ok_iff.mpr ⟨hfailure, rfl⟩, by decide +kernel,
    drifting.readText_filesWithText (by decide +kernel), ?_⟩
  intro hsame
  exact hdoubles (hsame ▸ rfl)

end Generator

end ServiceDocs
