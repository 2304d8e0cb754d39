import ServiceDocs.Proofs.Document.Loading
import ServiceDocs.Proofs.Generate.Atomic
import ServiceDocs.Proofs.Generate.Reachable

/-!
# Files That Are Accepted

Whether the file of a service is accepted is a question about this file alone: it must be a
text, the text that of an object, and the object one that can be merged into the document
without content. What other files and the settings of the service made of the document before
does not matter, and no event of a function can fail. So a document is generated exactly if
every file is good on its own, and otherwise the first one that is not is named.

## Main definitions

* `GoodFile`: a file that can be merged into the document without content.

## Main results

* `run_mergeFile_iff_goodFile`: good files are those that any settled document accepts.
* `Generator.generate_accepts`: when a document is generated, and what is reported otherwise.
-/

namespace ServiceDocs

open Document (deepestPart)

/-- A file that is good on its own: a text of an object that can be merged into the document
without content. -/
def GoodFile (files : Files) (path : String) : Prop :=
  ∃ fragment d, HoldsObject files path fragment ∧ Document.blank.merge fragment = .ok d

variable {files : Files} {path : String} {d : Document}

/-- The file that a failure is about: one that cannot be read, or one that can be read and holds
no partial document that can be merged. -/
inductive Failure.Blames (files : Files) (path : String) : Failure → Prop
  /-- The file cannot be read as text. -/
  | file {fault : FileFault} (h : files.readText path = .error fault) :
      Blames files path (.file path fault)
  /-- The text of the file is no valid partial document. -/
  | fragment {text : String} (h : files.readText path = .ok text) (fault : Fault) :
      Blames files path (.fragment path fault)

/-! ### One file -/

/-- A file is accepted by a settled document exactly if it is good on its own. -/
theorem run_mergeFile_iff_goodFile (h : d.Settled deepestPart) :
    (∃ d', (mergeFile files path).run d = .ok () d') ↔ GoodFile files path := by
  have haccepts : ∀ fragment, readFragment files path = .ok fragment →
      ((∃ d', d.merge fragment = .ok d') ↔ ∃ d', Document.blank.merge fragment = .ok d') := by
    intro fragment hread
    have hs := (isFragment_of_readFragment hread).sound_ofMap
    rw [Document.exists_merge_iff (by decide) h hs,
      Document.exists_merge_iff (Nat.le_refl 3) (Document.settled_blank 2) hs]
  constructor
  · rintro ⟨d', hrun⟩
    obtain ⟨fragment, hread, hmerge⟩ := run_mergeFile_eq_ok_iff.mp hrun
    obtain ⟨made, hmade⟩ := (haccepts fragment hread).mp ⟨d', hmerge⟩
    exact ⟨fragment, made, readFragment_eq_ok_iff.mp hread, hmade⟩
  · rintro ⟨fragment, made, hholds, hmade⟩
    have hread := readFragment_eq_ok_iff.mpr hholds
    obtain ⟨d', hmerge⟩ := (haccepts fragment hread).mpr ⟨made, hmade⟩
    exact ⟨d', run_mergeFile_eq_ok_iff.mpr ⟨fragment, hread, hmerge⟩⟩

/-- What is reported of a file that holds no partial document. -/
theorem blames_of_readFragment {failure : Failure} (h : readFragment files path = .error failure) :
    failure.Blames files path := by
  rw [readFragment] at h
  split at h
  · next text htext =>
      cases hparse : parseFragment text with
      | error fault =>
          rw [hparse, inFragment] at h
          exact Except.error.inj h ▸ .fragment htext fault
      | ok fragment =>
          rw [hparse, inFragment] at h
          cases h
  · next fault htext => exact Except.error.inj h ▸ .file htext

/-- What is reported of a file that is not merged. -/
theorem blames_of_run_mergeFile {failure : Failure} {d' : Document}
    (h : (mergeFile files path).run d = .error failure d') : failure.Blames files path := by
  cases hread : readFragment files path with
  | error reported =>
      rw [run_mergeFile_of_error hread] at h
      obtain ⟨rfl, -⟩ := EStateM.Result.error.inj h
      exact blames_of_readFragment hread
  | ok fragment =>
      obtain ⟨text, htext, -⟩ := readFragment_eq_ok_iff.mp hread
      rw [run_mergeFile_of_ok hread] at h
      split at h
      · exact nomatch h
      · next fault _ =>
          obtain ⟨rfl, -⟩ := EStateM.Result.error.inj h
          exact .fragment htext fault

/-! ### Several files -/

/-- All files are merged into a settled document exactly if all are good. -/
theorem failure_mergeFiles_eq_none_iff (paths : List String) (h : d.Settled deepestPart) :
    (mergeFiles files paths d).failure = none ↔ ∀ path ∈ paths, GoodFile files path := by
  -- a good file leaves a settled document, and what is good does not depend on the document
  induction paths generalizing d with
  | nil => simp
  | cons path rest ih =>
      have hgood : (∃ d', (mergeFile files path).run d = .ok () d') ↔ GoodFile files path :=
        run_mergeFile_iff_goodFile h
      rw [List.forall_mem_cons, ← hgood]
      cases hfile : (mergeFile files path).run d with
      | error failure d' =>
          rw [mergeFiles_cons_of_error rest hfile]
          simp
      | ok _ merged =>
          obtain ⟨fragment, hread, hmerge⟩ := run_mergeFile_eq_ok_iff.mp hfile
          have hmerged := Document.settled_of_merge h (isFragment_of_readFragment hread) hmerge
          rw [mergeFiles_cons_of_ok rest hfile, ih hmerged]
          simp

/-- A merge of files that fails blames the first file that is not good. -/
theorem exists_of_failure_mergeFiles {paths : List String} {failure : Failure}
    (h : d.Settled deepestPart) (hfailure : (mergeFiles files paths d).failure = some failure) :
    ∃ k path, paths[k]? = some path ∧ (∀ earlier ∈ paths.take k, GoodFile files earlier) ∧
      ¬GoodFile files path ∧ failure.Blames files path := by
  have hfailed : mergeFiles files paths d =
      { document := (mergeFiles files paths d).document, failure := some failure } := by
    rw [← hfailure]
  obtain ⟨k, path, hk, hbefore, hrun⟩ := mergeFiles_eq_failure_iff.mp hfailed
  have hleft : (mergeFiles files paths d).document.Settled deepestPart :=
    Generator.settled_mergeFiles files paths h
  refine ⟨k, path, hk, ?_, fun hgood => ?_, blames_of_run_mergeFile hrun⟩
  · exact (failure_mergeFiles_eq_none_iff _ h).mp (by rw [hbefore])
  · obtain ⟨d', haccepted⟩ := (run_mergeFile_iff_goodFile hleft).mpr hgood
    exact nomatch hrun.symm.trans haccepted

/-- The files of a service are looked for where their names lead. -/
theorem Generator.resolves_fragmentPaths (g : Generator) :
    List.Forall₂ (Resolves g.baseDirectory) g.description.settings.swaggerFiles
      g.fragmentPaths := by
  rw [fragmentPaths, List.forall₂_map_right_iff, List.forall₂_same]
  exact fun name _ => resolves_resolvePath g.baseDirectory name

/-- The files of a service are looked for where their names lead: at the name itself if it is
absolute or there is no directory, and below the directory otherwise. A document is generated
exactly if every one of these files is good on its own. Otherwise the first file that is not is
named, with whether it could be read. No document that can come about accepts other files than
these. -/
theorem Generator.generate_accepts (g : Generator) :
    List.Forall₂ (Resolves g.baseDirectory) g.description.settings.swaggerFiles g.fragmentPaths ∧
      ((∃ d, g.generate = .ok d) ↔ ∀ path ∈ g.fragmentPaths, GoodFile g.files path) ∧
      (∀ failure, g.generate = .error failure →
        ∃ k path, g.fragmentPaths[k]? = some path ∧
          (∀ earlier ∈ g.fragmentPaths.take k, GoodFile g.files earlier) ∧
          ¬GoodFile g.files path ∧ failure.Blames g.files path) ∧
      ∀ d : Document, d.Reachable → ∀ path,
        (∃ d', (mergeFile g.files path).run d = .ok () d') ↔ GoodFile g.files path := by
  have hstart := g.settled_applyOverrides g.settled_start
  refine ⟨g.resolves_fragmentPaths, ?_, fun failure hfailure => ?_,
    fun d hd path => run_mergeFile_iff_goodFile hd.settled⟩
  · rw [← failure_mergeFiles_eq_none_iff g.fragmentPaths hstart]
    simp only [generate_eq_ok_iff, exists_and_left, exists_eq', and_true]
    rfl
  · refine exists_of_failure_mergeFiles hstart ?_
    rw [generate] at hfailure
    show g.merged.failure = some failure
    cases hmerged : g.merged.failure with
    | none =>
        rw [hmerged] at hfailure
        cases hfailure
    | some reported =>
        rw [hmerged] at hfailure
        exact congrArg some (Except.error.inj hfailure)

/-- A service in a directory of its own that names two files there and an absolute one. The second
file of the directory has a host that is no text. -/
def Generator.nested : Generator where
  description :=
    { service := .name "pets"
      custom := { autoswagger :=
        { swaggerFiles := ["pets.json", "/shared/keys.json", "owners.json"] } } }
  files := { entries := [
    (⟨false, ["docs"]⟩, .directory), (⟨true, ["shared"]⟩, .directory),
    (⟨false, ["pets.json", "docs"]⟩, .file valid.toUTF8),
    (⟨true, ["keys.json", "shared"]⟩, .file valid.toUTF8),
    (⟨false, ["owners.json", "docs"]⟩, .file invalid.toUTF8)] }
  baseDirectory := some "docs"
where
  valid := "\x7b\"host\": \"pets.example\"\x7d"
  invalid := "\x7b\"host\": false\x7d"

/-- The third file that the service names is the first one that is not good, and it is named with
the directory. -/
theorem Generator.generate_accepts_nested :
    let paths := ["docs/pets.json", "/shared/keys.json", "docs/owners.json"]
    List.Forall₂ (Resolves (some "docs")) ["pets.json", "/shared/keys.json", "owners.json"] paths ∧
      ∃ failure k, nested.generate = .error failure ∧ paths[k]? = some "docs/owners.json" ∧
        (∀ earlier ∈ paths.take k, GoodFile nested.files earlier) ∧
        ¬GoodFile nested.files "docs/owners.json" ∧
        failure.Blames nested.files "docs/owners.json" := by
  intro paths
  obtain ⟨hpaths, hnamed⟩ : nested.fragmentPaths = paths ∧
      (match nested.generate with
        | .error (.fragment path _) => path
        | _ => "") = "docs/owners.json" := by decide +kernel
  have hother : "" ≠ "docs/owners.json" := by decide
  obtain ⟨hresolves, -, hfails, -⟩ := generate_accepts nested
  rw [hpaths] at hresolves hfails
  cases hgenerate : nested.generate with
  | ok d =>
      rw [hgenerate] at hnamed
      exact absurd hnamed hother
  | error failure =>
      obtain ⟨k, path, hk, hearlier, hbad, hblames⟩ := hfails failure hgenerate
      rw [hgenerate] at hnamed
      obtain rfl : path = "docs/owners.json" := by
        cases hblames with
        | file _ => exact absurd hnamed hother
        | fragment _ _ => exact hnamed
      exact ⟨hresolves, failure, k, rfl, hk, hearlier, hbad, hblames⟩

end ServiceDocs
