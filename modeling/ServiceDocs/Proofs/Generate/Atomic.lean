import ServiceDocs.Generate.Generator
import ServiceDocs.Proofs.Generate.Fragment

/-!
# Files That Cannot Be Merged

A generator whose files cannot all be merged is left with the document of the files before the
one that fails. The steps that are taken afterwards start from that document.

## Main definitions

* `Generator.Step`, `Generator.perform`, `Generator.performAll`: the steps that the owner of a
  generator takes.

## Main results

* `mergeFiles_eq_failure_iff`: when merging files fails, and with which document.
* `Generator.mergeSwaggerFiles_atomic`: a merge that fails leaves nothing behind.
-/

namespace ServiceDocs

variable {files : Files}

/-- Merging files fails with the first of them that cannot be merged into what those before it
made of the document, and leaves that document. -/
theorem mergeFiles_eq_failure_iff {paths : List String} {d left : Document} {failure : Failure} :
    mergeFiles files paths d = { document := left, failure := some failure } ↔
      ∃ k path, paths[k]? = some path ∧ mergeFiles files (paths.take k) d = { document := left } ∧
        (mergeFile files path).run left = .error failure left := by
  constructor
  · intro h
    induction paths generalizing d with
    | nil =>
        rw [mergeFiles_nil, Progress.mk.injEq] at h
        exact nomatch h.2
    | cons path rest ih =>
        cases hfile : (mergeFile files path).run d with
        | error failed d' =>
            obtain rfl := atomic_mergeFile files path hfile
            rw [mergeFiles_cons_of_error rest hfile] at h
            obtain ⟨rfl, hfailure⟩ := Progress.mk.inj h
            obtain rfl := Option.some.inj hfailure
            exact ⟨0, path, rfl, rfl, hfile⟩
        | ok _ merged =>
            rw [mergeFiles_cons_of_ok rest hfile] at h
            obtain ⟨k, failing, hk, hbefore, hfailing⟩ := ih h
            refine ⟨k + 1, failing, hk, ?_, hfailing⟩
            rw [List.take_succ_cons, mergeFiles_cons_of_ok _ hfile, hbefore]
  · rintro ⟨k, path, hk, hbefore, hfailing⟩
    obtain ⟨hlt, rfl⟩ := List.getElem?_eq_some_iff.mp hk
    have hsplit : paths = paths.take k ++ paths[k] :: paths.drop (k + 1) := by
      rw [← List.drop_eq_getElem_cons hlt, List.take_append_drop]
    rw [hsplit, mergeFiles_append, hbefore]
    exact mergeFiles_cons_of_error _ hfailing

/-! ### The steps of a generator -/

namespace Generator

/-- A step that the owner of a generator may take. -/
inductive Step
  /-- Copies the settings of the documentation. -/
  | applyOverrides
  /-- Merges the files with partial documents. -/
  | mergeSwaggerFiles
  /-- Replaces the security schemes. -/
  | generateSecurity
  /-- Adds the operations of the service. -/
  | generatePaths

/-- What a step leaves of a document. -/
def perform (g : Generator) (d : Document) : Step → Progress
  | .applyOverrides => { document := g.applyOverrides d }
  | .mergeSwaggerFiles => g.mergeSwaggerFiles d
  | .generateSecurity => { document := g.generateSecurity d }
  | .generatePaths => { document := g.generatePaths d }

/-- The document after several steps, if each is taken however the one before it ended. -/
def performAll (g : Generator) (steps : List Step) (d : Document) : Document :=
  steps.foldl (fun d step => (g.perform d step).document) d

/-- A merge that fails leaves the document alone. The files of a generator fail with the first
one that cannot be merged into what those before it made of the document, and this is the
document that all later steps start from. -/
theorem mergeSwaggerFiles_atomic :
    (∀ (fragment : OrderedMap Json) (d d' : Document) (fault : Fault),
        (Document.mergeFragment fragment).run d = .error fault d' → d' = d) ∧
      ∀ (g : Generator) (d left : Document) (failure : Failure),
        (g.mergeSwaggerFiles d = { document := left, failure := some failure } ↔
          ∃ k path, g.fragmentPaths[k]? = some path ∧
            mergeFiles g.files (g.fragmentPaths.take k) d = { document := left } ∧
            (mergeFile g.files path).run left = .error failure left) ∧
        (g.mergeSwaggerFiles d = { document := left, failure := some failure } →
          ∀ later, g.performAll (.mergeSwaggerFiles :: later) d = g.performAll later left) := by
  refine ⟨fun fragment d d' fault h => Document.atomic_mergeFragment fragment h, ?_⟩
  intro g d left failure
  refine ⟨mergeFiles_eq_failure_iff, fun h later => ?_⟩
  rw [performAll, List.foldl_cons, perform, h]
  rfl

/-- A service whose second file has valid paths and a host that is no text. -/
def failing : Generator where
  description :=
    { service := .name "pets", custom := { autoswagger := { swaggerFiles := ["a", "b", "c"] } } }
  files :=
    { entries := [(⟨false, ["a"]⟩, .file valid.toUTF8), (⟨false, ["b"]⟩, .file invalid.toUTF8)] }
where
  valid := "\x7b\"host\": \"pets.example\"\x7d"
  invalid := "\x7b\"paths\": \x7b\"/pets\": \x7b\x7d\x7d, \"host\": false\x7d"
  invalidMembers : OrderedMap Json :=
    ⟨[("paths", .object [("/pets", .object [])]), ("host", .bool false)]⟩

/-- The second file of the service fails, whatever it says about paths, and what comes later
starts from the document of the first one. -/
theorem mergeSwaggerFiles_atomic_failing :
    (∃ fault d', (Document.mergeFragment failing.invalidMembers).run failing.start =
        .error fault d' ∧ d' = failing.start) ∧
      ∃ (left : Document) (failure : Failure) (k : Nat) (path : String),
        failing.mergeSwaggerFiles failing.start = { document := left, failure := some failure } ∧
        left.host = some "pets.example" ∧ left.paths.entries.length = 0 ∧
        failing.fragmentPaths[k]? = some path ∧
        (mergeFile failing.files path).run left = .error failure left ∧
        failing.performAll [.mergeSwaggerFiles, .generatePaths] failing.start =
          failing.performAll [.generatePaths] left := by
  constructor
  · have herror : (failing.start.merge failing.invalidMembers).toOption.isNone = true := by
      decide +kernel
    have hrun := Document.run_mergeFragment failing.invalidMembers failing.start
    cases hmerge : failing.start.merge failing.invalidMembers with
    | ok merged =>
        rw [hmerge] at herror
        exact nomatch herror
    | error fault =>
        rw [hmerge] at hrun
        exact ⟨fault, _, hrun, mergeSwaggerFiles_atomic.1 _ _ _ fault hrun⟩
  · obtain ⟨hsome, hhost, hpaths⟩ :
        (failing.mergeSwaggerFiles failing.start).failure.isSome = true ∧
          (failing.mergeSwaggerFiles failing.start).document.host = some "pets.example" ∧
            (failing.mergeSwaggerFiles failing.start).document.paths.entries.length = 0 := by
      decide +kernel
    obtain ⟨failure, hfailure⟩ := Option.isSome_iff_exists.mp hsome
    have hfailed : failing.mergeSwaggerFiles failing.start =
        { document := (failing.mergeSwaggerFiles failing.start).document,
          failure := some failure } := by
      rw [← hfailure]
    obtain ⟨hiff, hlater⟩ := mergeSwaggerFiles_atomic.2 failing failing.start _ failure
    obtain ⟨k, path, hk, -, hfailing⟩ := hiff.mp hfailed
    exact ⟨_, failure, k, path, hfailed, hhost, hpaths, hk, hfailing, hlater hfailed _⟩

end Generator

end ServiceDocs
