import ServiceDocs.Generate.Fragment
import ServiceDocs.Proofs.Document.Merge
import ServiceDocs.Proofs.Text.Slash

/-!
# Merging Files

A file that a service names is looked for below the directory of the service, unless its path
is absolute. Files are merged one after the other until one fails, and one that fails leaves the
document alone. Files can therefore be merged in turns: `mergeFiles_append` says that the later
ones start from what the earlier ones left, if those could be merged, and are left out otherwise.

## Main definitions

* `Resolves`: the path that the name of a file leads to.
* `HoldsObject`: a file whose text is that of an object.

## Main results

* `resolves_resolvePath`: a file is looked for where its name leads.
* `readFragment_eq_ok_iff`: the partial document of a file is the object that the file holds.
* `run_mergeFile_eq_ok_iff`: when merging a file succeeds.
* `mergeFiles_append`: merging files in turns.
* `mergeFiles_induction`: what every merge keeps, merging files keeps.
-/

namespace ServiceDocs

open Document.Change

/-! ### Paths of files -/

/-- The path that the name of a file leads to, if names may be relative to a directory. -/
inductive Resolves (base : Option String) (name : String) : String → Prop
  /-- Without a directory, the name is the path. -/
  | alone (h : base = none) : Resolves base name name
  /-- So is an absolute name. -/
  | absolute (h : Text.Absolute name) : Resolves base name name
  /-- A relative name stands behind the directory, after a slash. -/
  | below {directory : String} (hbase : base = some directory) (hname : ¬Text.Absolute name)
      (hopen : directory ≠ "" ∧ ¬Text.Closed directory) :
      Resolves base name (directory ++ "/" ++ name)
  /-- A directory that ends with a slash or has no name needs no other slash. -/
  | closed {directory : String} (hbase : base = some directory) (hname : ¬Text.Absolute name)
      (hclosed : directory = "" ∨ Text.Closed directory) : Resolves base name (directory ++ name)

/-- A relative name below a directory. -/
theorem resolves_joinPath {directory name : String} (h : ¬Text.Absolute name) :
    Resolves (some directory) name (joinPath directory name) := by
  have hrelative : name.startsWith "/" = false :=
    eq_false_of_ne_true (mt Text.startsWith_slash_iff.mp h)
  rw [joinPath, hrelative, Bool.false_or]
  by_cases hempty : directory = ""
  · subst hempty
    have hclosed : Resolves (some "") name ("" ++ name) := .closed rfl h (.inl rfl)
    simpa using hclosed
  · rw [if_neg (by simpa using hempty)]
    split
    · next hclosed => exact .closed rfl h (.inr (Text.endsWith_slash_iff.mp hclosed))
    · next hopen => exact .below rfl h ⟨hempty, mt Text.endsWith_slash_iff.mpr hopen⟩

/-- A file is looked for where its name leads. -/
theorem resolves_resolvePath (base : Option String) (name : String) :
    Resolves base name (resolvePath base name) := by
  cases base with
  | none => exact .alone rfl
  | some directory =>
      rw [resolvePath, isRelative]
      by_cases h : Text.Absolute name
      · rw [Text.startsWith_slash_iff.mpr h]
        exact .absolute h
      · rw [eq_false_of_ne_true (mt Text.startsWith_slash_iff.mp h)]
        exact resolves_joinPath h

variable {files : Files} {path : String} {d d' : Document}

/-! ### One file -/

/-- The text at a path is that of an object with certain members. -/
def HoldsObject (files : Files) (path : String) (members : OrderedMap Json) : Prop :=
  ∃ text, files.readText path = .ok text ∧
    Codec.json.ofText (JsonText.tree text) = .ok (.ofMap members)

/-- A text is a partial document if it is the text of an object. -/
theorem parseFragment_eq_ok_iff {text : String} {fragment : OrderedMap Json} :
    parseFragment text = .ok fragment ↔
      Codec.json.ofText (JsonText.tree text) = .ok (.ofMap fragment) := by
  have hread : ∀ members,
      Codec.json.map.read .jsonText (JsonText.tree text).1 = .ok members ↔
        Json.read .jsonText (JsonText.tree text).1 = .ok (.ofMap members) :=
    fun _ => Codec.jsonMap_read_iff (JsonText.isJson_tree text)
  rw [parseFragment, Codec.ofText, Codec.ofText, Reader.ofText, Reader.ofText]
  simp only [bind_eq_ok, pure_eq_ok, Except.ok.injEq]
  constructor
  · rintro ⟨members, hmembers, hend, hpass, rfl⟩
    exact ⟨_, (hread members).mp hmembers, hend, hpass, rfl⟩
  · rintro ⟨_, hvalue, hend, hpass, rfl⟩
    exact ⟨fragment, (hread fragment).mpr hvalue, hend, hpass, rfl⟩

/-- Naming the file does not change what is read. -/
theorem inFragment_eq_ok {α : Type} {x : Except Fault α} {a : α} :
    inFragment path x = .ok a ↔ x = .ok a := by
  cases x <;> simp [inFragment]

/-- The partial document of a file is the object that the file holds. -/
theorem readFragment_eq_ok_iff {fragment : OrderedMap Json} :
    readFragment files path = .ok fragment ↔ HoldsObject files path fragment := by
  rw [readFragment, HoldsObject]
  cases files.readText path <;> simp [inFragment_eq_ok, parseFragment_eq_ok_iff]

/-- What a text is read as is a partial document. -/
theorem isFragment_of_parseFragment {text : String} {fragment : OrderedMap Json}
    (h : parseFragment text = .ok fragment) : Document.IsFragment fragment :=
  (Codec.jsonMap_regular fun _ => True).stable_of_ofText (by decide) h

/-- What a file holds is a fragment that a text can hold. -/
theorem isFragment_of_readFragment {fragment : OrderedMap Json}
    (h : readFragment files path = .ok fragment) : Document.IsFragment fragment := by
  rw [readFragment] at h
  split at h
  · exact isFragment_of_parseFragment (inFragment_eq_ok.mp h)
  · exact nomatch h

/-- Merging a file that fails leaves the document alone. -/
theorem atomic_mergeFile (files : Files) (path : String) : (mergeFile files path).Atomic := by
  refine (quiet_ofExcept (readFragment files path)).bind_atomic fun fragment => ?_
  exact Atomic.adaptExcept (Document.atomic_mergeFragment fragment) (Failure.fragment path)

/-- A file that cannot be read is not merged. -/
theorem run_mergeFile_of_error {failure : Failure} (h : readFragment files path = .error failure) :
    (mergeFile files path).run d = .error failure d := by
  rw [mergeFile, EStateM.run_bind, run_ofExcept, h]

/-- A file that can be read is merged as the partial document that it holds. -/
theorem run_mergeFile_of_ok {fragment : OrderedMap Json}
    (h : readFragment files path = .ok fragment) :
    (mergeFile files path).run d = match d.merge fragment with
      | .ok merged => .ok () merged
      | .error fault => .error (.fragment path fault) d := by
  rw [mergeFile, EStateM.run_bind, run_ofExcept, h]
  simp only [EStateM.run_adaptExcept, Document.run_mergeFragment]
  cases d.merge fragment <;> rfl

/-- Merging a file succeeds if it holds a partial document that can be merged. -/
theorem run_mergeFile_eq_ok_iff :
    (mergeFile files path).run d = .ok () d' ↔
      ∃ fragment, readFragment files path = .ok fragment ∧ d.merge fragment = .ok d' := by
  cases hread : readFragment files path with
  | error failure => simp [run_mergeFile_of_error hread]
  | ok fragment =>
      rw [run_mergeFile_of_ok hread]
      cases hmerge : d.merge fragment <;> simp [hmerge]

/-! ### Several files -/

@[simp] theorem mergeFiles_nil (files : Files) (d : Document) :
    mergeFiles files [] d = { document := d } := rfl

theorem mergeFiles_cons (files : Files) (path : String) (rest : List String) (d : Document) :
    mergeFiles files (path :: rest) d =
      .ofChange (mergeFile files path >>= fun _ => rest.forM (mergeFile files)) d := rfl

/-- The files after one that was merged start from what it left. -/
theorem mergeFiles_cons_of_ok (rest : List String) (h : (mergeFile files path).run d = .ok () d') :
    mergeFiles files (path :: rest) d = mergeFiles files rest d' := by
  rw [mergeFiles_cons, Progress.ofChange, EStateM.run_bind, h]
  rfl

/-- The files after one that fails are left out. -/
theorem mergeFiles_cons_of_error {failure : Failure} (rest : List String)
    (h : (mergeFile files path).run d = .error failure d') :
    mergeFiles files (path :: rest) d = { document := d, failure := some failure } := by
  obtain rfl := atomic_mergeFile files path h
  rw [mergeFiles_cons, Progress.ofChange, EStateM.run_bind, h]

/-- Files may be merged in two turns. -/
theorem mergeFiles_append (first second : List String) (d : Document) :
    mergeFiles files (first ++ second) d =
      match (mergeFiles files first d).failure with
      | none => mergeFiles files second (mergeFiles files first d).document
      | some _ => mergeFiles files first d := by
  induction first generalizing d with
  | nil => rfl
  | cons path rest ih =>
      cases h : (mergeFile files path).run d with
      | ok _ merged =>
        rw [List.cons_append, mergeFiles_cons_of_ok _ h, mergeFiles_cons_of_ok _ h, ih]
      | error failure d' =>
          rw [List.cons_append, mergeFiles_cons_of_error _ h, mergeFiles_cons_of_error _ h]

/-- Every property that a merge keeps is kept by merging files, however it ends. -/
theorem mergeFiles_induction {P : Document → Prop}
    (hmerge : ∀ {path fragment d d'}, readFragment files path = .ok fragment →
      d.merge fragment = .ok d' → P d → P d')
    (paths : List String) (h : P d) : P (mergeFiles files paths d).document := by
  induction paths generalizing d with
  | nil => exact h
  | cons path rest ih =>
      cases hfile : (mergeFile files path).run d with
      | error failure _ => rwa [mergeFiles_cons_of_error rest hfile]
      | ok _ merged =>
          obtain ⟨fragment, hread, hm⟩ := run_mergeFile_eq_ok_iff.mp hfile
          rw [mergeFiles_cons_of_ok rest hfile]
          exact ih (hmerge hread hm h)

end ServiceDocs
