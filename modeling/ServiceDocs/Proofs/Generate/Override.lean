import ServiceDocs.Proofs.Generate.Reachable

/-!
# Later Files Win

What is left after several partial documents are merged can be said without saying how it
came about. In the two maps that are merged key by key, the keys stand in the order of their
first appearance, and the entry of a key is the one of the last partial document that
declares it. Every other member has the value that the last partial document that mentions it
gives it. Nothing else is changed.

The statement is proved for one partial document from what a merge does, and it composes, so
the statement for a list of files follows by induction on the list. What the files override is a
document with the settings of the service: each setting that is given stands in its field, and
everything else is as it was.

## Main definitions

* `Document.Configured`: what the settings of a service make of a document.
* `OrderedMap.lastValue`: the value of a key in the last of several maps that have it.
* `OrderedMap.Overridden`, `Document.Overridden`: what several partial documents make of a map
  and of a document.

## Main results

* `Generator.mergeSwaggerFiles_overridden`: what the files of a service make of a document.
-/

namespace ServiceDocs

variable {α : Type}

/-! ### Several maps -/

namespace OrderedMap

/-- The value that the last of several maps that have a key gives it. -/
def lastValue (key : String) : List (OrderedMap α) → Option α
  | [] => none
  | m :: rest => (lastValue key rest).or (m.get? key)

/-- The later files decide about a key, and the earlier ones only where these do not have it. -/
theorem lastValue_append (key : String) (first second : List (OrderedMap α)) :
    lastValue key (first ++ second) = (lastValue key second).or (lastValue key first) := by
  induction first with
  | nil => simp [lastValue]
  | cons m rest ih => rw [List.cons_append, lastValue, ih, lastValue, Option.or_assoc]

/-- What becomes of a map when maps of values are laid over it one after the other, and their
values are read. -/
structure Overridden (c : Codec α) (parts : List (OrderedMap Json)) (m m' : OrderedMap α) :
    Prop where
  /-- The keys stand in the order of their first appearance. -/
  keys : m'.keys = (m.keys ++ parts.flatMap OrderedMap.keys).eraseDups
  /-- The entry of a key is the one of the last map that has it. -/
  given : ∀ key v, lastValue key parts = some v → ∃ a, c.ofJson v = .ok a ∧ m'.get? key = some a
  /-- The entry of a key that none of them has is the one that was there. -/
  absent : ∀ key, lastValue key parts = none → m'.get? key = m.get? key

/-- Distinct keys are not repeated. -/
theorem eraseDups_of_nodup {keys : List String} (h : keys.Nodup) : keys.eraseDups = keys := by
  induction keys with
  | nil => rfl
  | cons key rest ih =>
      rw [List.nodup_cons] at h
      have hrest : rest.filter (fun other => !other == key) = rest := by
        refine List.filter_eq_self.mpr fun other hother => ?_
        have hne : other ≠ key := fun he => h.1 (he ▸ hother)
        simpa using hne
      rw [List.eraseDups_cons, hrest, ih h.2]

/-- Without files a map stays as it is. -/
theorem Overridden.refl (c : Codec α) {m : OrderedMap α} (h : m.Distinct) :
    Overridden c [] m m where
  keys := by rw [List.flatMap_nil, List.append_nil, eraseDups_of_nodup h]
  given _ _ h := nomatch h
  absent _ _ := rfl

/-- Maps may be laid over a map in two turns. -/
theorem Overridden.trans {c : Codec α} {first second : List (OrderedMap Json)}
    {m m₁ m₂ : OrderedMap α} (h₁ : Overridden c first m m₁) (h₂ : Overridden c second m₁ m₂)
    (hd : m₁.Distinct) : Overridden c (first ++ second) m m₂ where
  keys := by
    have hmem : ∀ key, key ∈ m₁.keys ↔ key ∈ m.keys ++ first.flatMap OrderedMap.keys := by
      intro key
      rw [h₁.keys, List.mem_eraseDups]
    have hremove : (second.flatMap OrderedMap.keys).removeAll m₁.keys =
        (second.flatMap OrderedMap.keys).removeAll (m.keys ++ first.flatMap OrderedMap.keys) := by
      refine List.filter_congr fun key _ => ?_
      have helem : m₁.keys.elem key = (m.keys ++ first.flatMap OrderedMap.keys).elem key := by
        rw [Bool.eq_iff_iff, List.elem_iff, List.elem_iff]
        exact hmem key
      rw [helem]
    rw [h₂.keys, List.flatMap_append, ← List.append_assoc, List.eraseDups_append, hremove,
      eraseDups_of_nodup hd, h₁.keys, ← List.eraseDups_append]
  given key v hv := by
    rw [lastValue_append] at hv
    cases hlast : lastValue key second with
    | some w =>
        rw [hlast, Option.some_or, Option.some.injEq] at hv
        exact h₂.given key v (hv ▸ hlast)
    | none =>
        rw [hlast, Option.none_or] at hv
        rw [h₂.absent key hlast]
        exact h₁.given key v hv
  absent key hnone := by
    rw [lastValue_append, Option.or_eq_none_iff] at hnone
    rw [h₂.absent key hnone.1, h₁.absent key hnone.2]

/-- What becomes of a map when one map of values is laid over it. -/
theorem overridden_extend {c : Codec α} {m part : OrderedMap α} {v : Json} (hd : m.Distinct)
    (hv : v.Sound) (h : (Codec.map c).ofJson v = .ok part) :
    Overridden c [v.members] m (m.extend part) := by
  obtain ⟨_, _, _, hobject, -, -⟩ := Codec.map_read_inv (Node.isJson_ofJson hv) h
  cases hv with
  | @object fields hnodup hfields =>
      have hall := (Codec.map_read_iff rfl hnodup).mp h
      have hread : List.Forall₂ (fun field entry => field.1 = entry.1 ∧
          c.ofJson field.2 = .ok entry.2) fields part.entries := hall
      have hkeys : part.keys = fields.map (·.1) := map_fst_of_forall₂ hread
      have hpart : part.Distinct := by
        rw [Distinct, hkeys]
        exact hnodup
      have hfind := findEntry_of_forall₂ hread
      refine ⟨?_, fun key v hlast => ?_, fun key hlast => ?_⟩
      · have hmembers : [(Json.object fields).members].flatMap OrderedMap.keys = part.keys := by
          rw [hkeys]
          exact List.append_nil _
        have hremove : part.keys.removeAll m.keys = part.keys.filter fun key => key ∉ m.keys :=
          List.filter_congr fun key _ => by simp
        rw [keys_extend hpart, hmembers, List.eraseDups_append, eraseDups_of_nodup hd, hremove,
          eraseDups_of_nodup (hpart.filter _)]
      · obtain ⟨a, ha, hget⟩ := (hfind key).1 v hlast
        refine ⟨a, ha, ?_⟩
        rw [get?_extend hpart, get?, hget, Option.some_or]
      · have hget := (hfind key).2 hlast
        rw [get?_extend hpart, get?, hget, Option.none_or]
  | null | bool | number | string | array => cases hobject

end OrderedMap

/-! ### Several partial documents -/

namespace Document

open OrderedMap (lastValue lastValue_append)

variable {d d' d₁ d₂ : Document} {fragment : OrderedMap Json}
  {fragments first second : List (OrderedMap Json)}

/-- The members of one name that partial documents have, as maps. -/
def declared (name : String) (fragments : List (OrderedMap Json)) : List (OrderedMap Json) :=
  fragments.filterMap fun fragment => (fragment.get? name).map Json.members

/-- What several partial documents make of a document. -/
structure Overridden (fragments : List (OrderedMap Json)) (d d' : Document) : Prop where
  /-- Their paths are laid over those of the document, one after the other. -/
  paths : OrderedMap.Overridden PathItem.codec (declared "paths" fragments) d.paths d'.paths
  /-- So are their definitions. -/
  definitions :
    OrderedMap.Overridden Schema.codec (declared "definitions" fragments) d.definitions
      d'.definitions
  /-- Every other field has what the last partial document that mentions it says. -/
  given : ∀ f ∈ record.fields, f.name ∉ mapNames → ∀ v, lastValue f.name fragments = some v →
    f.codec.ofJson v = .ok (f.get d')
  /-- A field that none of them mentions stays as it was. -/
  absent : ∀ f ∈ record.fields, f.name ∉ mapNames → lastValue f.name fragments = none →
    f.get d' = f.get d
  /-- An extension has the value of the last partial document that mentions it, or else the one
  that it had. -/
  extensions : ∀ name ∉ record.names,
    d'.extensions.get? name = (lastValue name fragments).or (d.extensions.get? name)
  /-- No extension has the name of a field. -/
  notMem : ∀ name ∈ d'.extensions.keys, name ∉ record.names
  /-- The extensions that were there keep their places. -/
  places : d.extensions.keys <+: d'.extensions.keys

/-- Without files a document stays as it is. -/
theorem Overridden.refl {n : Nat} (h : d.Settled (n + 1)) : Overridden [] d d where
  paths := .refl _ (Codec.map_stable_iff.mp h.paths).1
  definitions := .refl _ (Codec.map_stable_iff.mp h.definitions).1
  given _ _ _ _ h := nomatch h
  absent _ _ _ _ := rfl
  extensions _ _ := rfl
  notMem name hname := by
    obtain ⟨entry, hentry, rfl⟩ := List.mem_map.mp hname
    exact h.notMem entry hentry
  places := List.prefix_rfl

/-- Partial documents may be merged in two turns. -/
theorem Overridden.trans {n : Nat} (h₁ : Overridden first d d₁) (h₂ : Overridden second d₁ d₂)
    (hd : d₁.Settled (n + 1)) : Overridden (first ++ second) d d₂ where
  paths := by
    rw [declared, List.filterMap_append]
    exact h₁.paths.trans h₂.paths (Codec.map_stable_iff.mp hd.paths).1
  definitions := by
    rw [declared, List.filterMap_append]
    exact h₁.definitions.trans h₂.definitions (Codec.map_stable_iff.mp hd.definitions).1
  given f hf hname v hv := by
    rw [lastValue_append] at hv
    cases hlast : lastValue f.name second with
    | some w =>
        rw [hlast, Option.some_or, Option.some.injEq] at hv
        exact h₂.given f hf hname v (hv ▸ hlast)
    | none =>
        rw [hlast, Option.none_or] at hv
        rw [h₂.absent f hf hname hlast]
        exact h₁.given f hf hname v hv
  absent f hf hname hnone := by
    rw [lastValue_append, Option.or_eq_none_iff] at hnone
    rw [h₂.absent f hf hname hnone.1, h₁.absent f hf hname hnone.2]
  extensions name hname := by
    rw [h₂.extensions name hname, h₁.extensions name hname, lastValue_append, Option.or_assoc]
  notMem := h₂.notMem
  places := h₁.places.trans h₂.places

/-- A map of a document after the part of one partial document is laid over it. -/
theorem overridden_extendPart {α : Type} {c : Codec α} {m : OrderedMap α} (hm : m.Distinct)
    (hf : IsFragment fragment) {name : String} {part : Option (OrderedMap α)}
    (h : readPart (.map c) (fragment.get? name) = .ok part) :
    OrderedMap.Overridden c (declared name [fragment]) m (extendPart m part) := by
  cases hv : fragment.get? name with
  | none =>
      rw [hv, readPart, Except.ok.injEq] at h
      subst h
      have hnone : declared name [fragment] = [] := by simp [declared, hv]
      rw [hnone]
      exact .refl c hm
  | some v =>
      rw [hv, readPart] at h
      obtain ⟨p, hp, hpart⟩ := bind_eq_ok.mp h
      obtain rfl := Except.ok.inj hpart
      have hsome : declared name [fragment] = [v.members] := by simp [declared, hv]
      have hsound := (hf.sound (name, v) (OrderedMap.mem_entries_of_get? hv)).1
      rw [hsome]
      exact OrderedMap.overridden_extend hm hsound hp

/-- What one partial document makes of a document. -/
theorem Merged.overridden {n : Nat} (h : Merged fragment d d') (hd : d.Settled (n + 1))
    (hf : IsFragment fragment) : Overridden [fragment] d d' where
  paths := by
    obtain ⟨part, hread, hpaths⟩ := h.paths
    rw [hpaths]
    exact overridden_extendPart (Codec.map_stable_iff.mp hd.paths).1 hf hread
  definitions := by
    obtain ⟨part, hread, hdefinitions⟩ := h.definitions
    rw [hdefinitions]
    exact overridden_extendPart (Codec.map_stable_iff.mp hd.definitions).1 hf hread
  given := h.given
  absent := h.absent
  extensions name hname := by
    have hhead := distinct_headMembers hf.distinct
    have hothers : (record.others (headMembers fragment)).Distinct :=
      (List.filter_sublist.map _).nodup hhead
    have hget : (record.others (headMembers fragment)).get? name = fragment.get? name := by
      have hmaps : name ∉ mapNames := fun hin => hname (by
        rcases List.mem_cons.mp hin with rfl | hin
        · exact Record.name_mem_names pathsField_mem
        · exact List.mem_singleton.mp hin ▸ Record.name_mem_names definitionsField_mem)
      have hfilter := OrderedMap.findEntry_filter (fun name => decide (name ∉ record.names)) name
        (headMembers fragment).entries
      have hview := get?_headMembers hf.distinct name
      rw [if_neg hmaps] at hview
      exact (hfilter.trans (if_pos (decide_eq_true hname))).trans hview
    rw [h.extensions, OrderedMap.get?_extend hothers, hget]
    rfl
  notMem name hname := by
    obtain ⟨entry, hentry, rfl⟩ := List.mem_map.mp hname
    rw [h.extensions] at hentry
    rcases OrderedMap.mem_entries_insertAll hentry with hentry | hentry
    · exact hd.notMem entry hentry
    · simpa using (List.mem_filter.mp hentry).2
  places := by
    rw [h.extensions]
    refine OrderedMap.keys_prefix_extend ?_
    exact (List.filter_sublist.map _).nodup (distinct_headMembers hf.distinct)

end Document

/-! ### Settings -/

/-- What a setting makes of a field. -/
inductive Chosen {α : Type} (setting : Option α) (old : α) : α → Prop
  /-- A setting that is given is what the field has. -/
  | given {value : α} (h : setting = some value) : Chosen setting old value
  /-- Otherwise the field stays as it is. -/
  | absent (h : setting = none) : Chosen setting old old

/-- What the settings of a service make of a document. -/
structure Document.Configured (s : Settings) (d d' : Document) : Prop where
  /-- The path below which the interface is served. -/
  basePath : Chosen (s.basePath.map some) d.basePath d'.basePath
  /-- The host. -/
  host : Chosen (s.host.map some) d.host d'.host
  /-- The protocols. -/
  schemes : Chosen (s.schemes.map some) d.schemes d'.schemes
  /-- The title. -/
  title : Chosen s.title d.info.title d'.info.title
  /-- The description. -/
  description : Chosen (s.description.map some) d.info.description d'.info.description
  /-- The version. -/
  version : Chosen s.version d.info.version d'.info.version
  /-- Everything else is unchanged. -/
  others : d' =
    { d with
      basePath := d'.basePath, host := d'.host, schemes := d'.schemes
      info :=
        { d.info with
          title := d'.info.title, description := d'.info.description
          version := d'.info.version } }

/-- The value of a setting, or else the one that is there. -/
theorem chosen_getD {α : Type} (setting : Option α) (old : α) :
    Chosen setting old (setting.getD old) := by
  cases setting with
  | none => exact .absent rfl
  | some value => exact .given rfl

/-- A field that may be missing has the value of a setting, or else what it had. -/
theorem chosen_or {α : Type} (setting old : Option α) :
    Chosen (setting.map some) old (setting.or old) := by
  cases setting with
  | none => exact .absent rfl
  | some value => exact .given rfl

/-- The settings of a service are copied into a document, and nothing else is changed. -/
theorem Generator.configured_applyOverrides (g : Generator) (d : Document) :
    Document.Configured g.description.settings d (g.applyOverrides d) where
  basePath := chosen_or _ _
  host := chosen_or _ _
  schemes := chosen_or _ _
  title := chosen_getD _ _
  description := chosen_or _ _
  version := chosen_getD _ _
  others := rfl

/-! ### Several files -/

/-- What files make of a settled document if all of them can be merged. -/
theorem mergeFiles_overridden {files : Files} (paths : List String) {d : Document}
    (hd : d.Settled Document.deepestPart) (h : (mergeFiles files paths d).failure = none) :
    ∃ fragments,
      List.Forall₂ (fun path fragment => readFragment files path = .ok fragment) paths fragments ∧
      Document.Overridden fragments d (mergeFiles files paths d).document := by
  induction paths generalizing d with
  | nil => exact ⟨[], .nil, .refl hd⟩
  | cons path rest ih =>
      cases hfile : (mergeFile files path).run d with
      | error failure _ =>
          rw [mergeFiles_cons_of_error rest hfile] at h
          exact nomatch h
      | ok _ merged =>
          rw [mergeFiles_cons_of_ok rest hfile] at h ⊢
          obtain ⟨fragment, hread, hmerge⟩ := run_mergeFile_eq_ok_iff.mp hfile
          have hfragment := isFragment_of_readFragment hread
          have hmerged := Document.settled_of_merge hd hfragment hmerge
          obtain ⟨fragments, hfiles, hrest⟩ := ih hmerged h
          have hfirst :=
            ((Document.merge_iff (by decide) hd hfragment).mp hmerge).overridden hd hfragment
          exact ⟨fragment :: fragments, .cons hread hfiles, hfirst.trans hrest hmerged⟩

/-- The settings of a service that are given stand in the fields of the document that its files
override, and everything else there is as it was. If all files of the service can be merged into
this document, they override it key by key, a later file winning over an earlier one: each holds the
partial document that its text is, and is looked for where its name leads. -/
theorem Generator.mergeSwaggerFiles_overridden (g : Generator) {d : Document} (hd : d.Reachable)
    (h : (g.mergeSwaggerFiles (g.applyOverrides d)).failure = none) :
    Document.Configured g.description.settings d (g.applyOverrides d) ∧
      ∃ fragments,
        List.Forall₂ (fun name fragment => ∃ path,
            Resolves g.baseDirectory name path ∧ HoldsObject g.files path fragment)
          g.description.settings.swaggerFiles fragments ∧
        Document.Overridden fragments (g.applyOverrides d)
          (g.mergeSwaggerFiles (g.applyOverrides d)).document := by
  refine ⟨g.configured_applyOverrides d, ?_⟩
  obtain ⟨fragments, hfiles, hoverridden⟩ :=
    mergeFiles_overridden g.fragmentPaths (g.settled_applyOverrides hd.settled) h
  refine ⟨fragments, ?_, hoverridden⟩
  rw [fragmentPaths, List.forall₂_map_left_iff] at hfiles
  exact hfiles.imp fun name fragment hread =>
    ⟨_, resolves_resolvePath g.baseDirectory name, readFragment_eq_ok_iff.mp hread⟩

/-- A service that sets a host and a title and has a file with a host of its own. -/
def Generator.hosted : Generator where
  description :=
    { service := .name "pets"
      custom := { autoswagger :=
        { swaggerFiles := ["pets.json"], host := some "pets.example", title := some "Pets" } } }
  files := { entries := [
    (⟨false, ["docs"]⟩, .directory), (⟨false, ["pets.json", "docs"]⟩, .file text.toUTF8)] }
  baseDirectory := some "docs/"
where
  text := "\x7b\"host\": \"zoo.example\", \"x-rate\": 1\x7d"

/-- The title of the document is the one of the settings, and its host is that of the file. -/
theorem Generator.mergeSwaggerFiles_overridden_hosted :
    let d := hosted.applyOverrides hosted.start
    let merged := (hosted.mergeSwaggerFiles d).document
    (hosted.mergeSwaggerFiles d).failure = none ∧
      Document.Configured hosted.description.settings hosted.start d ∧
      d.host = some "pets.example" ∧ merged.info.title = "Pets" ∧
      merged.host = some "zoo.example" ∧
      ∃ path fragment, Resolves (some "docs/") "pets.json" path ∧
        HoldsObject hosted.files path fragment ∧ Document.Overridden [fragment] d merged := by
  intro d merged
  obtain ⟨hfailure, hhost, htitle, hmerged⟩ :
      (hosted.mergeSwaggerFiles d).failure.isNone = true ∧ d.host = some "pets.example" ∧
        merged.info.title = "Pets" ∧ merged.host = some "zoo.example" := by decide +kernel
  have hnone := Option.isNone_iff_eq_none.mp hfailure
  obtain ⟨hconfigured, fragments, hfiles, hoverridden⟩ :=
    mergeSwaggerFiles_overridden hosted (.start hosted) hnone
  obtain _ | @⟨_, fragment, _, _, ⟨path, hpath, hholds⟩, ⟨⟩⟩ := hfiles
  exact ⟨hnone, hconfigured, hhost, htitle, hmerged, path, fragment, hpath, hholds, hoverridden⟩

end ServiceDocs
