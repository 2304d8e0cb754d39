import ServiceDocs.Proofs.Document.Coverage
import ServiceDocs.Proofs.Generate.Reachable

/-!
# Partial Documents Pass through Merging

All that a partial document says is in the document that it is merged into: every member that is
not null stands at its place, whatever the document was before. Paths and schemas are laid over
those that are there, and every other field is replaced as a whole, so nothing that is read of the
partial document is hidden by what was there. What remains is that everything is read, which
`Document.covers` says of the partial document alone.

The types of a document have no place for some partial documents that can be merged.
`Document.losing` has one for each reason.

## Main definitions

* `Document.covers`: whether a document has a place for all that a partial document says.
* `Document.spelled`: a partial document as it is written, with its methods in lower case.

## Main results

* `Document.merge_within`: a partial document passes through merging.
-/

namespace ServiceDocs

/-! ### Maps that are laid over others -/

namespace Codec

variable {α : Type} {c : Codec α}

/-- What is within a part that is read from a partial document is within what the part makes of
another map. -/
theorem within_extendPart {v w : Json} {m : OrderedMap α} {part : Option (OrderedMap α)}
    (hv : v.Sound) (hread : Document.readPart c.map (some v) = .ok part)
    (h : ∀ read, c.map.ofJson v = .ok read → w.within (c.map.write read) = true) :
    w.within (c.map.write (Document.extendPart m part)) = true := by
  obtain ⟨read, hmap, hpart⟩ := bind_eq_ok.mp hread
  obtain rfl := Except.ok.inj hpart
  exact within_write_extend (distinct_of_map_read hv hmap) (h read hmap)

end Codec

open Codec

/-! ### What a document has a place for -/

/-- The version of the format is kept if it is given by its name. -/
theorem FormatVersion.keeps : codec.Keeps fun v => v.isString = true := choice_keeps (by decide)

/-- A scheme is kept if it is given by its name. -/
theorem Scheme.keeps : codec.Keeps fun v => v.isString = true := choice_keeps (by decide)

namespace Document

variable {d d' : Document} {fragment : OrderedMap Json} {v : Json}

/-- What the members of a partial document need to have a place. -/
def parts : List (String × (Json → Bool)) :=
  [("swagger", Json.isString), ("info", Info.covers), ("tags", Json.everyPart Tag.covers),
    ("schemes", Json.everyPart Json.isString), ("paths", Json.everyPart PathItem.covers),
    ("securityDefinitions", Json.everyPart SecurityDefinition.covers),
    ("externalDocs", ExternalDocs.covers)]

/-- Whether a document has a place for all that a partial document says. -/
def covers : Json → Bool := record.covers parts

/-- The fields besides the paths keep what there is a place for. -/
theorem fields_keep : ∀ f ∈ record.fields, f.name ≠ "paths" →
    f.codec.Keeps fun v => ((OrderedMap.findEntry f.name parts).all fun p => p v) = true := by
  simp only [record, List.forall_mem_cons]
  exact ⟨fun _ => FormatVersion.keeps, fun _ => Info.keeps, fun _ => option_string_keeps,
    fun _ => option_string_keeps, fun _ => Tag.keeps.everyItem.orNull,
    fun _ => Scheme.keeps.everyItem.orNull, fun h => absurd rfl h,
    fun _ => SecurityDefinition.keeps.everyMember, fun _ => Schema.keeps.map_of_true,
    fun _ => ExternalDocs.keeps.orNull, List.forall_mem_nil _⟩

/-! ### How it is written -/

/-- Paths as they are written, with their methods in lower case. -/
def spelledPaths : Json → Json
  | .object fields => .object (fields.map fun entry => (entry.1, PathItem.spelled entry.2))
  | v => v

/-- A member of a partial document as it is written. -/
def spelledMember (name : String) (v : Json) : Json := if name = "paths" then spelledPaths v else v

/-- A partial document as it is written, with its methods in lower case. -/
def spelled (fragment : OrderedMap Json) : Json :=
  .object (fragment.entries.map fun entry => (entry.1, spelledMember entry.1 entry.2))

/-- A member that is null is left as it is. -/
theorem spelledMember_null (name : String) : spelledMember name .null = .null := by
  rw [spelledMember]
  split <;> rfl

/-- Paths are within what is written of the paths that are read from them. -/
theorem within_spelledPaths {paths : Paths} (hv : v.Sound)
    (hcovers : v.everyPart PathItem.covers = true) (h : pathsCodec.ofJson v = .ok paths) :
    (spelledPaths v).within (pathsCodec.write paths) = true := by
  cases hv with
  | object hd hentries =>
      refine within_map_write PathItem.spelled hd h fun entry hentry item hitem => ?_
      exact PathItem.within_spelled (hentries entry hentry)
        (List.all_eq_true.mp hcovers entry hentry) hitem
  | null | bool | number | string | array => exact nomatch h

/-! ### Merging -/

/-- No extension of a merged document has the name of a field. -/
theorem Merged.notMem_names (hm : Merged fragment d d')
    (h : ∀ entry ∈ d.extensions.entries, entry.1 ∉ record.names) :
    ∀ entry ∈ d'.extensions.entries, entry.1 ∉ record.names := by
  intro entry hentry
  rw [hm.extensions] at hentry
  rcases OrderedMap.mem_entries_insertAll hentry with hentry | hentry
  · exact h entry hentry
  · exact of_decide_eq_true (List.mem_filter.mp hentry).2

/-- A member that is no field is an extension of the merged document. -/
theorem Merged.get?_extensions (hm : Merged fragment d d') (hd : fragment.Distinct) {name : String}
    (hname : name ∉ record.names) (hv : fragment.get? name = some v) :
    d'.extensions.get? name = some v := by
  have hothers : (record.others (headMembers fragment)).Distinct :=
    (List.filter_sublist.map _).nodup (distinct_headMembers hd)
  have hfilter := OrderedMap.findEntry_filter (fun name : String => decide (name ∉ record.names))
    name (headMembers fragment).entries
  have hmaps : name ∉ mapNames := fun h => hname ((by decide : mapNames ⊆ record.names) h)
  have hhead : (headMembers fragment).get? name = some v := by
    rw [get?_headMembers hd, if_neg hmaps, hv]
  have hother : (record.others (headMembers fragment)).get? name = some v := by
    rw [if_pos (by simpa using hname)] at hfilter
    exact hfilter.trans hhead
  rw [hm.extensions, OrderedMap.get?_extend hothers, hother, Option.some_or]

/-- A member that is a field is within what is written of that field of the merged document. -/
theorem Merged.within_field (hm : Merged fragment d d') {f : Field Document}
    (hf : f ∈ record.fields) (hv : fragment.get? f.name = some v) (hs : v.Sound)
    (hpart : ((OrderedMap.findEntry f.name parts).all fun p => p v) = true) :
    (spelledMember f.name v).within (f.codec.write (f.get d')) = true := by
  by_cases hname : f.name ∈ mapNames
  · -- entries of the partial document come after those that are there, so they win
    rcases eq_of_name_mem hf hname with rfl | rfl
    · obtain ⟨part, hread, hpaths⟩ := hm.paths
      show (spelledPaths v).within (pathsCodec.write d'.paths) = true
      rw [hpaths]
      exact within_extendPart hs (hv ▸ hread) fun paths => within_spelledPaths hs hpart
    · obtain ⟨part, hread, hdefinitions⟩ := hm.definitions
      show v.within (definitionsCodec.write d'.definitions) = true
      rw [hdefinitions]
      exact within_extendPart hs (hv ▸ hread) fun definitions =>
        Schema.keeps.map_of_true.within (P := fun _ => True) hs trivial
  · have hpaths : f.name ≠ "paths" := fun h => hname (h ▸ List.mem_cons_self)
    rw [spelledMember, if_neg hpaths]
    exact (fields_keep f hf hpaths).within hs hpart (hm.given f hf hname v hv)

/-- All that a partial document says is in every document that can be reached and that it is
merged into, if there is a place for it. Only methods are put in lower case. -/
theorem merge_within (h : d.Reachable) (hs : (Json.ofMap fragment).Sound)
    (hcovers : covers (.ofMap fragment) = true) (hmerge : d.merge fragment = .ok d') :
    (spelled fragment).within d'.toJson = true := by
  obtain ⟨hd, hentries⟩ := Json.sound_object_iff.mp hs
  have hm := (merge_iff_of_sound (by decide) h.settled hs).mp hmerge
  have hkept : ∀ k ∈ record.rest, ∀ entry ∈ (k.kept d').entries, entry.1 ∉ record.names := by
    rintro k ⟨⟩
    exact hm.notMem_names h.settled.notMem
  have homits : ∀ f ∈ record.fields, f.OmitsNull := by simp [record]
  refine Json.within_object_iff.mpr (List.forall_mem_map.mpr fun entry hentry hspelled => ?_)
  have hnull : entry.2 ≠ .null := fun hnull => hspelled (hnull ▸ spelledMember_null entry.1)
  obtain ⟨-, hpart⟩ := Record.coversMember_of_covers hcovers entry hentry hnull
  have hget : fragment.get? entry.1 = some entry.2 := OrderedMap.findEntry_of_mem hd hentry
  by_cases hname : entry.1 ∈ record.names
  · obtain ⟨f, hf, hfname⟩ := List.mem_map.mp hname
    rw [← hfname] at hget hpart hspelled ⊢
    exact lawful.exists_findEntry_members homits hkept hf hspelled
      (hm.within_field hf hget (hentries entry hentry) hpart)
  · have hpaths : entry.1 ≠ "paths" := fun h => hname (h ▸ by decide)
    rw [spelledMember, if_neg hpaths]
    refine ⟨entry.2, ?_, Json.within_refl (hentries entry hentry)⟩
    rw [Record.findEntry_members_of_notMem hname]
    exact hm.get?_extensions hd hname hget

/-- A partial document with members of many types: methods in upper case, references, schemas and
members that are kept as they are. -/
def passing : OrderedMap Json :=
  ⟨[("host", .string "pets.example"), ("x-team", .object [("name", .string "pets")]),
    ("tags", .array [.object [("name", .string "pets")]]),
    ("paths", .object [("/pets", .object [
      ("x-owner", .string "pets"),
      ("GET", .object [
        ("parameters", .array [.object [("$ref", .string "#/parameters/Limit")]]),
        ("responses", .object [("200", .object [
          ("description", .string "all pets"),
          ("headers", .object [("x-next", .object [("type", .string "string")])]),
          ("schema", .object [("enum", .array [.bool true, .null])])])])])])])]⟩

/-- The partial document passes through merging. -/
theorem merge_within_passing :
    covers (.ofMap passing) = true ∧
      ∃ d', blank.merge passing = .ok d' ∧ (spelled passing).within d'.toJson = true := by
  have hs : (Json.ofMap passing).Sound := by
    simp [passing, Json.ofMap, Json.sound_object_iff, Json.sound_array_iff, Json.Sound.string,
      Json.Sound.bool, Json.Sound.null]
  have hcovers : covers (.ofMap passing) = true := by decide +kernel
  have hmerge : (blank.merge passing).toOption.isSome = true := by decide +kernel
  cases hm : blank.merge passing with
  | error fault =>
      rw [hm] at hmerge
      cases hmerge
  | ok d' => exact ⟨hcovers, d', rfl, merge_within .blank hs hcovers hm⟩

/-- Partial documents that can be merged and for which there is no place: a member that security
schemes do not know, a link that is given as a list, a protocol that is given as an object, a
reference that has another member, and a path that has one method twice. -/
def losing : List (OrderedMap Json) :=
  [⟨[("securityDefinitions", .object [("key", .object [("type", .string "apiKey"),
      ("x-amazon-apigateway-authtype", .string "custom")])])]⟩,
    ⟨[("externalDocs", .array [.string "more", .string "https://pets.example"])]⟩,
    ⟨[("schemes", .array [.object [("https", .null)]])]⟩,
    ⟨[("paths", .object [("/pets", .object [("get", .object [("responses", .object [
      ("200", .object [
        ("$ref", .string "#/responses/Pets"), ("description", .string "all pets")])])])])])]⟩,
    ⟨[("paths", .object [("/pets", .object [
      ("get", .object [("summary", .string "all pets")]),
      ("GET", .object [("summary", .string "some pets")])])])]⟩]

/-- Whether a partial document can be merged into the document without content and is within what
comes out. -/
def survives (fragment : OrderedMap Json) : Option Bool :=
  (blank.merge fragment).toOption.map fun d' => (spelled fragment).within d'.toJson

/-- Not all that a partial document says is in the document that it is merged into. -/
theorem merge_loses_members :
    blank.Reachable ∧
      losing.map survives = [some false, some false, some false, some false, some false] :=
  ⟨.blank, by decide +kernel⟩

end Document

end ServiceDocs
