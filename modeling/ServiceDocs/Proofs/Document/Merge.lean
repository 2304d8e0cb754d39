import ServiceDocs.Proofs.Document.Change
import ServiceDocs.Proofs.Document.Reload
import ServiceDocs.Proofs.Reading.Overlay

/-!
# What Merging Does

A partial document changes the members that it has and no others. `Document.Merged` states
this part by part: paths and definitions are laid over those that are there, every other
field of the partial document replaces the whole field, and what is no field is laid over
the extensions. Merging gives a result exactly when there is a document of which this is
true, and the result is that document.

The law rests on the current document being settled: only then does writing and reading it
again leave alone what the partial document says nothing about. A merged document is settled
again, so the law applies to the next merge.

## Main results

* `Document.merge_iff`: when merging succeeds, and with which document.
* `Document.settled_of_merge`: a merged document is settled.
-/

namespace ServiceDocs.Document

/-- A partial document that a text can hold. -/
def IsFragment (fragment : OrderedMap Json) : Prop := (Codec.map .json).Stable deepest fragment

/-- How deep the parts of a document may be that a text holds. -/
abbrev deepestPart : Nat := 126

variable {d d' : Document} {fragment members : OrderedMap Json}

/-- A document is read back from the deepest texts exactly if it is settled below them. -/
theorem stable_iff_settled : codec.Stable deepest d ↔ d.Settled deepestPart :=
  stable_iff (by decide)

/-- The members of a partial document have distinct names. -/
theorem IsFragment.distinct (h : IsFragment fragment) : fragment.Distinct :=
  (Codec.map_stable_iff (d := deepestPart).mp h).1

/-- The members of a partial document are values that a text can hold, one level deep in it. -/
theorem IsFragment.sound (h : IsFragment fragment) :
    ∀ entry ∈ fragment.entries, entry.2.Sound ∧ entry.2.depth ≤ deepestPart := fun entry hentry =>
  Codec.json_stable_iff.mp ((Codec.map_stable_iff (d := deepestPart).mp h).2 entry hentry)

/-- The object of a partial document that a text can hold is sound. -/
theorem IsFragment.sound_ofMap (h : IsFragment fragment) : (Json.ofMap fragment).Sound :=
  (Codec.jsonMap_stable_iff.mp h).1

/-! ### The overlay -/

/-- A settled document is one for the record of its fields. -/
theorem record_settled {n : Nat} (hn : 3 ≤ n) (h : d.Settled n) : record.Settled n d :=
  (Record.stable_iff lawful).mp ((stable_iff hn).mpr h)

/-- A settled document is written without repeated members. -/
theorem unrepeated_toJson {n : Nat} (hn : 3 ≤ n) (h : d.Settled n) :
    d.toJson.unrepeated = d.toJson :=
  ((record_settled hn h).sound_write lawful).1.unrepeated_eq

/-- What members that are laid over a settled document make of it. -/
theorem overlay_iff {n : Nat} (hn : 3 ≤ n) (h : d.Settled n) (hd : members.Distinct)
    (hm : ∀ entry ∈ members.entries, entry.2.Sound) :
    d.overlay members = .ok d' ↔ record.Overlaid members d d' := by
  rw [overlay, unrepeated_toJson hn h]
  split
  · next hempty =>
      obtain rfl : members = .empty := by
        obtain ⟨entries⟩ := members
        exact congrArg OrderedMap.mk (List.isEmpty_iff.mp hempty)
      rw [Except.ok.injEq]
      constructor
      · rintro rfl
        exact ⟨fun _ _ _ hv => (nomatch hv), fun _ _ _ => rfl, fun _ _ => rfl⟩
      · intro hover
        exact lawful.ext _ _ (fun f hf => (hover.absent f hf rfl).symm)
          fun k hk => (hover.kept k hk).symm
  · exact Record.overlay_iff lawful (record_settled hn h) hd hm

/-- What members make of a document that lies no deeper than a text may is no deeper either. -/
theorem settled_of_overlay (h : d.Settled deepestPart)
    (hm : ∀ entry ∈ members.entries, entry.2.Sound ∧ entry.2.depth ≤ deepestPart)
    (hover : d.overlay members = .ok d') : d'.Settled deepestPart := by
  rw [overlay, unrepeated_toJson (by decide) h] at hover
  split at hover
  · exact (Except.ok.inj hover) ▸ h
  · have hsettled := record_settled (by decide) h
    have hdepth := (Json.depth_object_le_iff.mp (hsettled.sound_write lawful).2).2
    have hsound : (Json.ofMap (d.toJson.members.extend members)).Sound :=
      hsettled.sound_extend_members lawful fun entry hentry => (hm entry hentry).1
    have hle : (Json.ofMap (d.toJson.members.extend members)).depth ≤ deepest := by
      refine Json.depth_object_le_iff.mpr ⟨by decide, fun entry hentry => ?_⟩
      rcases OrderedMap.mem_entries_insertAll hentry with hentry | hentry
      · exact hdepth entry hentry
      · exact Nat.succ_le_succ (hm entry hentry).2
    have hstable := (regular (K := fun _ => True)).stable_of_ofJson hsound trivial hover
    exact stable_iff_settled.mp (hstable.mono (Nat.max_le.mpr ⟨hle, by decide⟩))

/-! ### The two maps that are merged by key -/

/-- The field of the paths. -/
def pathsField : Field Document :=
  .plain "paths" .defaulted pathsCodec (·.paths) (fun v d => { d with paths := v })

/-- The field of the schemas. -/
def definitionsField : Field Document :=
  .plain "definitions" .defaulted definitionsCodec (·.definitions)
    (fun v d => { d with definitions := v })

theorem pathsField_mem : pathsField ∈ record.fields := by
  simp only [record, List.mem_cons]
  exact .inr (.inr (.inr (.inr (.inr (.inr (.inl rfl))))))

theorem definitionsField_mem : definitionsField ∈ record.fields := by
  simp only [record, List.mem_cons]
  exact .inr (.inr (.inr (.inr (.inr (.inr (.inr (.inr (.inl rfl))))))))

/-- The names of the fields that are merged key by key. -/
def mapNames : List String := ["paths", "definitions"]

/-- The members of a partial document besides its paths and definitions. -/
def headMembers (fragment : OrderedMap Json) : OrderedMap Json :=
  ((fragment.takeOut "paths").2.takeOut "definitions").2

/-- The head of a partial document has its members except for the two maps. -/
theorem get?_headMembers (hd : fragment.Distinct) (name : String) :
    (headMembers fragment).get? name = if name ∈ mapNames then none else fragment.get? name := by
  rw [headMembers, OrderedMap.get?_takeOut (hd.takeOut "paths"), OrderedMap.get?_takeOut hd,
    mapNames]
  by_cases hp : name = "paths" <;> by_cases hq : name = "definitions" <;> simp [hp, hq]

/-- The members of the head have distinct names. -/
theorem distinct_headMembers (hd : fragment.Distinct) : (headMembers fragment).Distinct :=
  (hd.takeOut "paths").takeOut "definitions"

/-- The members of the head are members of the partial document. -/
theorem headMembers_subset (hd : fragment.Distinct) :
    ∀ entry ∈ (headMembers fragment).entries, entry ∈ fragment.entries := by
  intro entry hentry
  have hfirst := (OrderedMap.perm_takeOut (hd.takeOut "paths") "definitions").mem_iff.mp hentry
  have hsecond := (OrderedMap.perm_takeOut hd "paths").mem_iff.mp (List.mem_filter.mp hfirst).1
  exact (List.mem_filter.mp hsecond).1

/-! ### Merging -/

/-- What a partial document makes of a document. -/
structure Merged (fragment : OrderedMap Json) (d d' : Document) : Prop where
  /-- The paths of the partial document are laid over those that are there. -/
  paths : ∃ part, readPart pathsCodec (fragment.get? "paths") = .ok part ∧
    d'.paths = extendPart d.paths part
  /-- So are its definitions. -/
  definitions : ∃ part, readPart definitionsCodec (fragment.get? "definitions") = .ok part ∧
    d'.definitions = extendPart d.definitions part
  /-- Every other field that it has replaces the whole field. -/
  given : ∀ f ∈ record.fields, f.name ∉ mapNames → ∀ v, fragment.get? f.name = some v →
    f.codec.ofJson v = .ok (f.get d')
  /-- Every other field that it does not have stays as it is. -/
  absent : ∀ f ∈ record.fields, f.name ∉ mapNames → fragment.get? f.name = none →
    f.get d' = f.get d
  /-- What is no field is laid over the extensions. -/
  extensions : d'.extensions = d.extensions.extend (record.others (headMembers fragment))

/-- The steps of a merge, those that can fail first. -/
theorem merge_eq_ok_iff (hd : fragment.Distinct) :
    d.merge fragment = .ok d' ↔ ∃ paths definitions middle,
      readPart pathsCodec (fragment.get? "paths") = .ok paths ∧
      readPart definitionsCodec (fragment.get? "definitions") = .ok definitions ∧
      d.overlay (headMembers fragment) = .ok middle ∧
      d' = { middle with
        paths := extendPart middle.paths paths,
        definitions := extendPart middle.definitions definitions } := by
  have hdefinitions :
      (fragment.takeOut "paths").2.get? "definitions" = fragment.get? "definitions" := by
    rw [OrderedMap.get?_takeOut hd, if_neg (by decide)]
  simp only [merge_eq, bind_eq_ok, OrderedMap.fst_takeOut, hdefinitions, headMembers, pure_eq_ok,
    Except.ok.injEq]
  constructor
  · rintro ⟨paths, hp, definitions, hq, middle, hm, rfl⟩
    exact ⟨paths, definitions, middle, hp, hq, hm, rfl⟩
  · rintro ⟨paths, definitions, middle, hp, hq, hm, rfl⟩
    exact ⟨paths, hp, definitions, hq, middle, hm, rfl⟩

/-- A field other than the paths and the definitions does not depend on them. -/
theorem get_with_maps {f : Field Document} (hf : f ∈ record.fields) (hname : f.name ∉ mapNames)
    (paths : Paths) (definitions : OrderedMap Schema) :
    f.get { d with paths := paths, definitions := definitions } = f.get d := by
  have hp : f.name ≠ pathsField.name := fun h => hname (h ▸ List.mem_cons_self)
  have hq : f.name ≠ definitionsField.name := fun h =>
    hname (h ▸ List.mem_cons_of_mem _ List.mem_cons_self)
  have hfirst := lawful.get_set_of_ne pathsField pathsField_mem f hf hp paths d
  have hsecond := lawful.get_set_of_ne definitionsField definitionsField_mem f hf hq definitions
    (pathsField.set paths d)
  exact hsecond.trans hfirst

/-- A field is one of the two maps or its name is none of theirs. -/
theorem eq_of_name_mem {f : Field Document} (hf : f ∈ record.fields) (h : f.name ∈ mapNames) :
    f = pathsField ∨ f = definitionsField := by
  rcases List.mem_cons.mp h with h | h
  · exact .inl (lawful.eq_of_name hf pathsField_mem h)
  · exact .inr (lawful.eq_of_name hf definitionsField_mem (List.mem_singleton.mp h))

/-- The members of a sound object besides its paths and definitions are sound. -/
theorem sound_headMembers (hs : (Json.ofMap fragment).Sound) :
    (Json.ofMap (headMembers fragment)).Sound := by
  obtain ⟨hd, hentries⟩ := Json.sound_object_iff.mp hs
  exact .object (distinct_headMembers hd) fun entry hentry =>
    hentries entry (headMembers_subset hd entry hentry)

/-- Merging a sound object succeeds exactly if there is a document that it makes of the current
one, and then gives this document. -/
theorem merge_iff_of_sound {n : Nat} (hn : 3 ≤ n) (h : d.Settled n)
    (hs : (Json.ofMap fragment).Sound) : d.merge fragment = .ok d' ↔ Merged fragment d d' := by
  have hd : fragment.Distinct := (Json.sound_object_iff.mp hs).1
  have hhead := Json.sound_object_iff.mp (sound_headMembers hs)
  have hget := get?_headMembers hd
  have hover : ∀ middle, d.overlay (headMembers fragment) = .ok middle ↔
      record.Overlaid (headMembers fragment) d middle := fun middle =>
    overlay_iff hn h hhead.1 hhead.2
  simp only [merge_eq_ok_iff hd, hover]
  have hmaps : ∀ f ∈ record.fields, f.name ∈ mapNames → (headMembers fragment).get? f.name = none :=
    fun f _ hname => (hget f.name).trans (if_pos hname)
  have hother : ∀ f : Field Document, f.name ∉ mapNames →
      (headMembers fragment).get? f.name = fragment.get? f.name :=
    fun f hname => (hget f.name).trans (if_neg hname)
  constructor
  · rintro ⟨paths, definitions, middle, hp, hq, hmiddle, rfl⟩
    have hpaths : middle.paths = d.paths :=
      hmiddle.absent pathsField pathsField_mem (hmaps _ pathsField_mem (by decide))
    have hdefinitions : middle.definitions = d.definitions :=
      hmiddle.absent definitionsField definitionsField_mem
        (hmaps _ definitionsField_mem (by decide))
    refine ⟨⟨paths, hp, by rw [hpaths]⟩, ⟨definitions, hq, by rw [hdefinitions]⟩, ?_, ?_, ?_⟩
    · intro f hfield hname v hv
      rw [get_with_maps hfield hname]
      exact hmiddle.given f hfield v ((hother f hname).trans hv)
    · intro f hfield hname hnone
      rw [get_with_maps hfield hname]
      exact hmiddle.absent f hfield ((hother f hname).trans hnone)
    · exact hmiddle.kept _ rfl
  · intro hm
    obtain ⟨paths, hp, hpaths⟩ := hm.paths
    obtain ⟨definitions, hq, hdefinitions⟩ := hm.definitions
    refine ⟨paths, definitions, { d' with paths := d.paths, definitions := d.definitions }, hp, hq,
      ⟨?_, ?_, ?_⟩, ?_⟩
    · intro f hfield v hv
      by_cases hname : f.name ∈ mapNames
      · exact nomatch (hmaps f hfield hname).symm.trans hv
      · rw [get_with_maps hfield hname]
        exact hm.given f hfield hname v ((hother f hname).symm.trans hv)
    · intro f hfield hnone
      by_cases hname : f.name ∈ mapNames
      · rcases eq_of_name_mem hfield hname with rfl | rfl <;> rfl
      · rw [get_with_maps hfield hname]
        exact hm.absent f hfield hname ((hother f hname).symm.trans hnone)
    · rintro k ⟨⟩
      exact hm.extensions
    · rw [← hpaths, ← hdefinitions]

/-- Merging succeeds exactly if there is a document that the partial one makes of the current
one, and then gives this document. -/
theorem merge_iff {n : Nat} (hn : 3 ≤ n) (h : d.Settled n) (hf : IsFragment fragment) :
    d.merge fragment = .ok d' ↔ Merged fragment d d' :=
  merge_iff_of_sound hn h hf.sound_ofMap

/-- Entries that are laid over a stable map make it a stable map. -/
theorem stable_extendPart {α : Type} {c : Codec α} {n : Nat} {entries : OrderedMap α}
    {part : Option (OrderedMap α)} (h : (Codec.map c).Stable (n + 1) entries)
    (hpart : ∀ p ∈ part, (Codec.map c).Stable (n + 1) p) :
    (Codec.map c).Stable (n + 1) (extendPart entries part) := by
  cases part with
  | none => exact h
  | some p =>
      obtain ⟨hd, hentries⟩ := Codec.map_stable_iff.mp h
      obtain ⟨_, hp⟩ := Codec.map_stable_iff.mp (hpart p rfl)
      refine Codec.map_stable_iff.mpr ⟨hd.extend p, fun entry hentry => ?_⟩
      rcases OrderedMap.mem_entries_insertAll hentry with hentry | hentry
      · exact hentries entry hentry
      · exact hp entry hentry

/-- What is read from a part of a partial document is stable. -/
theorem stable_of_readPart {α : Type} {c : Codec α} {slack : Nat}
    (hc : c.Regular (fun _ => True) slack) (hs : slack ≤ deepestPart) (hf : IsFragment fragment)
    {name : String} {part : Option α}
    (h : readPart c (fragment.get? name) = .ok part) : ∀ p ∈ part, c.Stable deepestPart p := by
  cases hv : fragment.get? name with
  | none =>
      rw [hv, readPart, Except.ok.injEq] at h
      subst h
      exact fun p hp => nomatch hp
  | some v =>
      rw [hv, readPart] at h
      obtain ⟨p, hp, hpart⟩ := bind_eq_ok.mp h
      obtain rfl := Except.ok.inj hpart
      rintro q ⟨⟩
      obtain ⟨hsound, hdepth⟩ := hf.sound (name, v) (OrderedMap.mem_entries_of_get? hv)
      exact (hc.stable_of_ofJson hsound trivial hp).mono (Nat.max_le.mpr ⟨hdepth, hs⟩)

/-- A merged document is settled. -/
theorem settled_of_merge (h : d.Settled deepestPart) (hf : IsFragment fragment)
    (hm : d.merge fragment = .ok d') : d'.Settled deepestPart := by
  obtain ⟨paths, definitions, middle, hp, hq, hover, rfl⟩ := (merge_eq_ok_iff hf.distinct).mp hm
  have hmiddle := settled_of_overlay h (fun entry hentry =>
    hf.sound entry (headMembers_subset hf.distinct entry hentry)) hover
  exact { hmiddle with
    paths := stable_extendPart hmiddle.paths
      (stable_of_readPart pathsCodec_regular (by decide) hf hp)
    definitions := stable_extendPart hmiddle.definitions
      (stable_of_readPart definitionsCodec_regular (by decide) hf hq) }

end ServiceDocs.Document
