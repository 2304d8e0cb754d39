import ServiceDocs.Generate.Fragment
import ServiceDocs.Proofs.Document.Merge

/-!
# Two Ways of Loading a Document

A document may be read from an object, or the object may be merged into the document without
content. Both succeed for the same objects, those whose members can be read by the fields of
their names, and both give the same document. Only the extensions may stand in another order:
a merge takes the paths and the definitions out of the object first, and the last member moves
to the place of one that is taken out.

Whether a partial document can be merged therefore depends on the partial document alone.

## Main results

* `Document.exists_merge_iff`: when a partial document can be merged.
* `Document.ofJson_agrees_merge`: reading an object and merging it.
-/

namespace ServiceDocs.Document

variable {d d' : Document} {fragment : OrderedMap Json}

/-! ### Partial documents that can be merged -/

/-- An optional part can be read exactly if its value can be, if there is one. -/
theorem exists_readPart_iff {α : Type} {c : Codec α} {part : Option Json} :
    (∃ x, readPart c part = .ok x) ↔ ∀ v, part = some v → ∃ x, c.ofJson v = .ok x := by
  cases part with
  | none => exact ⟨fun _ _ hv => (nomatch hv), fun _ => ⟨none, rfl⟩⟩
  | some v =>
      constructor
      · rintro ⟨x, hx⟩ w hw
        obtain ⟨y, hy, -⟩ := bind_eq_ok.mp hx
        exact ⟨y, Option.some.inj hw ▸ hy⟩
      · intro h
        obtain ⟨x, hx⟩ := h v rfl
        exact ⟨some x, bind_eq_ok.mpr ⟨x, hx, rfl⟩⟩

/-- A partial document can be merged into a settled document exactly if the fields of a document
can read its members, whatever the document is. -/
theorem exists_merge_iff {n : Nat} (hn : 3 ≤ n) (h : d.Settled n)
    (hs : (Json.ofMap fragment).Sound) :
    (∃ d', d.merge fragment = .ok d') ↔ record.Readable fragment := by
  have hd : fragment.Distinct := (Json.sound_object_iff.mp hs).1
  have hhead := Json.sound_object_iff.mp (sound_headMembers hs)
  constructor
  · rintro ⟨d', hmerge⟩ f hf
    have hm := (merge_iff_of_sound hn h hs).mp hmerge
    by_cases hname : f.name ∈ mapNames
    · rcases eq_of_name_mem hf hname with rfl | rfl
      · obtain ⟨part, hpart, -⟩ := hm.paths
        exact exists_readPart_iff.mp ⟨part, hpart⟩
      · obtain ⟨part, hpart, -⟩ := hm.definitions
        exact exists_readPart_iff.mp ⟨part, hpart⟩
    · intro v hv
      exact ⟨f.get d', hm.given f hf hname v hv⟩
  · intro hreadable
    obtain ⟨paths, hpaths⟩ := exists_readPart_iff.mpr (hreadable pathsField pathsField_mem)
    obtain ⟨definitions, hdefinitions⟩ :=
      exists_readPart_iff.mpr (hreadable definitionsField definitionsField_mem)
    have hheadReadable : record.Readable (headMembers fragment) := by
      intro f hf v hv
      rw [get?_headMembers hd] at hv
      split at hv
      · exact nomatch hv
      · exact hreadable f hf v hv
    obtain ⟨middle, hmiddle⟩ :=
      (Record.exists_overlaid_iff lawful (sound_headMembers hs)).mpr hheadReadable
    have hover := (overlay_iff hn h hhead.1 hhead.2).mpr hmiddle
    exact ⟨_, (merge_eq_ok_iff hd).mpr
      ⟨paths, definitions, middle, hpaths, hdefinitions, hover, rfl⟩⟩

/-! ### Reading and merging -/

/-- Two documents that are the same except for the order of their extensions. -/
structure SameUpToOrder (d d' : Document) : Prop where
  /-- They have the same extensions. -/
  extensions : d.extensions.entries.Perm d'.extensions.entries
  /-- All other parts are equal. -/
  others : { d with extensions := d'.extensions } = d'

/-- Taking paths and definitions out changes nothing about the other members but their order. -/
theorem perm_others_headMembers (hd : fragment.Distinct) :
    (record.others fragment).entries.Perm (record.others (headMembers fragment)).entries := by
  have hfilter : ∀ name ∈ record.names, ∀ entries : List (String × Json),
      (entries.filter fun entry => entry.1 ≠ name).filter (fun entry => entry.1 ∉ record.names) =
        entries.filter fun entry => entry.1 ∉ record.names := by
    intro name hname entries
    rw [List.filter_filter]
    refine List.filter_congr fun entry _ => ?_
    by_cases h : entry.1 = name
    · simp [h, hname]
    · simp [h]
  have hpaths := (OrderedMap.perm_takeOut hd "paths").filter fun entry => entry.1 ∉ record.names
  have hdefinitions := (OrderedMap.perm_takeOut (hd.takeOut "paths") "definitions").filter
    fun entry => entry.1 ∉ record.names
  rw [hfilter _ (by decide)] at hpaths hdefinitions
  exact (hdefinitions.trans hpaths).symm

/-- A map that is laid over an empty one is what it was read from. -/
theorem extendPart_empty_of_readPart {α : Type} {c : Codec α} {slack : Nat}
    (hc : c.Regular (fun _ => True) slack) {part : Option Json} (hs : ∀ v ∈ part, v.Sound)
    {m : OrderedMap α} (hgiven : ∀ v, part = some v → (Codec.map c).ofJson v = .ok m)
    (habsent : part = none → m = .empty) {read : Option (OrderedMap α)}
    (hread : readPart (.map c) part = .ok read) : extendPart .empty read = m := by
  cases part with
  | none =>
      obtain rfl := Except.ok.inj hread
      exact (habsent rfl).symm
  | some v =>
      obtain ⟨p, hp, hpart⟩ := bind_eq_ok.mp hread
      obtain rfl := Except.ok.inj hpart
      obtain rfl := Except.ok.inj (hp.symm.trans (hgiven v rfl))
      have hregular : (Codec.map c).Regular (fun _ => True) (slack + 1) :=
        hc.map Node.partsIn_true fun _ => Nat.lt_succ_self slack
      have hstable := (hregular.stable_of_ofJson (hs v rfl) trivial hp).mono
        (Nat.le_succ (max v.depth (slack + 1)))
      exact OrderedMap.extend_eq_of_prefix (Codec.map_stable_iff.mp hstable).1 (List.nil_prefix ..)

/-- What an object is read as and what it makes of the document without content are the same up
to the order of extensions. -/
theorem Merged.sameUpToOrder (hs : (Json.ofMap fragment).Sound)
    (hd : record.Overlaid fragment blank d) (hm : Merged fragment blank d') :
    SameUpToOrder d d' := by
  obtain ⟨hdistinct, hentries⟩ := Json.sound_object_iff.mp hs
  have hsound : ∀ name, ∀ v ∈ fragment.get? name, v.Sound := fun name v hv =>
    hentries (name, v) (OrderedMap.mem_entries_of_get? hv)
  have hpaths : d'.paths = d.paths := by
    obtain ⟨read, hread, hmade⟩ := hm.paths
    rw [hmade]
    exact extendPart_empty_of_readPart PathItem.regular (hsound "paths")
      (hd.given pathsField pathsField_mem) (hd.absent pathsField pathsField_mem) hread
  have hdefinitions : d'.definitions = d.definitions := by
    obtain ⟨read, hread, hmade⟩ := hm.definitions
    rw [hmade]
    exact extendPart_empty_of_readPart Schema.regular (hsound "definitions")
      (hd.given definitionsField definitionsField_mem)
      (hd.absent definitionsField definitionsField_mem) hread
  have hempty : ∀ {m : OrderedMap Json}, m.Distinct → blank.extensions.extend m = m := fun hm =>
    OrderedMap.extend_eq_of_prefix hm (List.nil_prefix ..)
  have hothers : ∀ {m : OrderedMap Json}, m.Distinct → (record.others m).Distinct := fun hm =>
    (List.filter_sublist.map _).nodup hm
  have hextensions : d.extensions = record.others fragment :=
    (hd.kept _ rfl).trans (hempty (hothers hdistinct))
  have hextensions' : d'.extensions = record.others (headMembers fragment) :=
    hm.extensions.trans (hempty (hothers (distinct_headMembers hdistinct)))
  refine ⟨?_, lawful.ext _ _ (fun f hf => ?_) ?_⟩
  · rw [hextensions, hextensions']
    exact perm_others_headMembers hdistinct
  · have hget : f.get { d with extensions := d'.extensions } = f.get d := by
      simp only [record, List.mem_cons, List.not_mem_nil, or_false] at hf
      rcases hf with rfl | rfl | rfl | rfl | rfl | rfl | rfl | rfl | rfl | rfl <;> rfl
    rw [hget]
    by_cases hname : f.name ∈ mapNames
    · rcases eq_of_name_mem hf hname with rfl | rfl
      · exact hpaths.symm
      · exact hdefinitions.symm
    · cases hv : fragment.get? f.name with
      | some v =>
          exact Except.ok.inj ((hd.given f hf v hv).symm.trans (hm.given f hf hname v hv))
      | none => rw [hd.absent f hf hv, hm.absent f hf hname hv]
  · rintro k ⟨⟩
    rfl

/-- An object can be read as a document exactly if it can be merged into the document without
content, and both give the same document up to the order of its extensions. A text of the object
that is no deeper than a text may be is read as the object is. -/
theorem ofJson_agrees_merge (hs : (Json.ofMap fragment).Sound) :
    ((∃ d, codec.ofJson (.ofMap fragment) = .ok d) ↔ ∃ d, blank.merge fragment = .ok d) ∧
      (∀ d d', codec.ofJson (.ofMap fragment) = .ok d → blank.merge fragment = .ok d' →
        SameUpToOrder d d') ∧
      ∀ text, JsonText.tree text = (.ofJson (.ofMap fragment), .closed) →
        (Json.ofMap fragment).depth ≤ deepest →
        parseFragment text = .ok fragment ∧
          ∀ d, ofText text = .ok d ↔ codec.ofJson (.ofMap fragment) = .ok d := by
  have hblank := settled_blank 2
  have hneed : ∀ f ∈ record.fields, f.need ≠ .required := by
    simp [record, Field.plain, Field.hidden]
  have hdirect : ∀ d, codec.ofJson (.ofMap fragment) = .ok d ↔ record.Overlaid fragment blank d :=
    fun d => Record.ofJson_iff_overlaid lawful hneed hs
  refine ⟨?_, fun d d' hd hd' => ?_, fun text htext hdepth => ⟨?_, fun d => ?_⟩⟩
  · rw [exists_merge_iff (Nat.le_refl 3) hblank hs, exists_congr hdirect,
      Record.exists_overlaid_iff lawful hs]
  · exact Merged.sameUpToOrder hs ((hdirect d).mp hd)
      ((merge_iff_of_sound (Nat.le_refl 3) hblank hs).mp hd')
  · have hstable : (Codec.map .json).Stable deepest fragment :=
      Codec.jsonMap_stable_iff.mpr ⟨hs, hdepth⟩
    have hread : Codec.json.map.read .jsonText (.ofJson (.ofMap fragment)) = .ok fragment := by
      rw [← Codec.jsonMap_write]
      exact (Codec.jsonMap_regular fun _ => True).reread hstable trivial hstable.depth_le
    rw [parseFragment, htext]
    exact bind_eq_ok.mpr ⟨fragment, hread, rfl⟩
  · have hread :=
      (regular (K := fun _ => True)).read_iff (m := .jsonText) (a := d) hs trivial hdepth
    rw [ofText, htext, ← hread]
    constructor
    · intro h
      obtain ⟨e, he, h⟩ := bind_eq_ok.mp h
      exact Except.ok.inj h ▸ he
    · exact fun h => bind_eq_ok.mpr ⟨d, h, rfl⟩

/-- An object with paths before its extensions. -/
def reordered : OrderedMap Json :=
  ⟨[("paths", .object []), ("x-first", .bool true), ("x-second", .null)]⟩

/-- The object is loaded in both ways, and merging changes the order of its extensions. -/
theorem ofJson_agrees_merge_reordered :
    (Json.ofMap reordered).Sound ∧ ∃ d d', ofText (Json.ofMap reordered).compact = .ok d ∧
      blank.merge reordered = .ok d' ∧ SameUpToOrder d d' ∧
      d.extensions.keys = ["x-first", "x-second"] ∧
      d'.extensions.keys = ["x-second", "x-first"] := by
  have hs : (Json.ofMap reordered).Sound := by
    refine .object (by decide) ?_
    simp only [reordered, List.forall_mem_cons]
    exact ⟨.object (by decide) nofun, .bool true, .null, nofun⟩
  have hdoubles : ∀ x ∈ (Json.ofMap reordered).doubles, (Json.number (.float x)).Rereads := nofun
  obtain ⟨hiff, hsame, htexts⟩ := ofJson_agrees_merge hs
  obtain ⟨-, htext⟩ := htexts _ (Json.tree_compact (hs.legible hdoubles)) (by decide)
  have hkeys : (codec.ofJson (.ofMap reordered)).toOption.map (·.extensions.keys) =
      some ["x-first", "x-second"] := by decide +kernel
  have hkeys' : (blank.merge reordered).toOption.map (·.extensions.keys) =
      some ["x-second", "x-first"] := by decide +kernel
  cases hd : codec.ofJson (.ofMap reordered) with
  | error fault => exact nomatch hd ▸ hkeys
  | ok d =>
      obtain ⟨d', hd'⟩ := hiff.mp ⟨d, hd⟩
      rw [hd] at hkeys
      rw [hd'] at hkeys'
      exact ⟨hs, d, d', (htext d).mpr hd, hd', hsame d d' hd hd', Option.some.inj hkeys,
        Option.some.inj hkeys'⟩

end ServiceDocs.Document
