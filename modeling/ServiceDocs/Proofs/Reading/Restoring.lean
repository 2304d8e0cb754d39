import ServiceDocs.Proofs.Json.Alike
import ServiceDocs.Proofs.Reading.Coverage

/-!
# Writing What Was Read

A codec restores a value if what is written of the value that is read is the same up to the order
of members. Simple types do, and containers do if their parts do. A record that keeps unknown
members restores an object but for the members that are null and named after a field: they are read
as absent, and nothing is written of what is absent.

So the law is about a spelling, the value without such members. The spelling is what is written,
and the value itself is written only if it is its own spelling.

## Main definitions

* `Json.Spelled`, `Codec.Restores`: the law, of a value that is written and of a codec.
* `Record.spelling`: an object without the members that are read as absent.

## Main results

* `Codec.Restores.list`, `Codec.Restores.map`, `Codec.Restores.either`: containers and values of
  several forms.
* `Record.restores`: records.
-/

namespace ServiceDocs

variable {α β : Type} {P Q : Json → Prop} {spell spell' : Json → Json}

/-! ### The law -/

/-- What is written is the spelling of a value up to order, and the value itself only if it is its
own spelling. -/
structure Json.Spelled (spell : Json → Json) (v written : Json) : Prop where
  same : (spell v).sameUpToOrder written = true
  eq_self : v.sameUpToOrder written = true → spell v = v

/-- A codec that writes the spelling of what it reads. -/
structure Codec.Restores (c : Codec α) (P : Json → Prop) (spell : Json → Json) : Prop where
  spelled : ∀ {v : Json} {a : α}, v.Sound → P v → c.ofJson v = .ok a → v.Spelled spell (c.write a)

namespace Json

/-- What is written as it is, is spelled as it is. -/
theorem Spelled.refl {v : Json} (hv : v.Sound) (hspell : spell v = v) : v.Spelled spell v where
  same := hspell.symm ▸ sameUpToOrder_refl hv
  eq_self _ := hspell

/-- A list is spelled item by item. -/
theorem Spelled.array {items written : List Json}
    (hspell : spell' (.array items) = .array (items.map spell))
    (h : List.Forall₂ (Spelled spell) items written) :
    (Json.array items).Spelled spell' (.array written) where
  same := by
    rw [hspell]
    exact alike_array_iff.mpr (List.forall₂_map_left_iff.mpr (h.imp fun _ _ hv => hv.same))
  eq_self hsame := by
    have hitems := alike_array_iff.mp hsame
    have hspelled : ∀ item ∈ items, spell item = item := by
      have hall : List.Forall₂ (fun v w => spell v = v ∧ v.alike (fun a b => a == b) w = true)
          items written := List.Forall₂.mp (fun _ _ hv hw => ⟨hv.eq_self hw, hw⟩) h hitems
      exact ((List.forall₂_and_left items written).mp hall).1
    rw [hspell, List.map_congr_left hspelled, List.map_id']

/-- An object is spelled member by member, and what is left out is not written. -/
theorem Spelled.object (kept : String × Json → Bool) (spellAt : String → Json → Json)
    {fields written : List (String × Json)}
    (hspell : spell (.object fields) =
      .object ((fields.filter kept).map fun entry => (entry.1, spellAt entry.1 entry.2)))
    (hkept : ∀ entry ∈ fields, kept entry = true →
      ∃ w, OrderedMap.findEntry entry.1 written = some w ∧ entry.2.Spelled (spellAt entry.1) w)
    (homitted : ∀ entry ∈ fields, kept entry = false →
      OrderedMap.findEntry entry.1 written = none)
    (hwritten : ∀ entry ∈ written, ∃ v, (entry.1, v) ∈ fields.filter kept) :
    (Json.object fields).Spelled spell (.object written) where
  same := by
    rw [hspell]
    refine alike_object_iff.mpr ⟨List.forall_mem_map.mpr fun entry hentry => ?_, ?_⟩
    · obtain ⟨hmem, hkeep⟩ := List.mem_filter.mp hentry
      obtain ⟨w, hw, hspelled⟩ := hkept entry hmem hkeep
      exact ⟨w, hw, hspelled.same⟩
    · intro entry hentry
      obtain ⟨v, hv⟩ := hwritten entry hentry
      rw [List.map_map]
      exact List.mem_map.mpr ⟨_, hv, rfl⟩
  eq_self hsame := by
    obtain ⟨hfields, -⟩ := alike_object_iff.mp hsame
    have hall : ∀ entry ∈ fields, kept entry = true ∧ spellAt entry.1 entry.2 = entry.2 := by
      intro entry hentry
      obtain ⟨w, hw, hvalue⟩ := hfields entry hentry
      cases hkeep : kept entry with
      | false =>
          rw [homitted entry hentry hkeep] at hw
          exact nomatch hw
      | true =>
          obtain ⟨w', hw', hspelled⟩ := hkept entry hentry hkeep
          obtain rfl : w' = w := Option.some.inj (hw'.symm.trans hw)
          exact ⟨rfl, hspelled.eq_self hvalue⟩
    have hfilter : fields.filter kept = fields :=
      List.filter_eq_self.mpr fun entry hentry => (hall entry hentry).1
    have hmap : ∀ entry ∈ fields, (entry.1, spellAt entry.1 entry.2) = entry := fun entry hentry =>
      Prod.ext rfl (hall entry hentry).2
    rw [hspell, hfilter, List.map_congr_left hmap, List.map_id']

end Json

namespace Codec

variable {c : Codec α}

/-! ### Simple types -/

/-- Texts are restored where spelling changes nothing. -/
theorem string_restores (hspell : ∀ v, spell v = v) : string.Restores P spell where
  spelled := by
    intro v a hv _ hr
    cases v with
    | string s =>
        obtain rfl : s = a := Except.ok.inj hr
        exact .refl hv (hspell _)
    | null | bool | number | array | object => exact nomatch hr

/-- A truth value is restored in every spelling that keeps truth values. -/
theorem bool_restores (hspell : ∀ b, spell (.bool b) = .bool b) : bool.Restores P spell where
  spelled := by
    intro v a hv _ hr
    cases v with
    | bool b =>
        obtain rfl : b = a := Except.ok.inj hr
        exact .refl hv (hspell b)
    | null | string | number | array | object => exact nomatch hr

/-- So are values that are taken as they are. -/
theorem json_restores (hspell : ∀ v, spell v = v) : json.Restores P spell where
  spelled := by
    intro v a hv _ hr
    obtain rfl : v = a := Except.ok.inj ((Json.read_ofJson (m := .value) hv trivial).symm.trans hr)
    exact .refl hv (hspell v)

/-! ### Containers -/

/-- A list restores what its items restore. -/
theorem Restores.list (h : c.Restores P spell)
    (hP : ∀ items, Q (.array items) → ∀ item ∈ items, P item)
    (hspell : ∀ items, spell' (.array items) = .array (items.map spell)) :
    (list c).Restores Q spell' where
  spelled := by
    intro v as hv hq hr
    cases hv with
    | @array items hitems =>
        have hread := (list_read_iff rfl).mp hr
        have hall : ∀ item ∈ items, item.Sound ∧ P item := fun item hitem =>
          ⟨hitems item hitem, hP items hq item hitem⟩
        refine .array (hspell items) (List.forall₂_map_right_iff.mpr ?_)
        exact ((List.forall₂_and_left items as).mpr ⟨hall, hread⟩).imp
          fun item a ⟨⟨hs, hp⟩, ha⟩ => h.spelled hs hp ha
    | null | bool | number | string | object => exact nomatch hr

/-- A map restores what its values restore. -/
theorem Restores.map (h : c.Restores P spell)
    (hP : ∀ fields, Q (.object fields) → ∀ entry ∈ fields, P entry.2)
    (hspell : ∀ fields, spell' (.object fields) =
      .object (fields.map fun entry => (entry.1, spell entry.2))) :
    (map c).Restores Q spell' where
  spelled := by
    intro v m hv hq hr
    cases hv with
    | @object fields hd hfields =>
        have hread := (map_read_iff rfl hd).mp hr
        refine .object (fun _ => true) (fun _ => spell) ?_ (fun entry hentry _ => ?_)
          (fun _ _ hkeep => nomatch hkeep) fun entry hentry => ?_
        · rw [hspell, List.filter_true]
        · obtain ⟨a, ha, hfind⟩ := (OrderedMap.findEntry_of_forall₂ hread entry.1).1 entry.2
            (OrderedMap.findEntry_of_mem hd hentry)
          have hwrite : (m.mapValues c.write).get? entry.1 = some (c.write a) :=
            (OrderedMap.get?_mapValues c.write m entry.1).trans (congrArg _ hfind)
          exact ⟨c.write a, hwrite, h.spelled (hfields entry hentry) (hP fields hq entry hentry) ha⟩
        · have hkeys : (m.mapValues c.write).keys = fields.map (·.1) :=
            (OrderedMap.keys_mapValues c.write m).trans (OrderedMap.map_fst_of_forall₂ hread)
          have hname : entry.1 ∈ (m.mapValues c.write).keys := List.mem_map_of_mem hentry
          rw [hkeys] at hname
          obtain ⟨field, hfield, hfst⟩ := List.mem_map.mp hname
          rw [List.filter_true, ← hfst]
          exact ⟨field.2, hfield⟩
    | null | bool | number | string | array => exact nomatch hr

/-- A value of one of two forms is restored if the codecs of both forms restore it. -/
theorem Restores.either {γ : Type} {e : Codec γ} {a : Codec α} {b : Codec β} {first : α → γ}
    {second : β → γ} {slack slack' : Nat} (he : Either e a b first second)
    (hregular : a.Regular Node.Exact slack) (hregular' : b.Regular Node.Exact slack')
    (ha : a.Restores P spell) (hb : b.Restores P spell) : e.Restores P spell where
  spelled := by
    intro v z hv hp hr
    rcases he.write_of_ofJson hregular hregular' hv hr with ⟨x, hx, hwrite⟩ | ⟨-, y, hy, hwrite⟩
    · rw [hwrite]
      exact ha.spelled hv hp hx
    · rw [hwrite]
      exact hb.spelled hv hp hy

/-- A codec restores what a codec restores that it renames. -/
theorem Restores.rename {d : Codec β} (h : c.Restores P spell) (f : α → β)
    (hread : ∀ n, n.IsJson → d.read .value n = Reader.map f c.read .value n)
    (hwrite : ∀ a, d.write (f a) = c.write a) : d.Restores P spell where
  spelled := by
    intro v b hv hp hr
    obtain ⟨a, ha, hwritten⟩ := write_of_ofJson_rename hread hwrite hv hr
    rw [hwritten]
    exact h.spelled hv hp ha

end Codec

/-! ### Records -/

/-- A field that leaves out what is read from a null, and restores everything else. -/
structure Field.Restores (f : Field α) (P : Json → Prop) (spell : Json → Json) : Prop where
  omits_of_null : ∀ {x : f.Part}, f.codec.ofJson .null = .ok x → f.omits x = true
  spelled : ∀ {v : Json} {x : f.Part}, v.Sound → P v → v ≠ .null → f.codec.ofJson v = .ok x →
    f.omits x = false ∧ v.Spelled spell (f.codec.write x)

/-- A field that may be null restores what its codec restores. -/
theorem Codec.Restores.hidden {c : Codec β} (h : c.Restores P spell) {name : String} {need : Need}
    {get : α → Option β} {set : Option β → α → α} :
    (Field.hidden name need c get set).Restores P spell where
  omits_of_null := by
    intro x hx
    obtain rfl : none = x := Except.ok.inj hx
    rfl
  spelled := by
    intro v x hv hp hnull hx
    obtain ⟨y, hy, rfl⟩ := (option_read_iff (Node.isJson_ofJson hv)
      (mt ofJson_eq_null_iff.mp hnull)).mp hx
    exact ⟨rfl, h.spelled hv hp hy⟩

namespace Record

variable {r : Record α} {spellAt : String → Json → Json}

/-- Whether a member is read as absent: it is null and a field is named after it. -/
def ignores (r : Record α) (entry : String × Json) : Bool :=
  entry.2 = .null && r.names.contains entry.1

/-- An object without the members that are read as absent. `spellAt` spells the others. -/
def spelling (r : Record α) (spellAt : String → Json → Json) : Json → Json
  | .object fields =>
    .object ((fields.filter fun entry => !r.ignores entry).map fun entry =>
      (entry.1, spellAt entry.1 entry.2))
  | v => v

/-- A record that keeps unknown members as they are, and whose fields restore theirs and leave out
what is absent. -/
structure FieldsRestore (r : Record α) (P : Json → Prop) (spellAt : String → Json → Json) :
    Prop where
  lawful : r.Lawful
  rest : r.rest.isSome = true
  blank : ∀ f ∈ r.fields, f.omits (f.get r.blank) = true
  field : ∀ f ∈ r.fields, f.Restores P (spellAt f.name)
  unknown : ∀ name, name ∉ r.names → ∀ v, spellAt name v = v

variable {fields : List (String × Json)} {a : α} {entry : String × Json}

/-- Nothing is written under the name of a field that is absent. -/
theorem FieldsRestore.write_eq_none (h : r.FieldsRestore P spellAt) (ha : r.Fits .value fields a)
    {f : Field α} (hf : f ∈ r.fields) (hname : f.name ∉ fields.map (·.1)) : f.write a = none := by
  have homits : f.omits (f.get a) = true := by
    rw [(ha.absent f hf hname).2]
    exact h.blank f hf
  exact if_pos homits

/-- Nothing is written under the name of a field that is null. -/
theorem FieldsRestore.write_eq_none_of_null (h : r.FieldsRestore P spellAt)
    (ha : r.Fits .value fields a) {f : Field α} (hf : f ∈ r.fields)
    (hnull : OrderedMap.findEntry f.name fields = some .null) : f.write a = none :=
  if_pos ((h.field f hf).omits_of_null (ha.given f hf _ hnull))

/-- A member that is not ignored is written in its spelling. -/
theorem FieldsRestore.exists_findEntry_members (h : r.FieldsRestore P spellAt)
    (hd : (fields.map (·.1)).Nodup) (ha : r.Fits .value fields a) (hentry : entry ∈ fields)
    (hsound : entry.2.Sound) (hp : P entry.2) (hkeep : r.ignores entry = false) :
    ∃ w, OrderedMap.findEntry entry.1 (r.members a) = some w ∧
      entry.2.Spelled (spellAt entry.1) w := by
  have hvalue := OrderedMap.findEntry_of_mem hd hentry
  by_cases hname : entry.1 ∈ r.names
  · obtain ⟨f, hf, hfname⟩ := List.mem_map.mp hname
    have hnull : entry.2 ≠ .null := fun hnull => by simp [ignores, hnull, hname] at hkeep
    rw [← hfname] at hvalue ⊢
    obtain ⟨homits, hspelled⟩ := (h.field f hf).spelled hsound hp hnull (ha.given f hf _ hvalue)
    rw [h.lawful.findEntry_members ha.notMem_names hf]
    exact ⟨_, write_eq_some_iff.mpr ⟨homits, rfl⟩, hspelled⟩
  · obtain ⟨k, hk⟩ := Option.isSome_iff_exists.mp h.rest
    rw [ha.findEntry_members hk hname, hvalue]
    exact ⟨entry.2, rfl, .refl hsound (h.unknown _ hname _)⟩

/-- A member that is ignored is not written. -/
theorem FieldsRestore.findEntry_members_eq_none (h : r.FieldsRestore P spellAt)
    (hd : (fields.map (·.1)).Nodup) (ha : r.Fits .value fields a) (hentry : entry ∈ fields)
    (hignored : r.ignores entry = true) : OrderedMap.findEntry entry.1 (r.members a) = none := by
  have hvalue := OrderedMap.findEntry_of_mem hd hentry
  rw [ignores, Bool.and_eq_true, decide_eq_true_eq, List.contains_iff_mem] at hignored
  obtain ⟨hnull, hname⟩ := hignored
  obtain ⟨f, hf, hfname⟩ := List.mem_map.mp hname
  rw [← hfname, hnull] at hvalue
  rw [← hfname, h.lawful.findEntry_members ha.notMem_names hf]
  exact h.write_eq_none_of_null ha hf hvalue

/-- Only members that are not ignored are written. -/
theorem FieldsRestore.exists_of_mem_members (h : r.FieldsRestore P spellAt)
    (ha : r.Fits .value fields a) (hentry : entry ∈ r.members a) :
    ∃ v, (entry.1, v) ∈ fields.filter fun entry => !r.ignores entry := by
  rw [members_eq, List.mem_append] at hentry
  rcases hentry with hwritten | hkept
  · obtain ⟨f, hf, homits, rfl⟩ := mem_written_iff.mp hwritten
    have hwrite : f.write a ≠ none := fun hnone =>
      nomatch hnone.symm.trans (write_eq_some_iff.mpr ⟨homits, rfl⟩)
    cases hvalue : OrderedMap.findEntry f.name fields with
    | none =>
        have habsent := (OrderedMap.findEntry_eq_none_iff f.name fields).mp hvalue
        exact absurd (h.write_eq_none ha hf habsent) hwrite
    | some v =>
        have hnull : v ≠ .null := by
          rintro rfl
          exact hwrite (h.write_eq_none_of_null ha hf hvalue)
        exact ⟨v, List.mem_filter.mpr
          ⟨OrderedMap.mem_of_findEntry hvalue, by simp [ignores, hnull]⟩⟩
  · obtain ⟨k, hk, hkept⟩ := exists_of_mem_keptEntries hkept
    rw [ha.kept k hk, List.mem_filter, decide_eq_true_eq] at hkept
    exact ⟨entry.2, List.mem_filter.mpr ⟨hkept.1, by simp [ignores, hkept.2]⟩⟩

/-- A record that keeps unknown members restores objects, except for members that are read as
absent. -/
theorem restores (h : r.FieldsRestore P spellAt) (hobject : r.listed = false)
    (hP : ∀ fields, Q (.object fields) → ∀ entry ∈ fields, P entry.2) :
    r.codec.Restores Q (r.spelling spellAt) where
  spelled := by
    intro v a hv hq hread
    obtain ⟨fields, rfl⟩ := exists_object_of_ofJson hobject hread
    obtain ⟨hd, hsound⟩ := Json.sound_object_iff.mp hv
    have ha := (ofJson_object_iff h.lawful hv).mp hread
    refine .object _ _ rfl (fun entry hentry hkeep => ?_) (fun entry hentry hignored => ?_)
      fun entry hentry => h.exists_of_mem_members ha hentry
    · exact h.exists_findEntry_members hd ha hentry (hsound entry hentry)
        (hP fields hq entry hentry) (by simpa using hkeep)
    · exact h.findEntry_members_eq_none hd ha hentry (by simpa using hignored)

end Record

end ServiceDocs
