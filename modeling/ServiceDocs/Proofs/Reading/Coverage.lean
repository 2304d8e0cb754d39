import ServiceDocs.Proofs.Json.Within
import ServiceDocs.Proofs.Reading.Records

/-!
# Reading without Loss

A codec keeps a value if what is written of the value that is read says all that the value
says. Texts, truth values and values of any kind are always kept, a choice if it is given by its
name. Containers keep what their parts keep. A record keeps an object if its fields keep their
members and there is a place for every other member: a record without a place for unknown
members passes over them.

`Codec.Keeps` states this for the values of a class, as the types of a document do not keep every
value. The class of a container and the classes of its parts are related by hypotheses, so that
the law of a recursive type can be proved for values of growing depth.

## Main definitions

* `Json.isString`, `Json.everyPart`, `Record.covers`: classes of values that are decided.
* `Codec.Keeps`: the law.

## Main results

* `Codec.Keeps.list`, `Codec.Keeps.map`, `Codec.Keeps.option`, `Codec.Keeps.either`: containers
  and values of several forms.
* `Record.keeps`: records.
-/

namespace ServiceDocs

variable {α β : Type}

/-! ### Classes of values -/

namespace Json

/-- Whether a value is a text. -/
def isString : Json → Bool
  | .string _ => true
  | _ => false

/-- Whether every item of a list or member of an object has a property. -/
def everyPart (p : Json → Bool) : Json → Bool
  | .array items => items.all p
  | .object fields => fields.all fun entry => p entry.2
  | _ => true

end Json

/-- Whether a record has a place for a member, and for all that it says. `parts` has the properties
that the members of some fields need for this. -/
def Record.coversMember (r : Record α) (parts : List (String × (Json → Bool))) (name : String)
    (v : Json) : Bool :=
  (r.rest.isSome || r.names.contains name) && (OrderedMap.findEntry name parts).all fun p => p v

/-- Whether a value is an object and a record has a place for all that it says. A member that is
null says nothing. -/
def Record.covers (r : Record α) (parts : List (String × (Json → Bool))) : Json → Bool
  | .object fields => fields.all fun entry =>
      entry.2 = .null || r.coversMember parts entry.1 entry.2
  | _ => false

/-! ### The law -/

/-- A codec that keeps the values of a class. -/
structure Codec.Keeps (c : Codec α) (P : Json → Prop) : Prop where
  /-- What is written of a value that was read says all that was read. -/
  within : ∀ {v : Json} {a : α}, v.Sound → P v → c.ofJson v = .ok a → v.within (c.write a) = true

namespace Codec

variable {c : Codec α} {P Q R : Json → Prop}

/-! ### Simple types -/

/-- Texts are kept. -/
theorem string_keeps : string.Keeps P where
  within := by
    intro v a hv _ hr
    cases v with
    | string s =>
        obtain rfl : s = a := Except.ok.inj hr
        exact Json.within_refl hv
    | null | bool | number | array | object => exact nomatch hr

/-- Flags are kept. -/
theorem bool_keeps : bool.Keeps P where
  within := by
    intro v a hv _ hr
    cases v with
    | bool b =>
        obtain rfl : b = a := Except.ok.inj hr
        exact Json.within_refl hv
    | null | string | number | array | object => exact nomatch hr

/-- A value that is taken as it is is kept. -/
theorem json_keeps : json.Keeps P where
  within := by
    intro v a hv _ hr
    obtain rfl : v = a := Except.ok.inj ((Json.read_ofJson (m := .value) hv trivial).symm.trans hr)
    exact Json.within_refl hv

/-- A choice that is given by its name is written in the same way. -/
theorem choice_keeps {choices : List (String × α)} {name : α → String}
    (h : ∀ entry ∈ choices, name entry.2 = entry.1) :
    (choice choices name).Keeps fun v => v.isString = true where
  within := by
    intro v a hv hs hr
    cases v with
    | string s =>
        have hread : chooseName choices s = .ok a := hr
        rw [chooseName] at hread
        split at hread
        · next value hfind =>
            obtain rfl := Except.ok.inj hread
            have hname : name value = s := h _ (OrderedMap.mem_of_findEntry hfind)
            show (Json.string s).within (.string (name value)) = true
            rw [hname]
            exact Json.within_refl hv
        · cases hread
    -- an object may name a choice as well, but it is written as a text
    | null | bool | number | array | object => cases hs

/-! ### Containers -/

/-- A list keeps what its items keep. -/
theorem Keeps.list (h : c.Keeps P) (hP : ∀ items, Q (.array items) → ∀ item ∈ items, P item) :
    (list c).Keeps Q where
  within := by
    intro v as hv hq hr
    cases hv with
    | @array items hitems =>
        have hread := (list_read_iff rfl).mp hr
        refine Json.within_array_iff.mpr (List.forall₂_map_right_iff.mpr ?_)
        have hall : ∀ item ∈ items, item.Sound ∧ P item := fun item hitem =>
          ⟨hitems item hitem, hP items hq item hitem⟩
        exact ((List.forall₂_and_left items as).mpr ⟨hall, hread⟩).imp
          fun item a ⟨⟨hs, hp⟩, ha⟩ => h.within hs hp ha
    | null | bool | number | string | object => exact nomatch hr

/-- The members of an object are within what is written of the map that is read from it, each in
the spelling in which it is within what is written of the value that is read from it. -/
theorem within_map_write (spell : Json → Json) {fields : List (String × Json)} {m : OrderedMap α}
    (hd : (fields.map Prod.fst).Nodup) (hr : c.map.ofJson (.object fields) = .ok m)
    (h : ∀ entry ∈ fields, ∀ a, c.ofJson entry.2 = .ok a →
      (spell entry.2).within (c.write a) = true) :
    (Json.object (fields.map fun entry => (entry.1, spell entry.2))).within (c.map.write m) =
      true := by
  have hread := (map_read_iff rfl hd).mp hr
  refine Json.within_object_iff.mpr (List.forall_mem_map.mpr fun entry hentry _ => ?_)
  obtain ⟨a, ha, hfind⟩ := (OrderedMap.findEntry_of_forall₂ hread entry.1).1 entry.2
    (OrderedMap.findEntry_of_mem hd hentry)
  have hwrite : (m.mapValues c.write).get? entry.1 = some (c.write a) :=
    (OrderedMap.get?_mapValues c.write m entry.1).trans (congrArg _ hfind)
  exact ⟨c.write a, hwrite, h entry hentry a ha⟩

/-- What is within a map is within what is made of another map by laying it over that one. -/
theorem within_write_extend {v : Json} {m other : OrderedMap α} (hd : other.Distinct)
    (h : v.within (c.map.write other) = true) : v.within (c.map.write (m.extend other)) = true := by
  obtain ⟨fields, rfl⟩ := Json.exists_of_within_object h
  refine Json.within_object_iff.mpr fun entry hentry hnull => ?_
  obtain ⟨w, hw, hwithin⟩ := Json.within_object_iff.mp h entry hentry hnull
  refine ⟨w, ?_, hwithin⟩
  have hfind : (other.mapValues c.write).get? entry.1 = some w := hw
  show ((m.extend other).mapValues c.write).get? entry.1 = some w
  rw [OrderedMap.get?_mapValues] at hfind ⊢
  obtain ⟨a, ha, rfl⟩ := Option.map_eq_some_iff.mp hfind
  rw [OrderedMap.get?_extend hd, ha]
  rfl

/-- A map keeps what its values keep. -/
theorem Keeps.map (h : c.Keeps P)
    (hP : ∀ fields, Q (.object fields) → ∀ entry ∈ fields, P entry.2) : (map c).Keeps Q where
  within := by
    intro v m hv hq hr
    cases hv with
    | @object fields hd hfields =>
        have hwithin := within_map_write id hd hr fun entry hentry a ha =>
          h.within (hfields entry hentry) (hP fields hq entry hentry) ha
        simpa using hwithin
    | null | bool | number | string | array => exact nomatch hr

/-- A value that may be null keeps what the value itself keeps. -/
theorem Keeps.option (h : c.Keeps P) (hP : ∀ v, v ≠ .null → Q v → P v) : (option c).Keeps Q where
  within := by
    intro v a hv hq hr
    by_cases hnull : v = .null
    · subst hnull
      obtain rfl : none = a := Except.ok.inj hr
      exact Json.within_refl hv
    · obtain ⟨x, hx, rfl⟩ :=
        (option_read_iff (Node.isJson_ofJson hv) (mt ofJson_eq_null_iff.mp hnull)).mp hr
      exact h.within hv (hP v hnull hq) hx

/-- A value of one of two forms keeps what the first form that fits keeps. -/
theorem Keeps.either {γ : Type} {e : Codec γ} {a : Codec α} {b : Codec β} {first : α → γ}
    {second : β → γ} {slack slack' : Nat} (he : Either e a b first second)
    (hregular : a.Regular Node.Exact slack) (hregular' : b.Regular Node.Exact slack')
    (ha : a.Keeps P) (hb : b.Keeps R)
    (hP : ∀ v x, v.Sound → Q v → a.ofJson v = .ok x → P v)
    (hR : ∀ v, v.Sound → Q v → (∀ x, a.ofJson v ≠ .ok x) → R v) : e.Keeps Q where
  within := by
    intro v z hv hq hr
    rcases he.write_of_ofJson hregular hregular' hv hr with
      ⟨x, hx, hwrite⟩ | ⟨hnot, y, hy, hwrite⟩
    · rw [hwrite]
      exact ha.within hv (hP v x hv hq hx) hx
    · rw [hwrite]
      exact hb.within hv (hR v hv hq hnot) hy

/-! ### Containers of values that are decided to be kept -/

variable {p : Json → Bool}

/-- What is not null is kept if it is kept by itself. -/
theorem Keeps.orNull (h : c.Keeps P) : c.option.Keeps P := h.option fun _ _ hv => hv

/-- A list is kept if every item has the property that keeps it. -/
theorem Keeps.everyItem (h : c.Keeps fun v => p v = true) :
    c.list.Keeps fun v => v.everyPart p = true :=
  h.list fun _ hitems => List.all_eq_true.mp hitems

/-- A map is kept if every value has the property that keeps it. -/
theorem Keeps.everyMember (h : c.Keeps fun v => p v = true) :
    c.map.Keeps fun v => v.everyPart p = true :=
  h.map fun _ hfields => List.all_eq_true.mp hfields

/-! ### Containers of values that are always kept -/

/-- A value that may be null is kept if the value itself always is. -/
theorem Keeps.option_of_true (h : c.Keeps fun _ => True) : c.option.Keeps P :=
  h.option fun _ _ _ => trivial

/-- A text that may be null is kept. -/
theorem option_string_keeps : string.option.Keeps P := string_keeps.option_of_true

/-- A list of values that are always kept is kept. -/
theorem Keeps.list_of_true (h : c.Keeps fun _ => True) : c.list.Keeps P :=
  h.list fun _ _ _ _ => trivial

/-- A map of values that are always kept is kept. -/
theorem Keeps.map_of_true (h : c.Keeps fun _ => True) : c.map.Keeps P :=
  h.map fun _ _ _ _ => trivial

/-! ### Renamed values -/

/-- A codec keeps what a codec keeps that it renames. -/
theorem Keeps.rename {d : Codec β} (h : c.Keeps P) (f : α → β)
    (hread : ∀ n, n.IsJson → d.read .value n = Reader.map f c.read .value n)
    (hwrite : ∀ a, d.write (f a) = c.write a) : d.Keeps P where
  within := by
    intro v b hv hp hr
    obtain ⟨a, ha, hwritten⟩ := write_of_ofJson_rename hread hwrite hv hr
    rw [hwritten]
    exact h.within hv hp ha

end Codec

/-! ### Records -/

/-- A field leaves a part out only if the part is written as null. -/
def Field.OmitsNull (f : Field α) : Prop := ∀ x, f.omits x = true → f.codec.write x = .null

/-- A field that is always written leaves nothing out. -/
@[simp] theorem Field.omitsNull_plain (name : String) (need : Need) (item : Codec β) (get : α → β)
    (set : β → α → α) : (plain name need item get set).OmitsNull := fun _ h => nomatch h

/-- A field that is left out where it has no value leaves out what is written as null. -/
@[simp] theorem Field.omitsNull_hidden (name : String) (need : Need) (item : Codec β)
    (get : α → Option β) (set : Option β → α → α) : (hidden name need item get set).OmitsNull := by
  intro x h
  obtain rfl : x = none := Option.isNone_iff_eq_none.mp h
  rfl

namespace Record

variable {r : Record α} {P : String → Json → Prop} {Q : Json → Prop}

/-- A record that fits an object keeps no field as unknown. -/
theorem Fits.notMem_names {m : Mode} {entries : List (String × Json)} {a : α}
    (ha : r.Fits m entries a) : ∀ k ∈ r.rest, ∀ entry ∈ (k.kept a).entries, entry.1 ∉ r.names := by
  intro k hk entry hentry
  rw [ha.kept k hk, List.mem_filter] at hentry
  exact of_decide_eq_true hentry.2

/-- A record that is not given as a list is given as an object. -/
theorem exists_object_of_ofJson (hlisted : r.listed = false) {v : Json} {a : α}
    (h : r.codec.ofJson v = .ok a) : ∃ fields, v = .object fields := by
  cases v with
  | object fields => exact ⟨fields, rfl⟩
  | array =>
    simp [Codec.ofJson, Reader.ofJson, Record.codec, Record.read, Node.ofJson, hlisted] at h
  | null | bool | number | string => cases h

/-- What is within the part of a record that is written of a field is within the member of its
name, unless it is null. -/
theorem Lawful.exists_findEntry_members (hr : r.Lawful)
    (homits : ∀ f ∈ r.fields, f.OmitsNull) {a : α}
    (ha : ∀ k ∈ r.rest, ∀ entry ∈ (k.kept a).entries, entry.1 ∉ r.names) {f : Field α}
    (hf : f ∈ r.fields) {v : Json} (hnull : v ≠ .null)
    (h : v.within (f.codec.write (f.get a)) = true) :
    ∃ w, OrderedMap.findEntry f.name (r.members a) = some w ∧ v.within w = true := by
  refine ⟨f.codec.write (f.get a), ?_, h⟩
  rw [hr.findEntry_members ha hf, write_eq_some_iff]
  refine ⟨?_, rfl⟩
  cases hwritten : f.omits (f.get a) with
  | false => rfl
  | true =>
      rw [homits f hf _ hwritten] at h
      exact absurd (Json.eq_null_of_within_null h) hnull

/-- A record keeps objects whose members its fields keep, if there is a place for all others. -/
theorem keeps (hr : r.Lawful) (homits : ∀ f ∈ r.fields, f.OmitsNull)
    (hobject : ∀ v a, Q v → r.codec.ofJson v = .ok a → ∃ fields, v = .object fields)
    (hplace : ∀ fields, Q (.object fields) → ∀ entry ∈ fields, entry.2 ≠ .null →
      (r.rest.isSome = true ∨ entry.1 ∈ r.names) ∧ P entry.1 entry.2)
    (hfields : ∀ f ∈ r.fields, f.codec.Keeps (P f.name)) : r.codec.Keeps Q where
  within := by
    intro v a hv hq hread
    obtain ⟨fields, rfl⟩ := hobject v a hq hread
    obtain ⟨hd, hsound⟩ := Json.sound_object_iff.mp hv
    have hfits := (ofJson_object_iff hr hv).mp hread
    refine Json.within_object_iff.mpr fun entry hentry hnull => ?_
    obtain ⟨hplaced, hpart⟩ := hplace fields hq entry hentry hnull
    have hfind := OrderedMap.findEntry_of_mem hd hentry
    by_cases hname : entry.1 ∈ r.names
    · obtain ⟨f, hf, hfname⟩ := List.mem_map.mp hname
      rw [← hfname] at hfind hpart ⊢
      exact hr.exists_findEntry_members homits hfits.notMem_names hf hnull
        ((hfields f hf).within (hsound entry hentry) hpart (hfits.given f hf entry.2 hfind))
    · obtain ⟨k, hk⟩ := Option.isSome_iff_exists.mp (hplaced.resolve_right hname)
      exact ⟨entry.2, (hfits.findEntry_members hk hname).trans hfind,
        Json.within_refl (hsound entry hentry)⟩

variable {parts : List (String × (Json → Bool))}

/-- There is a place for the members of what a record covers. -/
theorem coversMember_of_covers {fields : List (String × Json)}
    (h : r.covers parts (.object fields) = true) :
    ∀ entry ∈ fields, entry.2 ≠ .null → (r.rest.isSome = true ∨ entry.1 ∈ r.names) ∧
      ((OrderedMap.findEntry entry.1 parts).all fun p => p entry.2) = true := by
  intro entry hentry hnull
  have hmember := List.all_eq_true.mp h entry hentry
  rw [Bool.or_eq_true, decide_eq_true_eq] at hmember
  have hplace := hmember.resolve_left hnull
  rwa [coversMember, Bool.and_eq_true, Bool.or_eq_true, List.contains_iff_mem] at hplace

/-- A record keeps what it covers. -/
theorem keeps_covers (hr : r.Lawful) (homits : ∀ f ∈ r.fields, f.OmitsNull)
    (hfields : ∀ f ∈ r.fields, f.codec.Keeps fun v =>
      ((OrderedMap.findEntry f.name parts).all fun p => p v) = true) :
    r.codec.Keeps fun v => r.covers parts v = true := by
  refine keeps (P := fun name v => ((OrderedMap.findEntry name parts).all fun p => p v) = true)
    (Q := fun v => r.covers parts v = true) hr homits (fun v _ hv _ => ?_)
    (fun _ => coversMember_of_covers) hfields
  cases v with
  | object fields => exact ⟨fields, rfl⟩
  | null | bool | number | string | array => exact nomatch hv

end Record

end ServiceDocs
