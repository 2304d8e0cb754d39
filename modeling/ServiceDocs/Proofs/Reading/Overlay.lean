import ServiceDocs.Proofs.Reading.Records

/-!
# Laying Members over a Record

A record may be changed by laying members over the object that is written of it and reading
the result. What comes out agrees with the record except where the members say otherwise:
writing and reading again changes nothing of its own, because the record is settled.

Whether members can be laid over a record does not depend on the record, but only on whether
each of its fields can read the member of its name. Reading an object into a record without
required fields is laying its members over the blank record.

## Main results

* `Record.overlay_iff`: what members that are laid over a record make of it.
* `Record.exists_overlaid_iff`: when members can be laid over a record.
* `Record.ofJson_iff_overlaid`: reading a record is laying members over the blank one.
-/

namespace ServiceDocs

/-! ### Members that are given once -/

namespace Json

/-- The items of a list are changed one by one. -/
theorem unrepeatedItems_eq_map (items : List Json) :
    unrepeatedItems items = items.map unrepeated := by
  induction items with
  | nil => rfl
  | cons item rest ih => rw [unrepeatedItems, ih, List.map_cons]

/-- So are the values of members. -/
theorem unrepeatedFields_eq_map (fields : List (String × Json)) :
    unrepeatedFields fields = fields.map fun field => (field.1, field.2.unrepeated) := by
  induction fields with
  | nil => rfl
  | cons field rest ih => rw [unrepeatedFields, ih, List.map_cons]

/-- A sound value has no repeated members. -/
theorem Sound.unrepeated_eq {v : Json} (h : v.Sound) : v.unrepeated = v := by
  induction h with
  | null | bool | number | string => rfl
  | @array items _ ih =>
      have hitems : items.map unrepeated = items :=
        (List.map_congr_left ih).trans (List.map_id' items)
      rw [unrepeated, unrepeatedItems_eq_map, hitems]
  | @object fields hdistinct _ ih =>
      have hsame : ∀ field ∈ fields, (field.1, field.2.unrepeated) = id field :=
        fun field hfield => Prod.ext rfl (ih field hfield)
      have hfields := (List.map_congr_left hsame).trans (List.map_id fields)
      rw [unrepeated, unrepeatedFields_eq_map, hfields, ofMap, OrderedMap.ofList,
        OrderedMap.entries_insertAll_empty hdistinct]

end Json

namespace Record

variable {α : Type} {r : Record α} {d : Nat} {a b : α} {members : OrderedMap Json}

/-- The members that no field of the record has the name of. -/
def others (r : Record α) (members : OrderedMap Json) : OrderedMap Json :=
  ⟨members.entries.filter fun entry => entry.1 ∉ r.names⟩

/-- What a record becomes when members are laid over it. -/
structure Overlaid (r : Record α) (members : OrderedMap Json) (a b : α) : Prop where
  /-- A field that is among the members has what the member holds. -/
  given : ∀ f ∈ r.fields, ∀ v, members.get? f.name = some v → f.codec.ofJson v = .ok (f.get b)
  /-- Every other field stays as it is. -/
  absent : ∀ f ∈ r.fields, members.get? f.name = none → f.get b = f.get a
  /-- All other members are laid over those that are kept. -/
  kept : ∀ k ∈ r.rest, k.kept b = (k.kept a).extend (r.others members)

/-- The members that are laid over, under the name of a field. -/
theorem Settled.get?_extend_members (hr : r.Lawful) (ha : r.Settled d a) (hd : members.Distinct)
    {f : Field α} (hf : f ∈ r.fields) :
    ((⟨r.members a⟩ : OrderedMap Json).extend members).get? f.name =
      (members.get? f.name).or (f.write a) := by
  rw [OrderedMap.get?_extend hd, OrderedMap.get?, OrderedMap.get?, ha.findEntry_members hr hf]

/-- The members that are laid over and no fields. -/
theorem Settled.others_extend_members (ha : r.Settled d a) {k : Rest α} (hk : k ∈ r.rest) :
    (((⟨r.members a⟩ : OrderedMap Json).extend members).entries.filter
        fun entry => entry.1 ∉ r.names) = ((k.kept a).extend (r.others members)).entries := by
  have hfilter := OrderedMap.filter_insertAll (fun name => decide (name ∉ r.names))
    ⟨r.members a⟩ members.entries
  rw [OrderedMap.extend, hfilter, filter_members ha.notMem, keptEntries_eq hk]
  rfl

/-- The members of a settled record and those that are laid over them make a sound object. -/
theorem Settled.sound_extend_members (hr : r.Lawful) (ha : r.Settled d a)
    (hm : ∀ entry ∈ members.entries, entry.2.Sound) :
    (Json.object ((⟨r.members a⟩ : OrderedMap Json).extend members).entries).Sound := by
  have hwrite := Json.sound_object_iff.mp (ha.sound_write hr).1
  have hdistinct : (⟨r.members a⟩ : OrderedMap Json).Distinct := ha.nodup_members hr
  refine .object (hdistinct.extend members) fun entry hentry => ?_
  rcases OrderedMap.mem_entries_insertAll hentry with hentry | hentry
  · exact hwrite.2 entry hentry
  · exact hm entry hentry

/-- What members that are laid over a settled record make of it. -/
theorem overlay_iff (hr : r.Lawful) (ha : r.Settled d a) (hd : members.Distinct)
    (hm : ∀ entry ∈ members.entries, entry.2.Sound) :
    r.codec.ofJson (.ofMap ((r.write a).members.extend members)) = .ok b ↔
      r.Overlaid members a b := by
  have hget := fun f hf => ha.get?_extend_members hr hd (f := f) hf
  rw [Json.ofMap]
  show r.codec.ofJson (.object ((⟨r.members a⟩ : OrderedMap Json).extend members).entries) = _ ↔ _
  rw [ofJson_object_iff hr (ha.sound_extend_members hr hm)]
  constructor
  · intro h
    refine ⟨fun f hf v hv => ?_, fun f hf hnone => ?_, fun k hk => ?_⟩
    · exact h.given f hf v ((hget f hf).trans (by rw [hv, Option.some_or]))
    · have hview := hget f hf
      rw [hnone, Option.none_or] at hview
      cases hw : f.write a with
      | some v =>
          obtain ⟨homits, rfl⟩ := write_eq_some_iff.mp hw
          have hread := h.given f hf _ (hview.trans hw)
          exact Except.ok.inj (hread.symm.trans (ha.parts f hf homits).reread)
      | none =>
          rw [hw, OrderedMap.get?_eq_none_iff] at hview
          have habsent := ((ha.fits hr).absent f hf
            ((OrderedMap.findEntry_eq_none_iff _ _).mp ((ha.findEntry_members hr hf).trans hw))).2
          exact (h.absent f hf hview).2.trans habsent.symm
    · have hkept := (h.kept k hk).trans (ha.others_extend_members hk)
      exact congrArg OrderedMap.mk hkept
  · intro h
    refine ⟨fun f hf v hv => ?_, fun f hf hnot => ?_, fun k hk => ?_⟩
    · have hview := (hget f hf).symm.trans hv
      cases hmember : members.get? f.name with
      | some w =>
          rw [hmember, Option.some_or, Option.some.injEq] at hview
          exact hview ▸ h.given f hf w hmember
      | none =>
          rw [hmember, Option.none_or] at hview
          obtain ⟨homits, rfl⟩ := write_eq_some_iff.mp hview
          rw [h.absent f hf hmember]
          exact (ha.parts f hf homits).reread
    · have hview := hget f hf
      rw [(OrderedMap.get?_eq_none_iff _ _).mpr hnot] at hview
      obtain ⟨hmember, hw⟩ := Option.or_eq_none_iff.mp hview.symm
      obtain ⟨hneed, hblank⟩ := (ha.fits hr).absent f hf
        ((OrderedMap.findEntry_eq_none_iff _ _).mp ((ha.findEntry_members hr hf).trans hw))
      exact ⟨hneed, (h.absent f hf hmember).trans hblank⟩
    · rw [h.kept k hk, ha.others_extend_members hk]

/-! ### Members that can be read -/

/-- Each field of the record can read the member that has its name, if there is one. -/
def Readable (r : Record α) (members : OrderedMap Json) : Prop :=
  ∀ f ∈ r.fields, ∀ v, members.get? f.name = some v → ∃ x, f.codec.ofJson v = .ok x

/-- Members can be laid over a record exactly if its fields can read them, whatever the record
is. -/
theorem exists_overlaid_iff (hr : r.Lawful) (hm : (Json.ofMap members).Sound) :
    (∃ b, r.Overlaid members a b) ↔ r.Readable members := by
  constructor
  · rintro ⟨b, hb⟩ f hf v hv
    exact ⟨f.get b, hb.given f hf v hv⟩
  · intro hreadable
    obtain ⟨hd, hentries⟩ := Json.sound_object_iff.mp hm
    have hholds : ∀ entry ∈ members.entries, entry.2.Sound ∧ Mode.value.Holds entry.2 :=
      fun entry hentry => ⟨hentries entry hentry, trivial⟩
    have hseen : ∀ entry ∈ members.entries, entry.1 ∉ [] := fun _ _ => List.not_mem_nil
    obtain ⟨⟨seen, b⟩, hread⟩ := exists_of_readMembers hd hholds hreadable hseen a
    have hto := readsTo_of_readMembers hr hd hholds hseen hread
    refine ⟨b, hto.given, fun f hf hnone => ?_, hto.kept⟩
    exact hto.absent f hf ((OrderedMap.get?_eq_none_iff members f.name).mp hnone)

/-- An object is read as a record without required fields by laying its members over the blank
record. -/
theorem ofJson_iff_overlaid (hr : r.Lawful) (hneed : ∀ f ∈ r.fields, f.need ≠ .required)
    (hm : (Json.ofMap members).Sound) :
    r.codec.ofJson (.ofMap members) = .ok a ↔ r.Overlaid members r.blank a := by
  have hd : (r.others members).Distinct :=
    (List.filter_sublist.map _).nodup (Json.sound_object_iff.mp hm).1
  have hkept : ∀ k ∈ r.rest, (k.kept r.blank).extend (r.others members) = r.others members := by
    intro k hk
    rw [hr.kept_blank k hk]
    exact OrderedMap.extend_eq_of_prefix hd (List.nil_prefix ..)
  rw [Json.ofMap, ofJson_object_iff hr hm]
  constructor
  · intro h
    refine ⟨h.given, fun f hf hnone => ?_, fun k hk => ?_⟩
    · exact (h.absent f hf ((OrderedMap.get?_eq_none_iff members f.name).mp hnone)).2
    · rw [hkept k hk]
      exact congrArg OrderedMap.mk (h.kept k hk)
  · intro h
    refine ⟨h.given, fun f hf hnot => ?_, fun k hk => ?_⟩
    · exact ⟨hneed f hf, h.absent f hf ((OrderedMap.get?_eq_none_iff members f.name).mpr hnot)⟩
    · rw [h.kept k hk, hkept k hk]
      rfl

end Record

end ServiceDocs
