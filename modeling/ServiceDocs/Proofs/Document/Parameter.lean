import ServiceDocs.Document.Parameter
import ServiceDocs.Proofs.Document.Schema

/-!
# Laws of Parameters, Responses and References

Parameters and responses are records that keep unknown members, so their codecs are regular
on every class of trees. A value that may be given by reference is a reference whenever it
can be read as one. A value with a member `$ref` that is no text, and one that repeats this
member, is not a reference, and only the latter would become one when it is written; so the
laws hold on the trees of sound values.

## Main results

* `Parameter.regular`, `Response.regular`: parameters and responses.
* `RefOr.regular`: values that may be given by reference.
* `RefOr.stable_inline`: a value without a reference in it is read back as itself.
-/

namespace ServiceDocs

variable {α : Type} {K : Node → Prop}

/-! ### Parameters -/

/-- The place of a parameter is found by its name. -/
theorem ParameterLocation.findEntry_name (l : ParameterLocation) :
    OrderedMap.findEntry l.name [("body", .body), ("path", .path), ("query", .query),
      ("header", .header), ("formData", .formData)] = some l := by
  cases l <;> rfl

/-- Every place of a parameter is stable. -/
theorem ParameterLocation.stable (d : Nat) (l : ParameterLocation) : codec.Stable d l :=
  Codec.choice_stable findEntry_name d l

/-- The codec of places of parameters is regular. -/
theorem ParameterLocation.regular : codec.Regular K 0 := Codec.choice_regular findEntry_name K

/-- The format of a collection is found by its name. -/
theorem CollectionFormat.findEntry_name (f : CollectionFormat) :
    OrderedMap.findEntry f.name [("csv", .csv), ("ssv", .ssv), ("tsv", .tsv), ("pipes", .pipes),
      ("multi", .multi)] = some f := by
  cases f <;> rfl

/-- Every format of a collection is stable. -/
theorem CollectionFormat.stable (d : Nat) (f : CollectionFormat) : codec.Stable d f :=
  Codec.choice_stable findEntry_name d f

/-- The codec of formats of collections is regular. -/
theorem CollectionFormat.regular : codec.Regular K 0 := Codec.choice_regular findEntry_name K

/-- Setting a field of an element type leaves the other fields as they are. -/
theorem Items.independent : record.Independent := .of_map_eq rfl

/-- Element types are a lawful record type. -/
theorem Items.lawful : record.Lawful where
  names := by decide
  get_set := independent.get_set
  get_set_of_ne := independent.get_set_of_ne
  omits := by simp [record, Field.hidden]
  kept_set := by simp [record, Field.hidden]
  get_keep := by simp [record, Field.hidden]
  kept_keep := by simp [record]
  kept_blank := by simp [record]
  ext := by
    rintro ⟨⟩ ⟨⟩
    simp +contextual [record, Field.hidden]

/-- The fields of an element type are regular, and a blank one is stable. -/
theorem Items.fieldsRegular : record.FieldsRegular (fun _ => True) 0 where
  codec := by
    simp only [record, List.forall_mem_cons]
    exact ⟨(Codec.string_regular _).option, List.forall_mem_nil _⟩
  blank := by simp [record, Field.hidden]

/-- The codec of element types is regular. -/
theorem Items.regular : codec.Regular K 0 :=
  Record.regular_of_true lawful fieldsRegular fun h => absurd rfl h

namespace Parameter

/-- Setting a field of a parameter leaves the other fields as they are. -/
theorem independent : record.Independent := .of_map_eq rfl

/-- Parameters are a lawful record type. -/
theorem lawful : record.Lawful where
  names := by decide
  get_set := independent.get_set
  get_set_of_ne := independent.get_set_of_ne
  omits := by simp [record, Field.hidden, Field.plain]
  kept_set := by simp [record, Field.hidden, Field.plain]
  get_keep := by simp [record, Field.hidden, Field.plain]
  kept_keep := by simp [record]
  kept_blank := by simp [record]
  ext := by
    rintro ⟨⟩ ⟨⟩
    simp +contextual [record, Field.hidden, Field.plain]

/-- The fields of a parameter are regular, and a blank one is stable. -/
theorem fieldsRegular : record.FieldsRegular (fun _ => True) 0 where
  codec := by
    have text := Codec.string_regular fun _ => True
    simp only [record, List.forall_mem_cons]
    exact ⟨text, ParameterLocation.regular, text.option, Codec.bool_regular _, text.option,
      Schema.regular.option, Items.regular.option, CollectionFormat.regular.option,
      List.forall_mem_nil _⟩
  blank := by
    simp [record, Field.hidden, Field.plain, Codec.string_stable, Codec.bool_stable,
      ParameterLocation.stable]

/-- The codec of parameters is regular. -/
theorem regular : codec.Regular K 0 :=
  Record.regular_of_true lawful fieldsRegular fun h => absurd rfl h

end Parameter

/-! ### Responses -/

namespace Response

/-- Setting a field of a response leaves the other fields as they are. -/
theorem independent : record.Independent := .of_map_eq rfl

/-- Responses are a lawful record type. -/
theorem lawful : record.Lawful where
  names := by decide
  get_set := independent.get_set
  get_set_of_ne := independent.get_set_of_ne
  omits := by simp [record, Field.hidden, Field.plain]
  kept_set := by simp [record, Field.hidden, Field.plain]
  get_keep := by simp [record, Field.hidden, Field.plain]
  kept_keep := by simp [record]
  kept_blank := by simp [record]
  ext := by
    rintro ⟨⟩ ⟨⟩
    simp +contextual [record, Field.hidden, Field.plain]

/-- The fields of a response are regular, and a blank one is stable. -/
theorem fieldsRegular : record.FieldsRegular (fun _ => True) 0 where
  codec := by
    simp only [record, List.forall_mem_cons]
    exact ⟨Codec.string_regular _, Schema.regular.option, List.forall_mem_nil _⟩
  blank := by simp [record, Field.hidden, Field.plain, Codec.string_stable]

/-- The codec of responses is regular. -/
theorem regular : codec.Regular K 0 :=
  Record.regular_of_true lawful fieldsRegular fun h => absurd rfl h

end Response

/-! ### References -/

namespace Reference

/-- References are a lawful record type. -/
theorem lawful : record.Lawful := by
  refine Record.lawful_of_rest_eq_none rfl (by decide) (.of_map_eq rfl) ?_ ?_
  · simp [record, Field.plain]
  · rintro ⟨⟩ ⟨⟩
    simp [record, Field.plain]

/-- The field of a reference is regular. -/
theorem fieldsRegular : record.FieldsRegular (fun _ => True) 0 where
  codec := by
    simp only [record, List.forall_mem_cons]
    exact ⟨Codec.string_regular _, List.forall_mem_nil _⟩
  blank := by simp [record, Field.plain, Codec.string_stable]

/-- The codec of references is regular. -/
theorem regular : codec.Regular K 0 :=
  Record.regular_of_true lawful fieldsRegular fun h => absurd rfl h

/-- An object is a reference exactly when its member `$ref` is a text. -/
theorem exists_read_iff {entries : List (String × Json)} (h : (Json.object entries).Sound) :
    (∃ r, codec.read .aside (.ofJson (.object entries)) = .ok r) ↔
      ∃ place, OrderedMap.findEntry "$ref" entries = some (.string place) := by
  obtain ⟨hd, hentries⟩ := Json.sound_object_iff.mp h
  have hholds : ∀ entry ∈ entries, entry.2.Sound ∧ Mode.aside.Holds entry.2 :=
    fun entry hentry => ⟨hentries entry hentry, trivial⟩
  have hfits : ∀ r, codec.read .aside (.ofJson (.object entries)) = .ok r ↔
      record.Fits .aside entries r := fun r => Record.read_object_iff lawful hd hholds rfl
  simp only [hfits]
  constructor
  · rintro ⟨r, hr⟩
    cases hfind : OrderedMap.findEntry "$ref" entries with
    | none =>
        have habsent := hr.absent _ List.mem_cons_self
          ((OrderedMap.findEntry_eq_none_iff _ _).mp hfind)
        exact absurd rfl habsent.1
    | some v =>
        have hread := hr.given _ List.mem_cons_self v hfind
        cases v with
        | string place => exact ⟨place, rfl⟩
        | null | bool | number | array | object => cases hread
  · rintro ⟨place, hplace⟩
    refine ⟨⟨place⟩, fun f hf v hv => ?_, fun f hf hnot => ?_, fun k hk => ?_⟩
    · obtain rfl := List.mem_singleton.mp hf
      obtain rfl : v = .string place := Option.some.inj (hv.symm.trans hplace)
      rfl
    · obtain rfl := List.mem_singleton.mp hf
      exact absurd (List.mem_map.mpr ⟨_, OrderedMap.mem_of_findEntry hplace, rfl⟩) hnot
    · cases hk

end Reference

namespace RefOr

/-- A value that may be given by a reference is a reference or the value itself. -/
theorem either (item : Codec α) : Codec.Either (codec item) Reference.codec item .ref .inline where
  read := ⟨_, rfl⟩
  write_first _ := rfl
  write_second _ := rfl

/-- The codec of values that may be given by reference is regular on the trees of sound values,
if the values are records that keep unknown members. -/
theorem regular {r : Record α} (hr : r.Lawful) (hlisted : r.listed = false) {k : Rest α}
    (hk : k ∈ r.rest) (hname : "$ref" ∉ r.names) {slack : Nat}
    (h : r.codec.Regular Node.Exact slack) :
    (codec r.codec).Regular Node.Exact slack := by
  have hreference : Reference.codec.Regular Node.Exact slack :=
    Reference.regular.slacken
  refine (either r.codec).regular hreference h ?_ ?_ ?_ ?_
  · intro n x hn hK hx
    exact ⟨_, (hreference.stable rfl hn hK hx).sound, rfl⟩
  · intro n y hn hK hy
    exact ⟨_, (h.stable rfl hn hK hy).sound, rfl⟩
  · rintro n y hn hK hnot hy x hx
    have hs := (h.stable rfl hn hK hy).sound
    obtain ⟨v, hv, rfl⟩ := hK
    -- The member `$ref` that is written is the one that was read.
    cases hv with
    | @object entries hd hentries =>
        have hholds : ∀ entry ∈ entries, entry.2.Sound ∧ Mode.aside.Holds entry.2 :=
          fun entry hentry => ⟨hentries entry hentry, trivial⟩
        have hfits : r.Fits .aside entries y := (Record.read_object_iff hr hd hholds rfl).mp hy
        obtain ⟨place, hplace⟩ := (Reference.exists_read_iff hs).mp ⟨x, hx⟩
        rw [hfits.findEntry_members hk hname] at hplace
        obtain ⟨x', hx'⟩ := (Reference.exists_read_iff (.object hd hentries)).mpr ⟨place, hplace⟩
        exact hnot x' hx'
    | array => simp [Record.codec, Record.read, Node.ofJson, hlisted] at hy
    | null | bool | number | string => cases hy
  · intro y h
    cases h

/-- A stable record that is written without a member `$ref` is read back as itself. -/
theorem stable_inline {r : Record α} {slack : Nat} (h : r.codec.Regular Node.Exact slack) {d : Nat}
    {a : α} (ha : r.codec.Stable d a) (hname : "$ref" ∉ r.names)
    (hnot : OrderedMap.findEntry "$ref" (r.keptEntries a) = none) :
    (codec r.codec).Stable d (.inline a) := by
  have hs : (Json.object (r.members a)).Sound := ha.sound
  refine (either r.codec).stable_second ha (h.reread ha ⟨_, hs, rfl⟩ trivial) fun x hx => ?_
  obtain ⟨place, hplace⟩ := (Reference.exists_read_iff hs).mp ⟨x, hx⟩
  rw [Record.findEntry_members_of_notMem hname, hnot] at hplace
  exact nomatch hplace

end RefOr

end ServiceDocs
