import Mathlib.Algebra.Group.Nat.Defs
import ServiceDocs.Proofs.Reading.Records
import ServiceDocs.Service.Event

/-!
# Laws of Events

The settings of an event are records, and several of them may be given in short: as a text or a
truth value in place of an object. No object is read as a text or a truth value, so what is
written at length is read at length again. The numbers of the settings are doubles, which a text
may give as integers; an integer of a text is never too great for a double.

The responses of an event are a map whose keys may be numbers. The keys of a JSON text are
texts, so there the responses are read like any other map.

## Main results

* `Codec.double_regular`: doubles.
* `responsesCodec_regular`: responses by status code.
* `HttpEvent.regular`, `EventForm.regular`: events at length and in either form.
-/

namespace ServiceDocs

variable {α β γ : Type} {K : Node → Prop}

/-! ### Doubles -/

namespace Binary64

/-- A double whose exponent is below the greatest one is finite. -/
theorem isFinite_pack {negative : Bool} {mantissa : Nat} {exponent : Int}
    (h : exponent < greatestExponent) : (pack negative mantissa exponent).isFinite = true := by
  rw [pack]
  split
  next m e hpacked =>
    have he : ¬greatestExponent < e := by
      split at hpacked <;> simp only [Prod.mk.injEq] at hpacked <;> omega
    rw [if_neg he]
    rfl

/-- A whole number of at most 64 bits is not too great for a double. -/
theorem isFinite_ofRatio_one {negative : Bool} {n : Nat} (h : n < 2 ^ 64) :
    (ofRatio negative n 1).isFinite = true := by
  rw [ofRatio]
  split
  · rfl
  · next hne =>
      have hlog : Nat.log2 n < 64 := (Nat.log2_lt (by simpa using hne)).mpr h
      have hfirst : max ((Nat.log2 n : Int) - (Nat.log2 1 : Int) - 52) leastExponent <
          greatestExponent := by
        simp only [leastExponent, greatestExponent]
        omega
      dsimp only
      split
      · exact isFinite_pack (by omega)
      · exact isFinite_pack hfirst

/-- An integer that a text can hold is not too great for a double. -/
theorem isFinite_ofInt {i : Int} (h : (Number.int i).Sound) : (ofInt i).isFinite = true := by
  cases h with
  | int low high => exact isFinite_ofRatio_one (by omega)

end Binary64

namespace Codec

/-- Every finite double is stable. -/
theorem double_stable {x : Binary64} (h : x.isFinite = true) (d : Nat) : double.Stable d x := by
  have hwrite : double.write x = .number (.float x) := Json.float_of_isFinite h
  exact ⟨hwrite ▸ .number (.float h), hwrite ▸ Nat.zero_le d, hwrite ▸ rfl⟩

/-- What is read as a double from a JSON text is finite. -/
theorem isFinite_of_double_read {m : Mode} {n : Node} {x : Binary64} (hn : n.IsJson)
    (h : double.read m n = .ok x) : x.isFinite = true := by
  cases hn with
  | @number value hvalue =>
      cases value with
      | int i =>
          obtain rfl : Binary64.ofInt i = x := Except.ok.inj h
          exact Binary64.isFinite_ofInt hvalue
      | float y =>
          obtain rfl : y = x := Except.ok.inj h
          cases hvalue with
          | float hfinite => exact hfinite
  | null | bool | string | array | object | misplaced | defect => exact nomatch h

/-- The codec of doubles is regular. -/
theorem double_regular (K : Node → Prop) : double.Regular K 0 where
  read_iff := by
    intro v m a hv _ _
    cases hv with
    | @number value hvalue => cases value <;> rfl
    | null | bool | string | array | object => rfl
  stable _ hn _ h := double_stable (isFinite_of_double_read hn h) _
  ne_null := by
    intro m n x _ hn _ h hnull
    have hwrite : double.write x = .number (.float x) :=
      Json.float_of_isFinite (isFinite_of_double_read hn h)
    exact Json.noConfusion (hwrite.symm.trans hnull)

/-- A codec is regular if it reads and writes what a regular codec does. -/
theorem Regular.congr {c d : Codec α} {slack : Nat} (h : c.Regular K slack)
    (hread : ∀ {m n a}, m.isYaml = false → n.IsJson → (d.read m n = .ok a ↔ c.read m n = .ok a))
    (hwrite : d.write = c.write) : d.Regular K slack where
  read_iff hv hk hm := by
    have hn := Node.isJson_ofJson hv
    rw [hread (Mode.isYaml_of_holds hm) hn, h.read_iff hv hk hm]
    exact (hread rfl hn).symm
  stable hm hn hk hr := by
    obtain ⟨hs, hdepth, hreread⟩ := h.stable hm hn hk ((hread hm hn).mp hr)
    rw [← hwrite] at hs hdepth hreread
    exact ⟨hs, hdepth, (hread rfl (Node.isJson_ofJson hs)).mpr hreread⟩
  ne_null hm hn hne hr := hwrite ▸ h.ne_null hm hn hne ((hread hm hn).mp hr)

/-- A list of values that are regular on all trees is regular, if no containers are added. -/
theorem Regular.list_of_true {c : Codec α} (h : c.Regular (fun _ => True) 0) :
    (Codec.list c).Regular K 0 :=
  h.list (fun _ _ _ _ => trivial) fun h => absurd rfl h

/-- A map of values that are regular on all trees is regular, if no containers are added. -/
theorem Regular.map_of_true {c : Codec α} (h : c.Regular (fun _ => True) 0) :
    (Codec.map c).Regular K 0 :=
  h.map (fun _ _ _ _ => trivial) fun h => absurd rfl h

/-! ### Short and long forms -/

/-- A codec of a short form and of objects is regular on all trees if the codecs of both are and
no object is read in the short form. -/
theorem Either.regular_of_object {c : Codec γ} {a : Codec α} {b : Codec β} {first : α → γ}
    {second : β → γ} {slack : Nat} (h : Either c a b first second)
    (ha : a.Regular (fun _ => True) slack) (hb : b.Regular (fun _ => True) slack)
    (hobject : ∀ y, ∃ fields, b.write y = .object fields)
    (hshort : ∀ fields x, a.read .aside (.ofJson (.object fields)) ≠ .ok x) :
    c.Regular K slack := by
  have hregular : c.Regular (fun _ => True) slack := by
    refine h.regular ha hb (fun _ _ _ _ _ => trivial) (fun _ _ _ _ _ => trivial) ?_ ?_
    · intro n y _ _ _ _ x
      obtain ⟨fields, hfields⟩ := hobject y
      rw [hfields]
      exact hshort fields x
    · intro y
      obtain ⟨fields, hfields⟩ := hobject y
      rw [hfields]
      exact nofun
  exact hregular.mono (fun _ _ => trivial) (Nat.le_refl slack)

/-- An object that is set aside is not read as a text. -/
theorem string_read_object (fields : List (String × Json)) (s : String) :
    string.read .aside (.ofJson (.object fields)) ≠ .ok s := nofun

/-- An object that is set aside is not read as a flag. -/
theorem bool_read_object (fields : List (String × Json)) (b : Bool) :
    bool.read .aside (.ofJson (.object fields)) ≠ .ok b := nofun

end Codec

/-! ### Responses -/

namespace ResponseForm

/-- Responses at length are a lawful record type. -/
theorem Detail.lawful : record.Lawful := by
  refine Record.lawful_of_rest_eq_none rfl (by decide) (.of_map_eq rfl) ?_ ?_
  · simp [record, Field.shown, Field.plain]
  · rintro ⟨⟩ ⟨⟩
    simp [record, Field.shown, Field.plain]

/-- The fields of a response at length are regular, and blank ones are stable. -/
theorem Detail.fieldsRegular : record.FieldsRegular (fun _ => True) 0 where
  codec := by
    have text := (Codec.string_regular fun _ => True).option
    simp only [record, List.forall_mem_cons]
    exact ⟨text, text, List.forall_mem_nil _⟩
  blank := by simp [record, Field.shown, Field.plain, Codec.option_string_stable]

/-- The codec of responses at length is regular. -/
theorem Detail.regular : record.codec.Regular K 0 :=
  Record.regular_of_true lawful fieldsRegular fun h => absurd rfl h

/-- A response is given by a text or at length. -/
theorem either :
    Codec.Either codec .string Detail.record.codec .text fun d =>
      .detailed d.description d.bodyType where
  read := ⟨_, rfl⟩
  write_first _ := rfl
  write_second _ := rfl

/-- The codec of responses is regular. -/
theorem regular : codec.Regular K 0 :=
  either.regular_of_object (Codec.string_regular _) Detail.regular (fun _ => ⟨_, rfl⟩)
    Codec.string_read_object

end ResponseForm

/-! ### Status codes -/

/-- The key of a JSON text is a status code only as a text. -/
theorem StatusCode.read_iff {m : Mode} {key : Node} {code : StatusCode} (hm : m.isYaml = false)
    (hk : key.IsKey) :
    StatusCode.read m key = .ok code ↔ ∃ name, key = .string name ∧ code = .text name := by
  constructor
  · intro h
    obtain ⟨kept, hkept, h⟩ := bind_eq_ok.mp h
    rcases hk with ⟨name, rfl⟩ | ⟨t, rfl⟩ | ⟨d, rfl⟩
    · obtain rfl := (Node.setAside_eq (.string name) hm hkept).1
      exact ⟨name, rfl, (Except.ok.inj h).symm⟩
    · obtain rfl := (Node.setAside_eq (.misplaced t) hm hkept).1
      exact nomatch h
    · obtain rfl := (Node.setAside_eq (.defect d) hm hkept).1
      exact nomatch h
  · rintro ⟨name, rfl, rfl⟩
    have hside : (Node.string name).setAside m = .ok (.string name) := by
      cases m with
      | text room => rfl
      | yaml room => exact nomatch hm
      | value | aside => rfl
    rw [StatusCode.read, hside]
    rfl

namespace OrderedMap

variable {κ μ : Type} [DecidableEq κ] [DecidableEq μ]

/-- Keys may be renamed before an insertion or after it. -/
theorem insertEntry_map_key {g : κ → μ} (hg : Function.Injective g) (key : κ) (value : α)
    (entries : List (κ × α)) :
    insertEntry (g key) value (entries.map fun entry => (g entry.1, entry.2)) =
      (insertEntry key value entries).map fun entry => (g entry.1, entry.2) := by
  induction entries with
  | nil => rfl
  | cons entry rest ih =>
      by_cases hkey : entry.1 = key
      · simp [insertEntry, hkey]
      · have hne : g entry.1 ≠ g key := fun h => hkey (hg h)
        simp only [List.map_cons, insertEntry, if_neg hkey, if_neg hne, ih]

end OrderedMap

/-- Entries with texts as status codes. -/
def codedEntries (entries : List (String × α)) : List (StatusCode × α) :=
  entries.map fun entry => (.text entry.1, entry.2)

/-- From a JSON text, members with status codes are read like members with texts. -/
theorem readMembers_statusCode_iff {m : Mode} {read : Node → Except Fault α}
    {fields : List (Node × Node)} {result : List (StatusCode × α)} (hm : m.isYaml = false)
    (hkeys : ∀ field ∈ fields, field.1.IsKey) (entries : List (String × α)) :
    readMembers (StatusCode.read m) read fields (codedEntries entries) = .ok result ↔
      ∃ named, readMembers (readKey m) read fields entries = .ok named ∧
        result = codedEntries named := by
  induction fields generalizing entries with
  | nil => simp [readMembers, eq_comm]
  | cons field rest ih =>
      obtain ⟨key, n⟩ := field
      obtain ⟨hkey, hrest⟩ := List.forall_mem_cons.mp hkeys
      have hinsert : ∀ (name : String) (value : α),
          OrderedMap.insertEntry (.text name) value (codedEntries entries) =
            codedEntries (OrderedMap.insertEntry name value entries) := fun name value =>
        OrderedMap.insertEntry_map_key (fun _ _ => StatusCode.text.inj) name value entries
      simp only [readMembers, bind_eq_ok, StatusCode.read_iff hm hkey]
      constructor
      · rintro ⟨_, ⟨name, rfl, rfl⟩, value, hvalue, h⟩
        rw [hinsert, ih hrest] at h
        obtain ⟨named, hnamed, rfl⟩ := h
        exact ⟨named, ⟨name, readKey_string m name, value, hvalue, hnamed⟩, rfl⟩
      · rintro ⟨named, ⟨name, hname, value, hvalue, h⟩, rfl⟩
        obtain rfl := eq_string_of_readKey hm hkey hname
        refine ⟨_, ⟨name, rfl, rfl⟩, value, hvalue, ?_⟩
        rw [hinsert, ih hrest]
        exact ⟨named, h, rfl⟩

/-- Entries that are distinct stay as they are when they are collected by the texts of their
codes. -/
theorem responsesByText_codedEntries {entries : List (String × ResponseForm)}
    (hd : (entries.map (·.1)).Nodup) : responsesByText (codedEntries entries) = ⟨entries⟩ := by
  have htexts : (codedEntries entries).map (fun entry => (entry.1.render, entry.2)) = entries := by
    simp [codedEntries, Function.comp_def, StatusCode.render]
  rw [responsesByText, htexts]
  exact congrArg OrderedMap.mk (OrderedMap.entries_insertAll_empty hd)

/-- From a JSON text, responses by status code are read like any other map. -/
theorem responsesCodec_read_iff {m : Mode} {n : Node} {responses : OrderedMap ResponseForm}
    (hm : m.isYaml = false) (hn : n.IsJson) :
    responsesCodec.read m n = .ok responses ↔
      (Codec.map ResponseForm.codec).read m n = .ok responses := by
  cases hn with
  | @object fields close hkeys hvalues =>
      simp only [responsesCodec, Codec.map, Reader.map, map_eq_ok, readEntries, bind_eq_ok,
        pure_eq_ok, Except.ok.injEq]
      have hmembers : ∀ {inner : Mode} {entries}, m.enter = .ok inner →
          (readMembers (StatusCode.read inner) (ResponseForm.codec.read inner) fields [] =
              .ok entries ↔
            ∃ named,
              readMembers (readKey inner) (ResponseForm.codec.read inner) fields [] = .ok named ∧
                entries = codedEntries named) := fun henter =>
        readMembers_statusCode_iff (Mode.isYaml_enter hm henter) hkeys []
      constructor
      · rintro ⟨_, ⟨inner, henter, entries, hentries, hclose, hunit, rfl⟩, rfl⟩
        obtain ⟨named, hnamed, rfl⟩ := (hmembers henter).mp hentries
        rw [responsesByText_codedEntries (Codec.nodup_of_readMembers hnamed List.nodup_nil)]
        exact ⟨_, ⟨inner, henter, named, hnamed, hclose, hunit, rfl⟩, rfl⟩
      · rintro ⟨_, ⟨inner, henter, named, hnamed, hclose, hunit, rfl⟩, rfl⟩
        refine ⟨_, ⟨inner, henter, _, (hmembers henter).mpr ⟨named, hnamed, rfl⟩, hclose, hunit,
          rfl⟩, ?_⟩
        exact responsesByText_codedEntries (Codec.nodup_of_readMembers hnamed List.nodup_nil)
  | null | bool | number | string | array | misplaced | defect =>
      simp [responsesCodec, Codec.map, Reader.map, map_eq_ok, readEntries]

/-- The codec of responses by status is regular. -/
theorem responsesCodec_regular : responsesCodec.Regular K 0 :=
  ResponseForm.regular.map_of_true.congr (fun hm hn => responsesCodec_read_iff hm hn) rfl

/-! ### Parameters -/

namespace ParameterSettings

/-- Settings of a parameter are a lawful record type. -/
theorem lawful : record.Lawful := by
  refine Record.lawful_of_rest_eq_none rfl (by decide) (.of_map_eq rfl) ?_ ?_
  · simp [record, Field.shown, Field.plain]
  · rintro ⟨⟩ ⟨⟩
    simp +contextual [record, Field.shown, Field.plain]

/-- The fields of the settings of a parameter are regular, and blank ones are stable. -/
theorem fieldsRegular : record.FieldsRegular (fun _ => True) 0 where
  codec := by
    have text := (Codec.string_regular fun _ => True).option
    simp only [record, List.forall_mem_cons]
    exact ⟨(Codec.bool_regular _).option, text, text, (Codec.double_regular _).option, text,
      List.forall_mem_nil _⟩
  blank := by simp [record, Field.shown, Field.plain, Codec.option_stable_none]

/-- The codec of settings of a parameter is regular. -/
theorem regular : codec.Regular K 0 :=
  Record.regular_of_true lawful fieldsRegular fun h => absurd rfl h

end ParameterSettings

namespace PathFlag

/-- Path parameters at length are a lawful record type. -/
theorem Detail.lawful : record.Lawful := by
  refine Record.lawful_of_rest_eq_none rfl (by decide) (.of_map_eq rfl) ?_ ?_
  · simp [record, Field.shown, Field.plain]
  · rintro ⟨⟩ ⟨⟩
    simp +contextual [record, Field.shown, Field.plain]

/-- The fields of a path parameter at length are regular, and blank ones are stable. -/
theorem Detail.fieldsRegular : record.FieldsRegular (fun _ => True) 0 where
  codec := by
    simp only [record, List.forall_mem_cons]
    exact ⟨(Codec.bool_regular _).option, (Codec.string_regular _).option, List.forall_mem_nil _⟩
  blank := by simp [record, Field.shown, Field.plain, Codec.option_stable_none]

/-- The codec of path parameters at length is regular. -/
theorem Detail.regular : record.codec.Regular K 0 :=
  Record.regular_of_true lawful fieldsRegular fun h => absurd rfl h

/-- A path parameter is declared by a flag or at length. -/
theorem either :
    Codec.Either codec .bool Detail.record.codec .required fun d =>
      .detailed d.required d.description where
  read := ⟨_, rfl⟩
  write_first _ := rfl
  write_second _ := rfl

/-- The codec of path parameters is regular. -/
theorem regular : codec.Regular K 0 :=
  either.regular_of_object (Codec.bool_regular _) Detail.regular (fun _ => ⟨_, rfl⟩)
    Codec.bool_read_object

end PathFlag

namespace RequestFlag

/-- Headers and queries at length are a lawful record type. -/
theorem Detail.lawful : record.Lawful := by
  refine Record.lawful_of_rest_eq_none rfl (by decide) (.of_map_eq rfl) ?_ ?_
  · simp [record, Field.shown, Field.plain]
  · rintro ⟨⟩ ⟨⟩
    simp +contextual [record, Field.shown, Field.plain]

/-- The fields of a header or a query at length are regular, and blank ones are stable. -/
theorem Detail.fieldsRegular : record.FieldsRegular (fun _ => True) 0 where
  codec := by
    simp only [record, List.forall_mem_cons]
    exact ⟨Codec.bool_regular _, (Codec.string_regular _).option, List.forall_mem_nil _⟩
  blank := by simp [record, Field.shown, Field.plain, Codec.bool_stable, Codec.option_stable_none]

/-- The codec of headers and queries at length is regular. -/
theorem Detail.regular : record.codec.Regular K 0 :=
  Record.regular_of_true lawful fieldsRegular fun h => absurd rfl h

/-- A header or a query is declared by a flag or at length. -/
theorem either :
    Codec.Either codec .bool Detail.record.codec .required fun d =>
      .mapped d.required d.mappedValue where
  read := ⟨_, rfl⟩
  write_first _ := rfl
  write_second _ := rfl

/-- The codec of headers and queries is regular. -/
theorem regular : codec.Regular K 0 :=
  either.regular_of_object (Codec.bool_regular _) Detail.regular (fun _ => ⟨_, rfl⟩)
    Codec.bool_read_object

end RequestFlag

namespace RequestParameters

/-- Maps of declared parameters are a lawful record type. -/
theorem lawful : record.Lawful := by
  refine Record.lawful_of_rest_eq_none rfl (by decide) (.of_map_eq rfl) ?_ ?_
  · simp [record, Field.shown, Field.plain]
  · rintro ⟨⟩ ⟨⟩
    simp +contextual [record, Field.shown, Field.plain]

/-- The maps of declared parameters are regular, and blank ones are stable. -/
theorem fieldsRegular : record.FieldsRegular (fun _ => True) 0 where
  codec := by
    have flags := RequestFlag.regular.map_of_true.option (K := fun _ => True)
    simp only [record, List.forall_mem_cons]
    exact ⟨PathFlag.regular.map_of_true.option, flags, flags, List.forall_mem_nil _⟩
  blank := by simp [record, Field.shown, Field.plain, Codec.option_stable_none]

/-- The codec of declared parameters is regular. -/
theorem regular : record.codec.Regular K 0 :=
  Record.regular_of_true lawful fieldsRegular fun h => absurd rfl h

end RequestParameters

namespace RequestSettings

/-- Request settings are a lawful record type. -/
theorem lawful : record.Lawful := by
  refine Record.lawful_of_rest_eq_none rfl (by decide) (.of_map_eq rfl) ?_ ?_
  · simp [record, Field.shown, Field.plain]
  · rintro ⟨⟩ ⟨⟩
    simp +contextual [record, Field.shown, Field.plain]

/-- The field of the request settings is regular, and a blank one is stable. -/
theorem fieldsRegular : record.FieldsRegular (fun _ => True) 0 where
  codec := by
    simp only [record, List.forall_mem_cons]
    exact ⟨RequestParameters.regular.option, List.forall_mem_nil _⟩
  blank := by simp [record, Field.shown, Field.plain, Codec.option_stable_none]

/-- The codec of request settings is regular. -/
theorem regular : record.codec.Regular K 0 :=
  Record.regular_of_true lawful fieldsRegular fun h => absurd rfl h

end RequestSettings

/-! ### Events -/

namespace HttpEvent

/-- Requests at length are a lawful record type. -/
theorem lawful : record.Lawful := by
  refine Record.lawful_of_rest_eq_none rfl (by decide) (.of_map_eq rfl) ?_ ?_
  · simp [record, Field.shown, Field.plain]
  · rintro ⟨⟩ ⟨⟩
    simp +contextual [record, Field.shown, Field.plain]

/-- The fields of a request at length are regular, and blank ones are stable. -/
theorem fieldsRegular : record.FieldsRegular (fun _ => True) 0 where
  codec := by
    have text := Codec.string_regular fun _ => True
    have texts := text.list_of_true.option (K := fun _ => True)
    have responses := responsesCodec_regular.option (K := fun _ => True)
    have settings := ParameterSettings.regular.map_of_true.option (K := fun _ => True)
    have security := text.list_of_true.map_of_true.list_of_true.option (K := fun _ => True)
    simp only [record, List.forall_mem_cons]
    exact ⟨text, text, text.option, text.option, texts, text.option, texts, texts, security,
      Codec.bool_regular _, text.option, responses, responses, settings, settings,
      RequestSettings.regular.option, List.forall_mem_nil _⟩
  blank := by
    simp [record, Field.shown, Field.plain, Codec.string_stable, Codec.bool_stable,
      Codec.option_stable_none]

/-- The codec of events is regular. -/
theorem regular : codec.Regular K 0 :=
  Record.regular_of_true lawful fieldsRegular fun h => absurd rfl h

end HttpEvent

namespace EventForm

/-- A request is given by a text or at length. -/
theorem either : Codec.Either codec .string HttpEvent.codec .shorthand .detailed where
  read := ⟨_, rfl⟩
  write_first _ := rfl
  write_second _ := rfl

/-- The codec of events in either form is regular. -/
theorem regular : codec.Regular K 0 :=
  either.regular_of_object (Codec.string_regular _) HttpEvent.regular (fun _ => ⟨_, rfl⟩)
    Codec.string_read_object

end EventForm

end ServiceDocs
