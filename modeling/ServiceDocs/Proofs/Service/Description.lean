import ServiceDocs.Docs.Route
import ServiceDocs.Generate.Generator
import ServiceDocs.Proofs.Document.Reload
import ServiceDocs.Proofs.Service.Event

/-!
# Reading Descriptions Back from Their Texts

A description of a service is a record of records, so the laws of records say of it what they
say of a document: what is read from a text is stable, and is read back from what is written of
it. An absent setting is written as null, which is read as absent again; the settings that have
a value are all written.

## Main results

* `Settings.regular`, `ServiceFunction.regular`: the parts of a description.
* `ServiceDescription.regular`: the codec of descriptions is regular on every class of trees.
* `ServiceDescription.ofJsonText_write`: a description is read back from its texts.
-/

namespace ServiceDocs

variable {K : Node → Prop}

/-! ### Settings -/

/-- The kind of an endpoint is found by its name. -/
theorem ApiType.findEntry_name (t : ApiType) :
    OrderedMap.findEntry t.name [("http", .http), ("httpApi", .httpApi)] = some t := by
  cases t <;> rfl

/-- Every kind of endpoint is stable. -/
theorem ApiType.stable (d : Nat) (t : ApiType) : codec.Stable d t :=
  Codec.choice_stable findEntry_name d t

/-- The codec of kinds of endpoints is regular. -/
theorem ApiType.regular : codec.Regular K 0 := Codec.choice_regular findEntry_name K

/-- The codec of paths of files is regular. -/
theorem Codec.path_regular (K : Node → Prop) : path.Regular K 0 where
  read_iff := by
    intro v m a hv _ _
    cases hv <;> rfl
  stable _ _ _ _ := ⟨.string _, Nat.zero_le _, rfl⟩
  ne_null := by
    intro m n a _ _ _ _ h
    exact Json.noConfusion h

/-- The empty list is stable. -/
theorem Codec.list_stable_nil {α : Type} (c : Codec α) (d : Nat) : (list c).Stable (d + 1) [] :=
  list_stable_iff.mpr fun _ h => nomatch h

namespace Settings

/-- Settings are a lawful record type. -/
theorem lawful : record.Lawful := by
  refine Record.lawful_of_rest_eq_none rfl (by decide) (.of_map_eq rfl) ?_ ?_
  · simp [record, Field.shown, Field.plain]
  · rintro ⟨⟩ ⟨⟩
    simp +contextual [record, Field.shown, Field.plain]

/-- The fields of the settings are regular, and blank ones are stable. -/
theorem fieldsRegular : record.FieldsRegular (fun _ => True) 1 where
  codec := by
    have bool : Codec.bool.Regular (fun _ => True) 1 := (Codec.bool_regular _).slacken
    have text : Codec.string.Regular (fun _ => True) 1 := (Codec.string_regular _).slacken
    have texts : (Codec.list .string).Regular (fun _ => True) 1 :=
      (Codec.string_regular _).list_of_true.slacken
    simp only [record, List.forall_mem_cons]
    exact ⟨ApiType.regular.slacken, texts, (Codec.path_regular _).list_of_true.slacken, bool, bool,
      text, text.option, text.option, Scheme.regular.list_of_true.option.slacken, text.option,
      text.option, text.option, texts, (Codec.json_regular _).option.slacken, bool,
      List.forall_mem_nil _⟩
  blank := by
    simp [record, Field.shown, Field.plain, ApiType.stable, Codec.string_stable, Codec.bool_stable,
      Codec.option_stable_none, Codec.list_stable_nil]

/-- The codec of settings is regular. -/
theorem regular : codec.Regular K 2 :=
  Record.regular_of_true lawful fieldsRegular fun _ => Nat.lt_succ_self 1

/-- The settings that nothing is said about are stable. -/
theorem stable_blank : codec.Stable 2 {} :=
  Record.stable_of_rest_eq_none lawful rfl fieldsRegular.blank

end Settings

namespace Custom

/-- The custom block of a description is a lawful record type. -/
theorem lawful : record.Lawful := by
  refine Record.lawful_of_rest_eq_none rfl (by decide) (.of_map_eq rfl) ?_ ?_
  · simp [record, Field.plain]
  · rintro ⟨⟩ ⟨⟩
    simp [record, Field.plain]

/-- The settings are the field of the custom block: regular, and stable where they are blank. -/
theorem fieldsRegular : record.FieldsRegular (fun _ => True) 2 where
  codec := by
    simp only [record, List.forall_mem_cons]
    exact ⟨Settings.regular, List.forall_mem_nil _⟩
  blank := by simp [record, Field.plain, Settings.stable_blank]

/-- The codec of custom blocks is regular. -/
theorem regular : record.codec.Regular K 3 :=
  Record.regular_of_true lawful fieldsRegular fun _ => Nat.lt_succ_self 2

/-- A blank custom block is stable. -/
theorem stable_blank : record.codec.Stable 3 {} :=
  Record.stable_of_rest_eq_none lawful rfl fieldsRegular.blank

end Custom

/-! ### Functions -/

namespace FunctionEvent

/-- Events of functions are a lawful record type. -/
theorem lawful : record.Lawful := by
  refine Record.lawful_of_rest_eq_none rfl (by decide) (.of_map_eq rfl) ?_ ?_
  · simp [record, Field.hidden]
  · rintro ⟨⟩ ⟨⟩
    simp [record, Field.hidden]

/-- The fields of an event of a function are regular, and blank ones are stable. -/
theorem fieldsRegular : record.FieldsRegular (fun _ => True) 0 where
  codec := by
    simp only [record, List.forall_mem_cons]
    exact ⟨EventForm.regular.option, EventForm.regular.option, List.forall_mem_nil _⟩
  blank := by simp [record, Field.hidden]

/-- The codec of events of functions is regular. -/
theorem regular : record.codec.Regular K 0 :=
  Record.regular_of_true lawful fieldsRegular fun h => absurd rfl h

end FunctionEvent

namespace ServiceFunction

/-- Functions are a lawful record type. -/
theorem lawful : record.Lawful := by
  refine Record.lawful_of_rest_eq_none rfl (by decide) (.of_map_eq rfl) ?_ ?_
  · simp [record, Field.shown, Field.plain]
  · rintro ⟨⟩ ⟨⟩
    simp +contextual [record, Field.shown, Field.plain]

/-- The fields of a function are regular, and blank ones are stable. -/
theorem fieldsRegular : record.FieldsRegular (fun _ => True) 1 where
  codec := by
    simp only [record, List.forall_mem_cons]
    exact ⟨(Codec.string_regular _).option.slacken, FunctionEvent.regular.list_of_true.slacken,
      List.forall_mem_nil _⟩
  blank := by
    simp [record, Field.shown, Field.plain, Codec.option_stable_none, Codec.list_stable_nil]

/-- The codec of functions is regular. -/
theorem regular : codec.Regular K 2 :=
  Record.regular_of_true lawful fieldsRegular fun _ => Nat.lt_succ_self 1

end ServiceFunction

/-! ### Names and providers -/

namespace ServiceName

/-- Names of services at length are a lawful record type. -/
theorem lawful : record.Lawful := by
  refine Record.lawful_of_rest_eq_none rfl (by decide) (.of_map_eq rfl) ?_ ?_ <;>
    simp [record, Field.plain]

/-- The field of a name at length is regular, and a blank one is stable. -/
theorem fieldsRegular : record.FieldsRegular (fun _ => True) 0 where
  codec := by
    simp only [record, List.forall_mem_cons]
    exact ⟨Codec.string_regular _, List.forall_mem_nil _⟩
  blank := by simp [record, Field.plain, Codec.string_stable]

/-- A service is named by a text or at length. -/
theorem either : Codec.Either codec .string record.codec .name .detailed where
  read := ⟨_, rfl⟩
  write_first _ := rfl
  write_second _ := rfl

/-- The codec of names of services is regular. -/
theorem regular : codec.Regular K 0 :=
  either.regular_of_object (Codec.string_regular _)
    (Record.regular_of_true lawful fieldsRegular fun h => absurd rfl h) (fun _ => ⟨_, rfl⟩)
    Codec.string_read_object

/-- Every name that is a text is stable. -/
theorem stable_name (d : Nat) (text : String) : codec.Stable d (.name text) :=
  either.stable_first (Codec.string_stable d text) rfl

end ServiceName

namespace Provider

/-- Providers are a lawful record type. -/
theorem lawful : record.Lawful := by
  refine Record.lawful_of_rest_eq_none rfl (by decide) (.of_map_eq rfl) ?_ ?_
  · simp [record, Field.shown, Field.plain]
  · rintro ⟨⟩ ⟨⟩
    simp +contextual [record, Field.shown, Field.plain]

/-- The fields of a provider are regular, and blank ones are stable. -/
theorem fieldsRegular : record.FieldsRegular (fun _ => True) 0 where
  codec := by
    have text := (Codec.string_regular fun _ => True).option
    simp only [record, List.forall_mem_cons]
    exact ⟨Codec.string_regular _, text, text, List.forall_mem_nil _⟩
  blank := by simp [record, Field.shown, Field.plain, Codec.string_stable, Codec.option_stable_none]

/-- The codec of providers is regular. -/
theorem regular : record.codec.Regular K 0 :=
  Record.regular_of_true lawful fieldsRegular fun h => absurd rfl h

/-- A blank provider is stable. -/
theorem stable_blank (d : Nat) : record.codec.Stable (d + 1) {} :=
  (Record.stable_of_rest_eq_none lawful rfl fieldsRegular.blank).mono (by omega)

end Provider

/-! ### Descriptions -/

namespace ServiceDescription

/-- Descriptions are a lawful record type. -/
theorem lawful : record.Lawful := by
  refine Record.lawful_of_rest_eq_none rfl (by decide) (.of_map_eq rfl) ?_ ?_
  · simp [record, Field.plain]
  · rintro ⟨⟩ ⟨⟩
    simp +contextual [record, Field.plain]

/-- The fields of a description are regular, and blank ones are stable. -/
theorem fieldsRegular : record.FieldsRegular (fun _ => True) 3 where
  codec := by
    have functions : (Codec.map ServiceFunction.codec).Regular (fun _ => True) 3 :=
      ServiceFunction.regular.map Node.partsIn_true fun _ => Nat.lt_succ_self 2
    simp only [record, List.forall_mem_cons]
    exact ⟨ServiceName.regular.slacken, Provider.regular.slacken, functions, Custom.regular,
      List.forall_mem_nil _⟩
  blank := by
    simp [record, Field.plain, ServiceName.stable_name, Provider.stable_blank,
      Codec.map_stable_empty, Custom.stable_blank]

/-- The codec of descriptions is regular on every class of trees. -/
theorem regular : codec.Regular K 4 :=
  Record.regular_of_true lawful fieldsRegular fun _ => Nat.lt_succ_self 3

/-- A description that was read from a text is read back from both of its own texts, if the digits
of its doubles name them. What is generated of it and its endpoints are then the same. -/
theorem ofJsonText_write {d : ServiceDescription} {text again : String}
    (h : ofJsonText text = .ok d)
    (hdoubles : ∀ x ∈ (codec.write d).doubles, (Json.number (.float x)).Rereads)
    (hagain : again ∈ [(codec.write d).compact, (codec.write d).pretty]) :
    ofJsonText again = .ok d ∧
      (∀ files base, (ofJsonText again).map (fun r => (Generator.mk r files base).generate) =
        .ok (Generator.mk d files base).generate) ∧
      (ofJsonText again).map Routes.ofDescription = .ok (Routes.ofDescription d) := by
  have hstable : codec.Stable deepest d :=
    (regular (K := fun _ => True)).stable_of_ofText (by decide) h
  obtain ⟨hcompact, hpretty⟩ := hstable.ofText regular (hstable.sound.legible hdoubles)
  have hread : ofJsonText again = .ok d := by
    rcases List.mem_cons.mp hagain with rfl | hagain
    · exact hcompact
    · exact List.mem_singleton.mp hagain ▸ hpretty
  rw [hread]
  exact ⟨rfl, fun _ _ => rfl, rfl⟩

/-- A text with a setting in every short form and a number. -/
def sampleText : String :=
  "\x7b\"service\": \"pets\", \"functions\": " ++
  "\x7b\"pets\": \x7b\"events\": [\x7b\"http\": \"GET pets\"\x7d, " ++
  "\x7b\"httpApi\": \x7b\"method\": \"get\", \"path\": \"pets/\x7bid\x7d\", " ++
  "\"responses\": \x7b\"200\": \"A pet\"\x7d, " ++
  "\"headerParameters\": \x7b\"x-age\": \x7b\"minimum\": 1\x7d\x7d, " ++
  "\"request\": \x7b\"parameters\": " ++
  "\x7b\"paths\": \x7b\"id\": true\x7d, " ++
  "\"headers\": \x7b\"x-id\": false\x7d\x7d\x7d\x7d\x7d]\x7d\x7d\x7d"

/-- The description of the sample text has a double and is read back. -/
theorem ofJsonText_write_sample :
    ∃ d, ofJsonText sampleText = .ok d ∧ (codec.write d).doubles.length = 1 ∧
      ofJsonText (codec.write d).compact = .ok d := by
  obtain ⟨d, hread, hlength, hdoubles⟩ :
      ∃ d ∈ (ofJsonText sampleText).toOption, (codec.write d).doubles.length = 1 ∧
        ∀ x ∈ (codec.write d).doubles, (Json.number (.float x)).Rereads := by
    -- the characters are spelled out, since a text of this length is slow to decode
    rw [ofJsonText, JsonText.tree_eq_treeOf]
    unfold sampleText
    repeat rw [String.toList_append]
    repeat rw [String.toList_ofList]
    decide +kernel
  have hread : ofJsonText sampleText = .ok d := by
    revert hread
    cases ofJsonText sampleText with
    | ok r => rintro ⟨⟩; rfl
    | error fault => exact nofun
  exact ⟨d, hread, hlength, (ofJsonText_write hread hdoubles List.mem_cons_self).1⟩

end ServiceDescription

end ServiceDocs
