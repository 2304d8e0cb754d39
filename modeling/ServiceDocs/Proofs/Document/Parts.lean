import ServiceDocs.Document.Security
import ServiceDocs.Document.Info
import ServiceDocs.Proofs.Reading.Records

/-!
# Laws of the Descriptive Objects

The record types of a document that hold no schema are lawful, and their codecs are regular
on every class of trees: the head with its contact and licence, tags and links, and the
security schemes and requirements.

## Main results

* `Info.regular`, `Tag.regular`, `ExternalDocs.regular`: descriptive objects.
* `SecurityDefinition.regular`, `SecurityRequirement.regular`: security.
-/

namespace ServiceDocs

variable {α β : Type} {K : Node → Prop}

/-! ### The head -/

/-- Contacts are a lawful record type. -/
theorem Contact.lawful : record.Lawful := by
  refine Record.lawful_of_rest_eq_none rfl (by decide) (.of_map_eq rfl) ?_ ?_
  · simp [record, Field.hidden]
  · rintro ⟨⟩ ⟨⟩
    simp [record, Field.hidden]

/-- The fields of a contact are regular, and a blank one is stable. -/
theorem Contact.fieldsRegular : record.FieldsRegular K 0 where
  codec := by
    have text := (Codec.string_regular K).option
    simp only [record, List.forall_mem_cons]
    exact ⟨text, text, text, List.forall_mem_nil _⟩
  blank := by simp [record, Field.hidden]

/-- Every contact is stable. -/
theorem Contact.stable (d : Nat) (c : Contact) : codec.Stable (d + 1) c :=
  Record.stable_of_rest_eq_none lawful rfl
    (by simp [record, Field.hidden, Codec.option_string_stable])

/-- The codec of contacts is regular. -/
theorem Contact.regular : codec.Regular K 0 :=
  Record.regular_of_true lawful fieldsRegular fun h => absurd rfl h

/-- Licences are a lawful record type. -/
theorem License.lawful : record.Lawful := by
  refine Record.lawful_of_rest_eq_none rfl (by decide) (.of_map_eq rfl) ?_ ?_
  · simp [record, Field.hidden, Field.plain]
  · rintro ⟨⟩ ⟨⟩
    simp [record, Field.hidden, Field.plain]

/-- The fields of a licence are regular, and a blank one is stable. -/
theorem License.fieldsRegular : record.FieldsRegular K 0 where
  codec := by
    have text := Codec.string_regular K
    simp only [record, List.forall_mem_cons]
    exact ⟨text, text.option, List.forall_mem_nil _⟩
  blank := by simp [record, Field.hidden, Field.plain, Codec.string_stable]

/-- Every licence is stable. -/
theorem License.stable (d : Nat) (l : License) : codec.Stable (d + 1) l := by
  refine Record.stable_of_rest_eq_none lawful rfl ?_
  simp [record, Field.hidden, Field.plain, Codec.string_stable, Codec.option_string_stable]

/-- The codec of licences is regular. -/
theorem License.regular : codec.Regular K 0 :=
  Record.regular_of_true lawful fieldsRegular fun h => absurd rfl h

/-- Heads are a lawful record type. -/
theorem Info.lawful : record.Lawful := by
  refine Record.lawful_of_rest_eq_none rfl (by decide) (.of_map_eq rfl) ?_ ?_
  · simp [record, Field.hidden, Field.plain]
  · rintro ⟨⟩ ⟨⟩
    simp +contextual [record, Field.hidden, Field.plain]

/-- The fields of a head are regular, and a blank one is stable. -/
theorem Info.fieldsRegular : record.FieldsRegular K 0 where
  codec := by
    have text := Codec.string_regular K
    simp only [record, List.forall_mem_cons]
    exact ⟨text, text.option, text.option, Contact.regular.option, License.regular.option, text,
      List.forall_mem_nil _⟩
  blank := by simp [record, Field.hidden, Field.plain, Codec.string_stable]

/-- Every head is stable. -/
theorem Info.stable (d : Nat) (i : Info) : codec.Stable (d + 2) i := by
  have hcontact := Codec.option_stable (Contact.stable d) (fun _ h => Json.noConfusion h) i.contact
  have hlicense := Codec.option_stable (License.stable d) (fun _ h => Json.noConfusion h) i.license
  refine Record.stable_of_rest_eq_none lawful rfl ?_
  simp [record, Field.hidden, Field.plain, Codec.string_stable, Codec.option_string_stable,
    hcontact, hlicense]

/-- The codec of heads is regular. -/
theorem Info.regular : codec.Regular K 0 :=
  Record.regular_of_true lawful fieldsRegular fun h => absurd rfl h

/-! ### Tags and links -/

/-- Links are a lawful record type. -/
theorem ExternalDocs.lawful : record.Lawful := by
  refine Record.lawful_of_rest_eq_none rfl (by decide) (.of_map_eq rfl) ?_ ?_
  · simp [record, Field.hidden, Field.plain]
  · rintro ⟨⟩ ⟨⟩
    simp [record, Field.hidden, Field.plain]

/-- The fields of a link are regular, and a blank one is stable. -/
theorem ExternalDocs.fieldsRegular : record.FieldsRegular K 0 where
  codec := by
    have text := Codec.string_regular K
    simp only [record, List.forall_mem_cons]
    exact ⟨text.option, text, List.forall_mem_nil _⟩
  blank := by simp [record, Field.hidden, Field.plain, Codec.string_stable]

/-- Every link is stable. -/
theorem ExternalDocs.stable (d : Nat) (e : ExternalDocs) : codec.Stable (d + 1) e := by
  refine Record.stable_of_rest_eq_none lawful rfl ?_
  simp [record, Field.hidden, Field.plain, Codec.string_stable, Codec.option_string_stable]

/-- The codec of links is regular. -/
theorem ExternalDocs.regular : codec.Regular K 0 :=
  Record.regular_of_true lawful fieldsRegular fun h => absurd rfl h

/-- Tags are a lawful record type. -/
theorem Tag.lawful : record.Lawful := by
  refine Record.lawful_of_rest_eq_none rfl (by decide) (.of_map_eq rfl) ?_ ?_
  · simp [record, Field.hidden, Field.plain]
  · rintro ⟨⟩ ⟨⟩
    simp +contextual [record, Field.hidden, Field.plain]

/-- The fields of a tag are regular, and a blank one is stable. -/
theorem Tag.fieldsRegular : record.FieldsRegular K 0 where
  codec := by
    have text := Codec.string_regular K
    simp only [record, List.forall_mem_cons]
    exact ⟨text, text.option, ExternalDocs.regular.option, List.forall_mem_nil _⟩
  blank := by simp [record, Field.hidden, Field.plain, Codec.string_stable]

/-- Every tag is stable. -/
theorem Tag.stable (d : Nat) (t : Tag) : codec.Stable (d + 2) t := by
  have hdocs := Codec.option_stable (ExternalDocs.stable d) (fun _ h => Json.noConfusion h)
    t.externalDocs
  refine Record.stable_of_rest_eq_none lawful rfl ?_
  simp [record, Field.hidden, Field.plain, Codec.string_stable, Codec.option_string_stable, hdocs]

/-- The codec of tags is regular. -/
theorem Tag.regular : codec.Regular K 0 :=
  Record.regular_of_true lawful fieldsRegular fun h => absurd rfl h

/-! ### Security -/

/-- The kind of a security scheme is found by its name. -/
theorem SecurityType.findEntry_name (t : SecurityType) :
    OrderedMap.findEntry t.name [("basic", .basic), ("apiKey", .apiKey), ("oauth2", .oauth2)] =
      some t := by
  cases t <;> rfl

/-- The codec of kinds of security schemes is regular. -/
theorem SecurityType.regular : codec.Regular K 0 := Codec.choice_regular findEntry_name K

/-- The place of a key is found by its name. -/
theorem KeyLocation.findEntry_name (l : KeyLocation) :
    OrderedMap.findEntry l.name [("query", .query), ("header", .header)] = some l := by
  cases l <;> rfl

/-- The codec of places of keys is regular. -/
theorem KeyLocation.regular : codec.Regular K 0 := Codec.choice_regular findEntry_name K

namespace SecurityDefinition

/-- Security schemes are a lawful record type. -/
theorem lawful : record.Lawful := by
  refine Record.lawful_of_rest_eq_none rfl (by decide) (.of_map_eq rfl) ?_ ?_
  · simp [record, Field.hidden, Field.plain]
  · rintro ⟨⟩ ⟨⟩
    simp +contextual [record, Field.hidden, Field.plain]

/-- The fields of a security scheme are regular, and a blank one is stable. -/
theorem fieldsRegular : record.FieldsRegular (fun _ => True) 0 where
  codec := by
    have text := (Codec.string_regular fun _ => True).option
    have scopes : (Codec.map .string).Regular (fun _ => True) 0 :=
      (Codec.string_regular _).map Node.partsIn_true fun h => absurd rfl h
    simp only [record, List.forall_mem_cons]
    exact ⟨SecurityType.regular, text, text, KeyLocation.regular.option, text, text, text,
      scopes.option, List.forall_mem_nil _⟩
  blank := by
    simp [record, Field.hidden, Field.plain, SecurityType.codec,
      Codec.choice_stable SecurityType.findEntry_name]

/-- The codec of security schemes is regular. -/
theorem regular : codec.Regular K 0 :=
  Record.regular_of_true lawful fieldsRegular fun h => absurd rfl h

/-- The scheme of a key is stable. -/
theorem stable_apiKey (d : Nat) (name : String) (location : KeyLocation) :
    codec.Stable (d + 1) (apiKey name location) := by
  have hlocation := Codec.option_stable (Codec.choice_stable KeyLocation.findEntry_name d)
    (fun _ h => Json.noConfusion h) (some location)
  refine Record.stable_of_rest_eq_none lawful rfl ?_
  simp [record, Field.hidden, Field.plain, apiKey, SecurityType.codec, KeyLocation.codec, hlocation,
    Codec.choice_stable SecurityType.findEntry_name, Codec.option_string_stable]

end SecurityDefinition

namespace SecurityRequirement

/-- The codec of security requirements is regular. -/
theorem regular : codec.Regular K 0 := by
  have names : (Codec.list .string).Regular (fun _ => True) 0 :=
    (Codec.string_regular _).list Node.partsIn_true fun h => absurd rfl h
  have schemes : (Codec.map (.list .string)).Regular K 0 :=
    (names.map Node.partsIn_true fun h => absurd rfl h).mono (fun _ _ => trivial) (Nat.le_refl _)
  exact schemes.rename mk (fun _ _ _ _ => rfl) (fun _ => rfl)

/-- A requirement is stable if no scheme stands in it twice. -/
theorem stable (d : Nat) {r : SecurityRequirement} (h : r.schemes.Distinct) :
    codec.Stable (d + 2) r := by
  have hscopes : ∀ entry ∈ r.schemes.entries, (Codec.list .string).Stable (d + 1) entry.2 :=
    fun entry _ => Codec.list_stable_iff.mpr fun name _ => Codec.string_stable d name
  exact (Codec.map_stable_iff.mpr ⟨h, hscopes⟩).rename mk (fun _ _ => rfl) rfl

end SecurityRequirement

end ServiceDocs
