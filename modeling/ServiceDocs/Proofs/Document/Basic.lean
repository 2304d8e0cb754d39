import ServiceDocs.Document.Basic
import ServiceDocs.Proofs.Document.Operation

/-!
# Laws of Documents

A document is a record. Its head, tags, links and protocols are always read back from what
is written of them; what matters are its three maps and its extensions, and
`Document.Settled` says of these what is needed. A document that is read from anything is
settled, and no deeper than what it was read from.

## Main results

* `Document.stable_iff`: a document is stable exactly when its maps and extensions are.
* `Document.regular`: the codec of documents is regular on every class of trees.
-/

namespace ServiceDocs

variable {K : Node → Prop}

/-- Every version of the format is stable. -/
theorem FormatVersion.stable (d : Nat) (v : FormatVersion) : codec.Stable d v :=
  Codec.choice_stable (fun | .v2 => rfl) d v

/-- The codec of versions is regular. -/
theorem FormatVersion.regular : codec.Regular K 0 := Codec.choice_regular (fun | .v2 => rfl) K

/-- A scheme is found by its name. -/
theorem Scheme.findEntry_name (s : Scheme) :
    OrderedMap.findEntry s.name [("http", .http), ("https", .https), ("ws", .ws), ("wss", .wss)] =
      some s := by
  cases s <;> rfl

/-- Every scheme is stable. -/
theorem Scheme.stable (d : Nat) (s : Scheme) : codec.Stable d s :=
  Codec.choice_stable findEntry_name d s

/-- The codec of schemes is regular. -/
theorem Scheme.regular : codec.Regular K 0 := Codec.choice_regular findEntry_name K

namespace Document

/-- Setting a field of a document leaves the other fields as they are. -/
theorem independent : record.Independent := .of_map_eq rfl

/-- Documents are a lawful record type. -/
theorem lawful : record.Lawful where
  names := by decide
  get_set := independent.get_set
  get_set_of_ne := independent.get_set_of_ne
  omits := by simp [record, Field.hidden, Field.plain, blank]
  kept_set := by simp [record, Field.hidden, Field.plain]
  get_keep := by simp [record, Field.hidden, Field.plain]
  kept_keep := by simp [record]
  kept_blank := by simp [record, blank]
  ext := by
    rintro ⟨⟩ ⟨⟩
    simp +contextual [record, Field.hidden, Field.plain]

/-- The codec of security schemes by name. -/
def securityCodec : Codec (OrderedMap SecurityDefinition) := .map SecurityDefinition.codec

/-- A document that is read back from what is written of it, with parts no deeper than `n`. -/
structure Settled (n : Nat) (d : Document) : Prop where
  /-- The paths are stable. -/
  paths : pathsCodec.Stable n d.paths
  /-- The security schemes are stable. -/
  securityDefinitions : securityCodec.Stable n d.securityDefinitions
  /-- The schemas are stable. -/
  definitions : definitionsCodec.Stable n d.definitions
  /-- No extension key stands twice. -/
  distinct : d.extensions.Distinct
  /-- No extension key is a field. -/
  notMem : ∀ entry ∈ d.extensions.entries, entry.1 ∉ record.names
  /-- The extensions are values that a text can hold. -/
  sound : ∀ entry ∈ d.extensions.entries, entry.2.Sound ∧ entry.2.depth ≤ n

/-- A document is stable exactly when its maps and extensions are. -/
theorem stable_iff {n : Nat} (hn : 3 ≤ n) {d : Document} :
    codec.Stable (n + 1) d ↔ d.Settled n := by
  obtain ⟨n, rfl⟩ := Nat.exists_eq_add_of_le' hn
  have htags : (Codec.list Tag.codec).option.Stable (n + 3) d.tags :=
    Codec.option_stable (fun tags => Codec.list_stable_iff.mpr fun t _ => Tag.stable n t)
      (fun _ h => Json.noConfusion h) d.tags
  have hschemes : (Codec.list Scheme.codec).option.Stable (n + 3) d.schemes :=
    Codec.option_stable (fun schemes => Codec.list_stable_iff.mpr fun s _ => Scheme.stable _ s)
      (fun _ h => Json.noConfusion h) d.schemes
  have hdocs : ExternalDocs.codec.option.Stable (n + 3) d.externalDocs :=
    Codec.option_stable (ExternalDocs.stable _) (fun _ h => Json.noConfusion h) d.externalDocs
  show record.codec.Stable _ d ↔ _
  rw [Record.stable_iff lawful]
  constructor
  · intro h
    have hparts := h.parts
    simp only [record, List.forall_mem_cons] at hparts
    obtain ⟨-, -, -, -, -, -, hpaths, hsecurity, hdefinitions, -⟩ := hparts
    exact ⟨hpaths rfl, hsecurity rfl, hdefinitions rfl, h.distinct _ rfl, h.notMem _ rfl,
      h.sound _ rfl⟩
  · intro h
    have hkept : ∀ k ∈ record.rest, k.kept d = d.extensions := by simp [record]
    refine ⟨?_, ?_, ?_, ?_⟩
    · simp only [record, List.forall_mem_cons]
      exact ⟨fun _ => FormatVersion.stable _ _, fun _ => Info.stable _ _,
        fun _ => Codec.option_string_stable _ _, fun _ => Codec.option_string_stable _ _,
        fun _ => htags, fun _ => hschemes, fun _ => h.paths, fun _ => h.securityDefinitions,
        fun _ => h.definitions, fun _ => hdocs, List.forall_mem_nil _⟩
    · intro k hk
      exact hkept k hk ▸ h.distinct
    · intro k hk
      exact hkept k hk ▸ h.notMem
    · intro k hk
      exact hkept k hk ▸ h.sound

/-- The document without content is settled. -/
theorem settled_blank (n : Nat) : blank.Settled (n + 1) where
  paths := Codec.map_stable_empty _ n
  securityDefinitions := Codec.map_stable_empty _ n
  definitions := Codec.map_stable_empty _ n
  distinct := OrderedMap.distinct_empty
  notMem _ h := nomatch h
  sound _ h := nomatch h

/-- The codec of the paths is regular. -/
theorem pathsCodec_regular : pathsCodec.Regular (fun _ => True) 4 :=
  PathItem.regular.map Node.partsIn_true fun _ => Nat.lt_succ_self 3

/-- The codec of the definitions is regular. -/
theorem definitionsCodec_regular : definitionsCodec.Regular (fun _ => True) 0 :=
  Schema.regular.map Node.partsIn_true fun h => absurd rfl h

/-- The codec of the security schemes is regular. -/
theorem securityCodec_regular : securityCodec.Regular (fun _ => True) 0 :=
  SecurityDefinition.regular.map Node.partsIn_true fun h => absurd rfl h

/-- The fields of a document are regular. -/
theorem fieldsRegular : record.FieldsRegular (fun _ => True) 4 where
  codec := by
    have hK := Node.partsIn_true
    have zero : (0 : Nat) ≠ 0 → 0 < 0 := fun h => absurd rfl h
    have text : Codec.string.option.Regular (fun _ => True) 4 :=
      (Codec.string_regular _).option.slacken
    simp only [record, List.forall_mem_cons]
    exact ⟨FormatVersion.regular.slacken, Info.regular.slacken, text, text,
      (Tag.regular.list hK zero).option.slacken, (Scheme.regular.list hK zero).option.slacken,
      pathsCodec_regular, securityCodec_regular.slacken, definitionsCodec_regular.slacken,
      ExternalDocs.regular.option.slacken, List.forall_mem_nil _⟩
  blank := by
    have hblank := (Record.stable_iff lawful).mp ((stable_iff (by omega)).mpr (settled_blank 3))
    exact hblank.parts

/-- The codec of documents is regular on every class of trees. -/
theorem regular : codec.Regular K 5 :=
  Record.regular_of_true lawful fieldsRegular fun _ => Nat.lt_succ_self 4

end Document

end ServiceDocs
