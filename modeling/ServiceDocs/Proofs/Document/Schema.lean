import ServiceDocs.Document.Schema
import ServiceDocs.Proofs.Reading.Records

/-!
# Laws of Schemas

A schema is read and written by functions of its own, because the type is recursive. One
step of them is reading and writing a record, `Schema.record`, whose fields hold schemas
again. The laws of records therefore carry over, by induction on the depth of the tree.

## Main results

* `Schema.read_eq`, `Schema.write_eq`: one step of reading and writing is that of a record.
* `Schema.stable_iff`: a schema is stable exactly when its parts are.
* `Schema.regular`: the codec of schemas is regular on every class of trees.
-/

namespace ServiceDocs

namespace Schema

/-! ### One step as a record -/

/-- The properties as they are stored. -/
def stored : Schema → Option (List (String × Schema))
  | .node _ _ _ p _ => p

/-- The properties are the map of the entries that are stored. -/
theorem properties_eq (s : Schema) : s.properties = s.stored.map OrderedMap.mk := by
  cases s
  rfl

/-- Changes the keywords, member by member. -/
def setKeywords (f : Keywords → Keywords) (s : Schema) : Schema :=
  .node (f s.keywords) s.items s.additional s.stored s.anyOf

/-- The fields of a schema. -/
def record : Record Schema where
  name := typeName
  blank := blank
  fields := [
    .hidden "type" .optional .string (·.keywords.type)
      (fun v => setKeywords fun k => { k with type := v }),
    .hidden "$ref" .optional .string (·.keywords.ref)
      (fun v => setKeywords fun k => { k with ref := v }),
    .hidden "items" .optional codec (·.items)
      (fun v s => .node s.keywords v s.additional s.stored s.anyOf),
    .hidden "format" .optional .string (·.keywords.format)
      (fun v => setKeywords fun k => { k with format := v }),
    .hidden "default" .optional .json (·.keywords.default)
      (fun v => setKeywords fun k => { k with default := v }),
    .hidden "description" .optional .string (·.keywords.description)
      (fun v => setKeywords fun k => { k with description := v }),
    .hidden "required" .optional (.list .string) (·.keywords.required)
      (fun v => setKeywords fun k => { k with required := v }),
    .hidden "additionalProperties" .optional AdditionalProperties.codec (·.additional)
      (fun v s => .node s.keywords s.items v s.stored s.anyOf),
    .hidden "enum" .optional (.list .json) (·.keywords.enum)
      (fun v => setKeywords fun k => { k with enum := v }),
    .hidden "const" .optional .json (·.keywords.const)
      (fun v => setKeywords fun k => { k with const := v }),
    .hidden "properties" .optional (.map codec) (·.properties)
      (fun v s => .node s.keywords s.items s.additional (v.map (·.entries)) s.anyOf),
    .hidden "anyOf" .optional (.list codec) (·.anyOf)
      (fun v s => .node s.keywords s.items s.additional s.stored v)]
  rest := some ⟨fun name value => setKeywords fun k =>
    { k with extensions := k.extensions.insert name value }, (·.keywords.extensions)⟩
  listed := false

/-- The fields of a schema are independent. A schema and its properties have to be taken apart
for that, since it is no structure and these are stored without being a map. -/
theorem independent : record.Independent := by
  repeat refine List.forall_mem_cons.mpr ⟨fun x s => by cases s; cases x <;> rfl, ?_⟩
  exact List.forall_mem_nil _

/-- Schemas are a lawful record type. -/
theorem lawful : record.Lawful where
  names := by decide
  get_set := independent.get_set
  get_set_of_ne := independent.get_set_of_ne
  omits := by simp [record, Field.hidden, blank, keywords, items, additional, properties, anyOf]
  kept_set := by simp [record, Field.hidden, setKeywords, keywords]
  get_keep := by
    simp [record, Field.hidden, setKeywords, keywords, items, additional, properties_eq, anyOf,
      stored]
  kept_keep := by simp [record, setKeywords, keywords]
  kept_blank := by simp [record, blank, keywords]
  ext := by
    rintro ⟨⟨⟩, i, a, p, o⟩ ⟨⟨⟩, i', a', p', o'⟩
    have hp : p.map OrderedMap.mk = p'.map OrderedMap.mk → p = p' :=
      fun h => Option.map_injective (fun _ _ => OrderedMap.mk.inj) h
    simp +contextual [record, Field.hidden, keywords, items, additional, properties, anyOf, hp]

/-! ### Reading -/

/-- Alternatives are read as the items of a list. -/
theorem readAll_eq (m : Mode) (items : List Node) : readAll m items = readItems (read m) items := by
  induction items with
  | nil => rfl
  | cons item rest ih => rw [readAll, readItems, ih]

/-- Properties are read as the members of a map. -/
theorem readEntries_eq (m : Mode) (fields : List (Node × Node)) (entries : List (String × Schema)) :
    readEntries m fields entries = ServiceDocs.readMembers (readKey m) (read m) fields entries := by
  induction fields generalizing entries with
  | nil => rfl
  | cons field rest ih =>
      obtain ⟨key, n⟩ := field
      simp only [readEntries, ServiceDocs.readMembers, ih]

/-- What a member holds unless it is null is read like a value that may be null. -/
theorem unlessNull_eq {α : Type} {n : Node} (hn : n.IsJson) (m : Mode) (c : Codec α)
    {result : Except Fault α} (h : n ≠ .null → result = c.read m n) :
    unlessNull n result = c.option.read m n := by
  cases hn with
  | null => rfl
  | bool | number | string | array | object | misplaced | defect =>
      rw [h (by simp)]
      rfl

/-- What an object may hold besides its properties is read as by the codec of its two forms. -/
theorem readAdditional_eq {m : Mode} {n : Node} (hm : m.isYaml = false) (hn : n.IsJson) :
    readAdditional m n (read .aside n) = AdditionalProperties.codec.read m n := by
  cases hside : n.setAside m with
  | error fault => simp [readAdditional, AdditionalProperties.codec, Reader.oneOf, hside]
  | ok kept =>
      obtain rfl := (Node.setAside_eq hn hm hside).1
      simp only [readAdditional, AdditionalProperties.codec, Reader.oneOf, hside, ok_bind,
        firstForm, Reader.map]
      cases hn with
      | bool => rfl
      | null | number | string | array | object | misplaced | defect =>
          simp only [readBool, Except.map]
          cases read .aside _ <;> rfl

/-- The properties are read as by the codec of maps of schemas, and not if they are null. -/
theorem readProperties_eq {m : Mode} {n : Node} (hn : n.IsJson) :
    unlessNull n (readProperties m n) =
      ((Codec.map codec).option.read m n).map fun entries => entries.map (·.entries) := by
  cases hn with
  | null => rfl
  | @object fields close =>
      simp only [unlessNull, readProperties, Codec.option, readOption, Codec.map, Reader.map,
        ServiceDocs.readEntries, readEntries_eq]
      cases m.enter with
      | error fault => rfl
      | ok inner =>
          simp only [ok_bind]
          cases hread : ServiceDocs.readMembers (readKey inner) (read inner) fields [] with
          | error fault => simp [hread, codec, Except.map]
          | ok entries => cases close.pass <;> simp [hread, codec, Except.map]
  | bool | number | string | array | misplaced | defect => rfl

/-- Alternatives are read as by the codec of lists of schemas. -/
theorem readAlternatives_eq {m : Mode} {n : Node} (hn : n.IsJson) :
    readAlternatives m n = (Codec.list codec).read m n := by
  cases hn with
  | array => simp only [readAlternatives, Codec.list, readList, readAll_eq, codec]
  | null | bool | number | string | object | misplaced | defect => rfl

/-- A keyword as a field of the schema that holds it. -/
def keyword (f : Field Keywords) : Field Schema where
  name := f.name
  need := f.need
  Part := f.Part
  codec := f.codec
  get s := f.get s.keywords
  set x := setKeywords (f.set x)
  omits := f.omits

/-- The names of the keywords that hold schemas. -/
def schemaNames : List String := ["items", "additionalProperties", "properties", "anyOf"]

/-- The keywords that hold no schema are fields of the record. -/
theorem field?_keyword : ∀ g ∈ Keywords.record.fields,
    g.name ∈ fieldNames ∧ g.name ∉ schemaNames ∧ record.field? g.name = some (keyword g) := by
  simp only [Keywords.record, List.forall_mem_cons]
  refine ⟨?_, ?_, ?_, ?_, ?_, ?_, ?_, ?_, fun _ h => nomatch h⟩ <;>
    exact ⟨by decide, by decide, rfl⟩

/-- A name that is no keyword is no field. -/
theorem notMem_of_field?_eq_none {name : String} (h : Keywords.record.field? name = none)
    (hname : name ∉ schemaNames) : name ∉ fieldNames ∧ record.field? name = none := by
  rw [Record.field?_eq_none_iff] at h
  have hnot : name ∉ fieldNames := by
    intro hin
    have hsplit : fieldNames ⊆ Keywords.record.names ++ schemaNames := by decide
    rcases List.mem_append.mp (hsplit hin) with hin | hin
    · exact h hin
    · exact hname hin
  exact ⟨hnot, Record.field?_eq_none_iff.mpr hnot⟩

/-- A member that holds no schema changes the keywords. -/
theorem readMembers_cons_of_notMem {m : Mode} {name : String} (hschema : name ∉ schemaNames)
    (n : Node) (rest : List (Node × Node)) {seen : List String} (hseen : name ∉ seen) (s : Schema) :
    readMembers m ((.string name, n) :: rest) seen s =
      Keywords.readMember m name n s.keywords >>= fun k =>
        readMembers m rest (if name ∈ fieldNames then name :: seen else seen)
          (setKeywords (fun _ => k) s) := by
  obtain ⟨k, i, a, p, o⟩ := s
  simp only [schemaNames, List.mem_cons, List.not_mem_nil, or_false, not_or] at hschema
  obtain ⟨hitems, hadditional, hproperties, hanyOf⟩ := hschema
  simp only [readMembers, readKey_string, ok_bind, if_neg hseen, if_neg hitems, if_neg hadditional,
    if_neg hproperties, if_neg hanyOf]
  rfl

/-- One member is read as a field of the record or kept. -/
theorem readMembers_cons {m : Mode} {name : String} {n : Node} (hm : m.isYaml = false)
    (hn : n.IsJson) (rest : List (Node × Node)) {seen : List String} (hseen : name ∉ seen)
    (s : Schema) :
    readMembers m ((.string name, n) :: rest) seen s =
      match record.field? name with
      | some f => f.codec.read m n >>= fun x => readMembers m rest (name :: seen) (f.set x s)
      | none => Json.read m n >>= fun v => readMembers m rest seen
          (setKeywords (fun k => { k with extensions := k.extensions.insert name v }) s) := by
  by_cases hschema : name ∈ schemaNames
  · obtain ⟨k, i, a, p, o⟩ := s
    simp only [schemaNames, List.mem_cons, List.not_mem_nil, or_false] at hschema
    rcases hschema with rfl | rfl | rfl | rfl
    · have hread : unlessNull n (read m n) = codec.option.read m n :=
        unlessNull_eq hn m codec fun _ => rfl
      simp only [readMembers, readKey_string, ok_bind, if_neg hseen, hread]
      rfl
    · have hread : unlessNull n (readAdditional m n (read .aside n)) =
          AdditionalProperties.codec.option.read m n :=
        unlessNull_eq hn m AdditionalProperties.codec fun _ => readAdditional_eq hm hn
      simp only [readMembers, readKey_string, ok_bind, if_neg hseen, hread]
      rfl
    · simp only [readMembers, readKey_string, ok_bind, if_neg hseen, readProperties_eq hn]
      show _ = (Codec.map codec).option.read m n >>= _
      cases (Codec.map codec).option.read m n <;> rfl
    · have hread : unlessNull n (readAlternatives m n) = (Codec.list codec).option.read m n :=
        unlessNull_eq hn m (Codec.list codec) fun _ => readAlternatives_eq hn
      simp only [readMembers, readKey_string, ok_bind, if_neg hseen, hread]
      rfl
  · rw [readMembers_cons_of_notMem hschema n rest hseen s]
    cases hfield : Keywords.record.field? name with
    | some g =>
        obtain ⟨hg, rfl⟩ := Record.mem_of_field? hfield
        obtain ⟨hin, -, hrecord⟩ := field?_keyword g hg
        have hfind : Keywords.record.fields.find? (·.name == g.name) = some g := hfield
        rw [hrecord, if_pos hin, Keywords.readMember, hfind]
        simp only [Field.read, keyword, bind_assoc]
        rfl
    | none =>
        obtain ⟨hnot, hrecord⟩ := notMem_of_field?_eq_none hfield hschema
        have hfind : Keywords.record.fields.find? (·.name == name) = none := hfield
        rw [hrecord, if_neg hnot, Keywords.readMember, hfind]
        simp only [bind_assoc]
        rfl

/-- The members of a schema are read like those of the record. -/
theorem readMembers_eq {m : Mode} {fields : List (Node × Node)} (hm : m.isYaml = false)
    (hkeys : ∀ entry ∈ fields, entry.1.IsKey) (hvalues : ∀ entry ∈ fields, entry.2.IsJson)
    {seen : List String} (hseen : ∀ name ∈ seen, name ∈ record.names) (s : Schema) :
    readMembers m fields seen s = (record.readMembers m fields seen s).map (·.2) := by
  induction fields generalizing seen s with
  | nil => rw [readMembers, Record.readMembers, Except.map]
  | cons entry rest ih =>
      obtain ⟨key, n⟩ := entry
      have hn : n.IsJson := hvalues _ List.mem_cons_self
      replace ih := fun seen => @ih
        (fun entry hentry => hkeys entry (List.mem_cons_of_mem _ hentry))
        (fun entry hentry => hvalues entry (List.mem_cons_of_mem _ hentry)) seen
      rcases hkeys _ List.mem_cons_self with ⟨name, rfl⟩ | ⟨token, rfl⟩ | ⟨d, rfl⟩
      · cases hfield : record.field? name with
        | some f =>
            obtain ⟨hf, hname⟩ := Record.mem_of_field? hfield
            by_cases hin : name ∈ seen
            · obtain ⟨k, i, a, p, o⟩ := s
              simp [readMembers, Record.readMembers, Record.find_string, hfield, hname, hin,
                Except.map]
            · rw [readMembers_cons hm hn rest hin, Record.readMembers_cons_field hfield hin, hfield]
              show (f.codec.read m n >>= _) = Except.map _ (f.codec.read m n >>= _)
              cases f.codec.read m n with
              | error fault => rfl
              | ok x =>
                  refine ih (name :: seen) (fun other hother => ?_) (f.set x s)
                  rcases List.mem_cons.mp hother with rfl | hother
                  · exact hname ▸ Record.name_mem_names hf
                  · exact hseen other hother
        | none =>
            have hin : name ∉ seen := fun hin =>
              Record.field?_eq_none_iff.mp hfield (hseen name hin)
            rw [readMembers_cons hm hn rest hin, Record.readMembers_cons_unknown hfield, hfield]
            show (Json.read m n >>= _) = Except.map _ (Json.read m n >>= _)
            cases Json.read m n with
            | error fault => rfl
            | ok v => exact ih seen hseen _
      · obtain ⟨k, i, a, p, o⟩ := s
        cases m <;> simp [readMembers, Record.readMembers, Record.find, readKey, Except.map]
      · obtain ⟨k, i, a, p, o⟩ := s
        cases m <;> simp [readMembers, Record.readMembers, Record.find, readKey, Except.map]

/-- No field of a schema is required. -/
theorem checkComplete (seen : List String) : record.checkComplete seen = .ok () := by
  refine Record.checkComplete_iff.mpr ?_
  simp [record, Field.hidden]

/-- A schema is read like the record of its keywords. -/
theorem read_eq {m : Mode} {n : Node} (hm : m.isYaml = false) (hn : n.IsJson) :
    read m n = record.read m n := by
  cases hn with
  | @object fields close hkeys hvalues =>
      simp only [read, Record.read, Record.readObject]
      cases henter : m.enter with
      | error fault => rfl
      | ok inner =>
          have hmembers : readMembers inner fields [] blank =
              (record.readMembers inner fields [] record.blank).map (·.2) :=
            readMembers_eq (Mode.isYaml_enter hm henter) hkeys hvalues (by simp) blank
          simp only [ok_bind, hmembers]
          cases record.readMembers inner fields [] record.blank with
          | error fault => rfl
          | ok result =>
              obtain ⟨seen, s⟩ := result
              simp only [Except.map, ok_bind, checkComplete]
  | array => rfl
  | null | bool | number | string | misplaced | defect => rfl

/-! ### Writing -/

/-- Alternatives are written one by one. -/
theorem writeAll_eq (schemas : List Schema) : writeAll schemas = schemas.map write := by
  induction schemas with
  | nil => rfl
  | cons s rest ih => rw [writeAll, ih, List.map_cons]

/-- Properties are written one by one under their names. -/
theorem writeEntries_eq (entries : List (String × Schema)) :
    writeEntries entries = entries.map fun entry => (entry.1, write entry.2) := by
  induction entries with
  | nil => rfl
  | cons entry rest ih => rw [writeEntries, ih, List.map_cons]

/-- The members that are written of a field and of the fields after it. -/
theorem filterMap_write_cons (f : Field Schema) (fields : List (Field Schema)) (s : Schema) :
    (f :: fields).filterMap (fun f => (f.write s).map fun value => (f.name, value)) =
      member f.name (f.write s) ++
        fields.filterMap fun f => (f.write s).map fun value => (f.name, value) := by
  rw [List.filterMap_cons]
  cases f.write s <;> rfl

/-- A schema is written like the record of its keywords. -/
theorem write_eq (s : Schema) : write s = record.write s := by
  obtain ⟨k, i, a, p, o⟩ := s
  have hitems : writeOption i = i.map codec.write := by cases i <;> rfl
  have hadditional : writeAdditional a = a.map AdditionalProperties.codec.write := by
    match a with
    | none | some (.allowed _) | some (.schema _) => rfl
  have hproperties : writeProperties p = (p.map OrderedMap.mk).map (Codec.map codec).write := by
    cases p with
    | none => rfl
    | some entries => rw [writeProperties, writeEntries_eq]; rfl
  have hanyOf : writeAlternatives o = o.map (Codec.list codec).write := by
    cases o with
    | none => rfl
    | some schemas => rw [writeAlternatives, writeAll_eq]; rfl
  have hjson : ∀ v : Option Json, v.map Codec.json.write = v := fun v => Option.map_id_apply
  have henum : k.enum.map (Codec.list .json).write = k.enum.map Json.array := by
    refine congrArg (fun f => Option.map f k.enum) (funext fun values => ?_)
    exact congrArg Json.array (List.map_id values)
  rw [write, Record.write, Record.members]
  simp only [record, filterMap_write_cons, Record.write_hidden, List.filterMap_nil, textMember,
    hitems, hadditional, hproperties, hanyOf, hjson, keywords, henum, List.append_assoc]
  rfl

/-! ### Laws -/

/-- A schema is stable exactly when its parts are and what is kept is free of the names of
keywords. -/
theorem stable_iff {d : Nat} {s : Schema} : codec.Stable (d + 1) s ↔ record.Settled d s := by
  have hread : ∀ n, n.IsJson → read .value n = record.read .value n := fun n => read_eq rfl
  rw [← Record.stable_iff lawful]
  constructor
  · intro h
    refine h.rename id (fun n hn => ?_) (write_eq s).symm
    rw [Codec.map_id_read]
    exact (hread n hn).symm
  · intro h
    refine h.rename id (fun n hn => ?_) (write_eq s)
    rw [Codec.map_id_read]
    exact hread n hn

/-- What is written of a schema is an object. -/
theorem exists_write_eq (s : Schema) : ∃ fields, write s = .object fields := ⟨_, write_eq s⟩

/-- What is written of a schema is not null. -/
theorem write_ne_null (s : Schema) : s.write ≠ .null := by
  obtain ⟨fields, hfields⟩ := s.exists_write_eq
  rw [hfields]
  exact nofun

/-- What an object may hold besides its properties is a flag or a schema. -/
theorem additional_either :
    Codec.Either AdditionalProperties.codec .bool codec .allowed .schema where
  read := ⟨_, rfl⟩
  write_first _ := rfl
  write_second _ := rfl

/-- What an object may hold besides its properties is regular below a depth if schemas are. -/
theorem additional_regular {d : Nat} (h : codec.Regular (Node.Below d) 0) :
    AdditionalProperties.codec.Regular (Node.Below d) 0 := by
  refine additional_either.regular (Codec.bool_regular _) h ?_ ?_ ?_ ?_
  · intro n x _ hk _
    exact Nat.zero_lt_of_lt hk
  · intro n s hn hk hs
    have hdepth : s.write.depth ≤ max n.depth 0 := (h.stable rfl hn hk hs).depth_le
    have hbelow : n.depth < d := hk
    show (Node.ofJson s.write).depth < d
    rw [Node.depth_ofJson]
    omega
  · intro n s _ _ _ _ b hb
    obtain ⟨fields, hfields⟩ := s.exists_write_eq
    have hobject : codec.write s = .object fields := hfields
    rw [hobject] at hb
    exact nomatch hb
  · exact write_ne_null

/-- The fields of a schema are regular below a depth if schemas are. -/
theorem fieldsRegular {d : Nat} (h : codec.Regular (Node.Below d) 0) :
    record.FieldsRegular (Node.Below d) 0 where
  codec := by
    have hK := Node.partsIn_below_self d
    have text := Codec.string_regular (Node.Below d)
    have any := Codec.json_regular (Node.Below d)
    have zero : (0 : Nat) ≠ 0 → 0 < 0 := fun h => absurd rfl h
    simp only [record, List.forall_mem_cons]
    exact ⟨text.option, text.option, h.option, text.option, any.option, text.option,
      (text.list hK zero).option, (additional_regular h).option, (any.list hK zero).option,
      any.option, (h.map hK zero).option, (h.list hK zero).option, List.forall_mem_nil _⟩
  blank := by simp [record, Field.hidden, blank, keywords, items, additional, properties, anyOf]

/-- The laws of the codec of schemas below a depth. -/
theorem regular_below (d : Nat) : codec.Regular (Node.Below d) 0 := by
  induction d with
  | zero =>
      exact
        { read_iff := fun _ hk _ => absurd hk (Nat.not_lt_zero _)
          stable := fun _ _ hk _ => absurd hk (Nat.not_lt_zero _)
          ne_null := fun _ _ _ _ => write_ne_null _ }
  | succ d ih =>
      have hrecord : record.codec.Regular (Node.Below (d + 1)) 0 :=
        Record.regular lawful (fieldsRegular ih) (Node.partsIn_below d) fun h => absurd rfl h
      refine hrecord.rename id (fun m n hm hn => ?_) write_eq
      rw [Codec.map_id_read]
      exact read_eq hm hn

/-- The codec of schemas is regular on every class of trees. -/
theorem regular {K : Node → Prop} : codec.Regular K 0 where
  read_iff := by
    intro v m s hv _ hm
    exact (regular_below _).read_iff hv (Nat.lt_succ_self _) hm
  stable := by
    intro m n s hm hn _ hr
    exact (regular_below _).stable hm hn (Nat.lt_succ_self _) hr
  ne_null := (regular_below 0).ne_null

end Schema

end ServiceDocs
