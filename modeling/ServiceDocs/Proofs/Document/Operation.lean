import ServiceDocs.Document.Operation
import ServiceDocs.Proofs.Document.Parameter
import ServiceDocs.Proofs.Document.Parts

/-!
# Laws of Operations and Paths

An operation is a record. A path is not: all of its members are read as values first, and
each of them is then added to the path. `PathItem.Origin` says where the parts of such a
path come from, and `PathItem.Settled` which paths are read back from what is written of
them: no method stands twice, and no extension key is a method or the word `parameters`.

## Main results

* `Operation.stable_iff`, `Operation.regular`: operations.
* `PathItem.stable_iff`, `PathItem.regular`: paths.
-/

namespace ServiceDocs

variable {K : Node → Prop}

/-! ### Operations -/

namespace Operation

/-- Setting a field of an operation leaves the other fields as they are. -/
theorem independent : record.Independent := .of_map_eq rfl

/-- Operations are a lawful record type. -/
theorem lawful : record.Lawful where
  names := by decide
  get_set := independent.get_set
  get_set_of_ne := independent.get_set_of_ne
  omits := by simp [record, Field.hidden, Field.plain]
  kept_set := by simp [record, Field.hidden, Field.plain]
  get_keep := by simp [record, Field.hidden, Field.plain]
  kept_keep := by simp [record]
  kept_blank := by simp [record]
  ext := by
    rintro ⟨⟩ ⟨⟩
    simp +contextual [record, Field.hidden, Field.plain]

/-- The codec of parameters that may be given by reference. -/
theorem parameters_regular : (RefOr.codec Parameter.codec).Regular Node.Exact 0 :=
  RefOr.regular Parameter.lawful rfl rfl (by decide) Parameter.regular

/-- The codec of responses that may be given by reference. -/
theorem responses_regular : (RefOr.codec Response.codec).Regular Node.Exact 0 :=
  RefOr.regular Response.lawful rfl rfl (by decide) Response.regular

/-- The fields of an operation are regular, and a blank operation is stable. -/
theorem fieldsRegular : record.FieldsRegular Node.Exact 1 where
  codec := by
    have hK := Node.partsIn_exact
    have zero : (0 : Nat) ≠ 0 → 0 < 0 := fun h => absurd rfl h
    have text : Codec.string.option.Regular Node.Exact 1 :=
      (Codec.string_regular Node.Exact).option.slacken
    have texts : (Codec.list .string).option.Regular Node.Exact 1 :=
      ((Codec.string_regular Node.Exact).list hK zero).option.slacken
    simp only [record, List.forall_mem_cons]
    exact ⟨texts, text, text, text, texts, texts, (parameters_regular.list hK zero).option.slacken,
      (responses_regular.map hK zero).slacken, (Codec.bool_regular _).option.slacken,
      (SecurityRequirement.regular.list hK zero).option.slacken, List.forall_mem_nil _⟩
  blank := by
    have hempty := Codec.map_stable_empty (RefOr.codec Response.codec) 0
    simp [record, Field.hidden, Field.plain, hempty]

/-- The codec of operations is regular on the trees of sound values. -/
theorem regular : codec.Regular Node.Exact 2 :=
  Record.regular lawful fieldsRegular Node.partsIn_exact fun _ => Nat.lt_succ_self 1

/-- An operation is stable exactly when its parts are. -/
theorem stable_iff {d : Nat} {o : Operation} : codec.Stable (d + 1) o ↔ record.Settled d o :=
  Record.stable_iff lawful

end Operation

/-! ### Methods -/

namespace Method

/-- A method is named by its name. -/
theorem ofText?_name (method : Method) : ofText? method.name = some method := by
  cases method <;> decide

/-- A text names a method if it is the name in any case of letters. -/
theorem ofText?_eq_some_iff {text : String} {method : Method} :
    ofText? text = some method ↔ text.toList.map Char.toLower = method.name.toList := by
  have hlower : lowerCase text = method.name ↔
      text.toList.map Char.toLower = method.name.toList := by
    rw [lowerCase, ← String.toList_inj, String.toList_ofList]
  rw [← hlower, ofText?]
  constructor
  · intro h
    obtain ⟨m, -, hm⟩ := List.mem_map.mp (OrderedMap.mem_of_findEntry h)
    obtain ⟨hname, rfl⟩ := Prod.mk.inj hm
    exact hname.symm
  · intro h
    rw [h]
    cases method <;> decide

/-- Different methods have different names. -/
theorem name_injective : Function.Injective name := by
  intro a b h
  have hab : ofText? a.name = ofText? b.name := congrArg ofText? h
  rw [ofText?_name, ofText?_name] at hab
  exact Option.some.inj hab

/-- The member for parameters is no method. -/
theorem ofText?_parameters : ofText? "parameters" = none := by decide

/-- No method is named as the member for parameters is. -/
theorem name_ne_parameters (method : Method) : method.name ≠ "parameters" := by
  cases method <;> decide

end Method

/-! ### Paths -/

namespace PathItem

/-- Where the parts of a path come from that is made of members. -/
structure Origin (entries : List (String × Json)) (item : PathItem) : Prop where
  /-- No method stands twice. -/
  methods : (item.operations.map (·.1)).Nodup
  /-- An operation is read from a member. -/
  operations : ∀ entry ∈ item.operations,
    ∃ member ∈ entries, Operation.codec.ofJson member.2 = .ok entry.2
  /-- The shared parameters are read from a member. -/
  parameters : ∀ ps ∈ item.parameters, ∃ member ∈ entries, parametersCodec.ofJson member.2 = .ok ps
  /-- No extension key stands twice. -/
  distinct : item.extensions.Distinct
  /-- An extension is a member that is nothing else. -/
  extensions : ∀ entry ∈ item.extensions.entries,
    entry ∈ entries ∧ entry.1 ≠ "parameters" ∧ Method.ofText? entry.1 = none

/-- The empty path stems from any members. -/
theorem origin_empty (entries : List (String × Json)) : Origin entries {} where
  methods := List.nodup_nil
  operations _ h := nomatch h
  parameters _ h := nomatch h
  distinct := OrderedMap.distinct_empty
  extensions _ h := nomatch h

/-- Adding a member keeps track of where the parts come from. -/
theorem Origin.addMember {entries : List (String × Json)} {item item' : PathItem}
    (h : Origin entries item) {name : String} {value : Json} (hin : (name, value) ∈ entries)
    (hadd : item.addMember name value = .ok item') : Origin entries item' := by
  rw [PathItem.addMember] at hadd
  split at hadd
  · obtain ⟨ps, hps, he⟩ := bind_eq_ok.mp hadd
    obtain rfl := Except.ok.inj he
    refine ⟨h.methods, h.operations, fun ps' hps' => ?_, h.distinct, h.extensions⟩
    obtain rfl : ps = ps' := Option.some.inj hps'
    exact ⟨_, hin, hps⟩
  · next hname =>
      split at hadd
      · next method _ =>
          obtain ⟨o, ho, he⟩ := bind_eq_ok.mp hadd
          obtain rfl := Except.ok.inj he
          refine ⟨OrderedMap.nodup_insertEntry h.methods, fun entry hentry => ?_, h.parameters,
            h.distinct, h.extensions⟩
          rcases OrderedMap.mem_insertEntry hentry with rfl | hentry
          · exact ⟨_, hin, ho⟩
          · exact h.operations entry hentry
      · next hmethod =>
          obtain rfl := Except.ok.inj hadd
          refine ⟨h.methods, h.operations, h.parameters, OrderedMap.distinct_insert h.distinct _ _,
            fun entry hentry => ?_⟩
          rcases OrderedMap.mem_entries_insert hentry with rfl | hentry
          · exact ⟨hin, hname, hmethod⟩
          · exact h.extensions entry hentry

/-- The parts of a path come from the members that it is made of. -/
theorem origin_of_ofMembers {members : OrderedMap Json} {item : PathItem}
    (h : ofMembers members = .ok item) : Origin members.entries item := by
  have hfold : ∀ (entries : List (String × Json)) (start : PathItem), entries ⊆ members.entries →
      Origin members.entries start →
      entries.foldlM (fun item entry => item.addMember entry.1 entry.2) start = .ok item →
      Origin members.entries item := by
    intro entries
    induction entries with
    | nil =>
        intro start _ hstart hok
        exact (Except.ok.inj hok) ▸ hstart
    | cons entry rest ih =>
        intro start hsub hstart hok
        obtain ⟨next, hnext, hrest⟩ := bind_eq_ok.mp hok
        exact ih next (fun e he => hsub (List.mem_cons_of_mem _ he))
          (hstart.addMember (hsub List.mem_cons_self) hnext) hrest
  exact hfold members.entries {} (List.Subset.refl _) (origin_empty _) h

/-- A path that is read back from what is written of it, with parts no deeper than `d`. -/
structure Settled (d : Nat) (item : PathItem) : Prop where
  /-- No method stands twice. -/
  methods : (item.operations.map (·.1)).Nodup
  /-- The operations are stable. -/
  operations : ∀ entry ∈ item.operations, Operation.codec.Stable d entry.2
  /-- The shared parameters are stable. -/
  parameters : ∀ ps ∈ item.parameters, parametersCodec.Stable d ps
  /-- No extension key stands twice. -/
  distinct : item.extensions.Distinct
  /-- No extension key means anything else. -/
  notMem : ∀ entry ∈ item.extensions.entries,
    entry.1 ≠ "parameters" ∧ Method.ofText? entry.1 = none
  /-- The extensions are values that a text can hold. -/
  sound : ∀ entry ∈ item.extensions.entries, entry.2.Sound ∧ entry.2.depth ≤ d

/-- The codec of lists of parameters is regular. -/
theorem parametersCodec_regular : parametersCodec.Regular Node.Exact 0 :=
  Operation.parameters_regular.list Node.partsIn_exact fun h => absurd rfl h

/-- A path that is made of sound members is settled. -/
theorem Origin.settled {entries : List (String × Json)} {item : PathItem} (h : Origin entries item)
    {d : Nat} (hd : 2 ≤ d) (hentries : ∀ entry ∈ entries, entry.2.Sound ∧ entry.2.depth ≤ d) :
    Settled d item where
  methods := h.methods
  operations entry hentry := by
    obtain ⟨member, hmember, hread⟩ := h.operations entry hentry
    obtain ⟨hs, hdepth⟩ := hentries member hmember
    exact (Operation.regular.stable_of_ofJson hs ⟨_, hs, rfl⟩ hread).mono (by omega)
  parameters ps hps := by
    obtain ⟨member, hmember, hread⟩ := h.parameters ps hps
    obtain ⟨hs, hdepth⟩ := hentries member hmember
    exact (parametersCodec_regular.stable_of_ofJson hs ⟨_, hs, rfl⟩ hread).mono (by omega)
  distinct := h.distinct
  notMem entry hentry := (h.extensions entry hentry).2
  sound entry hentry := hentries entry (h.extensions entry hentry).1

/-! ### Writing a path -/

/-- The members of the operations of a path. -/
def operationMembers (item : PathItem) : List (String × Json) :=
  item.operations.map fun entry => (entry.1.name, Operation.codec.write entry.2)

/-- The member of the shared parameters of a path. -/
def parameterMembers (item : PathItem) : List (String × Json) :=
  match item.parameters with
  | none => []
  | some ps => [("parameters", parametersCodec.write ps)]

/-- A path is written with its operations first, then its parameters and its extensions. -/
theorem members_eq (item : PathItem) :
    item.members = item.operationMembers ++ item.parameterMembers ++ item.extensions.entries := rfl

/-- The parameters of a path are written under one name. -/
theorem mem_parameterMembers {item : PathItem} {entry : String × Json}
    (h : entry ∈ item.parameterMembers) :
    ∃ ps ∈ item.parameters, entry = ("parameters", parametersCodec.write ps) := by
  rw [parameterMembers] at h
  cases hps : item.parameters with
  | none => simp [hps] at h
  | some ps => exact ⟨ps, rfl, by simpa [hps] using h⟩

/-- The names of the members of a settled path are distinct. -/
theorem Settled.nodup_members {d : Nat} {item : PathItem} (h : item.Settled d) :
    (item.members.map (·.1)).Nodup := by
  have hops : (item.operationMembers.map (·.1)).Nodup := by
    have hmap : item.operationMembers.map (·.1) = (item.operations.map (·.1)).map Method.name := by
      simp [operationMembers]
    rw [hmap]
    exact h.methods.map Method.name_injective
  have hps : (item.parameterMembers.map (·.1)).Nodup := by
    rw [parameterMembers]
    cases item.parameters <;> simp
  have hname : ∀ name ∈ item.operationMembers.map (·.1), ∃ method : Method, name = method.name := by
    intro name hname
    obtain ⟨entry, hentry, rfl⟩ := List.mem_map.mp hname
    obtain ⟨op, _, rfl⟩ := List.mem_map.mp hentry
    exact ⟨op.1, rfl⟩
  have hparameters : ∀ name ∈ item.parameterMembers.map (·.1), name = "parameters" := by
    intro name hname
    obtain ⟨entry, hentry, rfl⟩ := List.mem_map.mp hname
    obtain ⟨ps, _, rfl⟩ := mem_parameterMembers hentry
    rfl
  rw [members_eq, List.map_append, List.map_append, List.nodup_append, List.nodup_append]
  refine ⟨⟨hops, hps, ?_⟩, h.distinct, ?_⟩
  · rintro name hin other hother rfl
    obtain ⟨method, hmethod⟩ := hname name hin
    exact method.name_ne_parameters (hmethod.symm.trans (hparameters name hother))
  · rintro name hin other hother rfl
    obtain ⟨entry, hentry, rfl⟩ := List.mem_map.mp hother
    obtain ⟨hne, hnone⟩ := h.notMem entry hentry
    rcases List.mem_append.mp hin with hin | hin
    · obtain ⟨method, hmethod⟩ := hname _ hin
      rw [hmethod, Method.ofText?_name] at hnone
      exact nomatch hnone
    · exact hne (hparameters _ hin)

/-- What is written of a settled path is a value that a text can hold. -/
theorem Settled.sound_members {d : Nat} {item : PathItem} (h : item.Settled d) :
    ∀ entry ∈ item.members, entry.2.Sound ∧ entry.2.depth ≤ d := by
  intro entry hentry
  rw [members_eq, List.mem_append, List.mem_append] at hentry
  rcases hentry with (hentry | hentry) | hentry
  · obtain ⟨op, hop, rfl⟩ := List.mem_map.mp hentry
    exact ⟨(h.operations op hop).sound, (h.operations op hop).depth_le⟩
  · obtain ⟨ps, hps, rfl⟩ := mem_parameterMembers hentry
    exact ⟨(h.parameters ps hps).sound, (h.parameters ps hps).depth_le⟩
  · exact h.sound entry hentry

/-- Operations that are added one after the other stand in their order. -/
theorem foldlM_operations {d : Nat} {operations : List (Method × Operation)} (item : PathItem)
    (hd : (item.operations.map (·.1) ++ operations.map (·.1)).Nodup)
    (hs : ∀ entry ∈ operations, Operation.codec.Stable d entry.2) :
    (operations.map fun entry => (entry.1.name, Operation.codec.write entry.2)).foldlM
        (fun (item : PathItem) (entry : String × Json) => item.addMember entry.1 entry.2) item =
      .ok { item with operations := item.operations ++ operations } := by
  induction operations generalizing item with
  | nil => simp
  | cons entry rest ih =>
      obtain ⟨method, o⟩ := entry
      have hnew : method ∉ item.operations.map (·.1) := fun hin =>
        (List.nodup_append.mp hd).2.2 method hin method List.mem_cons_self rfl
      have hadd : item.addMember method.name (Operation.codec.write o) =
          .ok { item with operations := item.operations ++ [(method, o)] } := by
        have hread := (hs (method, o) List.mem_cons_self).reread
        simp only [addMember, method.name_ne_parameters, if_false, Method.ofText?_name, hread,
          ok_bind, withOperation, OrderedMap.insertEntry_of_notMem hnew]
        rfl
      rw [List.map_cons, List.foldlM_cons, hadd, ok_bind,
        ih _ (by simpa using hd) fun other hother => hs other (List.mem_cons_of_mem _ hother)]
      simp

/-- Extensions that are added one after the other stand in their order. -/
theorem foldlM_extensions {extensions : List (String × Json)} (item : PathItem)
    (hd : (item.extensions.keys ++ extensions.map (·.1)).Nodup)
    (hn : ∀ entry ∈ extensions, entry.1 ≠ "parameters" ∧ Method.ofText? entry.1 = none) :
    extensions.foldlM
        (fun (item : PathItem) (entry : String × Json) => item.addMember entry.1 entry.2) item =
      .ok { item with extensions := ⟨item.extensions.entries ++ extensions⟩ } := by
  induction extensions generalizing item with
  | nil => simp
  | cons entry rest ih =>
      obtain ⟨name, v⟩ := entry
      have hnew : name ∉ item.extensions.keys := fun hin =>
        (List.nodup_append.mp hd).2.2 name hin name List.mem_cons_self rfl
      obtain ⟨hne, hnone⟩ := hn (name, v) List.mem_cons_self
      have hadd : item.addMember name v =
          .ok { item with extensions := item.extensions.insert name v } := by
        simp only [addMember, hne, if_false, hnone]
      have hkeys : (item.extensions.insert name v).keys = item.extensions.keys ++ [name] := by
        rw [OrderedMap.keys_insert, if_neg hnew]
      rw [List.foldlM_cons, hadd, ok_bind, ih]
      · simp [OrderedMap.entries_insert_of_notMem hnew]
      · simpa [hkeys] using hd
      · exact fun other hother => hn other (List.mem_cons_of_mem _ hother)

/-- A settled path is made of what is written of it. -/
theorem Settled.ofMembers_members {d : Nat} {item : PathItem} (h : item.Settled d) :
    ofMembers ⟨item.members⟩ = .ok item := by
  have hparameters : ∀ start : PathItem, start.parameters = none →
      item.parameterMembers.foldlM
        (fun (item : PathItem) (entry : String × Json) => item.addMember entry.1 entry.2) start =
      .ok { start with parameters := item.parameters } := by
    intro start hstart
    rw [parameterMembers]
    cases hps : item.parameters with
    | none => simp [← hstart]
    | some ps => simp [addMember, (h.parameters ps hps).reread]
  have hoperations := foldlM_operations {} h.methods h.operations
  have hextensions := foldlM_extensions
    { operations := item.operations, parameters := item.parameters } h.distinct h.notMem
  rw [ofMembers, members_eq, List.foldlM_append, List.foldlM_append, operationMembers, hoperations,
    ok_bind, hparameters _ rfl, ok_bind]
  exact hextensions

/-- The members that a path is read from are sound and no deeper than the tree. -/
theorem members_of_read {m : Mode} {n : Node} {members : OrderedMap Json} (hm : m.isYaml = false)
    (hn : n.IsJson) (h : (Codec.map .json).read m n = .ok members) {d : Nat}
    (hd : m.bound n ≤ d + 1) :
    ∀ entry ∈ members.entries, entry.2.Sound ∧ entry.2.depth ≤ d := by
  have hs := ((Codec.jsonMap_regular fun _ => True).stable hm hn trivial h).mono
    (show max (m.bound n) 0 ≤ d + 1 by omega)
  intro entry hentry
  exact Codec.json_stable_iff.mp ((Codec.map_stable_iff.mp hs).2 entry hentry)

/-- A settled path is stable. -/
theorem Settled.stable {d : Nat} {item : PathItem} (h : item.Settled d) :
    codec.Stable (d + 1) item := by
  have hmembers := h.sound_members
  have hs : (Json.ofMap ⟨item.members⟩).Sound :=
    .object h.nodup_members fun entry hentry => (hmembers entry hentry).1
  have hdepth : (Json.ofMap ⟨item.members⟩).depth ≤ d + 1 :=
    Json.depth_object_le_iff.mpr ⟨Nat.le_add_left 1 d, fun entry hentry =>
      Nat.succ_le_succ (hmembers entry hentry).2⟩
  have hread := (Codec.jsonMap_stable_iff.mpr ⟨hs, hdepth⟩).reread
  rw [Codec.jsonMap_write] at hread
  exact ⟨hs, hdepth, bind_eq_ok.mpr ⟨_, hread, h.ofMembers_members⟩⟩

/-- The empty path is settled. -/
theorem settled_empty (d : Nat) : Settled d {} where
  methods := List.nodup_nil
  operations _ h := nomatch h
  parameters _ h := nomatch h
  distinct := OrderedMap.distinct_empty
  notMem _ h := nomatch h
  sound _ h := nomatch h

/-- A path stays settled when an operation is set. -/
theorem Settled.withOperation {d : Nat} {item : PathItem} (h : item.Settled d) (method : Method)
    {operation : Operation} (ho : Operation.codec.Stable d operation) :
    (item.withOperation method operation).Settled d :=
  { h with
    methods := OrderedMap.nodup_insertEntry h.methods
    operations := fun entry hentry => by
      rcases OrderedMap.mem_insertEntry hentry with rfl | hentry
      · exact ho
      · exact h.operations entry hentry }

/-- A path is stable exactly when it is settled. -/
theorem stable_iff {d : Nat} (hd : 2 ≤ d) {item : PathItem} :
    codec.Stable (d + 1) item ↔ item.Settled d := by
  constructor
  · rintro ⟨hs, hdepth, hread⟩
    obtain ⟨members, hmembers, hitem⟩ := bind_eq_ok.mp hread
    have hbound : Mode.value.bound (.ofJson (codec.write item)) ≤ d + 1 := by
      show (Node.ofJson _).depth ≤ _
      rw [Node.depth_ofJson]
      exact hdepth
    exact (origin_of_ofMembers hitem).settled hd
      (members_of_read rfl (Node.isJson_ofJson hs) hmembers hbound)
  · exact Settled.stable

/-- The codec of paths is regular on every class of trees. -/
theorem regular : codec.Regular K 3 where
  read_iff := by
    intro v m item hv _ hm
    rw [codec, Codec.ofJson, Reader.ofJson, bind_eq_ok, bind_eq_ok]
    exact exists_congr fun members => and_congr_left fun _ =>
      (Codec.jsonMap_regular fun _ => True).read_iff hv trivial hm
  stable := by
    intro m n item hm hn _ hr
    obtain ⟨members, hmembers, hitem⟩ := bind_eq_ok.mp hr
    obtain ⟨d, hd⟩ : ∃ d, max (m.bound n) 3 = d + 1 :=
      Nat.exists_eq_add_one_of_ne_zero (by omega)
    rw [hd]
    exact ((origin_of_ofMembers hitem).settled (by omega)
      (members_of_read hm hn hmembers (by omega))).stable
  ne_null := by
    intro m n item _ _ _ _ h
    exact Json.noConfusion h

end PathItem

end ServiceDocs
