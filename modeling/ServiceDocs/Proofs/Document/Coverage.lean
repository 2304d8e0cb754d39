import ServiceDocs.Proofs.Document.Operation
import ServiceDocs.Proofs.Reading.Coverage

/-!
# What the Types of a Document Have a Place For

Reading a document loses what its types have no place for. Schemas, parameters, responses,
operations and paths keep the members that they do not know, so everything in them is kept. The
descriptive objects and the security schemes do not: for each of them, `covers` says that an
object has no other members than theirs. A choice must be given by its name, a reference must
stand alone, and no path may have one method twice, which only upper and lower case can hide.

A path is written with the names of its methods in lower case, which `PathItem.spelled` does to
the value that is read.

## Main definitions

* `Info.covers`, `Tag.covers`, `SecurityDefinition.covers`, `RefOr.covers`, `Parameter.covers`,
  `Operation.covers`, `PathItem.covers`: the values that have a place.
* `PathItem.spelled`: a path as it is written.

## Main results

* `Schema.keeps`: schemas keep everything.
* `Operation.keeps`, `PathItem.within_spelled`: operations and paths keep what they cover.
-/

namespace ServiceDocs

open Codec

variable {P : Json → Prop}

/-! ### Descriptive objects -/

/-- Whether a contact has a place for all that a value says. -/
def Contact.covers : Json → Bool := record.covers []

/-- Reading a contact loses nothing that contacts have a place for. -/
theorem Contact.keeps : codec.Keeps fun v => covers v = true := by
  refine Record.keeps_covers lawful (by simp [record]) ?_
  simp only [record, List.forall_mem_cons]
  exact ⟨option_string_keeps, option_string_keeps, option_string_keeps, List.forall_mem_nil _⟩

/-- Whether a licence has a place for all that a value says. -/
def License.covers : Json → Bool := record.covers []

/-- Reading a licence loses nothing that licences have a place for. -/
theorem License.keeps : codec.Keeps fun v => covers v = true := by
  refine Record.keeps_covers lawful (by simp [record]) ?_
  simp only [record, List.forall_mem_cons]
  exact ⟨string_keeps, option_string_keeps, List.forall_mem_nil _⟩

/-- Whether a head has a place for all that a value says. -/
def Info.covers : Json → Bool :=
  record.covers [("contact", Contact.covers), ("license", License.covers)]

/-- Reading a head loses nothing that heads have a place for. -/
theorem Info.keeps : codec.Keeps fun v => covers v = true := by
  refine Record.keeps_covers lawful (by simp [record]) ?_
  simp only [record, List.forall_mem_cons]
  exact ⟨string_keeps, option_string_keeps, option_string_keeps, Contact.keeps.orNull,
    License.keeps.orNull, string_keeps, List.forall_mem_nil _⟩

/-- Whether a link has a place for all that a value says. -/
def ExternalDocs.covers : Json → Bool := record.covers []

/-- Reading a link loses nothing that links have a place for. -/
theorem ExternalDocs.keeps : codec.Keeps fun v => covers v = true := by
  refine Record.keeps_covers lawful (by simp [record]) ?_
  simp only [record, List.forall_mem_cons]
  exact ⟨option_string_keeps, string_keeps, List.forall_mem_nil _⟩

/-- Whether a tag has a place for all that a value says. -/
def Tag.covers : Json → Bool := record.covers [("externalDocs", ExternalDocs.covers)]

/-- Reading a tag loses nothing that tags have a place for. -/
theorem Tag.keeps : codec.Keeps fun v => covers v = true := by
  refine Record.keeps_covers lawful (by simp [record]) ?_
  simp only [record, List.forall_mem_cons]
  exact ⟨string_keeps, option_string_keeps, ExternalDocs.keeps.orNull, List.forall_mem_nil _⟩

/-! ### Security -/

/-- The kind of a scheme is kept if it is given by its name. -/
theorem SecurityType.keeps : codec.Keeps fun v => v.isString = true := choice_keeps (by decide)

/-- The place of a key is kept if it is given by its name. -/
theorem KeyLocation.keeps : codec.Keeps fun v => v.isString = true := choice_keeps (by decide)

/-- Whether a security scheme has a place for all that a value says. -/
def SecurityDefinition.covers : Json → Bool :=
  record.covers [("type", Json.isString), ("in", Json.isString)]

/-- Reading a security scheme loses nothing that schemes have a place for. -/
theorem SecurityDefinition.keeps : codec.Keeps fun v => covers v = true := by
  refine Record.keeps_covers lawful (by simp [record]) ?_
  simp only [record, List.forall_mem_cons]
  exact ⟨SecurityType.keeps, option_string_keeps, option_string_keeps, KeyLocation.keeps.orNull,
    option_string_keeps, option_string_keeps, option_string_keeps,
    string_keeps.map_of_true.option_of_true, List.forall_mem_nil _⟩

/-- A security requirement keeps everything. -/
theorem SecurityRequirement.keeps : codec.Keeps P :=
  string_keeps.list_of_true.map_of_true.rename (⟨·⟩) (fun _ _ => rfl) fun _ => rfl

/-! ### Schemas -/

/-- Schemas keep everything below a depth. -/
theorem Schema.keeps_below (d : Nat) : codec.Keeps fun v => v.depth < d := by
  -- a schema is read from the members and items of an object, which are less deep
  induction d with
  | zero => exact ⟨fun _ hdepth => absurd hdepth (Nat.not_lt_zero _)⟩
  | succ d ih =>
      have hadditional : AdditionalProperties.codec.Keeps fun v => v.depth < d :=
        Keeps.either additional_either (bool_regular _) regular bool_keeps ih
          (fun _ _ _ _ _ => trivial) fun _ _ h _ => h
      have hrecord : record.codec.Keeps fun v => v.depth < d + 1 := by
        refine Record.keeps (P := fun _ v => v.depth < d) lawful ?_ ?_
          (fun _ h entry hentry _ => ⟨.inl rfl,
            Nat.lt_of_lt_of_le (Json.depth_lt_of_mem_object hentry) (Nat.le_of_lt_succ h)⟩) ?_
        · simp [record]
        · exact fun v a _ hread => Record.exists_object_of_ofJson rfl hread
        · simp only [record, List.forall_mem_cons]
          exact ⟨option_string_keeps, option_string_keeps, ih.orNull, option_string_keeps,
            json_keeps.option_of_true, option_string_keeps,
            string_keeps.list_of_true.option_of_true, hadditional.orNull,
            json_keeps.list_of_true.option_of_true, json_keeps.option_of_true,
            (ih.map fun _ h _ hentry => Nat.lt_trans (Json.depth_lt_of_mem_object hentry) h).orNull,
            (ih.list fun _ h _ hitem => Nat.lt_trans (Json.depth_lt_of_mem_array hitem) h).orNull,
            List.forall_mem_nil _⟩
      refine hrecord.rename id (fun n hn => ?_) write_eq
      rw [map_id_read]
      exact read_eq rfl hn

/-- Schemas keep everything. -/
theorem Schema.keeps : codec.Keeps P where
  within hv _ hr := (keeps_below _).within hv (Nat.lt_succ_self _) hr

/-! ### Parameters, responses and references -/

/-- Items keep everything. -/
theorem Items.keeps : codec.Keeps P := by
  refine Record.keeps (P := fun _ _ => True) lawful ?_ ?_ (fun _ _ _ _ _ => ⟨.inl rfl, trivial⟩) ?_
  · simp [record]
  · exact fun v a _ hread => Record.exists_object_of_ofJson rfl hread
  · simp only [record, List.forall_mem_cons]
    exact ⟨option_string_keeps, List.forall_mem_nil _⟩

/-- The place of a parameter is kept if it is given by its name. -/
theorem ParameterLocation.keeps : codec.Keeps fun v => v.isString = true := choice_keeps (by decide)

/-- The format of a collection is kept if it is given by its name. -/
theorem CollectionFormat.keeps : codec.Keeps fun v => v.isString = true := choice_keeps (by decide)

/-- Whether a parameter has a place for all that a value says. -/
def Parameter.covers : Json → Bool :=
  record.covers [("in", Json.isString), ("collectionFormat", Json.isString)]

/-- Reading a parameter loses nothing if its choices are given by their names. -/
theorem Parameter.keeps : codec.Keeps fun v => covers v = true := by
  refine Record.keeps_covers lawful (by simp [record]) ?_
  simp only [record, List.forall_mem_cons]
  exact ⟨string_keeps, ParameterLocation.keeps, option_string_keeps, bool_keeps,
    option_string_keeps, Schema.keeps.option_of_true, Items.keeps.option_of_true,
    CollectionFormat.keeps.orNull, List.forall_mem_nil _⟩

/-- Whether a response has a place for all that a value says. -/
def Response.covers : Json → Bool := record.covers []

/-- Reading a response loses nothing that responses have a place for. -/
theorem Response.keeps : codec.Keeps fun v => covers v = true := by
  refine Record.keeps_covers lawful (by simp [record]) ?_
  simp only [record, List.forall_mem_cons]
  exact ⟨string_keeps, Schema.keeps.option_of_true, List.forall_mem_nil _⟩

/-- Whether a reference has a place for all that a value says. -/
def Reference.covers : Json → Bool := record.covers []

/-- Reading a reference loses nothing if it stands alone. -/
theorem Reference.keeps : codec.Keeps fun v => covers v = true := by
  refine Record.keeps_covers lawful (by simp [record]) ?_
  simp only [record, List.forall_mem_cons]
  exact ⟨string_keeps, List.forall_mem_nil _⟩

namespace RefOr

/-- Whether a value is a reference that stands alone, or no reference and has a property. -/
def covers (item : Json → Bool) : Json → Bool
  | .object fields =>
    if (OrderedMap.findEntry "$ref" fields).any Json.isString then Reference.covers (.object fields)
    else item (.object fields)
  | _ => false

/-- An object is read as a reference exactly when its member of this name is a text. -/
theorem exists_ofJson_iff {fields : List (String × Json)} (h : (Json.object fields).Sound) :
    (∃ r, Reference.codec.ofJson (.object fields) = .ok r) ↔
      (OrderedMap.findEntry "$ref" fields).any Json.isString = true := by
  have hread : ∀ r, Reference.codec.read .aside (.ofJson (.object fields)) = .ok r ↔
      Reference.codec.ofJson (.object fields) = .ok r := fun r =>
    (Reference.regular (K := fun _ => True)).read_iff h trivial trivial
  simp only [← hread, Reference.exists_read_iff h, Option.any_eq_true]
  constructor
  · rintro ⟨place, hplace⟩
    exact ⟨_, hplace, rfl⟩
  · rintro ⟨v, hv, hstring⟩
    cases v with
    | string place => exact ⟨place, hv⟩
    | null | bool | number | array | object => cases hstring

/-- What may be given by reference is kept if it is a reference that stands alone, or no reference
and kept by itself. -/
theorem keeps {α : Type} {item : Codec α} {p : Json → Bool} {slack : Nat}
    (hregular : item.Regular Node.Exact slack) (h : item.Keeps fun v => p v = true) :
    (codec item).Keeps fun v => covers p v = true := by
  refine Keeps.either (either item) (Reference.regular (K := Node.Exact)) hregular Reference.keeps h
    (fun v x hv hcovers hx => ?_) fun v hv hcovers hnot => ?_
  · cases v with
    | object fields => rwa [covers, if_pos ((exists_ofJson_iff hv).mp ⟨x, hx⟩)] at hcovers
    | null | bool | number | string | array => cases hcovers
  · cases v with
    | object fields =>
        have hnone := mt (exists_ofJson_iff hv).mpr (not_exists.mpr hnot)
        rwa [covers, if_neg hnone] at hcovers
    | null | bool | number | string | array => cases hcovers

end RefOr

/-! ### Operations -/

namespace Operation

/-- Whether parameters have a place for all that a value says. -/
def coversParameters : Json → Bool := Json.everyPart (RefOr.covers Parameter.covers)

/-- Whether an operation has a place for all that a value says. -/
def covers : Json → Bool :=
  record.covers [("parameters", coversParameters),
    ("responses", Json.everyPart (RefOr.covers Response.covers))]

/-- Reading a list of parameters loses nothing if none of them loses anything. -/
theorem parameters_keeps :
    (Codec.list (RefOr.codec Parameter.codec)).Keeps fun v => coversParameters v = true :=
  (RefOr.keeps Parameter.regular Parameter.keeps).everyItem

/-- Reading an operation loses nothing that operations have a place for. -/
theorem keeps : codec.Keeps fun v => covers v = true := by
  refine Record.keeps_covers lawful (by simp [record]) ?_
  simp only [record, List.forall_mem_cons]
  have htexts : ∀ {P : Json → Prop}, (Codec.list .string).option.Keeps P :=
    string_keeps.list_of_true.option_of_true
  exact ⟨htexts, option_string_keeps, option_string_keeps, option_string_keeps, htexts, htexts,
    parameters_keeps.orNull, (RefOr.keeps Response.regular Response.keeps).everyMember,
    bool_keeps.option_of_true, SecurityRequirement.keeps.list_of_true.option_of_true,
    List.forall_mem_nil _⟩

end Operation

/-! ### Paths -/

namespace PathItem

/-- The key of a member of a path as it is written: a method in lower case. -/
def key (name : String) : String := ((Method.ofText? name).map Method.name).getD name

/-- A path as it is written, with its methods in lower case. -/
def spelled : Json → Json
  | .object fields => .object (fields.map fun entry => (key entry.1, entry.2))
  | v => v

/-- Whether a member of a path has a place for all that a value says. -/
def coversMember (name : String) (v : Json) : Bool :=
  if name = "parameters" then Operation.coversParameters v
  else (Method.ofText? name).isNone || Operation.covers v

/-- Whether a path has a place for all that a value says: no method stands twice, and the members
have a place. -/
def covers : Json → Bool
  | .object fields =>
    (fields.map fun entry => key entry.1).Nodup &&
      fields.all fun entry => coversMember entry.1 entry.2
  | _ => false

/-- The name of a method is written in lower case. -/
theorem key_of_ofText? {name : String} {method : Method} (h : Method.ofText? name = some method) :
    key name = method.name := by
  rw [key, h]
  rfl

/-- A name that is no method is written as it is. -/
theorem key_of_none {name : String} (h : Method.ofText? name = none) : key name = name := by
  rw [key, h]
  rfl

/-- What has become of a member of a path. -/
inductive Holds (item : PathItem) (name : String) (v : Json) : Prop
  /-- The shared parameters are read from it. -/
  | parameters {ps : List (RefOr Parameter)} (hname : name = "parameters")
      (hread : parametersCodec.ofJson v = .ok ps) (hps : item.parameters = some ps)
  /-- The operation of its method is read from it. -/
  | operation {method : Method} {o : Operation} (hname : name ≠ "parameters")
      (hmethod : Method.ofText? name = some method) (hread : Operation.codec.ofJson v = .ok o)
      (ho : OrderedMap.findEntry method item.operations = some o)
  /-- It is kept as it is. -/
  | extension (hname : name ≠ "parameters") (hmethod : Method.ofText? name = none)
      (hget : item.extensions.get? name = some v)

/-- A path holds the member that is added to it. -/
theorem holds_addMember {item item' : PathItem} {name : String} {v : Json}
    (h : item.addMember name v = .ok item') : item'.Holds name v := by
  rw [addMember] at h
  split at h
  · next hname =>
      obtain ⟨ps, hps, he⟩ := bind_eq_ok.mp h
      obtain rfl := Except.ok.inj he
      exact .parameters hname hps rfl
  · next hname =>
      split at h
      · next method hmethod =>
          obtain ⟨o, ho, he⟩ := bind_eq_ok.mp h
          obtain rfl := Except.ok.inj he
          refine .operation hname hmethod ho ?_
          rw [withOperation, OrderedMap.findEntry_insertEntry, if_pos rfl]
      · next hmethod =>
          obtain rfl := Except.ok.inj h
          refine .extension hname hmethod ?_
          rw [OrderedMap.get?_insert, if_pos rfl]

/-- A path still holds a member when another one with another key is added. -/
theorem Holds.addMember {item item' : PathItem} {name other : String} {v w : Json}
    (h : item.Holds name v) (hkey : key name ≠ key other)
    (hadd : item.addMember other w = .ok item') : item'.Holds name v := by
  rw [PathItem.addMember] at hadd
  split at hadd
  · next hother =>
      obtain ⟨ps, -, he⟩ := bind_eq_ok.mp hadd
      obtain rfl := Except.ok.inj he
      cases h with
      | parameters hname => exact absurd (congrArg key (hname.trans hother.symm)) hkey
      | operation hname hmethod hread ho => exact .operation hname hmethod hread ho
      | extension hname hmethod hget => exact .extension hname hmethod hget
  · split at hadd
    · next method hother =>
        obtain ⟨o, -, he⟩ := bind_eq_ok.mp hadd
        obtain rfl := Except.ok.inj he
        cases h with
        | parameters hname hread hps => exact .parameters hname hread hps
        | operation hname hmethod hread ho =>
            refine .operation hname hmethod hread ?_
            rw [withOperation, OrderedMap.findEntry_insertEntry, if_neg, ho]
            rintro rfl
            exact hkey ((key_of_ofText? hmethod).trans (key_of_ofText? hother).symm)
        | extension hname hmethod hget => exact .extension hname hmethod hget
    · next hother =>
        obtain rfl := Except.ok.inj hadd
        cases h with
        | parameters hname hread hps => exact .parameters hname hread hps
        | operation hname hmethod hread ho => exact .operation hname hmethod hread ho
        | extension hname hmethod hget =>
            refine .extension hname hmethod ?_
            rw [OrderedMap.get?_insert, if_neg, hget]
            rintro rfl
            exact hkey rfl

/-- A path that is made of members with distinct keys holds all of them, and what it held before
under other keys. -/
theorem holds_of_foldlM {fields : List (String × Json)} {start item : PathItem}
    (hd : (fields.map fun entry => key entry.1).Nodup)
    (h : fields.foldlM (fun (item : PathItem) entry => item.addMember entry.1 entry.2) start =
      .ok item) :
    (∀ entry ∈ fields, item.Holds entry.1 entry.2) ∧
      ∀ name v, start.Holds name v → key name ∉ fields.map (fun entry => key entry.1) →
        item.Holds name v := by
  -- what a member has put into the path stays there, as no later one has its key
  induction fields generalizing start with
  | nil =>
      obtain rfl : start = item := Except.ok.inj h
      exact ⟨nofun, fun _ _ hstart _ => hstart⟩
  | cons entry rest ih =>
      obtain ⟨next, hnext, hrest⟩ := bind_eq_ok.mp h
      rw [List.map_cons, List.nodup_cons] at hd
      obtain ⟨hall, hbefore⟩ := ih hd.2 hrest
      refine ⟨List.forall_mem_cons.mpr ⟨hbefore _ _ (holds_addMember hnext) hd.1, hall⟩,
        fun name v hstart hname => ?_⟩
      rw [List.map_cons, List.mem_cons, not_or] at hname
      exact hbefore name v (hstart.addMember hname.1 hnext) hname.2

/-- What a path holds is written under its key, and all of it if there is a place for it. -/
theorem Holds.exists_findEntry {item : PathItem} {name : String} {v : Json} (h : item.Holds name v)
    (hv : v.Sound) (hcovers : coversMember name v = true) :
    ∃ w, OrderedMap.findEntry (key name) item.members = some w ∧ v.within w = true := by
  have hoperations : ∀ method, OrderedMap.findEntry method.name item.operationMembers =
      (OrderedMap.findEntry method item.operations).map Operation.codec.write := fun method =>
    OrderedMap.findEntry_map_key Method.name_injective Operation.codec.write method item.operations
  have hnone : ∀ {name}, Method.ofText? name = none →
      OrderedMap.findEntry name item.operationMembers = none := by
    intro name hname
    rw [OrderedMap.findEntry_eq_none_iff]
    intro hin
    obtain ⟨entry, hentry, rfl⟩ := List.mem_map.mp hin
    obtain ⟨operation, _, rfl⟩ := List.mem_map.mp hentry
    rw [Method.ofText?_name] at hname
    exact nomatch hname
  rw [coversMember] at hcovers
  rw [members_eq, OrderedMap.findEntry_append, OrderedMap.findEntry_append]
  cases h with
  | parameters hname hread hps =>
      subst hname
      have hmethod := Method.ofText?_parameters
      refine ⟨_, ?_, Operation.parameters_keeps.within hv (by simpa using hcovers) hread⟩
      rw [key_of_none hmethod, hnone hmethod, parameterMembers, hps]
      rfl
  | operation hname hmethod hread ho =>
      rw [if_neg hname, hmethod] at hcovers
      refine ⟨_, ?_, Operation.keeps.within hv hcovers hread⟩
      rw [key_of_ofText? hmethod, hoperations, ho]
      rfl
  | extension hname hmethod hget =>
      have hparameters : OrderedMap.findEntry name item.parameterMembers = none := by
        rw [OrderedMap.findEntry_eq_none_iff]
        intro hin
        obtain ⟨entry, hentry, rfl⟩ := List.mem_map.mp hin
        obtain ⟨ps, -, rfl⟩ := mem_parameterMembers hentry
        exact hname rfl
      refine ⟨v, ?_, Json.within_refl hv⟩
      rw [key_of_none hmethod, hnone hmethod, hparameters]
      exact hget

/-- A path keeps what it covers, apart from the case of its methods. -/
theorem within_spelled {v : Json} {item : PathItem} (hv : v.Sound) (hcovers : covers v = true)
    (h : codec.ofJson v = .ok item) : (spelled v).within (codec.write item) = true := by
  cases v with
  | object fields =>
      rw [covers, Bool.and_eq_true, decide_eq_true_eq, List.all_eq_true] at hcovers
      obtain ⟨members, hmembers, hitem⟩ := bind_eq_ok.mp h
      have hread : (Codec.map .json).ofJson (.object fields) = .ok ⟨fields⟩ := by
        have hstable : (Codec.map .json).Stable ((Json.object fields).depth + 1) ⟨fields⟩ :=
          jsonMap_stable_iff.mpr ⟨hv, Nat.le_succ _⟩
        have hreread := hstable.reread
        rwa [jsonMap_write] at hreread
      obtain rfl := Except.ok.inj (hread.symm.trans hmembers)
      obtain ⟨hholds, -⟩ := holds_of_foldlM hcovers.1 hitem
      refine Json.within_object_iff.mpr (List.forall_mem_map.mpr fun entry hentry _ => ?_)
      exact (hholds entry hentry).exists_findEntry ((Json.sound_object_iff.mp hv).2 entry hentry)
        (hcovers.2 entry hentry)
  | null | bool | number | string | array => exact nomatch hcovers

end PathItem

end ServiceDocs
