import ServiceDocs.Proofs.Reading.Codecs
import ServiceDocs.Reading.Record

/-!
# Laws of Records

A record type is lawful if its fields are independent of each other and together determine
a record. What is read from an object can then be described without the order in which the
members stand: `Record.Fits` says that each field has what its member holds, that an absent
field has what the blank record has, and that the unknown members are kept in their order.

`Record.Settled` is the same for what is written: each part that is written is stable, and
what is kept is free of the names of fields.

## Main definitions

* `Record.Lawful`: the laws of a record type.
* `Record.Independent`: the fields of a record type do not disturb each other.
* `Record.Fits`: what a record is that is read from an object.
* `Record.Settled`: a record of stable parts.

## Main results

* `Record.read_object_iff`: an object is read as the record that fits it.
* `Record.read_inv`: where the parts of a record come from that is read from any tree.
* `Record.stable_iff`: a record is stable exactly when its parts are.
* `Record.regular`: a record codec is regular if the codecs of its fields are.
-/

namespace ServiceDocs

variable {α : Type}

namespace Record

/-- The names of the fields. -/
def names (r : Record α) : List String := r.fields.map (·.name)

/-- The laws of a record type. -/
structure Lawful (r : Record α) : Prop where
  /-- No two fields have one name. -/
  names : r.names.Nodup
  /-- A field has what it was set to. -/
  get_set : ∀ f ∈ r.fields, ∀ x a, f.get (f.set x a) = x
  /-- Setting a field leaves the others as they are. -/
  get_set_of_ne : ∀ f ∈ r.fields, ∀ g ∈ r.fields, g.name ≠ f.name →
    ∀ x a, g.get (f.set x a) = g.get a
  /-- A part that is left out is the one of the blank record. -/
  omits : ∀ f ∈ r.fields, ∀ x, f.omits x = true → f.need ≠ .required ∧ f.get r.blank = x
  /-- Setting a field leaves the kept members as they are. -/
  kept_set : ∀ k ∈ r.rest, ∀ f ∈ r.fields, ∀ x a, k.kept (f.set x a) = k.kept a
  /-- Keeping a member leaves the fields as they are. -/
  get_keep : ∀ k ∈ r.rest, ∀ f ∈ r.fields, ∀ name v a, f.get (k.keep name v a) = f.get a
  /-- A kept member is inserted among the others. -/
  kept_keep : ∀ k ∈ r.rest, ∀ name v a, k.kept (k.keep name v a) = (k.kept a).insert name v
  /-- The blank record keeps nothing. -/
  kept_blank : ∀ k ∈ r.rest, k.kept r.blank = .empty
  /-- The parts and the kept members determine a record. -/
  ext : ∀ a b, (∀ f ∈ r.fields, f.get a = f.get b) → (∀ k ∈ r.rest, k.kept a = k.kept b) → a = b

/-! ### Independent fields -/

/-- The parts of a record in the order of the fields, each with its type. -/
def parts (r : Record α) (a : α) : List ((Part : Type) × Part) :=
  r.fields.map fun f => ⟨f.Part, f.get a⟩

/-- Setting a field changes the part at its own place and no other one. -/
def Independent (r : Record α) : Prop :=
  ∀ p ∈ r.fields.zipIdx, ∀ x a, r.parts (p.1.set x a) = (r.parts a).set p.2 ⟨p.1.Part, x⟩

/-- The fields of a record type are independent if the list of its setters computes to what is
wanted of it. One `rfl` settles all pairs of fields then. -/
theorem Independent.of_map_eq {r : Record α}
    (h : r.fields.zipIdx.map (fun p => (⟨p.1.Part, fun x a => r.parts (p.1.set x a)⟩ :
        (Part : Type) × (Part → α → List ((Part : Type) × Part)))) =
      r.fields.zipIdx.map fun p => ⟨p.1.Part, fun x a => (r.parts a).set p.2 ⟨p.1.Part, x⟩⟩) :
    r.Independent := by
  intro p hp x a
  have hsetter := eq_of_heq (Sigma.mk.inj (List.map_inj_left.mp h p hp)).2
  exact congrFun (congrFun hsetter x) a

/-- A part stands where its field does. -/
theorem getElem?_parts {r : Record α} {i : Nat} {f : Field α} (h : r.fields[i]? = some f) (a : α) :
    (r.parts a)[i]? = some ⟨f.Part, f.get a⟩ := by
  rw [parts, List.getElem?_map, h, Option.map_some]

/-- An independent field has what it was set to. -/
theorem Independent.get_set {r : Record α} (h : r.Independent) (f : Field α) (hf : f ∈ r.fields)
    (x : f.Part) (a : α) : f.get (f.set x a) = x := by
  obtain ⟨i, hi⟩ := List.mem_iff_getElem?.mp hf
  obtain ⟨hlength, -⟩ := List.getElem?_eq_some_iff.mp (getElem?_parts hi a)
  have hpart := getElem?_parts hi (f.set x a)
  rw [h (f, i) (List.mem_zipIdx_iff_getElem?.mpr hi), List.getElem?_set_self hlength] at hpart
  exact (eq_of_heq (Sigma.mk.inj (Option.some.inj hpart)).2).symm

/-- Setting an independent field leaves the others as they are. -/
theorem Independent.get_set_of_ne {r : Record α} (h : r.Independent) (f : Field α)
    (hf : f ∈ r.fields) (g : Field α) (hg : g ∈ r.fields) (hname : g.name ≠ f.name) (x : f.Part)
    (a : α) : g.get (f.set x a) = g.get a := by
  obtain ⟨i, hi⟩ := List.mem_iff_getElem?.mp hf
  obtain ⟨j, hj⟩ := List.mem_iff_getElem?.mp hg
  have hplace : i ≠ j := by
    rintro rfl
    exact hname (congrArg Field.name (Option.some.inj (hj.symm.trans hi)))
  have hpart := getElem?_parts hj (f.set x a)
  rw [h (f, i) (List.mem_zipIdx_iff_getElem?.mpr hi), List.getElem?_set_ne hplace,
    getElem?_parts hj] at hpart
  exact (eq_of_heq (Sigma.mk.inj (Option.some.inj hpart)).2).symm

/-- A record type that keeps nothing is lawful if its fields are independent and determine a
record. -/
theorem lawful_of_rest_eq_none {r : Record α} (hrest : r.rest = none) (names : r.names.Nodup)
    (independent : r.Independent)
    (omits : ∀ f ∈ r.fields, ∀ x, f.omits x = true → f.need ≠ .required ∧ f.get r.blank = x)
    (ext : ∀ a b, (∀ f ∈ r.fields, f.get a = f.get b) → a = b) : r.Lawful where
  names := names
  get_set := independent.get_set
  get_set_of_ne := independent.get_set_of_ne
  omits := omits
  kept_set := by simp [hrest]
  get_keep := by simp [hrest]
  kept_keep := by simp [hrest]
  kept_blank := by simp [hrest]
  ext a b h _ := ext a b h

/-! ### Finding fields -/

/-- The field of a name. -/
def field? (r : Record α) (name : String) : Option (Field α) := r.fields.find? (·.name == name)

/-- A name is not found exactly if it is no field. -/
theorem field?_eq_none_iff {r : Record α} {name : String} :
    r.field? name = none ↔ name ∉ r.names := by
  simp [field?, names]

/-- What is found under a name is the field of this name. -/
theorem mem_of_field? {r : Record α} {name : String} {f : Field α} (h : r.field? name = some f) :
    f ∈ r.fields ∧ f.name = name := by
  have hname := List.find?_some h
  exact ⟨List.mem_of_find?_eq_some h, beq_iff_eq.mp hname⟩

/-- The fields of a lawful record type are found under their names. -/
theorem Lawful.eq_of_name {r : Record α} (hr : r.Lawful) {f g : Field α} (hf : f ∈ r.fields)
    (hg : g ∈ r.fields) (h : f.name = g.name) : f = g :=
  List.inj_on_of_nodup_map hr.names hf hg h

/-- A key that is a text is looked up by name. -/
theorem find_string (r : Record α) (m : Mode) (name : String) :
    r.find m (.string name) = .ok (r.field? name, name) := by
  cases m <;> rfl

/-- The key of a member of a JSON text names a field only if it is a text. -/
theorem find_inv {r : Record α} {m : Mode} {key : Node} {found : Option (Field α)} {name : String}
    (hm : m.isYaml = false) (hk : key.IsKey) (h : r.find m key = .ok (found, name)) :
    key = .string name ∧ found = r.field? name := by
  have hkey : ∀ n, readKey m key = .ok n → key = .string n := fun n => eq_string_of_readKey hm hk
  cases hread : readKey m key with
  | ok n =>
      obtain rfl := hkey n hread
      rw [find_string, Except.ok.injEq, Prod.mk.injEq] at h
      exact ⟨h.2 ▸ rfl, h.2 ▸ h.1.symm⟩
  | error fault =>
      rcases hk with ⟨s, rfl⟩ | ⟨t, rfl⟩ | ⟨d, rfl⟩
      · rw [readKey_string] at hread
        exact nomatch hread
      · cases m <;> simp [find, hread] at h
      · cases m <;> simp [find, hread] at h

/-! ### One member after the other -/

/-- Reading a member that a field is named after. -/
theorem readMembers_cons_field {r : Record α} {m : Mode} {name : String} {n : Node}
    {rest : List (Node × Node)} {seen : List String} {a : α} {f : Field α}
    (h : r.field? name = some f) (hseen : name ∉ seen) :
    r.readMembers m ((.string name, n) :: rest) seen a =
      f.codec.read m n >>= fun x => r.readMembers m rest (name :: seen) (f.set x a) := by
  obtain ⟨-, rfl⟩ := mem_of_field? h
  simp only [readMembers, find_string, h, if_neg hseen, Field.read, bind_assoc]
  rfl

/-- Keeping or passing over a member that no field is named after. -/
theorem readMembers_cons_unknown {r : Record α} {m : Mode} {name : String} {n : Node}
    {rest : List (Node × Node)} {seen : List String} {a : α} (h : r.field? name = none) :
    r.readMembers m ((.string name, n) :: rest) seen a =
      match r.rest with
      | none => m.skip n >>= fun _ => r.readMembers m rest seen a
      | some k => Json.read m n >>= fun v => r.readMembers m rest seen (k.keep name v a) := by
  have hfind : r.find m (.string name) = .ok (none, name) := by rw [find_string, h]
  cases hrest : r.rest <;> simp [readMembers, hfind, hrest]

/-- A property that is kept by every step holds of what is read from the members. -/
theorem readMembers_induction {r : Record α} {m : Mode} {P : α → Prop}
    {fields : List (Node × Node)} {seen seen' : List String} {a b : α} (hm : m.isYaml = false)
    (hkeys : ∀ entry ∈ fields, entry.1.IsKey)
    (hset : ∀ f ∈ r.fields, ∀ entry ∈ fields, ∀ x a, f.codec.read m entry.2 = .ok x → P a →
      P (f.set x a))
    (hkeep : ∀ k ∈ r.rest, ∀ entry ∈ fields, ∀ name v a, name ∉ r.names →
      Json.read m entry.2 = .ok v → P a → P (k.keep name v a))
    (h : r.readMembers m fields seen a = .ok (seen', b)) (ha : P a) : P b := by
  induction fields generalizing seen a with
  | nil =>
      rw [readMembers, Except.ok.injEq, Prod.mk.injEq] at h
      exact h.2 ▸ ha
  | cons entry rest ih =>
      obtain ⟨key, n⟩ := entry
      replace ih := fun seen a => @ih seen a
        (fun entry hentry => hkeys entry (List.mem_cons_of_mem _ hentry))
        (fun f hf entry hentry => hset f hf entry (List.mem_cons_of_mem _ hentry))
        (fun k hk entry hentry => hkeep k hk entry (List.mem_cons_of_mem _ hentry))
      cases hfind : r.find m key with
      | error fault => simp [readMembers, hfind] at h
      | ok found =>
          obtain ⟨found, name⟩ := found
          obtain ⟨rfl, rfl⟩ := find_inv hm (hkeys (key, n) List.mem_cons_self) hfind
          cases hfield : r.field? name with
          | some f =>
              obtain ⟨hf, hname⟩ := mem_of_field? hfield
              by_cases hseen : name ∈ seen
              · simp [readMembers, find_string, hfield, hname, hseen] at h
              · rw [readMembers_cons_field hfield hseen, bind_eq_ok] at h
                obtain ⟨x, hx, hrest⟩ := h
                exact ih _ _ hrest (hset f hf _ List.mem_cons_self x a hx ha)
          | none =>
              rw [readMembers_cons_unknown hfield] at h
              cases hrest : r.rest with
              | none =>
                  rw [hrest] at h
                  obtain ⟨_, -, hrest⟩ := bind_eq_ok.mp h
                  exact ih _ _ hrest ha
              | some k =>
                  rw [hrest] at h
                  obtain ⟨v, hv, htail⟩ := bind_eq_ok.mp h
                  exact ih _ _ htail (hkeep k hrest _ List.mem_cons_self name v a
                    (field?_eq_none_iff.mp hfield) hv ha)

/-- A property that is kept by every step holds of what is read from a list. -/
theorem readPositions_induction {r : Record α} {m : Mode} {P : α → Prop} {close : Close}
    {fields : List (Field α)} {items : List Node} {index : Nat} {a b : α}
    (hset : ∀ f ∈ fields, ∀ item ∈ items, ∀ x a, f.codec.read m item = .ok x → P a →
      P (f.set x a))
    (h : r.readPositions m close fields items index a = .ok b) (ha : P a) : P b := by
  induction fields generalizing items index a with
  | nil =>
      simp only [readPositions, bind_eq_ok, pure_eq_ok, Except.ok.injEq] at h
      obtain ⟨_, -, rfl⟩ := h
      exact ha
  | cons f fields ih =>
      cases items with
      | nil =>
          simp only [readPositions, bind_eq_ok] at h
          obtain ⟨_, -, h⟩ := h
          split at h
          · exact ih (by simp) h ha
          · simp at h
      | cons item items =>
          simp only [readPositions, Field.read, bind_eq_ok, pure_eq_ok, Except.ok.injEq] at h
          obtain ⟨_, ⟨x, hx, rfl⟩, h⟩ := h
          exact ih (fun g hg other hother =>
            hset g (List.mem_cons_of_mem _ hg) other (List.mem_cons_of_mem _ hother)) h
            (hset f List.mem_cons_self item List.mem_cons_self x a hx ha)

/-! ### Where parts come from -/

/-- Where the parts of a record come from: from the blank record or from a part of the tree. -/
structure Origin (r : Record α) (m : Mode) (n : Node) (a : α) : Prop where
  /-- A part is the blank one or read from a part of the tree. -/
  parts : ∀ f ∈ r.fields, f.get a = f.get r.blank ∨
    ∃ part, part.IsPart n ∧ f.codec.read m part = .ok (f.get a)
  /-- The kept members have distinct names. -/
  distinct : ∀ k ∈ r.rest, (k.kept a).Distinct
  /-- A kept member is no field and read from a part of the tree. -/
  kept : ∀ k ∈ r.rest, ∀ entry ∈ (k.kept a).entries, entry.1 ∉ r.names ∧
    ∃ part, part.IsPart n ∧ Json.read m part = .ok entry.2

/-- The blank record stems from any tree. -/
theorem Lawful.origin_blank {r : Record α} (hr : r.Lawful) (m : Mode) (n : Node) :
    r.Origin m n r.blank where
  parts _ _ := .inl rfl
  distinct k hk := by
    rw [hr.kept_blank k hk]
    exact OrderedMap.distinct_empty
  kept k hk entry hentry := by
    rw [hr.kept_blank k hk] at hentry
    exact absurd hentry List.not_mem_nil

/-- A field may be set to what is read from a part of the tree. -/
theorem Lawful.origin_set {r : Record α} (hr : r.Lawful) {m : Mode} {n part : Node} {a : α}
    {f : Field α} (hf : f ∈ r.fields) {x : f.Part} (hpart : part.IsPart n)
    (hx : f.codec.read m part = .ok x) (ha : r.Origin m n a) : r.Origin m n (f.set x a) where
  parts g hg := by
    by_cases hname : g.name = f.name
    · obtain rfl := hr.eq_of_name hg hf hname
      rw [hr.get_set g hg]
      exact .inr ⟨part, hpart, hx⟩
    · rw [hr.get_set_of_ne f hf g hg hname]
      exact ha.parts g hg
  distinct k hk := by
    rw [hr.kept_set k hk f hf]
    exact ha.distinct k hk
  kept k hk := by
    rw [hr.kept_set k hk f hf]
    exact ha.kept k hk

/-- A member that is no field may be kept with what is read from a part of the tree. -/
theorem Lawful.origin_keep {r : Record α} (hr : r.Lawful) {m : Mode} {n part : Node} {a : α}
    {k : Rest α} (hk : k ∈ r.rest) {name : String} (hname : name ∉ r.names) {v : Json}
    (hpart : part.IsPart n) (hv : Json.read m part = .ok v) (ha : r.Origin m n a) :
    r.Origin m n (k.keep name v a) where
  parts g hg := by
    rw [hr.get_keep k hk g hg]
    exact ha.parts g hg
  distinct k' hk' := by
    obtain rfl : k = k' := Option.some.inj (hk.symm.trans hk')
    rw [hr.kept_keep k hk]
    exact OrderedMap.distinct_insert (ha.distinct k hk) name v
  kept k' hk' entry hentry := by
    obtain rfl : k = k' := Option.some.inj (hk.symm.trans hk')
    rw [hr.kept_keep k hk] at hentry
    rcases OrderedMap.mem_entries_insert hentry with rfl | hentry
    · exact ⟨hname, part, hpart, hv⟩
    · exact ha.kept k hk entry hentry

/-- What is read as a record stems from the parts of the tree. -/
theorem read_inv {r : Record α} (hr : r.Lawful) {m : Mode} {n : Node} {a : α}
    (hm : m.isYaml = false) (hn : n.IsJson) (h : r.read m n = .ok a) :
    1 ≤ n.depth ∧ ∃ inner, m.enter = .ok inner ∧ r.Origin inner n a := by
  cases hn with
  | @object fields close hkeys hvalues =>
      simp only [read, readObject, bind_eq_ok, pure_eq_ok, Except.ok.injEq] at h
      obtain ⟨inner, henter, ⟨seen, b⟩, hmembers, -, -, -, -, rfl⟩ := h
      refine ⟨Node.one_le_depth_object fields close, inner, henter, ?_⟩
      exact readMembers_induction (Mode.isYaml_enter hm henter) hkeys
        (fun f hf entry hentry x a hx ha => hr.origin_set hf ⟨entry.1, hentry⟩ hx ha)
        (fun k hk entry hentry name v a hname hv ha =>
          hr.origin_keep hk hname ⟨entry.1, hentry⟩ hv ha)
        hmembers (hr.origin_blank inner _)
  | @array items close hitems =>
      simp only [read] at h
      split at h
      · simp only [readListed, bind_eq_ok] at h
        obtain ⟨inner, henter, h⟩ := h
        refine ⟨Node.one_le_depth_array items close, inner, henter, ?_⟩
        refine readPositions_induction (P := r.Origin inner (.array items close))
          (fun f hf item hitem x a hx ha => ?_) h (hr.origin_blank inner _)
        have hpart : item.IsPart (.array items close) := hitem
        exact hr.origin_set hf hpart hx ha
      · simp at h
  | null | bool | number | string | misplaced | defect => simp [read] at h

/-! ### Reading an object -/

/-- What a record is that is read from the members of an object. -/
structure Fits (r : Record α) (m : Mode) (entries : List (String × Json)) (a : α) : Prop where
  /-- A field that is given has what its member holds. -/
  given : ∀ f ∈ r.fields, ∀ v, OrderedMap.findEntry f.name entries = some v →
    f.codec.read m (.ofJson v) = .ok (f.get a)
  /-- A field that is absent may be absent and has what the blank record has. -/
  absent : ∀ f ∈ r.fields, f.name ∉ entries.map (·.1) →
    f.need ≠ .required ∧ f.get a = f.get r.blank
  /-- All other members are kept in order. -/
  kept : ∀ k ∈ r.rest, (k.kept a).entries = entries.filter fun entry => entry.1 ∉ r.names

/-- At most one record fits. -/
theorem Fits.unique {r : Record α} (hr : r.Lawful) {m : Mode} {entries : List (String × Json)}
    {a b : α} (ha : r.Fits m entries a) (hb : r.Fits m entries b) : a = b := by
  refine hr.ext a b (fun f hf => ?_) (fun k hk => ?_)
  · cases hfind : OrderedMap.findEntry f.name entries with
    | some v =>
        have h := (ha.given f hf v hfind).symm.trans (hb.given f hf v hfind)
        exact Except.ok.inj h
    | none =>
        have hname := (OrderedMap.findEntry_eq_none_iff f.name entries).mp hfind
        rw [(ha.absent f hf hname).2, (hb.absent f hf hname).2]
  · have h : (k.kept a).entries = (k.kept b).entries := (ha.kept k hk).trans (hb.kept k hk).symm
    exact congrArg OrderedMap.mk h

/-- What is known after members are read one after the other. -/
structure ReadsTo (r : Record α) (m : Mode) (entries : List (String × Json))
    (seen seen' : List String) (a b : α) : Prop where
  /-- A field that is given has what its member holds. -/
  given : ∀ f ∈ r.fields, ∀ v, OrderedMap.findEntry f.name entries = some v →
    f.codec.read m (.ofJson v) = .ok (f.get b)
  /-- A field that is absent is left as it was. -/
  absent : ∀ f ∈ r.fields, f.name ∉ entries.map (·.1) → f.get b = f.get a
  /-- All other members are kept in order, after those that were there. -/
  kept : ∀ k ∈ r.rest, k.kept b =
    (k.kept a).insertAll (entries.filter fun entry => entry.1 ∉ r.names)
  /-- The fields that are given have been seen. -/
  seen : ∀ f ∈ r.fields, f.name ∈ seen' ↔ f.name ∈ entries.map (·.1) ∨ f.name ∈ seen

theorem name_mem_names {r : Record α} {f : Field α} (hf : f ∈ r.fields) : f.name ∈ r.names :=
  List.mem_map_of_mem hf

/-- The step of a field. -/
theorem Lawful.readsTo_field {r : Record α} (hr : r.Lawful) {m : Mode} {f : Field α}
    (hf : f ∈ r.fields) {v : Json} {rest : List (String × Json)}
    (hname : f.name ∉ rest.map (·.1)) {x : f.Part} (hx : f.codec.read m (.ofJson v) = .ok x)
    {seen seen' : List String} {a b : α}
    (h : r.ReadsTo m rest (f.name :: seen) seen' (f.set x a) b) :
    r.ReadsTo m ((f.name, v) :: rest) seen seen' a b where
  given g hg w hw := by
    by_cases he : f.name = g.name
    · obtain rfl := hr.eq_of_name hf hg he
      simp only [OrderedMap.findEntry, if_true, Option.some.injEq] at hw
      rw [← hw, h.absent f hf hname, hr.get_set f hf]
      exact hx
    · simp only [OrderedMap.findEntry, if_neg he] at hw
      exact h.given g hg w hw
  absent g hg hnot := by
    rw [List.map_cons, List.mem_cons, not_or] at hnot
    rw [h.absent g hg hnot.2, hr.get_set_of_ne f hf g hg hnot.1]
  kept k hk := by
    have hdrop : ((f.name, v) :: rest).filter (fun entry => entry.1 ∉ r.names) =
        rest.filter fun entry => entry.1 ∉ r.names :=
      List.filter_cons_of_neg (by simpa using name_mem_names hf)
    rw [h.kept k hk, hr.kept_set k hk f hf, hdrop]
  seen g hg := by
    rw [h.seen g hg, List.map_cons, List.mem_cons, List.mem_cons, or_left_comm, or_assoc]

/-- The step of a member that no field is named after. -/
theorem Lawful.readsTo_unknown {r : Record α} (hr : r.Lawful) {m : Mode} {name : String}
    (hname : name ∉ r.names) {v : Json} {rest : List (String × Json)}
    {seen seen' : List String} {a a' b : α}
    (ha : (∀ k ∈ r.rest, a' = k.keep name v a) ∧ (r.rest = none → a' = a))
    (h : r.ReadsTo m rest seen seen' a' b) : r.ReadsTo m ((name, v) :: rest) seen seen' a b where
  given g hg w hw := by
    have hne : name ≠ g.name := fun he => hname (he ▸ name_mem_names hg)
    simp only [OrderedMap.findEntry, if_neg hne] at hw
    exact h.given g hg w hw
  absent g hg hnot := by
    rw [List.map_cons, List.mem_cons, not_or] at hnot
    rw [h.absent g hg hnot.2]
    cases hrest : r.rest with
    | none => rw [ha.2 hrest]
    | some k => rw [ha.1 k hrest, hr.get_keep k hrest g hg]
  kept k hk := by
    have hkeep : ((name, v) :: rest).filter (fun entry => entry.1 ∉ r.names) =
        (name, v) :: rest.filter fun entry => entry.1 ∉ r.names :=
      List.filter_cons_of_pos (by simpa using hname)
    rw [h.kept k hk, ha.1 k hk, hr.kept_keep k hk, hkeep]
    rfl
  seen g hg := by
    have hne : g.name ≠ name := fun he => hname (he ▸ name_mem_names hg)
    rw [h.seen g hg, List.map_cons, List.mem_cons]
    simp only [hne, false_or]

/-- Members that avoid the keys seen so far also avoid the name of the member before them. -/
theorem forall_notMem_cons {name : String} {rest : List (String × Json)} {seen : List String}
    (hname : name ∉ rest.map (·.1)) (hseen : ∀ entry ∈ rest, entry.1 ∉ seen) :
    ∀ entry ∈ rest, entry.1 ∉ name :: seen := by
  intro entry hentry hin
  rcases List.mem_cons.mp hin with he | hin
  · exact hname (he ▸ List.mem_map.mpr ⟨entry, hentry, rfl⟩)
  · exact hseen entry hentry hin

/-- What the members of an object are read to, one after the other. -/
theorem readsTo_of_readMembers {r : Record α} (hr : r.Lawful) {m : Mode}
    {entries : List (String × Json)} (hd : (entries.map (·.1)).Nodup)
    (hentries : ∀ entry ∈ entries, entry.2.Sound ∧ m.Holds entry.2) {seen seen' : List String}
    (hseen : ∀ entry ∈ entries, entry.1 ∉ seen) {a b : α}
    (h : r.readMembers m (Node.ofJsonFields entries) seen a = .ok (seen', b)) :
    r.ReadsTo m entries seen seen' a b := by
  induction entries generalizing seen a with
  | nil =>
      rw [Node.ofJsonFields, readMembers, Except.ok.injEq, Prod.mk.injEq] at h
      obtain ⟨rfl, rfl⟩ := h
      exact ⟨fun _ _ _ h => by simp [OrderedMap.findEntry] at h, fun _ _ _ => rfl,
        fun _ _ => rfl, fun _ _ => by simp⟩
  | cons entry rest ih =>
      obtain ⟨name, v⟩ := entry
      rw [List.map_cons, List.nodup_cons] at hd
      have hrest := fun entry hentry => hentries entry (List.mem_cons_of_mem _ hentry)
      have hseenRest := fun entry hentry => hseen entry (List.mem_cons_of_mem _ hentry)
      obtain ⟨hsound, hholds⟩ := hentries (name, v) List.mem_cons_self
      rw [Node.ofJsonFields] at h
      cases hfield : r.field? name with
      | some f =>
          obtain ⟨hf, rfl⟩ := mem_of_field? hfield
          rw [readMembers_cons_field hfield (hseen _ List.mem_cons_self), bind_eq_ok] at h
          obtain ⟨x, hx, h⟩ := h
          exact hr.readsTo_field hf hd.1 hx (ih hd.2 hrest (forall_notMem_cons hd.1 hseenRest) h)
      | none =>
          have hname := field?_eq_none_iff.mp hfield
          rw [readMembers_cons_unknown hfield] at h
          cases hk : r.rest with
          | none =>
              simp only [hk, Mode.skip_ofJson, ok_bind] at h
              have hnone : ∀ k, k ∉ r.rest := fun k hin =>
                absurd (hk.symm.trans hin) (Option.some_ne_none k).symm
              exact hr.readsTo_unknown hname ⟨fun k hin => absurd hin (hnone k), fun _ => rfl⟩
                (ih hd.2 hrest hseenRest h)
          | some k =>
              simp only [hk, Json.read_ofJson hsound hholds, ok_bind] at h
              have hsome : r.rest ≠ none := hk ▸ Option.some_ne_none k
              refine hr.readsTo_unknown hname ⟨fun k' hk' => ?_, fun hn => absurd hn hsome⟩
                (ih hd.2 hrest hseenRest h)
              rw [Option.some.inj (hk.symm.trans hk')]

/-- The members of an object can be read if those of its fields can be. -/
theorem exists_of_readMembers {r : Record α} {m : Mode}
    {entries : List (String × Json)} (hd : (entries.map (·.1)).Nodup)
    (hentries : ∀ entry ∈ entries, entry.2.Sound ∧ m.Holds entry.2)
    (hgiven : ∀ f ∈ r.fields, ∀ v, OrderedMap.findEntry f.name entries = some v →
      ∃ x, f.codec.read m (.ofJson v) = .ok x)
    {seen : List String} (hseen : ∀ entry ∈ entries, entry.1 ∉ seen) (a : α) :
    ∃ result, r.readMembers m (Node.ofJsonFields entries) seen a = .ok result := by
  induction entries generalizing seen a with
  | nil => exact ⟨(seen, a), rfl⟩
  | cons entry rest ih =>
      obtain ⟨name, v⟩ := entry
      rw [List.map_cons, List.nodup_cons] at hd
      have hrest := fun entry hentry => hentries entry (List.mem_cons_of_mem _ hentry)
      have hseenRest := fun entry hentry => hseen entry (List.mem_cons_of_mem _ hentry)
      have hgivenRest : ∀ f ∈ r.fields, ∀ v, OrderedMap.findEntry f.name rest = some v →
          ∃ x, f.codec.read m (.ofJson v) = .ok x := by
        intro f hf w hw
        have hne : name ≠ f.name := fun he =>
          hd.1 (he ▸ List.mem_map.mpr ⟨_, OrderedMap.mem_of_findEntry hw, rfl⟩)
        exact hgiven f hf w (by simpa only [OrderedMap.findEntry, if_neg hne] using hw)
      obtain ⟨hsound, hholds⟩ := hentries (name, v) List.mem_cons_self
      rw [Node.ofJsonFields]
      cases hfield : r.field? name with
      | some f =>
          obtain ⟨hf, rfl⟩ := mem_of_field? hfield
          obtain ⟨x, hx⟩ := hgiven f hf v (by simp [OrderedMap.findEntry])
          rw [readMembers_cons_field hfield (hseen _ List.mem_cons_self), hx, ok_bind]
          exact ih hd.2 hrest hgivenRest (forall_notMem_cons hd.1 hseenRest) _
      | none =>
          rw [readMembers_cons_unknown hfield]
          cases hk : r.rest with
          | none =>
              simp only [Mode.skip_ofJson, ok_bind]
              exact ih hd.2 hrest hgivenRest hseenRest _
          | some k =>
              simp only [Json.read_ofJson hsound hholds, ok_bind]
              exact ih hd.2 hrest hgivenRest hseenRest _

/-- No required field is absent exactly when the check passes. -/
theorem checkComplete_iff {r : Record α} {seen : List String} :
    r.checkComplete seen = .ok () ↔ ∀ f ∈ r.fields, f.need = .required → f.name ∈ seen := by
  rw [checkComplete]
  cases hfind : r.fields.find? fun f => f.need = .required && !(seen.contains f.name) with
  | none => simpa using hfind
  | some f =>
      have hf := List.mem_of_find?_eq_some hfind
      have hp := List.find?_some hfind
      simp only [Bool.and_eq_true, decide_eq_true_eq, Bool.not_eq_true', List.contains_eq_mem,
        decide_eq_false_iff_not] at hp
      constructor
      · intro h
        exact nomatch h
      · intro h
        exact absurd (h f hf hp.1) hp.2

/-- All required fields have been seen exactly when only fields are absent that may be. -/
theorem ReadsTo.checkComplete_iff {r : Record α} {m : Mode} {entries : List (String × Json)}
    {seen : List String} {a b : α} (h : r.ReadsTo m entries [] seen a b) :
    r.checkComplete seen = .ok () ↔
      ∀ f ∈ r.fields, f.name ∉ entries.map (·.1) → f.need ≠ .required := by
  rw [Record.checkComplete_iff]
  constructor
  · intro hall f hf hnot hneed
    rcases (h.seen f hf).mp (hall f hf hneed) with hin | hin
    · exact hnot hin
    · exact List.not_mem_nil hin
  · intro hall f hf hneed
    by_contra hnot
    exact hall f hf (fun hin => hnot ((h.seen f hf).mpr (.inl hin))) hneed

/-- What the members of an object are read to fits them. -/
theorem ReadsTo.fits {r : Record α} (hr : r.Lawful) {m : Mode} {entries : List (String × Json)}
    (hd : (entries.map (·.1)).Nodup) {seen : List String} {b : α}
    (h : r.ReadsTo m entries [] seen r.blank b)
    (hneed : ∀ f ∈ r.fields, f.name ∉ entries.map (·.1) → f.need ≠ .required) :
    r.Fits m entries b where
  given := h.given
  absent f hf hnot := ⟨hneed f hf hnot, h.absent f hf hnot⟩
  kept k hk := by
    have hsub : ((entries.filter fun entry => entry.1 ∉ r.names).map (·.1)).Nodup :=
      (List.filter_sublist.map _).nodup hd
    rw [h.kept k hk, hr.kept_blank k hk]
    exact OrderedMap.entries_insertAll_empty hsub

/-- A record is read from an object member by member, and then must not lack a field that is
required. -/
theorem read_object_eq_ok {r : Record α} {m inner : Mode} {entries : List (String × Json)} {a : α}
    (henter : m.enter = .ok inner) :
    r.read m (.ofJson (.object entries)) = .ok a ↔
      ∃ seen, r.readMembers inner (Node.ofJsonFields entries) [] r.blank = .ok (seen, a) ∧
        r.checkComplete seen = .ok () := by
  simp only [Node.ofJson, read, readObject, henter, ok_bind, bind_eq_ok, pass_closed, pure_eq_ok,
    Except.ok.injEq, Prod.exists]
  constructor
  · rintro ⟨seen, b, hmembers, _, hcheck, rfl⟩
    exact ⟨seen, hmembers, hcheck⟩
  · rintro ⟨seen, hmembers, hcheck⟩
    exact ⟨seen, a, hmembers, (), hcheck, rfl⟩

/-- An object is read as the record that fits it. -/
theorem read_object_iff {r : Record α} (hr : r.Lawful) {m inner : Mode}
    {entries : List (String × Json)} {a : α} (hd : (entries.map (·.1)).Nodup)
    (hentries : ∀ entry ∈ entries, entry.2.Sound ∧ inner.Holds entry.2)
    (henter : m.enter = .ok inner) :
    r.read m (.ofJson (.object entries)) = .ok a ↔ r.Fits inner entries a := by
  have hseen : ∀ entry ∈ entries, entry.1 ∉ [] := fun _ _ => List.not_mem_nil
  rw [read_object_eq_ok henter]
  constructor
  · rintro ⟨seen, hmembers, hcheck⟩
    have hto := readsTo_of_readMembers hr hd hentries hseen hmembers
    exact hto.fits hr hd (hto.checkComplete_iff.mp hcheck)
  · intro ha
    obtain ⟨⟨seen, b⟩, hmembers⟩ := exists_of_readMembers hd hentries
      (fun f hf v hv => ⟨_, ha.given f hf v hv⟩) hseen r.blank
    have hto := readsTo_of_readMembers hr hd hentries hseen hmembers
    have hneed : ∀ f ∈ r.fields, f.name ∉ entries.map (·.1) → f.need ≠ .required :=
      fun f hf hnot => (ha.absent f hf hnot).1
    obtain rfl := (hto.fits hr hd hneed).unique hr ha
    exact ⟨seen, hmembers, hto.checkComplete_iff.mpr hneed⟩

/-- An object in memory is read as the record that fits it. -/
theorem ofJson_object_iff {r : Record α} (hr : r.Lawful) {entries : List (String × Json)} {a : α}
    (h : (Json.object entries).Sound) :
    r.codec.ofJson (.object entries) = .ok a ↔ r.Fits .value entries a := by
  obtain ⟨hd, hentries⟩ := Json.sound_object_iff.mp h
  have hholds : ∀ entry ∈ entries, entry.2.Sound ∧ Mode.value.Holds entry.2 :=
    fun entry hentry => ⟨hentries entry hentry, trivial⟩
  exact read_object_iff hr hd hholds rfl

/-! ### Writing -/

/-- The members of the fields that are written. -/
def written (r : Record α) (a : α) : List (String × Json) :=
  r.fields.filterMap fun f => (f.write a).map fun value => (f.name, value)

/-- The members that are kept. -/
def keptEntries (r : Record α) (a : α) : List (String × Json) :=
  match r.rest with
  | none => []
  | some k => (k.kept a).entries

/-- A record is written with its fields first and the kept members after them. -/
theorem members_eq (r : Record α) (a : α) : r.members a = r.written a ++ r.keptEntries a := rfl

/-- The kept members of a record that keeps any. -/
theorem keptEntries_eq {r : Record α} {k : Rest α} (hk : k ∈ r.rest) (a : α) :
    r.keptEntries a = (k.kept a).entries := by
  rw [keptEntries, Option.mem_def.mp hk]

/-- A kept member is one that the record keeps. -/
theorem exists_of_mem_keptEntries {r : Record α} {a : α} {entry : String × Json}
    (h : entry ∈ r.keptEntries a) : ∃ k ∈ r.rest, entry ∈ (k.kept a).entries := by
  rw [keptEntries] at h
  cases hk : r.rest with
  | none => simp [hk] at h
  | some k => exact ⟨k, rfl, by simpa [hk] using h⟩

/-- What is written of a part that is not left out. -/
theorem write_eq_some_iff {f : Field α} {a : α} {v : Json} :
    f.write a = some v ↔ f.omits (f.get a) = false ∧ v = f.codec.write (f.get a) := by
  rw [Field.write]
  cases f.omits (f.get a) <;> simp [eq_comm]

/-- The written members are the fields that are not left out. -/
theorem mem_written_iff {r : Record α} {a : α} {entry : String × Json} :
    entry ∈ r.written a ↔ ∃ f ∈ r.fields, f.omits (f.get a) = false ∧
      entry = (f.name, f.codec.write (f.get a)) := by
  simp only [written, List.mem_filterMap, Option.map_eq_some_iff, write_eq_some_iff]
  constructor
  · rintro ⟨f, hf, v, ⟨homits, rfl⟩, rfl⟩
    exact ⟨f, hf, homits, rfl⟩
  · rintro ⟨f, hf, homits, rfl⟩
    exact ⟨f, hf, _, ⟨homits, rfl⟩, rfl⟩

/-- What is written of a part that may be null. -/
theorem write_hidden {β : Type} (name : String) (need : Need) (item : Codec β) (get : α → Option β)
    (set : Option β → α → α) (a : α) :
    (Field.hidden name need item get set).write a = (get a).map item.write := by
  have hwrite : ∀ x : Option β, (if x.isNone then none else some (item.option.write x)) =
      x.map item.write := by
    intro x
    cases x <;> rfl
  exact hwrite (get a)

/-- The names of what is written are names of fields, in order. -/
theorem map_fst_written_sublist (r : Record α) (a : α) :
    ((r.written a).map (·.1)).Sublist r.names := by
  rw [written, names]
  induction r.fields with
  | nil => exact .slnil
  | cons f fields ih =>
      cases h : f.write a with
      | none => simpa [List.filterMap_cons, h] using ih.cons f.name
      | some v => simpa [List.filterMap_cons, h] using ih.cons_cons f.name

/-- What is written under the name of a field is its part. -/
theorem Lawful.findEntry_written {r : Record α} (hr : r.Lawful) (a : α) {f : Field α}
    (hf : f ∈ r.fields) : OrderedMap.findEntry f.name (r.written a) = f.write a := by
  have hd := (map_fst_written_sublist r a).nodup hr.names
  cases hw : f.write a with
  | some v =>
      obtain ⟨homits, rfl⟩ := write_eq_some_iff.mp hw
      exact OrderedMap.findEntry_of_mem hd (mem_written_iff.mpr ⟨f, hf, homits, rfl⟩)
  | none =>
      rw [OrderedMap.findEntry_eq_none_iff]
      intro hin
      obtain ⟨entry, hentry, hname⟩ := List.mem_map.mp hin
      obtain ⟨g, hg, homits, rfl⟩ := mem_written_iff.mp hentry
      obtain rfl := hr.eq_of_name hg hf hname
      rw [write_eq_some_iff.mpr ⟨homits, rfl⟩] at hw
      exact nomatch hw

/-- A record of stable parts, which lie no deeper than `d`. -/
structure Settled (r : Record α) (d : Nat) (a : α) : Prop where
  /-- Every part that is written is stable. -/
  parts : ∀ f ∈ r.fields, f.omits (f.get a) = false → f.codec.Stable d (f.get a)
  /-- The kept members have distinct names. -/
  distinct : ∀ k ∈ r.rest, (k.kept a).Distinct
  /-- No kept member is a field. -/
  notMem : ∀ k ∈ r.rest, ∀ entry ∈ (k.kept a).entries, entry.1 ∉ r.names
  /-- The kept members are values that a text can hold. -/
  sound : ∀ k ∈ r.rest, ∀ entry ∈ (k.kept a).entries, entry.2.Sound ∧ entry.2.depth ≤ d

/-- The names of the members of a settled record are distinct. -/
theorem Settled.nodup_members {r : Record α} (hr : r.Lawful) {d : Nat} {a : α} (h : r.Settled d a) :
    ((r.members a).map (·.1)).Nodup := by
  have hsub := map_fst_written_sublist r a
  rw [members_eq, List.map_append, List.nodup_append]
  refine ⟨hsub.nodup hr.names, ?_, fun name hname other hother => ?_⟩
  · cases hk : r.rest with
    | none => simp [keptEntries, hk]
    | some k =>
        rw [keptEntries_eq hk]
        exact h.distinct k hk
  · obtain ⟨entry, hentry, rfl⟩ := List.mem_map.mp hother
    obtain ⟨k, hk, hentry⟩ := exists_of_mem_keptEntries hentry
    rintro rfl
    exact h.notMem k hk entry hentry (hsub.subset hname)

/-- What is written under the name of a field of a record that keeps no field as unknown. -/
theorem Lawful.findEntry_members {r : Record α} (hr : r.Lawful) {a : α}
    (h : ∀ k ∈ r.rest, ∀ entry ∈ (k.kept a).entries, entry.1 ∉ r.names) {f : Field α}
    (hf : f ∈ r.fields) : OrderedMap.findEntry f.name (r.members a) = f.write a := by
  have hkept : OrderedMap.findEntry f.name (r.keptEntries a) = none := by
    rw [OrderedMap.findEntry_eq_none_iff]
    intro hin
    obtain ⟨entry, hentry, hname⟩ := List.mem_map.mp hin
    obtain ⟨k, hk, hentry⟩ := exists_of_mem_keptEntries hentry
    exact h k hk entry hentry (hname ▸ name_mem_names hf)
  rw [members_eq, OrderedMap.findEntry_append, hr.findEntry_written a hf, hkept, Option.or_none]

/-- What is written under the name of a field of a settled record. -/
theorem Settled.findEntry_members {r : Record α} (hr : r.Lawful) {d : Nat} {a : α}
    (h : r.Settled d a) {f : Field α} (hf : f ∈ r.fields) :
    OrderedMap.findEntry f.name (r.members a) = f.write a :=
  hr.findEntry_members h.notMem hf

/-- What is written under a name that is no field is what is kept under it. -/
theorem findEntry_members_of_notMem {r : Record α} {a : α} {name : String} (h : name ∉ r.names) :
    OrderedMap.findEntry name (r.members a) = OrderedMap.findEntry name (r.keptEntries a) := by
  have hwritten : OrderedMap.findEntry name (r.written a) = none := by
    rw [OrderedMap.findEntry_eq_none_iff]
    exact fun hin => h ((map_fst_written_sublist r a).subset hin)
  rw [members_eq, OrderedMap.findEntry_append, hwritten, Option.none_or]

/-- A record that keeps unknown members is written with what it was read from under a name that
is no field. -/
theorem Fits.findEntry_members {r : Record α} {m : Mode} {entries : List (String × Json)} {a : α}
    (ha : r.Fits m entries a) {k : Rest α} (hk : k ∈ r.rest) {name : String} (h : name ∉ r.names) :
    OrderedMap.findEntry name (r.members a) = OrderedMap.findEntry name entries := by
  have hfilter :=
    OrderedMap.findEntry_filter (fun name : String => decide (name ∉ r.names)) name entries
  rw [findEntry_members_of_notMem h, keptEntries_eq hk, ha.kept k hk, hfilter, if_pos]
  simpa using h

/-- The members of a settled record that are no fields are the kept ones. -/
theorem filter_members {r : Record α} {a : α}
    (h : ∀ k ∈ r.rest, ∀ entry ∈ (k.kept a).entries, entry.1 ∉ r.names) :
    (r.members a).filter (fun entry => entry.1 ∉ r.names) = r.keptEntries a := by
  have hwritten : (r.written a).filter (fun entry => entry.1 ∉ r.names) = [] := by
    refine List.filter_eq_nil_iff.mpr fun entry hentry => ?_
    have hname := (map_fst_written_sublist r a).subset (List.mem_map_of_mem hentry)
    simpa using hname
  have hkept : (r.keptEntries a).filter (fun entry => entry.1 ∉ r.names) = r.keptEntries a := by
    refine List.filter_eq_self.mpr fun entry hentry => ?_
    obtain ⟨k, hk, hentry⟩ := exists_of_mem_keptEntries hentry
    simpa using h k hk entry hentry
  rw [members_eq, List.filter_append, hwritten, hkept, List.nil_append]

/-- What is written of a settled record is a value that a text can hold. -/
theorem Settled.sound_write {r : Record α} (hr : r.Lawful) {d : Nat} {a : α} (h : r.Settled d a) :
    (r.write a).Sound ∧ (r.write a).depth ≤ d + 1 := by
  have hmembers : ∀ entry ∈ r.members a, entry.2.Sound ∧ entry.2.depth ≤ d := by
    intro entry hentry
    rw [members_eq, List.mem_append] at hentry
    rcases hentry with hentry | hentry
    · obtain ⟨f, hf, homits, rfl⟩ := mem_written_iff.mp hentry
      have hs := h.parts f hf homits
      exact ⟨hs.sound, hs.depth_le⟩
    · obtain ⟨k, hk, hentry⟩ := exists_of_mem_keptEntries hentry
      exact h.sound k hk entry hentry
  exact ⟨.object (h.nodup_members hr) fun entry hentry => (hmembers entry hentry).1,
    Json.depth_object_le_iff.mpr ⟨Nat.le_add_left 1 d, fun entry hentry =>
      Nat.succ_le_succ (hmembers entry hentry).2⟩⟩

/-- A settled record fits what is written of it. -/
theorem Settled.fits {r : Record α} (hr : r.Lawful) {d : Nat} {a : α} (h : r.Settled d a) :
    r.Fits .value (r.members a) a where
  given f hf v hv := by
    rw [h.findEntry_members hr hf] at hv
    obtain ⟨homits, rfl⟩ := write_eq_some_iff.mp hv
    exact (h.parts f hf homits).reread
  absent f hf hnot := by
    rw [← OrderedMap.findEntry_eq_none_iff, h.findEntry_members hr hf] at hnot
    cases homits : f.omits (f.get a) with
    | true =>
        obtain ⟨hneed, hget⟩ := hr.omits f hf _ homits
        exact ⟨hneed, hget.symm⟩
    | false =>
        rw [write_eq_some_iff.mpr ⟨homits, rfl⟩] at hnot
        exact nomatch hnot
  kept k hk := by
    rw [filter_members h.notMem, keptEntries_eq hk]

/-- A record is stable exactly when its parts are, one level deeper, and what is kept is free of
the names of fields. -/
theorem stable_iff {r : Record α} (hr : r.Lawful) {d : Nat} {a : α} :
    r.codec.Stable (d + 1) a ↔ r.Settled d a := by
  constructor
  · rintro ⟨hs, hdepth, hread⟩
    obtain ⟨hd, hentries⟩ := Json.sound_object_iff.mp hs
    have hdepths := (Json.depth_object_le_iff.mp hdepth).2
    have hmembers : ∀ entry ∈ r.members a, entry.2.Sound ∧ entry.2.depth ≤ d :=
      fun entry hentry => ⟨hentries entry hentry, Nat.le_of_succ_le_succ (hdepths entry hentry)⟩
    have hfits : r.Fits .value (r.members a) a := (ofJson_object_iff hr hs).mp hread
    have hkept : ∀ k ∈ r.rest, ∀ entry ∈ (k.kept a).entries,
        entry.1 ∉ r.names ∧ entry ∈ r.members a := by
      intro k hk entry hentry
      rw [hfits.kept k hk, List.mem_filter] at hentry
      exact ⟨by simpa using hentry.2, hentry.1⟩
    refine ⟨fun f hf homits => ?_, fun k hk => ?_,
      fun k hk entry hentry => (hkept k hk entry hentry).1,
      fun k hk entry hentry => hmembers entry (hkept k hk entry hentry).2⟩
    · have hfind : OrderedMap.findEntry f.name (r.members a) = some (f.codec.write (f.get a)) := by
        rw [members_eq, OrderedMap.findEntry_append, hr.findEntry_written a hf,
          write_eq_some_iff.mpr ⟨homits, rfl⟩, Option.some_or]
      obtain ⟨hsound, hle⟩ := hmembers _ (OrderedMap.mem_of_findEntry hfind)
      exact ⟨hsound, hle, hfits.given f hf _ hfind⟩
    · rw [OrderedMap.Distinct, OrderedMap.keys, hfits.kept k hk]
      exact (List.filter_sublist.map _).nodup hd
  · intro h
    obtain ⟨hs, hdepth⟩ := h.sound_write hr
    exact ⟨hs, hdepth, (ofJson_object_iff hr hs).mpr (h.fits hr)⟩

/-- A record is stable if its parts are and nothing is kept. -/
theorem stable_of_kept_eq_empty {r : Record α} (hr : r.Lawful) {d : Nat} {a : α}
    (hkept : ∀ k ∈ r.rest, k.kept a = .empty)
    (parts : ∀ f ∈ r.fields, f.omits (f.get a) = false → f.codec.Stable d (f.get a)) :
    r.codec.Stable (d + 1) a := by
  have hnone : ∀ k ∈ r.rest, ∀ entry, entry ∉ (k.kept a).entries := by
    intro k hk entry hentry
    rw [hkept k hk] at hentry
    exact nomatch hentry
  refine (stable_iff hr).mpr ⟨parts, fun k hk => ?_, fun k hk entry hentry => ?_,
    fun k hk entry hentry => ?_⟩
  · rw [hkept k hk]
    exact OrderedMap.distinct_empty
  · exact absurd hentry (hnone k hk entry)
  · exact absurd hentry (hnone k hk entry)

/-- A record that keeps nothing is stable if its parts are. -/
theorem stable_of_rest_eq_none {r : Record α} (hr : r.Lawful) (hrest : r.rest = none) {d : Nat}
    {a : α} (parts : ∀ f ∈ r.fields, f.omits (f.get a) = false → f.codec.Stable d (f.get a)) :
    r.codec.Stable (d + 1) a :=
  stable_of_kept_eq_empty hr (fun _ hk => nomatch hrest ▸ hk) parts

/-! ### Regular records -/

/-- The positions of a list are read alike in two modes if the items are. -/
theorem readPositions_iff {r : Record α} {m m' : Mode} {fields : List (Field α)} {items : List Node}
    (h : ∀ f ∈ fields, ∀ item ∈ items, ∀ x,
      f.codec.read m item = .ok x ↔ f.codec.read m' item = .ok x) {index : Nat} {a b : α} :
    r.readPositions m .closed fields items index a = .ok b ↔
      r.readPositions m' .closed fields items index a = .ok b := by
  induction fields generalizing items index a with
  | nil =>
      have hsurplus : ∀ m, r.checkSurplus m items .closed = .ok () ↔ items = [] := by
        intro m
        cases items with
        | nil => simp [checkSurplus]
        | cons item items => cases m <;> simp [checkSurplus]
      simp only [readPositions, bind_eq_ok, hsurplus]
  | cons f fields ih =>
      cases items with
      | nil =>
          simp only [readPositions, pass_closed, ok_bind]
          split
          · exact ih (by simp)
          · simp
      | cons item items =>
          have hrest := fun g hg other hother =>
            h g (List.mem_cons_of_mem f hg) other (List.mem_cons_of_mem item hother)
          simp only [readPositions, Field.read, bind_eq_ok, pure_eq_ok, Except.ok.injEq, ih hrest,
            h f List.mem_cons_self item List.mem_cons_self]

/-- What a record type needs for its codec to be regular: fields that are, and a blank record
that is stable where it is written. -/
structure FieldsRegular (r : Record α) (K : Node → Prop) (slack : Nat) : Prop where
  /-- The codecs of the fields are regular. -/
  codec : ∀ f ∈ r.fields, f.codec.Regular K slack
  /-- A blank part that is written is stable. -/
  blank : ∀ f ∈ r.fields, f.omits (f.get r.blank) = false → f.codec.Stable slack (f.get r.blank)

variable {K K' : Node → Prop} {slack slack' : Nat}

/-- What is read as a record is settled. -/
theorem FieldsRegular.settled {r : Record α} (h : r.FieldsRegular K' slack) {m inner : Mode}
    {n : Node} {a : α} (hm : m.isYaml = false) (hn : n.IsJson)
    (hparts : ∀ part, part.IsPart n → K' part) (henter : m.enter = .ok inner)
    (ha : r.Origin inner n a) {d : Nat} (hbound : m.bound n ≤ d + 1) (hslack : slack ≤ d) :
    r.Settled d a where
  parts f hf homits := by
    rcases ha.parts f hf with hblank | ⟨part, hpart, hread⟩
    · rw [hblank] at homits ⊢
      exact (h.blank f hf homits).mono hslack
    · exact (h.codec f hf).stable_part hm hn henter hpart (hparts part hpart) hread hbound hslack
  distinct := ha.distinct
  notMem k hk entry hentry := (ha.kept k hk entry hentry).1
  sound k hk entry hentry := by
    obtain ⟨-, part, hpart, hread⟩ := ha.kept k hk entry hentry
    have hpartBound := Mode.bound_enter hm henter hpart
    obtain ⟨hs, hdepth⟩ := Json.sound_of_read (hpart.isJson hn) (Mode.isYaml_enter hm henter) hread
    exact ⟨hs, by omega⟩

/-- The codec of a record type is regular if its fields are. -/
theorem regular {r : Record α} (hr : r.Lawful) (h : r.FieldsRegular K' slack)
    (hK : Node.PartsIn K K') (hs : slack ≠ 0 → slack < slack') : r.codec.Regular K slack' where
  read_iff := by
    intro v m a hv hk hm
    show r.read m _ = _ ↔ r.read .value _ = _
    cases hv with
    | @object entries hd hentries =>
        obtain ⟨inner, henter, hholds⟩ := m.enter_object hm
        have hread : ∀ f ∈ r.fields, ∀ v, OrderedMap.findEntry f.name entries = some v → ∀ x,
            f.codec.read inner (.ofJson v) = .ok x ↔ f.codec.read .value (.ofJson v) = .ok x := by
          intro f hf v hv x
          have hentry := OrderedMap.mem_of_findEntry hv
          exact (h.codec f hf).read_iff (hentries _ hentry)
            (hK _ _ hk (Node.isPart_ofJson_object.mpr ⟨_, hentry, rfl⟩)) (hholds _ hentry)
        rw [read_object_iff hr hd (fun entry he => ⟨hentries entry he, hholds entry he⟩) henter]
        show r.Fits inner entries a ↔ r.codec.ofJson (.object entries) = .ok a
        rw [ofJson_object_iff hr (.object hd hentries)]
        constructor
        · intro ⟨hgiven, habsent, hkept⟩
          exact ⟨fun f hf v hv => (hread f hf v hv _).mp (hgiven f hf v hv), habsent, hkept⟩
        · intro ⟨hgiven, habsent, hkept⟩
          exact ⟨fun f hf v hv => (hread f hf v hv _).mpr (hgiven f hf v hv), habsent, hkept⟩
    | @array items hitems =>
        obtain ⟨inner, henter, hholds⟩ := m.enter_array hm
        have hread : ∀ f ∈ r.fields, ∀ item ∈ Node.ofJsonItems items, ∀ x,
            f.codec.read inner item = .ok x ↔ f.codec.read .value item = .ok x := by
          intro f hf item hitem x
          rw [Node.ofJsonItems_eq_map] at hitem
          obtain ⟨w, hw, rfl⟩ := List.mem_map.mp hitem
          exact (h.codec f hf).read_iff (hitems w hw)
            (hK _ _ hk (Node.isPart_ofJson_array.mpr ⟨w, hw, rfl⟩)) (hholds w hw)
        have hvalue : Mode.value.enter = .ok .value := rfl
        have hyaml : Mode.value.isYaml = false := rfl
        simp only [Node.ofJson, read, Mode.isYaml_of_holds hm, hyaml, Bool.not_false, Bool.and_true]
        split
        · simp only [readListed, henter, hvalue, ok_bind]
          exact readPositions_iff hread
        · simp
    | null | bool | number | string => simp [read, Node.ofJson]
  stable := by
    intro m n a hm hn hk hr'
    obtain ⟨hone, inner, henter, ha⟩ := read_inv hr hm hn hr'
    have hbound := Mode.one_le_bound hm henter hone
    obtain ⟨d, hd⟩ : ∃ d, max (m.bound n) slack' = d + 1 :=
      Nat.exists_eq_add_one_of_ne_zero (by omega)
    rw [hd, stable_iff hr]
    exact h.settled hm hn (fun part => hK n part hk) henter ha (by omega) (by omega)
  ne_null := by
    intro m n a _ _ _ _ h
    exact Json.noConfusion h

/-- A record type with fields that are regular on all trees is regular on every class. -/
theorem regular_of_true {r : Record α} (hr : r.Lawful)
    (h : r.FieldsRegular (fun _ => True) slack) (hs : slack ≠ 0 → slack < slack') :
    r.codec.Regular K slack' :=
  (regular hr h Node.partsIn_true hs).mono (fun _ _ => trivial) (Nat.le_refl _)

end Record

end ServiceDocs
