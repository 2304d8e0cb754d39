import Mathlib.Data.List.Forall2
import ServiceDocs.Proofs.Reading.Values
import ServiceDocs.Reading.Codec

/-!
# Laws of Codecs

Two things are wanted of a codec. The mode in which a value is read must not matter, as
long as there is room for it. And what is read must be stable: written and read again, it is
the same, and it lies no deeper than what it was read from, except for the containers that a
codec adds of its own, which `slack` counts.

`Codec.Regular` collects the two for the trees of a class. The class is a parameter
because some types are stable only when they are read from values without repeated keys,
and because the laws of a recursive type are proved for trees of growing depth.

## Main definitions

* `Codec.Stable`: a value that is read back from what is written of it, up to a depth.
* `Node.PartsIn`: a class of trees that holds the parts of the trees of another.
* `Codec.Regular`: the laws of a codec on a class of trees.

## Main results

* `Codec.list_stable_iff`, `Codec.map_stable_iff`, `Codec.option_stable_some_iff`: containers
  are stable exactly when their parts are.
* `Codec.string_regular`, `Codec.bool_regular`, `Codec.json_regular`, `Codec.choice_regular`:
  simple types.
* `Codec.Regular.list`, `Codec.Regular.map`, `Codec.Regular.option`: containers.
-/

namespace ServiceDocs

variable {α β : Type}

/-! ### The laws -/

/-- A value that is read back from what is written of it, which lies no deeper than `d`. -/
structure Codec.Stable (c : Codec α) (d : Nat) (a : α) : Prop where
  /-- What is written is a value that a text can hold. -/
  sound : (c.write a).Sound
  /-- It does not lie deeper than the given depth. -/
  depth_le : (c.write a).depth ≤ d
  /-- It is read back. -/
  reread : c.ofJson (c.write a) = .ok a

/-- A value that is stable up to a depth is stable up to a greater one. -/
theorem Codec.Stable.mono {c : Codec α} {d d' : Nat} {a : α} (h : c.Stable d a) (hd : d ≤ d') :
    c.Stable d' a :=
  ⟨h.sound, Nat.le_trans h.depth_le hd, h.reread⟩

/-- The parts of the trees of one class lie in another one. -/
def Node.PartsIn (K K' : Node → Prop) : Prop := ∀ n part, K n → part.IsPart n → K' part

/-- The laws of a codec on a class of trees. -/
structure Codec.Regular (c : Codec α) (K : Node → Prop) (slack : Nat) : Prop where
  /-- A value is read alike in every mode that has room for it. -/
  read_iff : ∀ {v : Json} {m : Mode} {a : α}, v.Sound → K (.ofJson v) → m.Holds v →
    (c.read m (.ofJson v) = .ok a ↔ c.ofJson v = .ok a)
  /-- What is read is stable, and no deeper than what it was read from. -/
  stable : ∀ {m : Mode} {n : Node} {a : α}, m.isYaml = false → n.IsJson → K n →
    c.read m n = .ok a → c.Stable (max (m.bound n) slack) a
  /-- Only a null is read as something that is written as null. -/
  ne_null : ∀ {m : Mode} {n : Node} {a : α}, m.isYaml = false → n.IsJson → n ≠ .null →
    c.read m n = .ok a → c.write a ≠ .null

/-- The laws hold on every smaller class and with more slack. -/
theorem Codec.Regular.mono {c : Codec α} {K K' : Node → Prop} {slack slack' : Nat}
    (h : c.Regular K slack) (hK : ∀ n, K' n → K n) (hs : slack ≤ slack') : c.Regular K' slack' where
  read_iff hv hk hm := h.read_iff hv (hK _ hk) hm
  stable hm hn hk hr := (h.stable hm hn (hK _ hk) hr).mono (by omega)
  ne_null := h.ne_null

/-- A codec that needs no slack may have any. -/
theorem Codec.Regular.slacken {c : Codec α} {K : Node → Prop} {slack : Nat} (h : c.Regular K 0) :
    c.Regular K slack :=
  h.mono (fun _ h => h) (Nat.zero_le slack)

/-- A stable value is read back in every mode that has room for it. -/
theorem Codec.Regular.reread {c : Codec α} {K : Node → Prop} {slack : Nat} (h : c.Regular K slack)
    {a : α} {d : Nat} (ha : c.Stable d a) (hk : K (.ofJson (c.write a))) {m : Mode}
    (hm : m.Holds (c.write a)) :
    c.read m (.ofJson (c.write a)) = .ok a :=
  (h.read_iff ha.sound hk hm).mpr ha.reread

/-- What is read from a value in memory is stable. -/
theorem Codec.Regular.stable_of_ofJson {c : Codec α} {K : Node → Prop} {slack : Nat}
    (h : c.Regular K slack) {v : Json} (hv : v.Sound) (hk : K (.ofJson v)) {a : α}
    (hr : c.ofJson v = .ok a) : c.Stable (max v.depth slack) a := by
  have hs : c.Stable (max (Node.ofJson v).depth slack) a :=
    h.stable rfl (Node.isJson_ofJson hv) hk hr
  rwa [Node.depth_ofJson] at hs

/-- The trees below a depth. -/
def Node.Below (d : Nat) (n : Node) : Prop := n.depth < d

/-- The trees of sound values. -/
def Node.Exact (n : Node) : Prop := ∃ v : Json, v.Sound ∧ n = .ofJson v

/-- All parts of any tree are in the class of all trees. -/
theorem Node.partsIn_true : Node.PartsIn (fun _ => True) fun _ => True :=
  fun _ _ _ _ => trivial

/-- The parts of a tree are less deep than the tree. -/
theorem Node.partsIn_below (d : Nat) : Node.PartsIn (Node.Below (d + 1)) (Node.Below d) :=
  fun _ _ h hpart => Nat.lt_of_succ_lt_succ (Nat.lt_of_le_of_lt hpart.depth_lt h)

/-- The parts of a tree are no deeper than the tree. -/
theorem Node.partsIn_below_self (d : Nat) : Node.PartsIn (Node.Below d) (Node.Below d) :=
  fun _ _ h hpart => Nat.lt_trans (Nat.lt_of_succ_le hpart.depth_lt) h

/-- A part of the tree of a list is the tree of an item. -/
theorem Node.isPart_ofJson_array {items : List Json} {part : Node} :
    part.IsPart (.ofJson (.array items)) ↔ ∃ item ∈ items, part = .ofJson item := by
  rw [ofJson, ofJsonItems_eq_map]
  show part ∈ items.map ofJson ↔ _
  simp only [List.mem_map, eq_comm]

/-- A part of the tree of an object is the tree of a member. -/
theorem Node.isPart_ofJson_object {fields : List (String × Json)} {part : Node} :
    part.IsPart (.ofJson (.object fields)) ↔ ∃ entry ∈ fields, part = .ofJson entry.2 := by
  rw [ofJson, ofJsonFields_eq_map]
  simp only [IsPart, List.mem_map, Prod.mk.injEq]
  constructor
  · rintro ⟨key, entry, hentry, -, rfl⟩
    exact ⟨entry, hentry, rfl⟩
  · rintro ⟨entry, hentry, rfl⟩
    exact ⟨_, entry, hentry, rfl, rfl⟩

/-- The parts of the tree of a sound value are trees of sound values. -/
theorem Node.partsIn_exact : Node.PartsIn Node.Exact Node.Exact := by
  rintro n part ⟨v, hv, rfl⟩ hpart
  cases hv with
  | array h =>
      obtain ⟨item, hitem, rfl⟩ := isPart_ofJson_array.mp hpart
      exact ⟨item, h item hitem, rfl⟩
  | object _ h =>
      obtain ⟨entry, hentry, rfl⟩ := isPart_ofJson_object.mp hpart
      exact ⟨entry.2, h entry hentry, rfl⟩
  | null | bool | number | string => exact hpart.elim

/-! ### Sound containers -/

/-- A text can hold a list if it can hold its items. -/
theorem Json.sound_array_iff {items : List Json} :
    (Json.array items).Sound ↔ ∀ item ∈ items, item.Sound :=
  ⟨fun h => by cases h; assumption, .array⟩

/-- A text can hold an object if it can hold its values and no name stands twice. -/
theorem Json.sound_object_iff {fields : List (String × Json)} :
    (Json.object fields).Sound ↔
      (fields.map (·.1)).Nodup ∧ ∀ entry ∈ fields, entry.2.Sound :=
  ⟨fun h => by cases h; exact ⟨by assumption, by assumption⟩, fun h => .object h.1 h.2⟩

/-- Two relations that agree on the items of a list agree on the list. -/
theorem forall₂_congr {R S : α → β → Prop} {as : List α} {bs : List β}
    (h : ∀ a ∈ as, ∀ b, R a b ↔ S a b) : List.Forall₂ R as bs ↔ List.Forall₂ S as bs := by
  induction as generalizing bs with
  | nil => simp
  | cons a as ih =>
      cases bs with
      | nil => simp
      | cons b bs =>
          rw [List.forall₂_cons, List.forall₂_cons, h a List.mem_cons_self b,
            ih fun a' ha' => h a' (List.mem_cons_of_mem _ ha')]

/-! ### Entries that are read one by one -/

namespace OrderedMap

/-- What is read of members one by one has their names. -/
theorem map_fst_of_forall₂ {c : Codec α} {fields : List (String × Json)}
    {entries : List (String × α)}
    (h : List.Forall₂ (fun field entry => field.1 = entry.1 ∧ c.ofJson field.2 = .ok entry.2)
      fields entries) :
    entries.map (·.1) = fields.map (·.1) := by
  induction h with
  | nil => rfl
  | cons hhead _ ih => rw [List.map_cons, List.map_cons, hhead.1, ih]

/-- What is found in a list of values and in the list of what is read from them. -/
theorem findEntry_of_forall₂ {c : Codec α} {fields : List (String × Json)}
    {entries : List (String × α)}
    (h : List.Forall₂ (fun field entry => field.1 = entry.1 ∧ c.ofJson field.2 = .ok entry.2)
      fields entries) (key : String) :
    (∀ v, findEntry key fields = some v →
        ∃ a, c.ofJson v = .ok a ∧ findEntry key entries = some a) ∧
      (findEntry key fields = none → findEntry key entries = none) := by
  induction h with
  | nil => exact ⟨fun v hv => absurd hv (Option.some_ne_none v).symm, fun _ => rfl⟩
  | @cons field entry fields entries hhead _ ih =>
      obtain ⟨hname, hread⟩ := hhead
      rw [findEntry, findEntry, ← hname]
      by_cases hkey : field.1 = key
      · simp only [hkey, if_true]
        exact ⟨fun v hv => ⟨entry.2, Option.some.inj hv ▸ hread, rfl⟩,
          fun hv => absurd hv (Option.some_ne_none _)⟩
      · simp only [hkey, if_false]
        exact ih

end OrderedMap

/-! ### Simple types -/

namespace Codec

variable {K K' : Node → Prop}

/-- Every text is stable. -/
theorem string_stable (d : Nat) (a : String) : string.Stable d a := ⟨.string a, Nat.zero_le d, rfl⟩

/-- Every flag is stable. -/
theorem bool_stable (d : Nat) (a : Bool) : bool.Stable d a := ⟨.bool a, Nat.zero_le d, rfl⟩

/-- The codec of texts is regular. -/
theorem string_regular (K : Node → Prop) : string.Regular K 0 where
  read_iff := by
    intro v m a hv _ _
    cases hv <;> rfl
  stable _ _ _ _ := string_stable _ _
  ne_null := by
    intro m n a _ _ _ _ h
    exact Json.noConfusion h

/-- The codec of flags is regular. -/
theorem bool_regular (K : Node → Prop) : bool.Regular K 0 where
  read_iff := by
    intro v m a hv _ _
    cases hv <;> rfl
  stable _ _ _ _ := bool_stable _ _
  ne_null := by
    intro m n a _ _ _ _ h
    exact Json.noConfusion h

/-- A value is stable for the codec that takes it as it is if a text can hold it. -/
theorem json_stable_iff {d : Nat} {v : Json} : json.Stable d v ↔ v.Sound ∧ v.depth ≤ d :=
  ⟨fun h => ⟨h.sound, h.depth_le⟩, fun h => ⟨h.1, h.2, Json.read_ofJson h.1 trivial⟩⟩

/-- The codec that takes a value as it is is regular. -/
theorem json_regular (K : Node → Prop) : json.Regular K 0 where
  read_iff hv _ hm := by
    show Json.read _ _ = _ ↔ Json.read _ _ = _
    rw [Json.read_ofJson hv hm, Json.read_ofJson (m := .value) hv trivial]
  stable hm hn _ h := by
    obtain ⟨hs, hd⟩ := Json.sound_of_read hn hm h
    exact json_stable_iff.mpr ⟨hs, Nat.le_trans hd (Nat.le_max_left _ _)⟩
  ne_null := by
    intro m n a hm hn hne h hnull
    obtain rfl : a = .null := hnull
    cases hn with
    | null => exact hne rfl
    | number hn =>
        simp only [json, Json.read_number m hn, Except.ok.injEq] at h
        exact Json.noConfusion h
    | bool | string | misplaced | defect => simp [json, Json.read] at h
    | array | object =>
        simp only [json, Json.read, bind_eq_ok, pure_eq_ok, Except.ok.injEq] at h
        obtain ⟨_, _, _, _, _, _, h⟩ := h
        exact Json.noConfusion h

/-! ### Lists -/

/-- The items of a list are read one by one. -/
theorem readItems_ofJson_iff {read : Node → Except Fault α} {items : List Json} {values : List α} :
    readItems read (Node.ofJsonItems items) = .ok values ↔
      List.Forall₂ (fun item value => read (.ofJson item) = .ok value) items values := by
  induction items generalizing values with
  | nil =>
      rw [Node.ofJsonItems, readItems, Except.ok.injEq, List.forall₂_nil_left_iff]
      exact eq_comm
  | cons item rest ih =>
      simp only [Node.ofJsonItems, readItems, bind_eq_ok, pure_eq_ok, Except.ok.injEq, ih]
      rw [List.forall₂_cons_left_iff]
      constructor
      · rintro ⟨value, hvalue, values, hvalues, rfl⟩
        exact ⟨value, values, hvalue, hvalues, rfl⟩
      · rintro ⟨value, values, hvalue, hvalues, rfl⟩
        exact ⟨value, hvalue, values, hvalues, rfl⟩

/-- A list is read item by item. -/
theorem list_read_iff {c : Codec α} {m inner : Mode} {items : List Json} {values : List α}
    (h : m.enter = .ok inner) :
    (list c).read m (.ofJson (.array items)) = .ok values ↔
      List.Forall₂ (fun item value => c.read inner (.ofJson item) = .ok value) items values := by
  rw [← readItems_ofJson_iff]
  simp only [Node.ofJson, list, readList, h, ok_bind, bind_eq_ok, pass_closed, pure_eq_ok,
    Except.ok.injEq, exists_eq_right]

/-- A list is stable exactly when its items are, one level deeper. -/
theorem list_stable_iff {c : Codec α} {d : Nat} {values : List α} :
    (list c).Stable (d + 1) values ↔ ∀ value ∈ values, c.Stable d value := by
  have hread : (list c).ofJson ((list c).write values) = .ok values ↔
      ∀ value ∈ values, c.ofJson (c.write value) = .ok value := by
    show (list c).read .value (.ofJson (.array (values.map c.write))) = .ok values ↔ _
    rw [list_read_iff rfl, List.forall₂_map_left_iff, List.forall₂_same]
    rfl
  have hsound : ((list c).write values).Sound ↔ ∀ value ∈ values, (c.write value).Sound := by
    rw [list, Json.sound_array_iff, List.forall_mem_map]
  have hdepth :
      ((list c).write values).depth ≤ d + 1 ↔ ∀ value ∈ values, (c.write value).depth ≤ d := by
    rw [list, Json.depth_array_le_iff, List.forall_mem_map]
    simp
  constructor
  · rintro ⟨hs, hd, hr⟩ value hvalue
    exact ⟨hsound.mp hs value hvalue, hdepth.mp hd value hvalue, hread.mp hr value hvalue⟩
  · intro h
    exact ⟨hsound.mpr fun value hvalue => (h value hvalue).sound,
      hdepth.mpr fun value hvalue => (h value hvalue).depth_le,
      hread.mpr fun value hvalue => (h value hvalue).reread⟩

/-- Every item that is read stems from an item of the tree. -/
theorem exists_of_mem_readItems {read : Node → Except Fault α} {items : List Node}
    {values : List α} (h : readItems read items = .ok values) {value : α}
    (hvalue : value ∈ values) :
    ∃ item ∈ items, read item = .ok value := by
  induction items generalizing values with
  | nil =>
      rw [readItems, Except.ok.injEq] at h
      simp [← h] at hvalue
  | cons item rest ih =>
      simp only [readItems, bind_eq_ok, pure_eq_ok, Except.ok.injEq] at h
      obtain ⟨first, hfirst, others, hothers, rfl⟩ := h
      rcases List.mem_cons.mp hvalue with rfl | hvalue
      · exact ⟨item, List.mem_cons_self, hfirst⟩
      · obtain ⟨other, hother, hr⟩ := ih hothers hvalue
        exact ⟨other, List.mem_cons_of_mem _ hother, hr⟩

/-- Only a list is read as a list. -/
theorem list_read_inv {c : Codec α} {m : Mode} {n : Node} {values : List α} (hn : n.IsJson)
    (h : (list c).read m n = .ok values) :
    ∃ items close inner, n = .array items close ∧ m.enter = .ok inner ∧
      readItems (c.read inner) items = .ok values := by
  cases hn with
  | @array items close hitems =>
      simp only [list, readList, bind_eq_ok, pure_eq_ok, Except.ok.injEq] at h
      obtain ⟨inner, henter, values', hvalues, -, -, rfl⟩ := h
      exact ⟨items, close, inner, rfl, henter, hvalues⟩
  | null | bool | number | string | object | misplaced | defect => simp [list, readList] at h

/-- What is read from a part of a tree is stable, and no deeper than the tree has room for. -/
theorem Regular.stable_part {c : Codec α} {slack : Nat} (h : c.Regular K' slack) {m inner : Mode}
    {n part : Node} {a : α} (hm : m.isYaml = false) (hn : n.IsJson) (henter : m.enter = .ok inner)
    (hpart : part.IsPart n) (hk : K' part) (hread : c.read inner part = .ok a) {d : Nat}
    (hbound : m.bound n ≤ d + 1) (hslack : slack ≤ d) : c.Stable d a := by
  have hroom := Mode.bound_enter hm henter hpart
  exact (h.stable (Mode.isYaml_enter hm henter) (hpart.isJson hn) hk hread).mono (by omega)

/-- A list codec is regular if its item codec is. -/
theorem Regular.list {c : Codec α} {slack slack' : Nat} (h : c.Regular K' slack)
    (hK : Node.PartsIn K K') (hs : slack ≠ 0 → slack < slack') : (list c).Regular K slack' where
  read_iff := by
    intro v m a hv hk hm
    cases hv with
    | @array items hitems =>
        obtain ⟨inner, henter, hinner⟩ := m.enter_array hm
        rw [ofJson, Reader.ofJson, list_read_iff henter, list_read_iff rfl]
        refine forall₂_congr fun item hitem b =>
          h.read_iff (hitems item hitem) ?_ (hinner item hitem)
        exact hK _ _ hk (Node.isPart_ofJson_array.mpr ⟨item, hitem, rfl⟩)
    | null | bool | number | string | object =>
      simp [ofJson, Reader.ofJson, Codec.list, readList, Node.ofJson]
  stable := by
    intro m n a hm hn hk hr
    obtain ⟨items, close, inner, rfl, henter, hitems⟩ := list_read_inv hn hr
    have hone := Mode.one_le_bound hm henter (Node.one_le_depth_array items close)
    obtain ⟨d, hd⟩ : ∃ d, max (m.bound (.array items close)) slack' = d + 1 :=
      Nat.exists_eq_add_one_of_ne_zero (by omega)
    rw [hd]
    refine list_stable_iff.mpr fun value hvalue => ?_
    obtain ⟨item, hitem, hread⟩ := exists_of_mem_readItems hitems hvalue
    have hpart : item.IsPart (.array items close) := hitem
    exact h.stable_part hm hn henter hpart (hK _ _ hk hpart) hread (by omega) (by omega)
  ne_null := by
    intro m n a _ _ _ _ h
    exact Json.noConfusion h

/-! ### Maps -/

/-- The members of an object are read one after the other. -/
theorem readMembers_ofJson_iff {m : Mode} {read : Node → Except Fault α}
    {fields : List (String × Json)} (entries : List (String × α)) {result : List (String × α)}
    (hd : (entries.map (·.1) ++ fields.map (·.1)).Nodup) :
    readMembers (readKey m) read (Node.ofJsonFields fields) entries = .ok result ↔
      ∃ tail, result = entries ++ tail ∧
        List.Forall₂ (fun field entry => field.1 = entry.1 ∧ read (.ofJson field.2) = .ok entry.2)
          fields tail := by
  induction fields generalizing entries with
  | nil =>
      rw [Node.ofJsonFields, readMembers, Except.ok.injEq]
      simp only [List.forall₂_nil_left_iff, exists_eq_right, List.append_nil]
      exact eq_comm
  | cons field rest ih =>
      obtain ⟨name, v⟩ := field
      have hnew : name ∉ entries.map (·.1) := fun hk =>
        (List.nodup_append.mp hd).2.2 name hk name List.mem_cons_self rfl
      have hd' : ∀ value : α, ((entries ++ [(name, value)]).map (·.1) ++ rest.map (·.1)).Nodup := by
        intro value
        simpa using hd
      simp only [Node.ofJsonFields, readMembers, readKey_string, ok_bind, bind_eq_ok]
      constructor
      · rintro ⟨value, hvalue, hrest⟩
        rw [OrderedMap.insertEntry_of_notMem hnew, ih _ (hd' value)] at hrest
        obtain ⟨tail, rfl, htail⟩ := hrest
        exact ⟨(name, value) :: tail, by simp, .cons ⟨rfl, hvalue⟩ htail⟩
      · rintro ⟨all, rfl, hall⟩
        obtain ⟨entry, tail, ⟨hname, hvalue⟩, htail, rfl⟩ := List.forall₂_cons_left_iff.mp hall
        refine ⟨entry.2, hvalue, ?_⟩
        rw [OrderedMap.insertEntry_of_notMem hnew, ih _ (hd' entry.2)]
        refine ⟨tail, ?_, htail⟩
        simp only [List.append_assoc, List.singleton_append]
        rw [show (name, entry.2) = entry from Prod.ext hname rfl]

/-- A map is read member by member. -/
theorem map_read_iff {c : Codec α} {m inner : Mode} {fields : List (String × Json)}
    {result : OrderedMap α} (h : m.enter = .ok inner) (hd : (fields.map (·.1)).Nodup) :
    (map c).read m (.ofJson (.object fields)) = .ok result ↔
      List.Forall₂ (fun field entry => field.1 = entry.1 ∧
        c.read inner (.ofJson field.2) = .ok entry.2) fields result.entries := by
  simp only [map, Reader.map, map_eq_ok, Node.ofJson, readEntries, h, ok_bind, bind_eq_ok,
    pass_closed, pure_eq_ok, Except.ok.injEq, exists_eq_right]
  constructor
  · rintro ⟨entries, hentries, rfl⟩
    obtain ⟨tail, rfl, htail⟩ := (readMembers_ofJson_iff [] hd).mp hentries
    exact htail
  · intro hall
    exact ⟨result.entries, (readMembers_ofJson_iff [] hd).mpr ⟨_, rfl, hall⟩, rfl⟩

/-- A map that is read from an object without a key that stands twice has no such key. -/
theorem distinct_of_map_read {c : Codec α} {v : Json} {result : OrderedMap α} (hv : v.Sound)
    (h : (map c).ofJson v = .ok result) : result.Distinct := by
  cases hv with
  | @object fields hd _ =>
      have hkeys : result.keys = fields.map Prod.fst :=
        OrderedMap.map_fst_of_forall₂ ((map_read_iff rfl hd).mp h)
      rw [OrderedMap.Distinct, hkeys]
      exact hd
  | null | bool | number | string | array => cases h

/-- A map is stable exactly when no key stands in it twice and its values are stable, one level
deeper. -/
theorem map_stable_iff {c : Codec α} {d : Nat} {values : OrderedMap α} :
    (map c).Stable (d + 1) values ↔
      values.Distinct ∧ ∀ entry ∈ values.entries, c.Stable d entry.2 := by
  have hkeys : (values.mapValues c.write).entries.map (·.1) = values.keys :=
    OrderedMap.keys_mapValues c.write values
  have hread (hd : values.Distinct) : (map c).ofJson ((map c).write values) = .ok values ↔
      ∀ entry ∈ values.entries, c.ofJson (c.write entry.2) = .ok entry.2 := by
    show (map c).read .value (.ofJson (.object (values.mapValues c.write).entries)) = .ok values ↔ _
    rw [map_read_iff rfl (hkeys ▸ hd), OrderedMap.mapValues, List.forall₂_map_left_iff,
      List.forall₂_same]
    exact ⟨fun h entry hentry => (h entry hentry).2, fun h entry hentry => ⟨rfl, h entry hentry⟩⟩
  have hsound : ((map c).write values).Sound ↔
      values.Distinct ∧ ∀ entry ∈ values.entries, (c.write entry.2).Sound := by
    show (Json.object (values.mapValues c.write).entries).Sound ↔ _
    rw [Json.sound_object_iff, hkeys, OrderedMap.mapValues, List.forall_mem_map]
    rfl
  have hdepth : ((map c).write values).depth ≤ d + 1 ↔
      ∀ entry ∈ values.entries, (c.write entry.2).depth ≤ d := by
    show (Json.object (values.mapValues c.write).entries).depth ≤ d + 1 ↔ _
    rw [Json.depth_object_le_iff, OrderedMap.mapValues, List.forall_mem_map]
    simp
  constructor
  · rintro ⟨hs, hd, hr⟩
    obtain ⟨hdistinct, hs⟩ := hsound.mp hs
    exact ⟨hdistinct, fun entry hentry =>
      ⟨hs entry hentry, hdepth.mp hd entry hentry, (hread hdistinct).mp hr entry hentry⟩⟩
  · rintro ⟨hdistinct, h⟩
    exact ⟨hsound.mpr ⟨hdistinct, fun entry hentry => (h entry hentry).sound⟩,
      hdepth.mpr fun entry hentry => (h entry hentry).depth_le,
      (hread hdistinct).mpr fun entry hentry => (h entry hentry).reread⟩

/-- The map without entries is stable. -/
theorem map_stable_empty (c : Codec α) (d : Nat) : (map c).Stable (d + 1) .empty :=
  map_stable_iff.mpr ⟨OrderedMap.distinct_empty, fun _ h => nomatch h⟩

/-- Every entry that is read was there or stems from a member of the tree. -/
theorem exists_of_mem_readMembers {key : Node → Except Fault String}
    {read : Node → Except Fault α} {fields : List (Node × Node)}
    {entries result : List (String × α)}
    (h : readMembers key read fields entries = .ok result) {entry : String × α}
    (hentry : entry ∈ result) :
    entry ∈ entries ∨ ∃ field ∈ fields, read field.2 = .ok entry.2 := by
  induction fields generalizing entries with
  | nil =>
      rw [readMembers, Except.ok.injEq] at h
      exact .inl (h ▸ hentry)
  | cons field rest ih =>
      obtain ⟨k, n⟩ := field
      simp only [readMembers, bind_eq_ok] at h
      obtain ⟨name, -, value, hvalue, hrest⟩ := h
      rcases ih hrest with hin | ⟨other, hother, hr⟩
      · rcases OrderedMap.mem_insertEntry hin with rfl | hin
        · exact .inr ⟨(k, n), List.mem_cons_self, hvalue⟩
        · exact .inl hin
      · exact .inr ⟨other, List.mem_cons_of_mem _ hother, hr⟩

/-- The entries that are read have distinct keys. -/
theorem nodup_of_readMembers {key : Node → Except Fault String}
    {read : Node → Except Fault α} {fields : List (Node × Node)}
    {entries result : List (String × α)}
    (h : readMembers key read fields entries = .ok result) (hd : (entries.map (·.1)).Nodup) :
    (result.map (·.1)).Nodup := by
  induction fields generalizing entries with
  | nil =>
      rw [readMembers, Except.ok.injEq] at h
      exact h ▸ hd
  | cons field rest ih =>
      obtain ⟨k, n⟩ := field
      simp only [readMembers, bind_eq_ok] at h
      obtain ⟨name, -, value, -, hrest⟩ := h
      exact ih hrest (OrderedMap.nodup_insertEntry hd)

/-- Only an object is read as a map. -/
theorem map_read_inv {c : Codec α} {m : Mode} {n : Node} {values : OrderedMap α} (hn : n.IsJson)
    (h : (map c).read m n = .ok values) :
    ∃ fields close inner, n = .object fields close ∧ m.enter = .ok inner ∧
      readMembers (readKey inner) (c.read inner) fields [] = .ok values.entries := by
  cases hn with
  | @object fields close =>
      simp only [map, Reader.map, map_eq_ok, readEntries, bind_eq_ok, pure_eq_ok,
        Except.ok.injEq] at h
      obtain ⟨_, ⟨inner, henter, entries, hentries, -, -, rfl⟩, rfl⟩ := h
      exact ⟨fields, close, inner, rfl, henter, hentries⟩
  | null | bool | number | string | array | misplaced | defect =>
      simp [map, Reader.map, map_eq_ok, readEntries] at h

/-- A map codec is regular if the codec of its values is. -/
theorem Regular.map {c : Codec α} {slack slack' : Nat} (h : c.Regular K' slack)
    (hK : Node.PartsIn K K') (hs : slack ≠ 0 → slack < slack') : (map c).Regular K slack' where
  read_iff := by
    intro v m a hv hk hm
    cases hv with
    | @object fields hd hfields =>
        obtain ⟨inner, henter, hinner⟩ := m.enter_object hm
        rw [ofJson, Reader.ofJson, map_read_iff henter hd, map_read_iff rfl hd]
        refine forall₂_congr fun field hfield entry => and_congr_right fun _ =>
          h.read_iff (hfields field hfield) ?_ (hinner field hfield)
        exact hK _ _ hk (Node.isPart_ofJson_object.mpr ⟨field, hfield, rfl⟩)
    | null | bool | number | string | array =>
        simp [ofJson, Reader.ofJson, Codec.map, Reader.map, map_eq_ok, readEntries, Node.ofJson]
  stable := by
    intro m n a hm hn hk hr
    obtain ⟨fields, close, inner, rfl, henter, hentries⟩ := map_read_inv hn hr
    have hone := Mode.one_le_bound hm henter (Node.one_le_depth_object fields close)
    obtain ⟨d, hd⟩ : ∃ d, max (m.bound (.object fields close)) slack' = d + 1 :=
      Nat.exists_eq_add_one_of_ne_zero (by omega)
    rw [hd]
    refine map_stable_iff.mpr ⟨nodup_of_readMembers hentries List.nodup_nil, ?_⟩
    intro entry hentry
    rcases exists_of_mem_readMembers hentries hentry with hin | ⟨field, hfield, hread⟩
    · simp at hin
    · have hpart : field.2.IsPart (.object fields close) := ⟨field.1, hfield⟩
      exact h.stable_part hm hn henter hpart (hK _ _ hk hpart) hread (by omega) (by omega)
  ne_null := by
    intro m n a _ _ _ _ h
    exact Json.noConfusion h

/-- A map of values of any kind is written as an object. -/
theorem jsonMap_write (values : OrderedMap Json) : (map json).write values = .ofMap values := by
  have hentries :
      values.entries.map (fun entry => (entry.1, json.write entry.2)) = values.entries :=
    List.map_id _
  exact congrArg Json.object hentries

/-- A map of values of any kind is stable exactly when it is the map of a sound object. -/
theorem jsonMap_stable_iff {d : Nat} {values : OrderedMap Json} :
    (map json).Stable (d + 1) values ↔
      (Json.ofMap values).Sound ∧ (Json.ofMap values).depth ≤ d + 1 := by
  rw [map_stable_iff, Json.ofMap, Json.sound_object_iff, Json.depth_object_le_iff]
  simp only [json_stable_iff, Nat.le_add_left, Nat.add_le_add_iff_right, true_and, and_assoc,
    forall_and]
  rfl

/-- The codec of maps of values of any kind is regular. -/
theorem jsonMap_regular (K : Node → Prop) : (map json).Regular K 0 :=
  ((json_regular _).map Node.partsIn_true fun h => absurd rfl h).mono (fun _ _ => trivial)
    (Nat.le_refl 0)

/-- Members are read into a map one by one, be it a map of any values or the members of a value. -/
theorem readMembers_eq_readFields (m : Mode) (fields : List (Node × Node))
    (read : OrderedMap Json) :
    (readMembers (readKey m) (Json.read m) fields read.entries).map OrderedMap.mk =
      Json.readFields m fields read := by
  induction fields generalizing read with
  | nil => rfl
  | cons field rest ih =>
      obtain ⟨key, value⟩ := field
      rw [readMembers, Json.readFields]
      cases readKey m key with
      | error fault => rfl
      | ok name =>
          cases Json.read m value with
          | error fault => rfl
          | ok value => exact ih (read.insert name value)

/-- A map of values is what a value is that is an object with these members. -/
theorem jsonMap_read_iff {m : Mode} {n : Node} (hn : n.IsJson) {members : OrderedMap Json} :
    (map json).read m n = .ok members ↔ Json.read m n = .ok (.ofMap members) := by
  cases hn with
  | @object fields close =>
      simp only [map, json, Reader.map, map_eq_ok, readEntries, Json.read, bind_eq_ok, pure_eq_ok,
        Except.ok.injEq, ← readMembers_eq_readFields]
      constructor
      · rintro ⟨_, ⟨inner, henter, entries, hentries, hpass, hclose, rfl⟩, rfl⟩
        exact ⟨inner, henter, _, ⟨entries, hentries, rfl⟩, hpass, hclose, rfl⟩
      · rintro ⟨inner, henter, _, ⟨entries, hentries, rfl⟩, hpass, hclose, hmembers⟩
        refine ⟨entries, ⟨inner, henter, entries, hentries, hpass, hclose, rfl⟩, ?_⟩
        exact congrArg OrderedMap.mk (Json.object.inj hmembers)
  | number h =>
      rw [Json.read_number m h]
      simp [map, Reader.map, map_eq_ok, readEntries, Json.ofMap]
  | null | bool | string | array | misplaced | defect =>
      simp [map, Reader.map, map_eq_ok, readEntries, Json.read, Json.ofMap, bind_eq_ok]

/-! ### Values that may be null -/

/-- A tree that is not null is read as the value itself. -/
theorem option_read_iff {c : Codec α} {m : Mode} {n : Node} {a : Option α} (hn : n.IsJson)
    (hne : n ≠ .null) : (option c).read m n = .ok a ↔ ∃ x, c.read m n = .ok x ∧ a = some x := by
  have hread : (option c).read m n = (c.read m n >>= fun x => .ok (some x)) := by
    cases hn with
    | null => exact absurd rfl hne
    | bool | number | string | array | object | misplaced | defect => rfl
  rw [hread, bind_eq_ok]
  simp only [Except.ok.injEq, eq_comm]

/-- An absent value is stable. -/
theorem option_stable_none (c : Codec α) (d : Nat) : (option c).Stable d none :=
  ⟨.null, Nat.zero_le d, rfl⟩

theorem ofJson_eq_null_iff {v : Json} : Node.ofJson v = .null ↔ v = .null := by
  cases v <;> simp [Node.ofJson]

/-- A value that may be null is stable exactly when it is not written as null and stable by
itself. -/
theorem option_stable_some_iff {c : Codec α} {d : Nat} {x : α} :
    (option c).Stable d (some x) ↔ c.Stable d x ∧ c.write x ≠ .null := by
  have hwrite : (option c).write (some x) = c.write x := rfl
  constructor
  · rintro ⟨hs, hd, hr⟩
    rw [hwrite] at hs hd hr
    have hne : c.write x ≠ .null := fun h => by
      rw [h] at hr
      simp [ofJson, Reader.ofJson, Node.ofJson, option, readOption] at hr
    refine ⟨⟨hs, hd, ?_⟩, hne⟩
    obtain ⟨y, hy, he⟩ := (option_read_iff (Node.isJson_ofJson hs)
      (mt ofJson_eq_null_iff.mp hne)).mp hr
    exact (Option.some.inj he) ▸ hy
  · rintro ⟨⟨hs, hd, hr⟩, hne⟩
    refine ⟨hs, hd, ?_⟩
    rw [hwrite]
    exact (option_read_iff (Node.isJson_ofJson hs) (mt ofJson_eq_null_iff.mp hne)).mpr ⟨x, hr, rfl⟩

/-- A value that may be null is stable if the values are and none of them is written as null. -/
theorem option_stable {c : Codec α} {d : Nat} (h : ∀ x, c.Stable d x)
    (hne : ∀ x, c.write x ≠ .null) (a : Option α) : (option c).Stable d a := by
  cases a with
  | none => exact option_stable_none c d
  | some x => exact option_stable_some_iff.mpr ⟨h x, hne x⟩

/-- The codec of values that may be null is regular if the codec of the values is. -/
theorem Regular.option {c : Codec α} {slack : Nat} (h : c.Regular K slack) :
    (option c).Regular K slack where
  read_iff := by
    intro v m a hv hk hm
    by_cases hne : v = .null
    · subst hne
      rfl
    · have hn := Node.isJson_ofJson hv
      have hne' := mt ofJson_eq_null_iff.mp hne
      rw [ofJson, Reader.ofJson, option_read_iff hn hne', option_read_iff hn hne']
      exact exists_congr fun x => and_congr_left fun _ => h.read_iff hv hk hm
  stable := by
    intro m n a hm hn hk hr
    by_cases hne : n = .null
    · subst hne
      obtain rfl : none = a := Except.ok.inj hr
      exact option_stable_none c _
    · obtain ⟨x, hx, rfl⟩ := (option_read_iff hn hne).mp hr
      exact option_stable_some_iff.mpr ⟨h.stable hm hn hk hx, h.ne_null hm hn hne hx⟩
  ne_null := by
    intro m n a hm hn hne hr
    obtain ⟨x, hx, rfl⟩ := (option_read_iff hn hne).mp hr
    exact h.ne_null hm hn hne hx

/-- A text that may be null is stable. -/
theorem option_string_stable (d : Nat) (a : Option String) : (option string).Stable d a :=
  option_stable (string_stable d) (fun _ h => Json.noConfusion h) a

/-! ### Choices -/

/-- The value beside a choice is read alike from a text and from a value. -/
theorem readUnit_ofJson (m : Mode) (v : Json) :
    readUnit m (.ofJson v) = readUnit .value (.ofJson v) := by
  cases v <;> rfl

/-- An object is read as a choice alike from a text and from a value. -/
theorem readChoiceMembers_ofJson_iff {choices : List (String × α)} {room : Nat}
    {fields : List (String × Json)} {a : α} :
    readChoiceMembers choices (.text room) (Node.ofJsonFields fields) .closed = .ok a ↔
      (choice choices fun _ => "").ofJson (.object fields) = .ok a := by
  match fields with
  | [] => simp [Node.ofJsonFields, Node.ofJson, readChoiceMembers, ofJson, Reader.ofJson, choice,
      readChoice]
  | [(key, unit)] =>
      simp only [Node.ofJsonFields, Node.ofJson, readChoiceMembers, ofJson, Reader.ofJson, choice,
        readChoice, List.isEmpty_nil, if_true, pass_closed, ok_bind, readUnit_ofJson (.text room)]
  | (key, unit) :: second :: rest =>
      simp [Node.ofJsonFields, Node.ofJson, readChoiceMembers, ofJson, Reader.ofJson, choice,
        readChoice, bind_eq_ok]

/-- A constant is stable if it is found under its name. -/
theorem choice_stable {choices : List (String × α)} {name : α → String}
    (h : ∀ a, OrderedMap.findEntry (name a) choices = some a) (d : Nat) (a : α) :
    (choice choices name).Stable d a := by
  refine ⟨.string _, Nat.zero_le d, ?_⟩
  show chooseName choices (name a) = .ok a
  rw [chooseName, h a]

/-- The codec of constants is regular if each of them is found under its name. -/
theorem choice_regular {choices : List (String × α)} {name : α → String}
    (h : ∀ a, OrderedMap.findEntry (name a) choices = some a) (K : Node → Prop) :
    (choice choices name).Regular K 0 where
  read_iff := by
    intro v m a hv _ hm
    cases m with
    | text room =>
        cases hv with
        | @object fields hd hfields =>
            obtain ⟨inner, henter, -⟩ := (Mode.text room).enter_object hm
            obtain ⟨left, -, rfl⟩ := Mode.enter_text_eq_ok henter
            have hread : (choice choices name).read (.text room) (.ofJson (.object fields)) =
                readChoiceMembers choices (.text left) (Node.ofJsonFields fields) .closed := by
              simp only [choice, Node.ofJson, readChoice, henter, ok_bind]
            rw [hread]
            exact readChoiceMembers_ofJson_iff
        | string => rfl
        | null | bool | number | array =>
            simp [choice, ofJson, Reader.ofJson, Node.ofJson, readChoice]
    | yaml => exact hm.elim
    | value => rfl
    | aside =>
        cases v with
        | object fields =>
            rcases fields with _ | ⟨⟨key, unit⟩, _ | ⟨_, _⟩⟩
            · rfl
            · simp only [choice, ofJson, Reader.ofJson, Node.ofJson, Node.ofJsonFields,
                readChoice, readUnit_ofJson .aside]
            · rfl
        | null | bool | number | string | array => rfl
  stable _ _ _ _ := choice_stable h _ _
  ne_null := by
    intro m n a _ _ _ _ h
    exact Json.noConfusion h

/-! ### Values with several forms -/

/-- A value that may have two forms is set aside first; the second form counts only if the first
one does not fit. -/
theorem oneOf_read_iff {type : String} {first second : Reader α} {m : Mode} {n : Node} {a : α}
    (hn : n.IsJson) (hm : m.isYaml = false) :
    Reader.oneOf type [first, second] m n = .ok a ↔
      n.setAside m = .ok n ∧ (first .aside n = .ok a ∨
        (∀ b, first .aside n ≠ .ok b) ∧ second .aside n = .ok a) := by
  cases hside : n.setAside m with
  | error fault => simp [Reader.oneOf, hside]
  | ok kept =>
      obtain rfl := (Node.setAside_eq hn hm hside).1
      simp only [Reader.oneOf, hside, ok_bind, firstForm, true_and]
      cases hfirst : first .aside kept with
      | ok b => simp
      | error fault =>
          cases hsecond : second .aside kept with
          | ok b => simp
          | error fault => simp

/-- A codec of values that have one of two forms. -/
structure Either {γ : Type} (c : Codec γ) (a : Codec α) (b : Codec β) (first : α → γ)
    (second : β → γ) :
    Prop where
  /-- The forms are tried in order. -/
  read : ∃ type, c.read = .oneOf type [Reader.map first a.read, Reader.map second b.read]
  /-- A value of the first form is written in this form. -/
  write_first : ∀ x, c.write (first x) = a.write x
  /-- A value of the second form is written in this form. -/
  write_second : ∀ y, c.write (second y) = b.write y

variable {γ : Type} {c : Codec γ} {a : Codec α} {b : Codec β} {first : α → γ} {second : β → γ}

/-- A tree is read in the first form that fits. -/
theorem Either.read_iff (h : Either c a b first second) {m : Mode} {n : Node} {z : γ}
    (hn : n.IsJson) (hm : m.isYaml = false) :
    c.read m n = .ok z ↔ n.setAside m = .ok n ∧ ((∃ x, a.read .aside n = .ok x ∧ first x = z) ∨
      (∀ x, a.read .aside n ≠ .ok x) ∧ ∃ y, b.read .aside n = .ok y ∧ second y = z) := by
  obtain ⟨type, hread⟩ := h.read
  have hnone : (∀ w, Reader.map first a.read .aside n ≠ .ok w) ↔ ∀ x, a.read .aside n ≠ .ok x := by
    rw [Reader.map]
    cases a.read .aside n <;> simp [Except.map]
  rw [hread, oneOf_read_iff hn hm, hnone, Reader.map, Reader.map, map_eq_ok, map_eq_ok]

/-- A value in memory is read in the first form that fits, and written in this form. -/
theorem Either.write_of_ofJson (h : Either c a b first second) {slack slack' : Nat}
    (ha : a.Regular Node.Exact slack) (hb : b.Regular Node.Exact slack') {v : Json} {z : γ}
    (hv : v.Sound) (hr : c.ofJson v = .ok z) :
    (∃ x, a.ofJson v = .ok x ∧ c.write z = a.write x) ∨
      (∀ x, a.ofJson v ≠ .ok x) ∧ ∃ y, b.ofJson v = .ok y ∧ c.write z = b.write y := by
  have hfirst : ∀ x, a.read .aside (.ofJson v) = .ok x ↔ a.ofJson v = .ok x :=
    fun x => ha.read_iff hv ⟨v, hv, rfl⟩ trivial
  have hsecond : ∀ y, b.read .aside (.ofJson v) = .ok y ↔ b.ofJson v = .ok y :=
    fun y => hb.read_iff hv ⟨v, hv, rfl⟩ trivial
  obtain ⟨-, hform⟩ := (h.read_iff (Node.isJson_ofJson hv) rfl).mp hr
  simp only [hfirst, hsecond, ne_eq] at hform
  rcases hform with ⟨x, hx, rfl⟩ | ⟨hnot, y, hy, rfl⟩
  · exact .inl ⟨x, hx, h.write_first x⟩
  · exact .inr ⟨hnot, y, hy, h.write_second y⟩

/-- A value of the first form is stable if it is read back when it is set aside. -/
theorem Either.stable_first (h : Either c a b first second) {d : Nat} {x : α} (hx : a.Stable d x)
    (haside : a.read .aside (.ofJson (a.write x)) = .ok x) : c.Stable d (first x) := by
  refine ⟨h.write_first x ▸ hx.sound, h.write_first x ▸ hx.depth_le, ?_⟩
  rw [h.write_first]
  exact (h.read_iff (Node.isJson_ofJson hx.sound) rfl).mpr ⟨rfl, .inl ⟨x, haside, rfl⟩⟩

/-- A value of the second form is stable if it is read back when it is set aside, and not in the
first form. -/
theorem Either.stable_second (h : Either c a b first second) {d : Nat} {y : β} (hy : b.Stable d y)
    (haside : b.read .aside (.ofJson (b.write y)) = .ok y)
    (hnot : ∀ x, a.read .aside (.ofJson (b.write y)) ≠ .ok x) : c.Stable d (second y) := by
  refine ⟨h.write_second y ▸ hy.sound, h.write_second y ▸ hy.depth_le, ?_⟩
  rw [h.write_second]
  exact (h.read_iff (Node.isJson_ofJson hy.sound) rfl).mpr ⟨rfl, .inr ⟨hnot, y, haside, rfl⟩⟩

/-- A codec of two forms is regular on a class that holds what is written of its trees, if the
codecs of the forms are and a value of the second form is not written as one of the first. -/
theorem Either.regular (h : Either c a b first second) {slack : Nat} (ha : a.Regular K slack)
    (hb : b.Regular K slack)
    (hKa : ∀ n x, n.IsJson → K n → a.read .aside n = .ok x → K (.ofJson (a.write x)))
    (hKb : ∀ n y, n.IsJson → K n → b.read .aside n = .ok y → K (.ofJson (b.write y)))
    (hsep : ∀ n y, n.IsJson → K n → (∀ x, a.read .aside n ≠ .ok x) → b.read .aside n = .ok y →
      ∀ x, a.read .aside (.ofJson (b.write y)) ≠ .ok x)
    (hne : ∀ y, b.write y ≠ .null) : c.Regular K slack where
  read_iff := by
    intro v m z hv _ hm
    have hn := Node.isJson_ofJson hv
    have hside := Node.setAside_ofJson hv hm
    rw [ofJson, Reader.ofJson, h.read_iff hn (Mode.isYaml_of_holds hm), h.read_iff hn rfl, hside]
    rfl
  stable := by
    intro m n z hm hn hk hr
    obtain ⟨hside, hform⟩ := (h.read_iff hn hm).mp hr
    have hbound : n.depth ≤ m.bound n := (Node.setAside_eq hn hm hside).2
    have haside : max (Mode.aside.bound n) slack ≤ max (m.bound n) slack := by
      show max n.depth slack ≤ _
      omega
    rcases hform with ⟨x, hx, rfl⟩ | ⟨hnot, y, hy, rfl⟩
    · have hs := ha.stable rfl hn hk hx
      exact (h.stable_first hs (ha.reread hs (hKa n x hn hk hx) trivial)).mono haside
    · have hs := hb.stable rfl hn hk hy
      have hread := hb.reread hs (hKb n y hn hk hy) (m := .aside) trivial
      exact (h.stable_second hs hread (hsep n y hn hk hnot hy)).mono haside
  ne_null := by
    intro m n z hm hn hnull hr
    obtain ⟨-, ⟨x, hx, rfl⟩ | ⟨-, y, -, rfl⟩⟩ := (h.read_iff hn hm).mp hr
    · rw [h.write_first]
      exact ha.ne_null rfl hn hnull hx
    · rw [h.write_second]
      exact hne y

/-! ### Renamed values -/

theorem map_id_read (read : Reader α) (m : Mode) (n : Node) :
    Reader.map id read m n = read m n := by
  rw [Reader.map]
  cases read m n <;> rfl

/-- What a codec reads that renames another one is what that one reads, and is written alike. -/
theorem write_of_ofJson_rename {c : Codec α} {d : Codec β} {f : α → β}
    (hread : ∀ n, n.IsJson → d.read .value n = Reader.map f c.read .value n)
    (hwrite : ∀ a, d.write (f a) = c.write a) {v : Json} {b : β} (hv : v.Sound)
    (hr : d.ofJson v = .ok b) : ∃ a, c.ofJson v = .ok a ∧ d.write b = c.write a := by
  rw [ofJson, Reader.ofJson, hread _ (Node.isJson_ofJson hv), Reader.map, map_eq_ok] at hr
  obtain ⟨a, ha, rfl⟩ := hr
  exact ⟨a, ha, hwrite a⟩

/-- A stable value is stable under another name. -/
theorem Stable.rename {c : Codec α} {d : Codec β} {a : α} {n : Nat} (h : c.Stable n a) (f : α → β)
    (hread : ∀ n, n.IsJson → d.read .value n = Reader.map f c.read .value n)
    (hwrite : d.write (f a) = c.write a) : d.Stable n (f a) := by
  refine ⟨hwrite ▸ h.sound, hwrite ▸ h.depth_le, ?_⟩
  rw [hwrite, ofJson, Reader.ofJson, hread _ (Node.isJson_ofJson h.sound), Reader.map, map_eq_ok]
  exact ⟨a, h.reread, rfl⟩

/-- A codec is regular if it renames what a regular codec reads. -/
theorem Regular.rename {c : Codec α} {d : Codec β} {slack : Nat} (h : c.Regular K slack) (f : α → β)
    (hread : ∀ m n, m.isYaml = false → n.IsJson → d.read m n = Reader.map f c.read m n)
    (hwrite : ∀ a, d.write (f a) = c.write a) : d.Regular K slack where
  read_iff := by
    intro v m b hv hk hm
    have hn := Node.isJson_ofJson hv
    rw [ofJson, Reader.ofJson, hread _ _ (Mode.isYaml_of_holds hm) hn, hread .value _ rfl hn,
      Reader.map, Reader.map, map_eq_ok, map_eq_ok]
    exact exists_congr fun a => and_congr_left fun _ => h.read_iff hv hk hm
  stable := by
    intro m n b hm hn hk hr
    rw [hread m n hm hn, Reader.map, map_eq_ok] at hr
    obtain ⟨a, ha, rfl⟩ := hr
    exact (h.stable hm hn hk ha).rename f (fun n hn => hread .value n rfl hn) (hwrite a)
  ne_null := by
    intro m n b hm hn hne hr
    rw [hread m n hm hn, Reader.map, map_eq_ok] at hr
    obtain ⟨a, ha, rfl⟩ := hr
    rw [hwrite]
    exact h.ne_null hm hn hne ha

end Codec

end ServiceDocs
