import ServiceDocs.Proofs.Json.Sound
import ServiceDocs.Proofs.OrderedMap
import ServiceDocs.Reading.Mode

/-!
# Reading Any Value

What `Json.read` makes of a tree: a sound value that lies no deeper than the mode allows.
Read from the tree of a sound value, it gives that value back, in every mode that has room
for it.

`Mode.Holds` says that a mode has room for a value, and `Mode.bound` how deep a value may
be that is read in a mode from a tree.

## Main results

* `Json.read_ofJson`: any value is read back from its tree.
* `Json.sound_of_read`: what is read is sound and no deeper than the mode allows.
* `Node.depth_le_of_read`: a text of limited depth has a tree of limited depth.
* `Node.setAside_eq`: outside of YAML a tree is set aside as it is.
-/

namespace ServiceDocs

/-! ### Results -/

/-- A sequence of two steps succeeds exactly when both steps do. -/
theorem bind_eq_ok {ε α β : Type} {x : Except ε α} {f : α → Except ε β} {b : β} :
    (x >>= f) = .ok b ↔ ∃ a, x = .ok a ∧ f a = .ok b := by
  cases x with
  | error e => simp [bind, Except.bind]
  | ok a => simp [bind, Except.bind]

/-- A changed result is a result exactly when there was one. -/
theorem map_eq_ok {ε α β : Type} {x : Except ε α} {f : α → β} {b : β} :
    x.map f = .ok b ↔ ∃ a, x = .ok a ∧ f a = b := by
  cases x with
  | error e => simp [Except.map]
  | ok a => simp [Except.map]

@[simp] theorem ok_bind {ε α β : Type} (a : α) (f : α → Except ε β) : (.ok a >>= f) = f a := rfl

@[simp] theorem error_bind {ε α β : Type} (e : ε) (f : α → Except ε β) :
    ((.error e : Except ε α) >>= f) = .error e := rfl

@[simp] theorem throw_eq_error {ε α : Type} (e : ε) : (throw e : Except ε α) = .error e := rfl

@[simp] theorem pure_eq_ok {ε α : Type} (a : α) : (pure a : Except ε α) = .ok a := rfl

@[simp] theorem pass_closed : Close.closed.pass = .ok () := rfl

/-! ### Modes -/

namespace Mode

/-- A mode has room for a value. -/
def Holds : Mode → Json → Prop
  | .text room, v => v.depth ≤ room
  | .yaml _, _ => False
  | _, _ => True

/-- How deep a value may be that is read from a tree. -/
def bound : Mode → Node → Nat
  | .text room, _ => room
  | _, n => n.depth

/-- A mode with room for values is not the one of the other text format. -/
theorem isYaml_of_holds {m : Mode} {v : Json} (h : m.Holds v) : m.isYaml = false := by
  cases m with
  | yaml => exact h.elim
  | text | value | aside => rfl

/-- A mode with room for a list can be entered and has room for the items. -/
theorem enter_array {m : Mode} {items : List Json} (h : m.Holds (.array items)) :
    ∃ inner, m.enter = .ok inner ∧ ∀ item ∈ items, inner.Holds item := by
  cases m with
  | text room =>
      obtain ⟨hroom, hitems⟩ := Json.depth_array_le_iff.mp h
      obtain ⟨room, rfl⟩ : ∃ r, room = r + 1 := ⟨room - 1, by omega⟩
      exact ⟨.text room, rfl, fun item hitem => Nat.le_of_succ_le_succ (hitems item hitem)⟩
  | yaml => exact h.elim
  | value => exact ⟨.value, rfl, fun _ _ => trivial⟩
  | aside => exact ⟨.aside, rfl, fun _ _ => trivial⟩

/-- A mode with room for an object can be entered and has room for the members. -/
theorem enter_object {m : Mode} {fields : List (String × Json)} (h : m.Holds (.object fields)) :
    ∃ inner, m.enter = .ok inner ∧ ∀ entry ∈ fields, inner.Holds entry.2 := by
  cases m with
  | text room =>
      obtain ⟨hroom, hfields⟩ := Json.depth_object_le_iff.mp h
      obtain ⟨room, rfl⟩ : ∃ r, room = r + 1 := ⟨room - 1, by omega⟩
      exact ⟨.text room, rfl, fun entry hentry => Nat.le_of_succ_le_succ (hfields entry hentry)⟩
  | yaml => exact h.elim
  | value => exact ⟨.value, rfl, fun _ _ => trivial⟩
  | aside => exact ⟨.aside, rfl, fun _ _ => trivial⟩

/-- A container is entered in a text if there is room left. -/
theorem enter_text_eq_ok {room : Nat} {inner : Mode} (h : (text room).enter = .ok inner) :
    ∃ left, room = left + 1 ∧ inner = .text left := by
  cases room with
  | zero => simp [enter] at h
  | succ left => exact ⟨left, rfl, (Except.ok.inj h).symm⟩

/-- Entering a container does not lead into YAML. -/
theorem isYaml_enter {m inner : Mode} (hm : m.isYaml = false) (h : m.enter = .ok inner) :
    inner.isYaml = false := by
  cases m with
  | text room =>
      obtain ⟨left, -, rfl⟩ := enter_text_eq_ok h
      rfl
  | yaml => simp [isYaml] at hm
  | value | aside => simp only [enter, Except.ok.injEq] at h; exact h ▸ rfl

/-- Entering a container takes one from the bound of its parts. -/
theorem bound_enter {m inner : Mode} {n container : Node} (hm : m.isYaml = false)
    (h : m.enter = .ok inner) (hn : n.IsPart container) :
    inner.bound n + 1 ≤ m.bound container := by
  cases m with
  | text room =>
      obtain ⟨left, rfl, rfl⟩ := enter_text_eq_ok h
      exact Nat.le_refl _
  | yaml => simp [isYaml] at hm
  | value | aside =>
      simp only [enter, Except.ok.injEq] at h
      subst h
      exact hn.depth_lt

/-- A container that can be entered has room for itself. -/
theorem one_le_bound {m inner : Mode} {container : Node} (hm : m.isYaml = false)
    (h : m.enter = .ok inner) (hn : 1 ≤ container.depth) : 1 ≤ m.bound container := by
  cases m with
  | text room =>
      obtain ⟨left, rfl, -⟩ := enter_text_eq_ok h
      exact Nat.succ_le_succ (Nat.zero_le _)
  | yaml => simp [isYaml] at hm
  | value | aside => exact hn

end Mode

theorem Node.one_le_depth_array (items : List Node) (close : Close) :
    1 ≤ (Node.array items close).depth := by
  rw [depth]; omega

theorem Node.one_le_depth_object (fields : List (Node × Node)) (close : Close) :
    1 ≤ (Node.object fields close).depth := by
  rw [depth]; omega

/-! ### Keys -/

@[simp] theorem readKey_string (m : Mode) (name : String) :
    readKey m (.string name) = .ok name := by
  cases m <;> rfl

/-- The key of a member of a JSON text is read as a text only if it is one. -/
theorem eq_string_of_readKey {m : Mode} {key : Node} {name : String} (hm : m.isYaml = false)
    (hk : key.IsKey) (h : readKey m key = .ok name) : key = .string name := by
  rcases hk with ⟨s, rfl⟩ | ⟨t, rfl⟩ | ⟨d, rfl⟩
  · rw [readKey_string, Except.ok.injEq] at h
    rw [h]
  · cases m <;> simp [readKey] at h
  · cases m <;> simp [readKey] at h

/-! ### Passing over -/

mutual

/-- The tree of a value can be passed over. -/
theorem Node.skip_ofJson : ∀ v : Json, (Node.ofJson v).skip = .ok ()
  | .null | .bool _ | .number _ | .string _ => rfl
  | .array items => by rw [Node.ofJson, Node.skip, Node.skipItems_ofJson items]; rfl
  | .object fields => by rw [Node.ofJson, Node.skip, Node.skipFields_ofJson fields]; rfl

/-- The items of a value can be skipped. -/
theorem Node.skipItems_ofJson :
    ∀ items : List Json, Node.skipItems (Node.ofJsonItems items) = .ok ()
  | [] => rfl
  | item :: rest => by
      rw [Node.ofJsonItems, Node.skipItems, Node.skip_ofJson item, Node.skipItems_ofJson rest]
      rfl

/-- The members of a value can be skipped. -/
theorem Node.skipFields_ofJson :
    ∀ fields : List (String × Json), Node.skipFields (Node.ofJsonFields fields) = .ok ()
  | [] => rfl
  | (_, value) :: rest => by
      rw [Node.ofJsonFields, Node.skipFields, Node.skip_ofJson value, Node.skipFields_ofJson rest]
      rfl

end

/-- A value can be skipped in every mode. -/
theorem Mode.skip_ofJson (m : Mode) (v : Json) : m.skip (Node.ofJson v) = .ok () := by
  rw [skip, Node.skip_ofJson]
  exact ite_self _

/-! ### Any value -/

namespace Json

/-- A double that is finite is a value. -/
theorem float_of_isFinite {x : Binary64} (h : x.isFinite = true) :
    Json.float x = .number (.float x) := by
  rw [float, if_pos h]

/-- What a number is read as. -/
theorem read_number {n : Number} (m : Mode) (h : n.Sound) :
    Json.read m (.number n) = .ok (.number n) := by
  cases h with
  | int => rw [Json.read]; rfl
  | float h => rw [Json.read, float_of_isFinite h]

/-- A list is read as itself if its items are. -/
theorem readItems_ofJson {m : Mode} {items : List Json}
    (h : ∀ item ∈ items, Json.read m (Node.ofJson item) = .ok item) :
    Json.readItems m (Node.ofJsonItems items) = .ok items := by
  induction items with
  | nil => rfl
  | cons item rest ih =>
      rw [Node.ofJsonItems, Json.readItems, h item List.mem_cons_self,
        ih fun other hother => h other (List.mem_cons_of_mem _ hother)]
      rfl

/-- Members with new names are put behind those that were read, if their values are read as
themselves. -/
theorem readFields_ofJson {m : Mode} {fields : List (String × Json)} (read : OrderedMap Json)
    (hd : (read.keys ++ fields.map (·.1)).Nodup)
    (h : ∀ entry ∈ fields, Json.read m (Node.ofJson entry.2) = .ok entry.2) :
    Json.readFields m (Node.ofJsonFields fields) read = .ok ⟨read.entries ++ fields⟩ := by
  induction fields generalizing read with
  | nil => rw [Node.ofJsonFields, Json.readFields, List.append_nil]
  | cons entry rest ih =>
      obtain ⟨name, value⟩ := entry
      have hnew : name ∉ read.keys := fun hk =>
        (List.nodup_append.mp hd).2.2 name hk name List.mem_cons_self rfl
      have hkeys : (read.insert name value).keys = read.keys ++ [name] := by
        rw [OrderedMap.keys_insert, if_neg hnew]
      rw [Node.ofJsonFields, Json.readFields, readKey_string, h _ List.mem_cons_self]
      simp only [ok_bind]
      rw [ih (read.insert name value)]
      · rw [OrderedMap.entries_insert_of_notMem hnew, List.append_assoc, List.singleton_append]
      · rw [hkeys, List.append_assoc, List.singleton_append]
        exact hd
      · exact fun other hother => h other (List.mem_cons_of_mem _ hother)

/-- A sound value is read back from its tree, in every mode that has room for it. -/
theorem read_ofJson {v : Json} (hv : v.Sound) {m : Mode} (hm : m.Holds v) :
    Json.read m (Node.ofJson v) = .ok v := by
  induction hv generalizing m with
  | null | bool | string => rw [Node.ofJson, Json.read]
  | number h => rw [Node.ofJson]; exact read_number m h
  | @array items h ih =>
      obtain ⟨inner, henter, hinner⟩ := m.enter_array hm
      rw [Node.ofJson, Json.read, henter, ok_bind,
        readItems_ofJson fun item hitem => ih item hitem (hinner item hitem)]
      rfl
  | @object fields hd h ih =>
      obtain ⟨inner, henter, hinner⟩ := m.enter_object hm
      rw [Node.ofJson, Json.read, henter, ok_bind, readFields_ofJson .empty hd
        fun entry hentry => ih entry hentry (hinner entry hentry)]
      rfl

/-! ### What is read -/

/-- Every item that is read stems from an item of the tree. -/
theorem exists_of_mem_readItems {m : Mode} {items : List Node} {values : List Json}
    (h : Json.readItems m items = .ok values) {value : Json} (hvalue : value ∈ values) :
    ∃ item ∈ items, Json.read m item = .ok value := by
  induction items generalizing values with
  | nil =>
      rw [Json.readItems, Except.ok.injEq] at h
      simp [← h] at hvalue
  | cons item rest ih =>
      simp only [Json.readItems, bind_eq_ok, pure_eq_ok, Except.ok.injEq] at h
      obtain ⟨first, hfirst, others, hothers, rfl⟩ := h
      rcases List.mem_cons.mp hvalue with rfl | hvalue
      · exact ⟨item, List.mem_cons_self, hfirst⟩
      · obtain ⟨other, hother, hr⟩ := ih hothers hvalue
        exact ⟨other, List.mem_cons_of_mem _ hother, hr⟩

/-- A property of what is read from the members of an object holds of all values that are
kept. -/
theorem forall_of_readFields {m : Mode} {fields : List (Node × Node)}
    {read result : OrderedMap Json}
    {P : Json → Prop} (h : Json.readFields m fields read = .ok result)
    (hread : ∀ entry ∈ read.entries, P entry.2)
    (hfields : ∀ entry ∈ fields, ∀ value, Json.read m entry.2 = .ok value → P value) :
    ∀ entry ∈ result.entries, P entry.2 := by
  induction fields generalizing read with
  | nil =>
      rw [Json.readFields, Except.ok.injEq] at h
      exact h ▸ hread
  | cons entry rest ih =>
      obtain ⟨key, n⟩ := entry
      simp only [Json.readFields, bind_eq_ok] at h
      obtain ⟨name, -, value, hvalue, hrest⟩ := h
      refine ih hrest (fun other hother => ?_)
        fun other hother => hfields other (List.mem_cons_of_mem _ hother)
      rcases OrderedMap.mem_entries_insert hother with rfl | hother
      · exact hfields (key, n) List.mem_cons_self value hvalue
      · exact hread other hother

/-- The members that are read have distinct keys. -/
theorem distinct_of_readFields {m : Mode} {fields : List (Node × Node)}
    {read result : OrderedMap Json} (h : Json.readFields m fields read = .ok result)
    (hread : read.Distinct) : result.Distinct := by
  induction fields generalizing read with
  | nil =>
      rw [Json.readFields, Except.ok.injEq] at h
      exact h ▸ hread
  | cons entry rest ih =>
      obtain ⟨key, n⟩ := entry
      simp only [Json.readFields, bind_eq_ok] at h
      obtain ⟨name, -, value, -, hrest⟩ := h
      exact ih hrest (OrderedMap.distinct_insert hread name value)

/-- What is read from a tree of a JSON text is a sound value, no deeper than the mode allows. -/
theorem sound_of_read {n : Node} (hn : n.IsJson) {m : Mode} (hm : m.isYaml = false) {v : Json}
    (h : Json.read m n = .ok v) : v.Sound ∧ v.depth ≤ m.bound n := by
  induction hn generalizing m v with
  | null | bool | string =>
      rw [Json.read, Except.ok.injEq] at h
      subst h
      exact ⟨by constructor, Nat.zero_le _⟩
  | number hn =>
      rw [read_number m hn, Except.ok.injEq] at h
      subst h
      exact ⟨.number hn, Nat.zero_le _⟩
  | @array items close _ ih =>
      simp only [Json.read, bind_eq_ok, pure_eq_ok, Except.ok.injEq] at h
      obtain ⟨inner, henter, values, hvalues, -, -, rfl⟩ := h
      have hinner := Mode.isYaml_enter hm henter
      refine ⟨.array fun value hvalue => ?_, depth_array_le_iff.mpr
        ⟨Mode.one_le_bound hm henter (Node.one_le_depth_array items close),
          fun value hvalue => ?_⟩⟩
      · obtain ⟨item, hitem, hr⟩ := exists_of_mem_readItems hvalues hvalue
        exact (ih item hitem hinner hr).1
      · obtain ⟨item, hitem, hr⟩ := exists_of_mem_readItems hvalues hvalue
        have hdepth := (ih item hitem hinner hr).2
        have hpart : item.IsPart (.array items close) := hitem
        have hbound := Mode.bound_enter hm henter hpart
        omega
  | @object fields close _ _ ih =>
      simp only [Json.read, bind_eq_ok, pure_eq_ok, Except.ok.injEq] at h
      obtain ⟨inner, henter, result, hresult, -, -, rfl⟩ := h
      have hinner := Mode.isYaml_enter hm henter
      refine ⟨.object (distinct_of_readFields hresult OrderedMap.distinct_empty)
        (forall_of_readFields hresult (by simp [OrderedMap.empty])
          fun entry hentry value hr => (ih entry hentry hinner hr).1),
        depth_object_le_iff.mpr
          ⟨Mode.one_le_bound hm henter (Node.one_le_depth_object fields close), ?_⟩⟩
      refine forall_of_readFields (P := fun v => v.depth + 1 ≤ m.bound (.object fields close))
        hresult (by simp [OrderedMap.empty]) fun entry hentry value hr => ?_
      have hdepth := (ih entry hentry hinner hr).2
      have hpart : entry.2.IsPart (.object fields close) := ⟨entry.1, hentry⟩
      have hbound := Mode.bound_enter hm henter hpart
      omega
  | misplaced token => simp [Json.read] at h
  | defect d => simp [Json.read] at h

/-- Every item of a list that is read can be read. -/
theorem exists_of_mem_items {m : Mode} {items : List Node} {values : List Json}
    (h : Json.readItems m items = .ok values) {item : Node} (hitem : item ∈ items) :
    ∃ value, Json.read m item = .ok value := by
  induction items generalizing values with
  | nil => simp at hitem
  | cons head rest ih =>
      simp only [Json.readItems, bind_eq_ok, pure_eq_ok, Except.ok.injEq] at h
      obtain ⟨first, hfirst, others, hothers, -⟩ := h
      rcases List.mem_cons.mp hitem with rfl | hitem
      · exact ⟨first, hfirst⟩
      · exact ih hothers hitem

/-- Every member of an object that is read can be read. -/
theorem exists_of_mem_fields {m : Mode} {fields : List (Node × Node)}
    {read result : OrderedMap Json} (h : Json.readFields m fields read = .ok result)
    {entry : Node × Node} (hentry : entry ∈ fields) :
    ∃ value, Json.read m entry.2 = .ok value := by
  induction fields generalizing read with
  | nil => simp at hentry
  | cons head rest ih =>
      obtain ⟨key, n⟩ := head
      simp only [Json.readFields, bind_eq_ok] at h
      obtain ⟨name, -, value, hvalue, hrest⟩ := h
      rcases List.mem_cons.mp hentry with rfl | hentry
      · exact ⟨value, hvalue⟩
      · exact ih hrest hentry

end Json

namespace Node

/-- A tree that is read as a whole from a text of limited depth is not deeper. -/
theorem depth_le_of_read {n : Node} (hn : n.IsJson) {room : Nat} {v : Json}
    (h : Json.read (.text room) n = .ok v) : n.depth ≤ room := by
  induction hn generalizing room v with
  | null | bool | string | number | misplaced | defect => exact Nat.zero_le _
  | @array items close _ ih =>
      simp only [Json.read, bind_eq_ok] at h
      obtain ⟨inner, henter, values, hvalues, -⟩ := h
      obtain ⟨left, rfl, rfl⟩ := Mode.enter_text_eq_ok henter
      refine Nat.succ_le_succ (depthItems_le_iff.mpr fun item hitem => ?_)
      obtain ⟨value, hvalue⟩ := Json.exists_of_mem_items hvalues hitem
      exact ih item hitem hvalue
  | @object fields close _ _ ih =>
      simp only [Json.read, bind_eq_ok] at h
      obtain ⟨inner, henter, result, hresult, -⟩ := h
      obtain ⟨left, rfl, rfl⟩ := Mode.enter_text_eq_ok henter
      refine Nat.succ_le_succ (depthFields_le_iff.mpr fun entry hentry => ?_)
      obtain ⟨value, hvalue⟩ := Json.exists_of_mem_fields hresult hentry
      exact ih entry hentry hvalue

/-- Outside of YAML a tree is set aside as it is, and is then not deeper than its mode
allows. -/
theorem setAside_eq {n kept : Node} (hn : n.IsJson) {m : Mode} (hm : m.isYaml = false)
    (h : n.setAside m = .ok kept) : kept = n ∧ n.depth ≤ m.bound n := by
  cases m with
  | text room =>
      simp only [setAside, bind_eq_ok, pure_eq_ok, Except.ok.injEq] at h
      obtain ⟨v, hv, rfl⟩ := h
      exact ⟨rfl, depth_le_of_read hn hv⟩
  | yaml => simp [Mode.isYaml] at hm
  | value | aside =>
      simp only [setAside, Except.ok.injEq] at h
      exact ⟨h.symm, Nat.le_refl _⟩

/-- The tree of a sound value can be set aside where there is room for it. -/
theorem setAside_ofJson {v : Json} (hv : v.Sound) {m : Mode} (hm : m.Holds v) :
    (ofJson v).setAside m = .ok (ofJson v) := by
  cases m with
  | text room => rw [setAside, Json.read_ofJson hv hm]; rfl
  | yaml => exact hm.elim
  | value | aside => rfl

end Node

end ServiceDocs
