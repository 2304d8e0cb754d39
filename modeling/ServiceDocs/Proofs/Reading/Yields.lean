import ServiceDocs.Proofs.Reading.Records

/-!
# What Is Read in Any Mode

The laws of codecs are about trees of JSON texts. What a type itself guarantees holds of whatever
is read, also of a YAML text, and needs no laws: the keys of a map are distinct, because a later
member of the same key replaces the earlier one.

A reader yields a property if everything that it reads has the property, from any tree and in any
mode. This goes through lists, maps, forms and records.

## Main definitions

* `Reader.Yields`: what everything that is read has in common.

## Main results

* `Codec.map_yields`: the maps that are read have distinct keys.
* `Record.yields`: a property that every field keeps holds of the records that are read.
-/

namespace ServiceDocs

variable {α β : Type} {P : α → Prop}

/-- Everything that is read has a property. -/
def Reader.Yields (read : Reader α) (P : α → Prop) : Prop :=
  ∀ ⦃m n a⦄, read m n = .ok a → P a

/-! ### Forms and optional values -/

/-- What is made of a read value has a property if the value leads to it. -/
theorem Reader.Yields.map {read : Reader α} {f : α → β} {Q : β → Prop}
    (h : read.Yields fun a => Q (f a)) : (Reader.map f read).Yields Q := by
  intro m n b hb
  obtain ⟨a, ha, rfl⟩ := map_eq_ok.mp hb
  exact h ha

/-- What is read in one of several forms has the property that all forms give. -/
theorem Reader.yields_oneOf {type : String} {forms : List (Reader α)}
    (h : ∀ form ∈ forms, form.Yields P) : (Reader.oneOf type forms).Yields P := by
  have hfirst : ∀ {n a}, firstForm n forms = some a → P a := by
    induction forms with
    | nil => simp [firstForm]
    | cons form rest ih =>
        obtain ⟨hform, hrest⟩ := List.forall_mem_cons.mp h
        intro n a ha
        rw [firstForm] at ha
        split at ha
        · next value hvalue => exact Option.some.inj ha ▸ hform hvalue
        · exact ih hrest ha
  intro m n a ha
  obtain ⟨kept, -, ha⟩ := bind_eq_ok.mp ha
  split at ha
  · next value hvalue => exact Except.ok.inj ha ▸ hfirst hvalue
  · simp at ha

namespace Codec

/-- A value that may be null has the property if it is there. -/
theorem option_yields {c : Codec α} (h : c.read.Yields P) :
    c.option.read.Yields fun x => ∀ a ∈ x, P a := by
  have hsome : ∀ {m n x}, (c.read m n >>= fun value => pure (some value)) = .ok x →
      ∀ a ∈ x, P a := by
    intro m n x hx
    obtain ⟨value, hvalue, hx⟩ := bind_eq_ok.mp hx
    obtain rfl : some value = x := Except.ok.inj hx
    rintro a ⟨⟩
    exact h hvalue
  intro m n x hx
  cases n with
  | null =>
      obtain rfl : none = x := Except.ok.inj hx
      exact nofun
  | scalar s =>
      obtain ⟨absent, -, hx⟩ := bind_eq_ok.mp hx
      split at hx
      · obtain rfl : none = x := Except.ok.inj hx
        exact nofun
      · exact hsome hx
  | _ => exact hsome hx

/-! ### Lists -/

/-- A list that is read is empty or consists of the items of the tree. -/
theorem readList_inv {read : Reader α} {m : Mode} {n : Node} {values : List α}
    (h : readList read m n = .ok values) :
    values = [] ∨ ∃ inner items, readItems (read inner) items = .ok values := by
  have hitems : ∀ {items : List Node} {close : Close},
      readList read m (.array items close) = .ok values →
        ∃ inner items, readItems (read inner) items = .ok values := by
    intro items close h
    simp only [readList, bind_eq_ok, pure_eq_ok, Except.ok.injEq] at h
    obtain ⟨inner, -, values, hvalues, -, -, rfl⟩ := h
    exact ⟨inner, items, hvalues⟩
  cases n with
  | array items close => exact .inr (hitems h)
  | tagged variant n =>
      cases n with
      | array items close => exact .inr (hitems h)
      | _ => simp [readList] at h
  | scalar s =>
      rw [readList] at h
      split at h
      · exact .inl (Except.ok.inj h).symm
      · simp at h
  | _ => simp [readList] at h

/-- Every item that is read has the property. -/
theorem list_yields {c : Codec α} (h : c.read.Yields P) :
    (list c).read.Yields fun values => ∀ value ∈ values, P value := by
  intro m n values hvalues value hvalue
  obtain rfl | ⟨inner, items, hitems⟩ := readList_inv hvalues
  · exact nomatch hvalue
  · obtain ⟨item, -, hitem⟩ := exists_of_mem_readItems hitems hvalue
    exact h hitem

/-! ### Maps -/

/-- Entries that are read are none or those of an object of the tree. -/
theorem readEntries_inv {κ : Type} [DecidableEq κ] {key : Mode → Node → Except Fault κ}
    {read : Reader α} {m : Mode} {n : Node} {entries : List (κ × α)}
    (h : readEntries key read m n = .ok entries) :
    entries = [] ∨ ∃ inner fields,
      readMembers (key inner) (read inner) fields [] = .ok entries := by
  have hfields : ∀ {fields : List (Node × Node)} {close : Close},
      readEntries key read m (.object fields close) = .ok entries →
        ∃ inner fields, readMembers (key inner) (read inner) fields [] = .ok entries := by
    intro fields close h
    simp only [readEntries, bind_eq_ok, pure_eq_ok, Except.ok.injEq] at h
    obtain ⟨inner, -, entries, hentries, -, -, rfl⟩ := h
    exact ⟨inner, fields, hentries⟩
  cases n with
  | object fields close => exact .inr (hfields h)
  | tagged variant n =>
      cases n with
      | object fields close => exact .inr (hfields h)
      | _ => simp [readEntries] at h
  | scalar s =>
      rw [readEntries] at h
      split at h
      · exact .inl (Except.ok.inj h).symm
      · simp at h
  | _ => simp [readEntries] at h

/-- A map that is read has distinct keys. -/
theorem map_yields {c : Codec α} (h : c.read.Yields P) :
    (map c).read.Yields fun values => values.Distinct ∧ ∀ entry ∈ values.entries, P entry.2 := by
  intro m n values hvalues
  obtain ⟨entries, hentries, rfl⟩ := map_eq_ok.mp hvalues
  obtain rfl | ⟨inner, fields, hfields⟩ := readEntries_inv hentries
  · exact ⟨List.nodup_nil, fun _ h => nomatch h⟩
  · refine ⟨nodup_of_readMembers hfields List.nodup_nil, fun entry hentry => ?_⟩
    obtain hnone | ⟨field, -, hfield⟩ := exists_of_mem_readMembers hfields hentry
    · exact nomatch hnone
    · exact h hfield

end Codec

/-! ### Records -/

namespace Record

/-- The field that a key names is one of the record. -/
theorem mem_of_find {r : Record α} {m : Mode} {key : Node} {f : Field α} {name : String}
    (h : r.find m key = .ok (some f, name)) : f ∈ r.fields := by
  unfold find at h
  split at h
  · split at h
    · exact List.mem_of_getElem? (congrArg Prod.fst (Except.ok.inj h))
    · simp at h
  · split at h
    · exact List.mem_of_find?_eq_some (congrArg Prod.fst (Except.ok.inj h))
    · simp at h

/-- A property that every field keeps is kept when members are read, if nothing else is kept of
these. -/
theorem readMembers_yields {r : Record α} (hrest : r.rest = none)
    (hset : ∀ f ∈ r.fields, f.codec.read.Yields fun x => ∀ a, P a → P (f.set x a)) {m : Mode}
    {fields : List (Node × Node)} {seen seen' : List String} {a b : α}
    (h : r.readMembers m fields seen a = .ok (seen', b)) (ha : P a) : P b := by
  induction fields generalizing seen a with
  | nil =>
      obtain ⟨-, rfl⟩ := Prod.mk.inj (Except.ok.inj h)
      exact ha
  | cons entry rest ih =>
      obtain ⟨key, n⟩ := entry
      rw [readMembers] at h
      split at h
      · simp at h
      · next f name hfind =>
          split at h
          · simp at h
          · obtain ⟨a', ha', h⟩ := bind_eq_ok.mp h
            obtain ⟨x, hx, hfield⟩ := bind_eq_ok.mp ha'
            obtain rfl : f.set x a = a' := Except.ok.inj hfield
            exact ih h (hset f (mem_of_find hfind) hx a ha)
      · rw [hrest] at h
        obtain ⟨_, -, h⟩ := bind_eq_ok.mp h
        exact ih h ha

/-- A property that every field keeps holds of the records that are read, if it holds of the blank
record and nothing else is kept. -/
theorem yields {r : Record α} (hrest : r.rest = none) (hblank : P r.blank)
    (hset : ∀ f ∈ r.fields, f.codec.read.Yields fun x => ∀ a, P a → P (f.set x a)) :
    r.codec.read.Yields P := by
  have hobject : ∀ {m fields close a}, r.readObject m fields close = .ok a → P a := by
    intro m fields close a h
    simp only [readObject, bind_eq_ok, pure_eq_ok, Except.ok.injEq] at h
    obtain ⟨inner, -, ⟨seen, a⟩, hread, -, -, -, -, rfl⟩ := h
    exact readMembers_yields hrest hset hread hblank
  intro m n a (h : r.read m n = .ok a)
  cases n with
  | object fields close => exact hobject h
  | array items close =>
      rw [read] at h
      split at h
      · obtain ⟨inner, -, h⟩ := bind_eq_ok.mp h
        exact readPositions_induction (fun f hf item _ x a hx ha => hset f hf hx a ha) h hblank
      · simp at h
  | tagged variant n =>
      cases n with
      | object fields close => exact hobject h
      | _ => simp [read] at h
  | scalar s =>
      rw [read] at h
      split at h
      · exact hobject h
      · simp at h
  | _ => simp [read] at h

end Record

end ServiceDocs
