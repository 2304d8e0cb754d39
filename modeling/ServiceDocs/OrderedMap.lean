/-!
# Maps in Order of Insertion

Every map of this library is keyed by text and remembers the order in which its keys
were first given: a document lists its paths, definitions and extension keys in that
order. `OrderedMap` holds the entries as a list. `insert` keeps the place of a key that
is already there and replaces its value; a new key goes to the end.

The type carries no proof that its keys are distinct, so that it may stand inside
recursive types; `Distinct` states it, and every map built from `empty` by `insert` has it.

## Main definitions

* `OrderedMap.insert`, `OrderedMap.extend`: later entries win, places are kept.
* `OrderedMap.get?`: the view through which the operations are specified.
* `OrderedMap.takeOut`: removes a key and fills its place with the last entry.

## Main results

* `OrderedMap.get?_insert`, `OrderedMap.keys_insert`: what an insertion does to the view
  and to the order of the keys.
* `OrderedMap.distinct_insert`, `OrderedMap.distinct_ofList`: insertion keeps the keys
  distinct.
* `OrderedMap.get?_eq_none_iff`: the view and the keys agree.
* `OrderedMap.keys_mapValues`, `OrderedMap.get?_mapValues`: what a change of the values does.
-/

namespace ServiceDocs

/-- A finite map from texts to `α` that remembers the order of its keys. -/
structure OrderedMap (α : Type) where
  /-- The entries in order. -/
  entries : List (String × α)
  deriving DecidableEq, Repr

namespace OrderedMap

variable {κ α β : Type} [DecidableEq κ]

/-- The map without entries. -/
def empty : OrderedMap α := ⟨[]⟩

instance : EmptyCollection (OrderedMap α) := ⟨empty⟩

instance : Inhabited (OrderedMap α) := ⟨empty⟩

/-- The keys in order. -/
def keys (m : OrderedMap α) : List String := m.entries.map (·.1)

/-- The values in the order of their keys. -/
def values (m : OrderedMap α) : List α := m.entries.map (·.2)

/-- Whether the map has no entries. -/
def isEmpty (m : OrderedMap α) : Bool := m.entries.isEmpty

/-- The value of the first entry with a key. -/
def findEntry (key : κ) : List (κ × α) → Option α
  | [] => none
  | entry :: rest => if entry.1 = key then some entry.2 else findEntry key rest

/-- The value of a key, if the key is there. -/
def get? (m : OrderedMap α) (key : String) : Option α := findEntry key m.entries

/-- Whether a key is there. -/
def contains (m : OrderedMap α) (key : String) : Bool := (m.get? key).isSome

/-- Replaces the value of `key` where it stands, or appends a new entry. -/
def insertEntry (key : κ) (value : α) : List (κ × α) → List (κ × α)
  | [] => [(key, value)]
  | entry :: rest =>
    if entry.1 = key then (key, value) :: rest else entry :: insertEntry key value rest

/-- Sets the value of a key. A key that is there keeps its place; a new one goes last. -/
def insert (m : OrderedMap α) (key : String) (value : α) : OrderedMap α :=
  ⟨insertEntry key value m.entries⟩

/-- Inserts the entries of a list one after the other. -/
def insertAll (m : OrderedMap α) (entries : List (String × α)) : OrderedMap α :=
  entries.foldl (fun acc entry => acc.insert entry.1 entry.2) m

/-- The map of a list of entries, the last entry of a key winning. -/
def ofList (entries : List (String × α)) : OrderedMap α := empty.insertAll entries

/-- Inserts every entry of `other`, in its order. -/
def extend (m other : OrderedMap α) : OrderedMap α := m.insertAll other.entries

/-- Applies a function to every value. -/
def mapValues (f : α → β) (m : OrderedMap α) : OrderedMap β :=
  ⟨m.entries.map fun entry => (entry.1, f entry.2)⟩

/-- Removes `key`, the last entry moving into the place that it leaves. -/
def takeOutEntry (key : κ) : List (κ × α) → List (κ × α)
  | [] => []
  | entry :: rest =>
    if entry.1 = key then
      match rest.getLast? with
      | none => []
      | some last => last :: rest.dropLast
    else entry :: takeOutEntry key rest

/-- Removes a key and returns its value with the remaining map. The last entry moves into
the place of the removed one. -/
def takeOut (m : OrderedMap α) (key : String) : Option α × OrderedMap α :=
  match m.get? key with
  | none => (none, m)
  | some value => (some value, ⟨takeOutEntry key m.entries⟩)

/-- No key stands twice. -/
def Distinct (m : OrderedMap α) : Prop := m.keys.Nodup

/-! ### The empty map -/

@[simp] theorem keys_empty : (empty : OrderedMap α).keys = [] := rfl

@[simp] theorem get?_empty (key : String) : (empty : OrderedMap α).get? key = none := rfl

theorem distinct_empty : (empty : OrderedMap α).Distinct := List.nodup_nil

/-! ### Insertion -/

/-- Insertion into a list of entries sets the value of its key and no other. -/
theorem findEntry_insertEntry (key : κ) (value : α) (k : κ) (entries : List (κ × α)) :
    findEntry k (insertEntry key value entries) =
      if key = k then some value else findEntry k entries := by
  induction entries with
  | nil => simp [insertEntry, findEntry]
  | cons entry rest ih =>
    by_cases he : entry.1 = key
    · by_cases hk : key = k <;> simp [insertEntry, findEntry, he, hk]
    · by_cases hk : entry.1 = k
      · have hne : key ≠ k := fun h => he (hk.trans h.symm)
        simp [insertEntry, findEntry, hk, hne, hne.symm]
      · simp [insertEntry, findEntry, he, hk, ih]

/-- Insertion sets the value of its key and no other. -/
theorem get?_insert (m : OrderedMap α) (key : String) (value : α) (k : String) :
    (m.insert key value).get? k = if key = k then some value else m.get? k :=
  findEntry_insertEntry key value k m.entries

/-- Insertion keeps the key of every entry where it stands. -/
theorem map_fst_insertEntry (key : κ) (value : α) (entries : List (κ × α)) :
    (insertEntry key value entries).map (·.1) =
      if key ∈ entries.map (·.1) then entries.map (·.1) else entries.map (·.1) ++ [key] := by
  induction entries with
  | nil => simp [insertEntry]
  | cons entry rest ih =>
    by_cases he : entry.1 = key
    · simp [insertEntry, he]
    · have hne : key ≠ entry.1 := fun h => he h.symm
      simp only [insertEntry, if_neg he, List.map_cons, ih, List.mem_cons, hne, false_or]
      split <;> simp

/-- Insertion keeps the order of the keys; a new key goes last. -/
theorem keys_insert (m : OrderedMap α) (key : String) (value : α) :
    (m.insert key value).keys = if key ∈ m.keys then m.keys else m.keys ++ [key] :=
  map_fst_insertEntry key value m.entries

/-- Insertion keeps the keys distinct. -/
theorem distinct_insert {m : OrderedMap α} (h : m.Distinct) (key : String) (value : α) :
    (m.insert key value).Distinct := by
  unfold Distinct at *
  rw [keys_insert]
  split
  · exact h
  · next hk =>
    rw [List.nodup_append]
    exact ⟨h, by simp, fun a ha b hb => by simp at hb; subst hb; exact fun e => hk (e ▸ ha)⟩

/-- Inserting many entries keeps the keys distinct. -/
theorem distinct_insertAll {m : OrderedMap α} (h : m.Distinct) (entries : List (String × α)) :
    (m.insertAll entries).Distinct := by
  induction entries generalizing m with
  | nil => exact h
  | cons entry rest ih => exact ih (distinct_insert h entry.1 entry.2)

/-- The map of a list has distinct keys, whatever keys the list repeats. -/
theorem distinct_ofList (entries : List (String × α)) : (ofList entries).Distinct :=
  distinct_insertAll distinct_empty entries

/-! ### Looking up -/

/-- No entry is found exactly when the key stands nowhere. -/
theorem findEntry_eq_none_iff (key : κ) (entries : List (κ × α)) :
    findEntry key entries = none ↔ key ∉ entries.map (·.1) := by
  induction entries with
  | nil => simp [findEntry]
  | cons entry rest ih =>
    by_cases he : entry.1 = key
    · simp [findEntry, he]
    · have hne : key ≠ entry.1 := fun h => he h.symm
      simp only [findEntry, if_neg he, ih, List.map_cons, List.mem_cons, hne, false_or]

/-- A key has no value exactly when it is not among the keys. -/
theorem get?_eq_none_iff (m : OrderedMap α) (key : String) :
    m.get? key = none ↔ key ∉ m.keys :=
  findEntry_eq_none_iff key m.entries

/-! ### Values -/

/-- Changing the values keeps the keys and their order. -/
@[simp] theorem keys_mapValues (f : α → β) (m : OrderedMap α) : (m.mapValues f).keys = m.keys := by
  simp [keys, mapValues]

/-- Changing the values changes what is found under each key. -/
@[simp] theorem get?_mapValues (f : α → β) (m : OrderedMap α) (key : String) :
    (m.mapValues f).get? key = (m.get? key).map f := by
  obtain ⟨entries⟩ := m
  simp only [get?, mapValues]
  induction entries with
  | nil => rfl
  | cons entry rest ih =>
    by_cases he : entry.1 = key
    · simp [findEntry, he]
    · simp only [List.map_cons, findEntry, if_neg he, ih]

end OrderedMap

end ServiceDocs
