import Mathlib.Data.List.Nodup
import ServiceDocs.OrderedMap

/-!
# Laws of Ordered Maps

A map with distinct keys is determined by the order of its keys and by what is found under
each of them. Every operation is described through these two: what it does to the keys and
what it does to the view.

## Main results

* `OrderedMap.entries_ext`, `OrderedMap.Distinct.ext`: keys and view determine a map.
* `OrderedMap.get?_extend`, `OrderedMap.keys_extend`: laying one map over another.
* `OrderedMap.extend_eq_of_prefix`: a map that continues another one replaces it when it
  is laid over it.
* `OrderedMap.get?_takeOut`, `OrderedMap.perm_takeOut`: taking a key out.
-/

namespace ServiceDocs.OrderedMap

variable {κ α β : Type} [DecidableEq κ]

/-! ### Entries -/

/-- What is found under a key is an entry. -/
theorem mem_of_findEntry {key : κ} {value : α} {entries : List (κ × α)}
    (h : findEntry key entries = some value) : (key, value) ∈ entries := by
  induction entries with
  | nil => simp [findEntry] at h
  | cons entry rest ih =>
      by_cases he : entry.1 = key
      · simp only [findEntry, he, if_true, Option.some.injEq] at h
        obtain rfl : entry = (key, value) := Prod.ext he h
        exact List.mem_cons_self
      · simp only [findEntry, he, if_false] at h
        exact List.mem_cons_of_mem _ (ih h)

/-- With distinct keys, an entry is what is found under its key. -/
theorem findEntry_of_mem {key : κ} {value : α} {entries : List (κ × α)}
    (hd : (entries.map (·.1)).Nodup) (h : (key, value) ∈ entries) :
    findEntry key entries = some value := by
  induction entries with
  | nil => simp at h
  | cons entry rest ih =>
      rw [List.map_cons, List.nodup_cons] at hd
      rcases List.mem_cons.mp h with rfl | h
      · simp [findEntry]
      · have hne : entry.1 ≠ key := fun he =>
          hd.1 (he ▸ List.mem_map.mpr ⟨(key, value), h, rfl⟩)
        simp only [findEntry, hne, if_false]
        exact ih hd.2 h

/-- What is found in two lists one after the other. -/
theorem findEntry_append (key : κ) (first second : List (κ × α)) :
    findEntry key (first ++ second) = (findEntry key first).or (findEntry key second) := by
  induction first with
  | nil => simp [findEntry]
  | cons entry rest ih =>
      by_cases he : entry.1 = key
      · simp [findEntry, he]
      · simp only [List.cons_append, findEntry, he, if_false, ih]

/-- What is found when the keys are renamed and the values are changed. -/
theorem findEntry_map_key {μ : Type} [DecidableEq μ] {g : κ → μ} (hg : Function.Injective g)
    (f : α → β) (key : κ) (entries : List (κ × α)) :
    findEntry (g key) (entries.map fun entry => (g entry.1, f entry.2)) =
      (findEntry key entries).map f := by
  induction entries with
  | nil => rfl
  | cons entry rest ih =>
      by_cases he : entry.1 = key
      · simp [findEntry, he]
      · simp only [List.map_cons, findEntry, hg.eq_iff, he, if_false, ih]

/-- What is found among the entries whose keys pass a test. -/
theorem findEntry_filter (p : κ → Bool) (key : κ) (entries : List (κ × α)) :
    findEntry key (entries.filter fun entry => p entry.1) =
      if p key then findEntry key entries else none := by
  induction entries with
  | nil => simp [findEntry]
  | cons entry rest ih =>
      rw [List.filter_cons]
      by_cases he : entry.1 = key
      · subst he
        cases hp : p entry.1 with
        | true => simp [findEntry]
        | false => simpa [hp] using ih
      · cases hp : p entry.1 with
        | true => simp only [if_true, findEntry, he, if_false, ih]
        | false => simp only [Bool.false_eq_true, if_false, ih, findEntry, he]

/-- Entries with distinct keys are determined by their keys in order and by what is found
under each key. -/
theorem entries_ext {first second : List (κ × α)} (hd : (first.map (·.1)).Nodup)
    (hk : first.map (·.1) = second.map (·.1))
    (hf : ∀ key, findEntry key first = findEntry key second) : first = second := by
  induction first generalizing second with
  | nil => exact (List.map_eq_nil_iff.mp hk.symm).symm
  | cons entry rest ih =>
      cases second with
      | nil => simp at hk
      | cons other tail =>
          simp only [List.map_cons, List.cons.injEq] at hk
          obtain ⟨hkey, hkeys⟩ := hk
          rw [List.map_cons, List.nodup_cons] at hd
          have hvalue : entry.2 = other.2 := by
            have h := hf entry.1
            simpa [findEntry, hkey] using h
          have htail : rest = tail := by
            refine ih hd.2 hkeys fun key => ?_
            by_cases hne : entry.1 = key
            · have h₁ : findEntry key rest = none :=
                (findEntry_eq_none_iff key rest).mpr (hne ▸ hd.1)
              have h₂ : findEntry key tail = none :=
                (findEntry_eq_none_iff key tail).mpr (hkeys ▸ hne ▸ hd.1)
              rw [h₁, h₂]
            · have h := hf key
              simpa only [findEntry, hne, ← hkey, if_false] using h
          rw [htail, Prod.ext hkey hvalue]

/-! ### Insertion of one entry -/

/-- A new key goes to the end. -/
theorem insertEntry_of_notMem {key : κ} {value : α} {entries : List (κ × α)}
    (h : key ∉ entries.map (·.1)) : insertEntry key value entries = entries ++ [(key, value)] := by
  induction entries with
  | nil => rfl
  | cons entry rest ih =>
      rw [List.map_cons, List.mem_cons, not_or] at h
      rw [insertEntry, if_neg (fun he => h.1 he.symm), ih h.2, List.cons_append]

/-- Insertion of what is there already changes nothing. -/
theorem insertEntry_of_findEntry {key : κ} {value : α} {entries : List (κ × α)}
    (h : findEntry key entries = some value) : insertEntry key value entries = entries := by
  induction entries with
  | nil => simp [findEntry] at h
  | cons entry rest ih =>
      by_cases he : entry.1 = key
      · simp only [findEntry, he, if_true, Option.some.injEq] at h
        rw [insertEntry, if_pos he, ← he, ← h]
      · simp only [findEntry, he, if_false] at h
        rw [insertEntry, if_neg he, ih h]

/-- The second of two insertions at a key wins. -/
theorem insertEntry_insertEntry (key : κ) (first second : α) (entries : List (κ × α)) :
    insertEntry key second (insertEntry key first entries) = insertEntry key second entries := by
  induction entries with
  | nil => simp [insertEntry]
  | cons entry rest ih => by_cases he : entry.1 = key <;> simp [insertEntry, he, ih]

/-- Insertion at a key that is there already may be made first. -/
theorem insertEntry_comm {key other : κ} {entries : List (κ × α)} (hne : key ≠ other)
    (h : key ∈ entries.map (·.1)) (value value' : α) :
    insertEntry key value (insertEntry other value' entries) =
      insertEntry other value' (insertEntry key value entries) := by
  induction entries with
  | nil => exact nomatch h
  | cons entry rest ih =>
      by_cases hk : entry.1 = key
      · have ho : entry.1 ≠ other := hk ▸ hne
        simp [insertEntry, hk, hne]
      · have hrest : key ∈ rest.map (·.1) :=
          (List.mem_cons.mp h).resolve_left fun he => hk he.symm
        by_cases ho : entry.1 = other
        · simp [insertEntry, ho, hne.symm]
        · simp [insertEntry, hk, ho, ih hrest]

/-- Insertion keeps the keys of a list of entries distinct. -/
theorem nodup_insertEntry {key : κ} {value : α} {entries : List (κ × α)}
    (h : (entries.map (·.1)).Nodup) : ((insertEntry key value entries).map (·.1)).Nodup := by
  rw [map_fst_insertEntry]
  split
  · exact h
  · next hk =>
      rw [List.nodup_append]
      refine ⟨h, List.nodup_singleton key, ?_⟩
      rintro a ha b hb rfl
      exact hk (List.mem_singleton.mp hb ▸ ha)

/-- An entry after an insertion is the new one or one that was there. -/
theorem mem_insertEntry {key : κ} {value : α} {entries : List (κ × α)} {entry : κ × α}
    (h : entry ∈ insertEntry key value entries) : entry = (key, value) ∨ entry ∈ entries := by
  induction entries with
  | nil => exact .inl (List.mem_singleton.mp h)
  | cons head rest ih =>
      rw [insertEntry] at h
      split at h
      · rcases List.mem_cons.mp h with h | h
        · exact .inl h
        · exact .inr (List.mem_cons_of_mem _ h)
      · rcases List.mem_cons.mp h with h | h
        · exact .inr (h ▸ List.mem_cons_self)
        · exact (ih h).imp_right (List.mem_cons_of_mem _)

/-! ### Maps -/

/-- Keys and view determine a map with distinct keys. -/
theorem Distinct.ext {m m' : OrderedMap α} (hd : m.Distinct) (hk : m.keys = m'.keys)
    (hg : ∀ key, m.get? key = m'.get? key) : m = m' := by
  obtain ⟨entries⟩ := m
  obtain ⟨entries'⟩ := m'
  exact congrArg OrderedMap.mk (entries_ext hd hk hg)

/-- The entry of a value that is found. -/
theorem mem_entries_of_get? {m : OrderedMap α} {key : String} {value : α}
    (h : m.get? key = some value) : (key, value) ∈ m.entries :=
  mem_of_findEntry h

/-- Insertion of what is there already changes nothing. -/
theorem insert_of_get? {m : OrderedMap α} {key : String} {value : α}
    (h : m.get? key = some value) : m.insert key value = m :=
  congrArg OrderedMap.mk (insertEntry_of_findEntry h)

/-- The second of two insertions at a key wins. -/
theorem insert_insert (m : OrderedMap α) (key : String) (first second : α) :
    (m.insert key first).insert key second = m.insert key second :=
  congrArg OrderedMap.mk (insertEntry_insertEntry key first second m.entries)

/-- Insertion at a key that is there already may be made first. -/
theorem insert_comm {m : OrderedMap α} {key other : String} (hne : key ≠ other) (h : key ∈ m.keys)
    (value value' : α) :
    (m.insert other value').insert key value = (m.insert key value).insert other value' :=
  congrArg OrderedMap.mk (insertEntry_comm hne h value value')

/-- Keys that are there keep their places when another one is inserted. -/
theorem keys_prefix_insert (m : OrderedMap α) (key : String) (value : α) :
    m.keys <+: (m.insert key value).keys := by
  rw [keys_insert]
  split
  · exact List.prefix_rfl
  · exact List.prefix_append _ _

/-- A key after an insertion is the new one or one that was there. -/
theorem mem_keys_insert_iff {m : OrderedMap α} {key k : String} {value : α} :
    k ∈ (m.insert key value).keys ↔ k ∈ m.keys ∨ k = key := by
  rw [keys_insert]
  split
  · next h => exact ⟨.inl, fun hk => hk.elim id (· ▸ h)⟩
  · rw [List.mem_append, List.mem_singleton]

/-- A new key goes to the end. -/
theorem entries_insert_of_notMem {m : OrderedMap α} {key : String} {value : α}
    (h : key ∉ m.keys) : (m.insert key value).entries = m.entries ++ [(key, value)] :=
  insertEntry_of_notMem h

/-- An entry after an insertion is the new one or one that was there. -/
theorem mem_entries_insert {m : OrderedMap α} {key : String} {value : α}
    {entry : String × α} (h : entry ∈ (m.insert key value).entries) :
    entry = (key, value) ∨ entry ∈ m.entries :=
  mem_insertEntry h

/-- Changing the values keeps the keys distinct. -/
theorem Distinct.mapValues {m : OrderedMap α} (h : m.Distinct) (f : α → β) :
    (m.mapValues f).Distinct := by
  rw [Distinct, keys_mapValues]
  exact h

/-! ### Laying one map over another -/

/-- What is found after entries are inserted one after the other: the last of them wins. -/
theorem get?_insertAll (m : OrderedMap α) (entries : List (String × α)) (key : String) :
    (m.insertAll entries).get? key = (findEntry key entries.reverse).or (m.get? key) := by
  induction entries generalizing m with
  | nil => simp [insertAll, findEntry]
  | cons entry rest ih =>
      have hstep : m.insertAll (entry :: rest) = (m.insert entry.1 entry.2).insertAll rest := rfl
      rw [hstep, ih, List.reverse_cons, findEntry_append, get?_insert, Option.or_assoc]
      congr 1
      by_cases he : entry.1 = key <;> simp [findEntry, he]

/-- With distinct keys the order in which one looks does not matter. -/
theorem findEntry_reverse {key : κ} {entries : List (κ × α)} (hd : (entries.map (·.1)).Nodup) :
    findEntry key entries.reverse = findEntry key entries := by
  cases h : findEntry key entries with
  | none =>
      rw [findEntry_eq_none_iff] at h ⊢
      simpa using h
  | some value =>
      refine findEntry_of_mem ?_ (List.mem_reverse.mpr (mem_of_findEntry h))
      rw [List.map_reverse, List.nodup_reverse]
      exact hd

/-- The keys after entries with distinct keys are inserted: the old ones in their order, then
the new ones in theirs. -/
theorem keys_insertAll {entries : List (String × α)} (hd : (entries.map (·.1)).Nodup)
    (m : OrderedMap α) :
    (m.insertAll entries).keys =
      m.keys ++ (entries.map (·.1)).filter fun key => key ∉ m.keys := by
  induction entries generalizing m with
  | nil => simp [insertAll]
  | cons entry rest ih =>
      rw [List.map_cons, List.nodup_cons] at hd
      have hstep : m.insertAll (entry :: rest) = (m.insert entry.1 entry.2).insertAll rest := rfl
      rw [hstep, ih hd.2, keys_insert, List.map_cons, List.filter_cons]
      by_cases hk : entry.1 ∈ m.keys
      · simp [hk]
      · have hrest : (rest.map (·.1)).filter (fun key => decide (key ∉ m.keys ++ [entry.1])) =
            (rest.map (·.1)).filter fun key => decide (key ∉ m.keys) := by
          refine List.filter_congr fun key hkey => ?_
          have hne : key ≠ entry.1 := fun he => hd.1 (he ▸ hkey)
          simp [hne]
        simp only [hk, if_false, hrest, not_false_eq_true, decide_true, if_true,
          List.append_assoc, List.singleton_append]

/-- A key after many insertions is one that was there or one of the entries. -/
theorem mem_keys_insertAll_iff {m : OrderedMap α} {entries : List (String × α)} {key : String} :
    key ∈ (m.insertAll entries).keys ↔ key ∈ m.keys ∨ key ∈ entries.map (·.1) := by
  induction entries generalizing m with
  | nil => simp [insertAll]
  | cons entry rest ih =>
      have hstep : m.insertAll (entry :: rest) = (m.insert entry.1 entry.2).insertAll rest := rfl
      rw [hstep, ih, mem_keys_insert_iff, List.map_cons, List.mem_cons, or_assoc]

/-- The keys of a map that is made of a list are those in the list. -/
theorem mem_keys_ofList_iff {entries : List (String × α)} {key : String} :
    key ∈ (ofList entries).keys ↔ key ∈ entries.map (·.1) :=
  mem_keys_insertAll_iff.trans (or_iff_right List.not_mem_nil)

/-- Inserted into nothing, entries with distinct keys stay as they are. -/
theorem entries_insertAll_empty {entries : List (String × α)} (hd : (entries.map (·.1)).Nodup) :
    ((empty : OrderedMap α).insertAll entries).entries = entries := by
  have hkeys := keys_insertAll hd (empty : OrderedMap α)
  have hview := get?_insertAll (empty : OrderedMap α) entries
  refine entries_ext ?_ ?_ fun key => ?_
  · exact distinct_insertAll distinct_empty entries
  · simpa [keys, empty] using hkeys
  · have h := hview key
    rw [findEntry_reverse hd, get?_empty, Option.or_none] at h
    exact h

/-- What is found after one map is laid over another. -/
theorem get?_extend {m other : OrderedMap α} (hd : other.Distinct) (key : String) :
    (m.extend other).get? key = (other.get? key).or (m.get? key) := by
  rw [extend, get?_insertAll, findEntry_reverse hd]
  rfl

/-- The keys after one map is laid over another. -/
theorem keys_extend {other : OrderedMap α} (hd : other.Distinct) (m : OrderedMap α) :
    (m.extend other).keys = m.keys ++ other.keys.filter fun key => key ∉ m.keys :=
  keys_insertAll hd m

/-- Laying one map over another keeps the keys distinct. -/
theorem Distinct.extend {m : OrderedMap α} (hd : m.Distinct) (other : OrderedMap α) :
    (m.extend other).Distinct :=
  distinct_insertAll hd other.entries

/-- An entry after one map is laid over another stems from one of the two. -/
theorem mem_entries_insertAll {m : OrderedMap α} {entries : List (String × α)}
    {entry : String × α} (h : entry ∈ (m.insertAll entries).entries) :
    entry ∈ m.entries ∨ entry ∈ entries := by
  induction entries generalizing m with
  | nil => exact .inl h
  | cons head rest ih =>
      rcases ih (m := m.insert head.1 head.2) h with h | h
      · rcases mem_entries_insert h with h | h
        · exact .inr (h ▸ List.mem_cons_self)
        · exact .inl h
      · exact .inr (List.mem_cons_of_mem _ h)

/-- The entries of a map that is made of a list are entries of the list. -/
theorem mem_of_mem_ofList {entries : List (String × α)} {entry : String × α}
    (h : entry ∈ (ofList entries).entries) : entry ∈ entries :=
  (mem_entries_insertAll h).resolve_left List.not_mem_nil

/-- The entries that are kept of a map that another one is laid over. -/
theorem filter_insertAll (p : String → Bool) (m : OrderedMap α) (entries : List (String × α)) :
    (m.insertAll entries).entries.filter (fun entry => p entry.1) =
      ((⟨m.entries.filter fun entry => p entry.1⟩ : OrderedMap α).insertAll
        (entries.filter fun entry => p entry.1)).entries := by
  have hinsert : ∀ (key : String) (value : α) (entries : List (String × α)),
      (insertEntry key value entries).filter (fun entry => p entry.1) =
        if p key then insertEntry key value (entries.filter fun entry => p entry.1)
        else entries.filter fun entry => p entry.1 := by
    intro key value entries
    induction entries with
    | nil => by_cases hp : p key <;> simp [insertEntry, hp]
    | cons entry rest ih =>
        by_cases he : entry.1 = key
        · by_cases hp : p key <;> simp [insertEntry, he, hp]
        · rw [insertEntry, if_neg he, List.filter_cons, List.filter_cons, ih]
          by_cases hp : p key <;> by_cases hpe : p entry.1 <;> simp [insertEntry, he, hp, hpe]
  induction entries generalizing m with
  | nil => rfl
  | cons entry rest ih =>
      have hstep : m.insertAll (entry :: rest) = (m.insert entry.1 entry.2).insertAll rest := rfl
      rw [hstep, ih, insert, hinsert, List.filter_cons]
      split <;> rfl

/-- A map that continues the keys of another one replaces it when it is laid over it. -/
theorem extend_eq_of_prefix {m other : OrderedMap α} (hd : other.Distinct)
    (hp : m.keys <+: other.keys) : m.extend other = other := by
  obtain ⟨new, hnew⟩ := hp
  have hnodup : (m.keys ++ new).Nodup := hnew ▸ hd
  have hkeys : (m.extend other).keys = other.keys := by
    rw [keys_extend hd, ← hnew, List.filter_append]
    have h₁ : m.keys.filter (fun key => decide (key ∉ m.keys)) = [] :=
      List.filter_eq_nil_iff.mpr fun key hkey => by simp [hkey]
    have h₂ : new.filter (fun key => decide (key ∉ m.keys)) = new := by
      refine List.filter_eq_self.mpr fun key hkey => decide_eq_true fun hm => ?_
      exact (List.nodup_append.mp hnodup).2.2 key hm key hkey rfl
    rw [h₁, h₂, List.nil_append]
  refine (Distinct.ext hd hkeys.symm fun key => ?_).symm
  rw [get?_extend hd]
  cases h : other.get? key with
  | some value => rfl
  | none =>
      have hk : key ∉ m.keys := fun hm => by
        rw [get?_eq_none_iff, ← hnew] at h
        exact h (List.mem_append_left _ hm)
      exact ((get?_eq_none_iff m key).mpr hk).symm

/-- Laying entries over a map that has them changes nothing. -/
theorem extend_eq_self {m other : OrderedMap α}
    (h : ∀ entry ∈ other.entries, m.get? entry.1 = some entry.2) : m.extend other = m := by
  obtain ⟨entries⟩ := other
  induction entries with
  | nil => rfl
  | cons entry rest ih =>
      obtain ⟨hentry, hrest⟩ := List.forall_mem_cons.mp h
      have hstep : m.extend ⟨entry :: rest⟩ = (m.insert entry.1 entry.2).extend ⟨rest⟩ := rfl
      rw [hstep, insert_of_get? hentry, ih hrest]

/-- The keys of a map are the first ones after another map is laid over it. -/
theorem keys_prefix_extend {m other : OrderedMap α} (hd : other.Distinct) :
    m.keys <+: (m.extend other).keys := by
  rw [keys_extend hd]
  exact List.prefix_append _ _

/-! ### Taking a key out -/

/-- Taking a key out leaves the other entries, perhaps in another order. -/
theorem perm_takeOutEntry {key : κ} {entries : List (κ × α)} (hd : (entries.map (·.1)).Nodup) :
    (takeOutEntry key entries).Perm (entries.filter fun entry => entry.1 ≠ key) := by
  induction entries with
  | nil => exact .nil
  | cons entry rest ih =>
      rw [List.map_cons, List.nodup_cons] at hd
      by_cases he : entry.1 = key
      · have hrest : rest.filter (fun entry => decide (entry.1 ≠ key)) = rest := by
          refine List.filter_eq_self.mpr fun other hother => decide_eq_true fun h => ?_
          exact hd.1 (he.trans h.symm ▸ List.mem_map.mpr ⟨other, hother, rfl⟩)
        rw [takeOutEntry, if_pos he, List.filter_cons, hrest]
        simp only [he, ne_eq, not_true_eq_false, decide_false]
        cases hl : rest.getLast? with
        | none => rw [List.getLast?_eq_none_iff.mp hl]; exact .nil
        | some last =>
            -- the last entry now stands first, and nothing is lost
            obtain ⟨start, rfl⟩ := List.getLast?_eq_some_iff.mp hl
            simpa using (List.perm_append_singleton last start).symm
      · rw [takeOutEntry, if_neg he, List.filter_cons]
        simp only [ne_eq, he, not_false_eq_true, decide_true, if_true]
        exact (ih hd.2).cons entry

/-- The value that is taken out. -/
theorem fst_takeOut (m : OrderedMap α) (key : String) : (m.takeOut key).1 = m.get? key := by
  rw [takeOut]
  cases m.get? key <;> rfl

/-- What is left after a key is taken out. -/
theorem perm_takeOut {m : OrderedMap α} (hd : m.Distinct) (key : String) :
    (m.takeOut key).2.entries.Perm (m.entries.filter fun entry => entry.1 ≠ key) := by
  rw [takeOut]
  cases h : m.get? key with
  | some value => exact perm_takeOutEntry hd
  | none =>
      have hk : m.entries.filter (fun entry => decide (entry.1 ≠ key)) = m.entries := by
        refine List.filter_eq_self.mpr fun entry hentry => decide_eq_true fun he => ?_
        exact (get?_eq_none_iff m key).mp h (he ▸ List.mem_map.mpr ⟨entry, hentry, rfl⟩)
      rw [hk]

/-- Taking a key out keeps the other keys distinct. -/
theorem Distinct.takeOut {m : OrderedMap α} (hd : m.Distinct) (key : String) :
    (m.takeOut key).2.Distinct := by
  have hp := (perm_takeOut hd key).map (·.1)
  have hs : ((m.entries.filter fun entry => entry.1 ≠ key).map (·.1)).Sublist m.keys :=
    List.filter_sublist.map _
  exact hp.nodup_iff.mpr (hs.nodup hd)

/-- What is found after a key is taken out. -/
theorem get?_takeOut {m : OrderedMap α} (hd : m.Distinct) (key k : String) :
    (m.takeOut key).2.get? k = if k = key then none else m.get? k := by
  have hfilter := findEntry_filter (fun name : String => decide (name ≠ key)) k m.entries
  have hp := perm_takeOut hd key
  have hview : (m.takeOut key).2.get? k =
      findEntry k (m.entries.filter fun entry => decide (entry.1 ≠ key)) := by
    have hd' : ((m.takeOut key).2.entries.map (·.1)).Nodup := Distinct.takeOut hd key
    cases h : (m.takeOut key).2.get? k with
    | some value =>
        refine (findEntry_of_mem ?_ (hp.mem_iff.mp (mem_entries_of_get? h))).symm
        exact (hp.map (·.1)).nodup_iff.mp hd'
    | none =>
        refine ((findEntry_eq_none_iff k _).mpr fun hk => ?_).symm
        exact (get?_eq_none_iff _ k).mp h ((hp.map (·.1)).mem_iff.mpr hk)
  rw [hview, hfilter]
  by_cases hk : k = key <;> simp [hk, get?]

end ServiceDocs.OrderedMap
