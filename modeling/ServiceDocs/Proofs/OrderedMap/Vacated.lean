import ServiceDocs.Proofs.OrderedMap

/-!
# The Order That Taking Out Leaves

Taking a key out of a map moves the last key to its place. `vacate` says this of the list of keys
alone. Of the keys that one looks at, the moved one may thereby come to stand in front of others
that it followed: then their order is no longer what it was.

A second key that is taken out moves another key. This can undo the first move, but only if it
makes the two last keys that one looks at change places twice.

## Main definitions

* `OrderedMap.vacate`: a list of keys after one is taken out.
* `OrderedMap.Overtakes`: the moved key passes others.
* `OrderedMap.Restores`: a second move undoes the first one.

## Main results

* `OrderedMap.keys_takeOut`: the keys after one is taken out.
* `OrderedMap.filter_vacate_eq_iff`: when taking out one key keeps the order of others.
* `OrderedMap.vacate_vacate_before`, `OrderedMap.vacate_vacate_behind`: the two shapes of two moves.
* `OrderedMap.filter_vacate_vacate_eq_iff`: when taking out two keys does.
-/

namespace ServiceDocs.OrderedMap

variable {κ α : Type} [DecidableEq κ] {p : κ → Bool} {key first second : κ}
  {keys front back : List κ}

/-! ### The last key moves -/

/-- A list of keys without one of them, the last key standing in its place. -/
def vacate (key : κ) (keys : List κ) : List κ :=
  match keys.getLast? with
  | none => []
  | some last => if key ∈ keys then (keys.set (keys.idxOf key) last).dropLast else keys

/-- The last key moves to the place of the first one that is taken out. -/
theorem vacate_cons_self (key : κ) (rest : List κ) :
    vacate key (key :: rest) =
      match rest.getLast? with
      | none => []
      | some last => last :: rest.dropLast := by
  cases h : rest.getLast? with
  | none =>
      obtain rfl := List.getLast?_eq_none_iff.mp h
      simp [vacate]
  | some last =>
      obtain ⟨start, rfl⟩ := List.getLast?_eq_some_iff.mp h
      simp [vacate, List.getLast?_cons, List.dropLast_cons_of_ne_nil]

/-- Another key in front stays. -/
theorem vacate_cons_of_ne {other : κ} (h : other ≠ key) (rest : List κ) :
    vacate key (other :: rest) = other :: vacate key rest := by
  cases hl : rest.getLast? with
  | none =>
      obtain rfl := List.getLast?_eq_none_iff.mp hl
      simp [vacate, h.symm]
  | some last =>
      have hne : rest ≠ [] := by rintro rfl; exact nomatch hl
      have hset : rest.set (rest.idxOf key) last ≠ [] := by simpa using hne
      simp only [vacate, List.getLast?_cons, hl, Option.getD_some, List.mem_cons, h.symm, false_or,
        List.idxOf_cons_ne rest h, List.set_cons_succ, List.dropLast_cons_of_ne_nil hset]
      split <;> rfl

/-- Keys without the one that is taken out stay as they are. -/
theorem vacate_of_notMem (h : key ∉ keys) : vacate key keys = keys := by
  rw [vacate]
  split
  · next hl => exact (List.getLast?_eq_none_iff.mp hl).symm
  · exact if_neg h

/-- What stands in front of the key stays. -/
theorem vacate_append (h : key ∉ front) (rest : List κ) :
    vacate key (front ++ rest) = front ++ vacate key rest := by
  induction front with
  | nil => rfl
  | cons other front ih =>
      rw [List.mem_cons, not_or] at h
      rw [List.cons_append, vacate_cons_of_ne (Ne.symm h.1), ih h.2, List.cons_append]

/-- A key that stands last leaves no place to fill. -/
theorem vacate_last (h : key ∉ front) : vacate key (front ++ [key]) = front := by
  rw [vacate_append h, vacate_cons_self]
  exact List.append_nil front

/-- The last key moves to the place of the one that is taken out. -/
theorem vacate_inner (h : key ∉ front) (back : List κ) (last : κ) :
    vacate key (front ++ key :: (back ++ [last])) = front ++ last :: back := by
  rw [vacate_append h, vacate_cons_self, List.getLast?_concat, List.dropLast_concat]

/-- Taking out an entry vacates the place of its key. -/
theorem map_fst_takeOutEntry (key : κ) (entries : List (κ × α)) :
    (takeOutEntry key entries).map (·.1) = vacate key (entries.map (·.1)) := by
  induction entries with
  | nil => rfl
  | cons entry rest ih =>
      by_cases he : entry.1 = key
      · rw [takeOutEntry, if_pos he, List.map_cons, he, vacate_cons_self, List.getLast?_map]
        cases rest.getLast? with
        | none => rfl
        | some last => simp [List.map_dropLast]
      · rw [takeOutEntry, if_neg he, List.map_cons, List.map_cons, vacate_cons_of_ne he, ih]

/-- The keys after one is taken out. -/
theorem keys_takeOut (m : OrderedMap α) (key : String) :
    (m.takeOut key).2.keys = vacate key m.keys := by
  rw [takeOut]
  cases h : m.get? key with
  | none => exact (vacate_of_notMem ((get?_eq_none_iff m key).mp h)).symm
  | some value => exact map_fst_takeOutEntry key m.entries

/-- Distinct keys stay distinct. -/
theorem nodup_vacate (hd : keys.Nodup) (key : κ) : (vacate key keys).Nodup := by
  by_cases h : key ∈ keys
  · obtain ⟨front, rest, rfl, hfront⟩ := List.eq_append_cons_of_mem h
    rcases List.eq_nil_or_concat rest with rfl | ⟨back, last, rfl⟩
    · rw [vacate_last hfront]
      exact hd.of_append_left
    · rw [List.concat_eq_append] at hd ⊢
      rw [vacate_inner hfront]
      have hperm : (front ++ (back ++ [last])).Perm (front ++ last :: back) :=
        (List.perm_append_singleton last back).append_left front
      exact hperm.nodup (hd.sublist ((List.sublist_cons_self key _).append_left front))
  · rwa [vacate_of_notMem h]

/-! ### Keys that are passed -/

/-- The last key is looked at and moves in front of another one that is. -/
def Overtakes (p : κ → Bool) (key : κ) (keys : List κ) : Prop :=
  ∃ front back last,
    keys = front ++ key :: (back ++ [last]) ∧ p last = true ∧ back.filter p ≠ []

omit [DecidableEq κ] in
/-- The key that leaves the place is one of the keys. -/
theorem Overtakes.mem (h : Overtakes p key keys) : key ∈ keys := by
  obtain ⟨front, back, last, rfl, -, -⟩ := h
  simp

omit [DecidableEq κ] in
/-- Nothing stands in front of a key that comes first. -/
theorem eq_nil_of_cons_eq_append {key : κ} {rest : List κ} (h : key :: rest = front ++ back)
    (hkey : key ∉ front) : front = [] := by
  cases front with
  | nil => rfl
  | cons other front => exact absurd (List.mem_cons.mpr (.inl (List.cons.inj h).1)) hkey

/-- Taking out a key that is not looked at keeps the order of those that are, unless one of them
passes another one. -/
theorem filter_vacate_eq_iff (hd : keys.Nodup) (hkey : p key = false) :
    (vacate key keys).filter p = keys.filter p ↔ ¬Overtakes p key keys := by
  by_cases h : key ∈ keys
  · obtain ⟨front, rest, rfl, hfront⟩ := List.eq_append_cons_of_mem h
    have hrest : key ∉ rest := (List.nodup_cons.mp hd.of_append_right).1
    have hunique : ∀ {front' rest'}, front ++ key :: rest = front' ++ key :: rest' → rest = rest' :=
      fun he => ((List.append_cons_inj_of_notMem hfront hrest).mp he).2.2
    have hskip : (key :: rest).filter p = rest.filter p := by simp [hkey]
    rcases List.eq_nil_or_concat' rest with rfl | ⟨back, last, rfl⟩
    · rw [vacate_last hfront, List.filter_append, hskip]
      refine iff_of_true (List.append_nil _).symm ?_
      rintro ⟨front', back, last, he, -, -⟩
      simpa using hunique he
    · have hlast : last ∉ back.filter p := by grind
      rw [vacate_inner hfront, List.filter_append, List.filter_append, hskip,
        List.append_cancel_left_eq, List.filter_append]
      constructor
      · rintro hsame ⟨front', back', last', he, hp, hback⟩
        obtain ⟨rfl, hl⟩ := List.append_inj' (hunique he) rfl
        obtain rfl := List.singleton_inj.mp hl
        rw [List.filter_cons_of_pos hp] at hsame
        exact hback (eq_nil_of_cons_eq_append hsame hlast)
      · intro hnot
        by_cases hp : p last = true
        · have hback : back.filter p = [] := by
            by_contra hback
            exact hnot ⟨front, back, last, rfl, hp, hback⟩
          rw [List.filter_cons_of_pos hp, hback]
          simp [hp]
        · simp [hp]
  · rw [vacate_of_notMem h]
    exact iff_of_true rfl fun hover => h hover.mem

/-! ### Moves that are undone -/

/-- Two keys that are looked at stand last. One moves to the place of `first`, the other one then
to that of `second` before it, and no others that are looked at stand in between. -/
def Restores (p : κ → Bool) (first second : κ) (keys : List κ) : Prop :=
  ∃ front middle back x y,
    keys = front ++ second :: (middle ++ first :: (back ++ [x, y])) ∧ p x = true ∧ p y = true ∧
      middle.filter p = [] ∧ back.filter p = []

omit [DecidableEq κ] in
/-- Two keys that move back into order have each moved in front of another one. -/
theorem Restores.overtakes (h : Restores p first second keys) : Overtakes p first keys := by
  obtain ⟨front, middle, back, x, y, rfl, hx, hy, -, -⟩ := h
  exact ⟨front ++ second :: middle, back ++ [x], y, by simp, hy, by simp [hx]⟩

variable {middle : List κ} {x y : κ}

/-- The keys after two moves, the second one to a place before the first one. -/
theorem vacate_vacate_before
    (hd : (front ++ second :: (middle ++ first :: (back ++ [x, y]))).Nodup) :
    vacate second (vacate first (front ++ second :: (middle ++ first :: (back ++ [x, y])))) =
      front ++ x :: (middle ++ y :: back) := by
  have hfirst : vacate first ((front ++ second :: middle) ++ first :: ((back ++ [x]) ++ [y])) =
      (front ++ second :: middle) ++ y :: (back ++ [x]) := vacate_inner (by grind) (back ++ [x]) y
  have hsecond : vacate second (front ++ second :: ((middle ++ y :: back) ++ [x])) =
      front ++ x :: (middle ++ y :: back) := vacate_inner (by grind) (middle ++ y :: back) x
  rw [← hsecond]
  simpa using congrArg (vacate second) hfirst

/-- The keys after two moves, the second one to a place behind the first one. -/
theorem vacate_vacate_behind
    (hd : (front ++ first :: (middle ++ second :: (back ++ [x, y]))).Nodup) :
    vacate second (vacate first (front ++ first :: (middle ++ second :: (back ++ [x, y])))) =
      front ++ y :: (middle ++ x :: back) := by
  have hfirst : vacate first (front ++ first :: ((middle ++ second :: (back ++ [x])) ++ [y])) =
      front ++ y :: (middle ++ second :: (back ++ [x])) :=
    vacate_inner (by grind) (middle ++ second :: (back ++ [x])) y
  have hsecond : vacate second ((front ++ y :: middle) ++ second :: (back ++ [x])) =
      (front ++ y :: middle) ++ x :: back := vacate_inner (by grind) back x
  have hmoved := congrArg (vacate second) hfirst
  simp only [List.append_assoc, List.cons_append] at hmoved hsecond
  exact hmoved.trans hsecond

omit [DecidableEq κ] in
/-- Two keys that moved to places before the others are in order if there are no others. -/
theorem filter_before_eq_iff (hd : (front ++ second :: (middle ++ first :: (back ++ [x, y]))).Nodup)
    (hfirst : p first = false) (hsecond : p second = false) (hx : p x = true) (hy : p y = true) :
    (front ++ x :: (middle ++ y :: back)).filter p =
        (front ++ second :: (middle ++ first :: (back ++ [x, y]))).filter p ↔
      middle.filter p = [] ∧ back.filter p = [] := by
  have hnotMem : x ∉ middle.filter p ++ back.filter p := by grind
  simp only [List.filter_append, List.filter_cons, hx, hy, hfirst, hsecond, if_true,
    Bool.false_eq_true, if_false, List.filter_nil, List.append_cancel_left_eq]
  constructor
  · intro hsame
    have hlead : x :: _ = (middle.filter p ++ back.filter p) ++ [x, y] := hsame.trans (by simp)
    exact List.append_eq_nil_iff.mp (eq_nil_of_cons_eq_append hlead hnotMem)
  · rintro ⟨hmiddle, hback⟩
    simp [hmiddle, hback]

omit [DecidableEq κ] in
/-- The first key that moved stands before the second one, which it followed. -/
theorem filter_behind_ne (hd : (front ++ first :: (middle ++ second :: (back ++ [x, y]))).Nodup)
    (hfirst : p first = false) (hsecond : p second = false) (hx : p x = true) (hy : p y = true) :
    (front ++ y :: (middle ++ x :: back)).filter p ≠
      (front ++ first :: (middle ++ second :: (back ++ [x, y]))).filter p := by
  have hnotMem : y ∉ middle.filter p ++ (back.filter p ++ [x]) := by grind
  simp only [List.filter_append, List.filter_cons, hx, hy, hfirst, hsecond, if_true,
    Bool.false_eq_true, if_false, List.filter_nil, Ne, List.append_cancel_left_eq]
  intro hsame
  have hlead : y :: _ = (middle.filter p ++ (back.filter p ++ [x])) ++ [y] :=
    hsame.trans (by simp)
  simpa using eq_nil_of_cons_eq_append hlead hnotMem

/-- After two moves of which the second one undoes the first one, all is in order. -/
theorem Restores.filter_eq (h : Restores p first second keys) (hd : keys.Nodup)
    (hfirst : p first = false) (hsecond : p second = false) :
    (vacate second (vacate first keys)).filter p = keys.filter p := by
  obtain ⟨front, middle, back, x, y, rfl, hx, hy, hothers⟩ := h
  rw [vacate_vacate_before hd]
  exact (filter_before_eq_iff hd hfirst hsecond hx hy).mpr hothers

/-- If both moves pass keys, then the last two keys move to the two places. -/
theorem exists_of_overtakes_vacate (hd : keys.Nodup) (hsecond : p second = false)
    (h : Overtakes p first keys) (hagain : Overtakes p second (vacate first keys)) :
    ∃ front middle back x y, (p x = true ∧ p y = true) ∧
      (keys = front ++ second :: (middle ++ first :: (back ++ [x, y])) ∨
        keys = front ++ first :: (middle ++ second :: (back ++ [x, y]))) := by
  obtain ⟨front, back, y, rfl, hy, hback⟩ := h
  have hfront : first ∉ front := by grind
  rw [vacate_inner hfront] at hagain
  obtain ⟨front', back', x, he, hx, -⟩ := hagain
  have hne : y ≠ second := by
    rintro rfl
    exact Bool.false_ne_true (hsecond.symm.trans hy)
  rcases List.append_eq_append_iff.mp he with ⟨middle, rfl, hrest⟩ | ⟨middle, rfl, hrest⟩
  · cases middle with
    | nil => exact absurd (List.cons.inj hrest).1 hne
    | cons other middle =>
        obtain ⟨rfl, rfl⟩ : y = other ∧ back = middle ++ second :: (back' ++ [x]) :=
          List.cons.inj hrest
        exact ⟨front, middle, back', x, y, ⟨hx, hy⟩, .inr (by simp)⟩
  · cases middle with
    | nil => exact absurd (List.cons.inj hrest).1.symm hne
    | cons other middle =>
        obtain ⟨rfl, htail⟩ : second = other ∧ back' ++ [x] = middle ++ y :: back :=
          List.cons.inj hrest
        rcases List.eq_nil_or_concat' back with rfl | ⟨back, last, rfl⟩
        · exact absurd rfl hback
        · have hlast : back' ++ [x] = (middle ++ y :: back) ++ [last] := by
            rw [htail, List.append_assoc, List.cons_append]
          obtain ⟨-, hl⟩ := List.append_inj' hlast rfl
          obtain rfl := List.singleton_inj.mp hl
          exact ⟨front', middle, back, x, y, ⟨hx, hy⟩, .inl (by simp)⟩

/-- Taking out a second key brings keys that were passed back into order only by undoing the first
move. -/
theorem restores_of_filter_eq (hd : keys.Nodup) (hfirst : p first = false)
    (hsecond : p second = false) (h : Overtakes p first keys)
    (hsame : (vacate second (vacate first keys)).filter p = keys.filter p) :
    Restores p first second keys := by
  have hpassed : (vacate first keys).filter p ≠ keys.filter p := fun he =>
    (filter_vacate_eq_iff hd hfirst).mp he h
  have hagain : Overtakes p second (vacate first keys) := by
    by_contra hnot
    have hkept := (filter_vacate_eq_iff (nodup_vacate hd first) hsecond).mpr hnot
    exact hpassed (hkept.symm.trans hsame)
  obtain ⟨front, middle, back, x, y, ⟨hx, hy⟩, rfl | rfl⟩ :=
    exists_of_overtakes_vacate hd hsecond h hagain
  · rw [vacate_vacate_before hd, filter_before_eq_iff hd hfirst hsecond hx hy] at hsame
    exact ⟨front, middle, back, x, y, rfl, hx, hy, hsame⟩
  · rw [vacate_vacate_behind hd] at hsame
    exact absurd hsame (filter_behind_ne hd hfirst hsecond hx hy)

/-- Taking out two keys that are not looked at keeps the order of those that are exactly if none of
them passes another one, or the second move undoes the first one. -/
theorem filter_vacate_vacate_eq_iff (hd : keys.Nodup) (hfirst : p first = false)
    (hsecond : p second = false) :
    (vacate second (vacate first keys)).filter p = keys.filter p ↔
      (¬Overtakes p first keys ∧ ¬Overtakes p second (vacate first keys)) ∨
        Restores p first second keys := by
  by_cases h : Overtakes p first keys
  · constructor
    · exact fun hsame => .inr (restores_of_filter_eq hd hfirst hsecond h hsame)
    · rintro (⟨hnot, -⟩ | hrestores)
      · exact absurd h hnot
      · exact hrestores.filter_eq hd hfirst hsecond
  · have hkept := (filter_vacate_eq_iff hd hfirst).mpr h
    rw [← hkept, filter_vacate_eq_iff (nodup_vacate hd first) hsecond]
    constructor
    · exact fun hnot => .inl ⟨h, hnot⟩
    · rintro (⟨-, hnot⟩ | hrestores)
      · exact hnot
      · exact absurd hrestores.overtakes h

end ServiceDocs.OrderedMap
