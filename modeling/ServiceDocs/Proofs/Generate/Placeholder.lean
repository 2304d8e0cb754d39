import Mathlib.Data.List.TakeWhile
import ServiceDocs.Generate.Placeholder

/-!
# Where the Placeholders of a Path Stand

A path names a variable part where an opening brace is followed by letters and a closing brace, with
no other brace between them. So an opening brace names a part exactly if the next brace is a closing
one and does not follow immediately. The path is read once, from the left, and the names are found
in the order of their places; a brace that is not closed, is opened again or is closed without a
name gives none, and neither does a closing brace that closes nothing.

The reader holds the letters since the last opening brace. They are read as if they stood in front
of the path that is left: the name that they begin comes first, and the names of the path that is
left follow. Another way to find the names is to cut the path at its opening braces. A piece then
holds a name if there is a closing brace in it and letters in front of the first one.

## Main definitions

* `isBrace`: the characters that a name does not have.
* `NamedAt`: a name that stands between braces at a place.
* `OpensName`: an opening brace that names a part, told by the braces alone.
* `nameAt?`: the name at a place.
* `pieceName?`: the name that a piece between opening braces holds.

## Main results

* `nameAt?_eq_some_iff`, `isSome_nameAt?_iff`: the name at a place, and where there is one.
* `placeholdersFrom_none_eq_pieces`: the names are those of the pieces.
* `placeholders_eq`: the placeholders are the names at the places of the path, in order.
-/

namespace ServiceDocs

/-- A brace. -/
def isBrace (c : Char) : Bool := c = '\x7b' || c = '\x7d'

/-- A name that a path holds between braces, the first of which stands at a place. -/
def NamedAt (path : String) (place : Nat) (name : String) : Prop :=
  name ≠ "" ∧ (∀ c ∈ name.toList, isBrace c = false) ∧
    ∃ before after : String, path = before ++ "\x7b" ++ name ++ "\x7d" ++ after ∧
      before.length = place

/-- An opening brace at a place of a path. The next brace is a closing one, and it does not follow
immediately. -/
def OpensName (path : String) (place : Nat) : Prop :=
  path.toList[place]? = some '\x7b' ∧ ∃ close, place + 1 < close ∧
    path.toList[close]? = some '\x7d' ∧
      ∀ between, place < between → between < close →
        ∀ c ∈ path.toList[between]?, isBrace c = false

/-- The letters that a text begins with, up to a closing brace. There must be some. -/
def closedName? (cs : List Char) : Option (List Char) :=
  if cs.takeWhile (!isBrace ·) ≠ [] ∧ (cs.dropWhile (!isBrace ·)).head? = some '\x7d' then
    some (cs.takeWhile (!isBrace ·))
  else none

/-- The name between the braces that a text begins with. -/
def bracedName? : List Char → Option String
  | [] => none
  | c :: rest => if c = '\x7b' then (closedName? rest).map String.ofList else none

/-- The name between braces at a place of a path. -/
def nameAt? (path : String) (place : Nat) : Option String := bracedName? (path.toList.drop place)

variable {cs name : List Char} {path : String} {place : Nat}

/-! ### The name that a text begins with -/

@[simp]
theorem isBrace_opening : isBrace '\x7b' = true := by decide

@[simp]
theorem isBrace_closing : isBrace '\x7d' = true := by decide

section
variable (h : ∀ c ∈ name, isBrace c = false)
include h

/-- What stands in front of the first brace goes on where letters are put in front. -/
theorem takeWhile_letters_append (cs : List Char) :
    (name ++ cs).takeWhile (!isBrace ·) = name ++ cs.takeWhile (!isBrace ·) :=
  List.takeWhile_append_of_pos fun c hc => by rw [h c hc, Bool.not_false]

/-- What follows from the first brace on does not change where letters are put in front. -/
theorem dropWhile_letters_append (cs : List Char) :
    (name ++ cs).dropWhile (!isBrace ·) = cs.dropWhile (!isBrace ·) :=
  List.dropWhile_append_of_pos fun c hc => by rw [h c hc, Bool.not_false]

/-- Letters that nothing closes are no name. -/
theorem closedName?_letters : closedName? name = none := by
  have hrest := dropWhile_letters_append h []
  rw [List.append_nil] at hrest
  simp [closedName?, hrest]

/-- Nor are letters up to an opening brace. -/
theorem closedName?_opened (cs : List Char) : closedName? (name ++ '\x7b' :: cs) = none := by
  simp [closedName?, dropWhile_letters_append h]

/-- Letters up to a closing brace are a name. -/
theorem closedName?_closed (hname : name ≠ []) (cs : List Char) :
    closedName? (name ++ '\x7d' :: cs) = some name := by
  simp [closedName?, takeWhile_letters_append h, dropWhile_letters_append h, hname]

end

/-- Without letters there is no name. -/
theorem closedName?_empty (cs : List Char) : closedName? ('\x7d' :: cs) = none := by
  simp [closedName?]

/-- A closed name is made of letters, at least one, and ends at a closing brace. -/
theorem closedName?_eq_some_iff :
    closedName? cs = some name ↔ name ≠ [] ∧ (∀ c ∈ name, isBrace c = false) ∧
      ∃ rest, cs = name ++ '\x7d' :: rest := by
  constructor
  · intro h
    rw [closedName?, Option.ite_none_right_eq_some, Option.some.injEq] at h
    obtain ⟨⟨hne, hclose⟩, rfl⟩ := h
    obtain ⟨rest, hrest⟩ := List.head?_eq_some_iff.mp hclose
    refine ⟨hne, fun c hc => ?_, rest, ?_⟩
    · simpa using List.mem_takeWhile_imp hc
    · rw [← hrest, List.takeWhile_append_dropWhile]
  · rintro ⟨hne, hletters, rest, rfl⟩
    exact closedName?_closed hletters hne rest

/-! ### The names that are found -/

/-- A character is the opening brace, the closing one or a letter. -/
theorem isBrace_cases (c : Char) : c = '\x7b' ∨ c = '\x7d' ∨ isBrace c = false := by
  by_cases hopen : c = '\x7b'
  · exact .inl hopen
  by_cases hclose : c = '\x7d'
  · exact .inr (.inl hclose)
  · exact .inr (.inr (by simp [isBrace, hopen, hclose]))

/-- An opening brace begins a name and forgets one that has begun. -/
theorem placeholdersFrom_opening (name? : Option (List Char)) (rest : List Char) :
    placeholdersFrom name? ('\x7b' :: rest) = placeholdersFrom (some []) rest := by
  rw [placeholdersFrom.eq_def]
  rfl

/-- A letter goes on with a name that has begun, and is skipped else. -/
theorem placeholdersFrom_letter {c : Char} (hc : isBrace c = false) (name? : Option (List Char))
    (rest : List Char) :
    placeholdersFrom name? (c :: rest) = placeholdersFrom (name?.map (c :: ·)) rest := by
  have hopen : c ≠ '\x7b' := fun h => by simp [h] at hc
  have hclose : c ≠ '\x7d' := fun h => by simp [h] at hc
  rw [placeholdersFrom.eq_def]
  simp only [if_neg hopen, if_neg hclose]

/-- The name that the letters since an opening brace begin comes first. -/
theorem placeholdersFrom_some (name : List Char) (h : ∀ c ∈ name, isBrace c = false)
    (cs : List Char) :
    placeholdersFrom (some name) cs =
      ((closedName? (name.reverse ++ cs)).map String.ofList).toList ++
        placeholdersFrom none cs := by
  have hletters : ∀ {name : List Char}, (∀ c ∈ name, isBrace c = false) →
      ∀ c ∈ name.reverse, isBrace c = false := fun h c hc => h c (List.mem_reverse.mp hc)
  induction cs generalizing name with
  | nil =>
      rw [List.append_nil, closedName?_letters (hletters h)]
      rfl
  | cons c rest ih =>
      rcases isBrace_cases c with rfl | rfl | hc
      · -- the name is given up, and another one begins
        rw [closedName?_opened (hletters h), placeholdersFrom_opening, placeholdersFrom_opening]
        rfl
      · cases name with
        | nil =>
            rw [List.reverse_nil, List.nil_append, closedName?_empty]
            rfl
        | cons last before =>
            rw [closedName?_closed (hletters h) (by simp)]
            rfl
      · rw [placeholdersFrom_letter hc, placeholdersFrom_letter hc, Option.map_some,
          Option.map_none, ih (c :: name) (List.forall_mem_cons.mpr ⟨hc, h⟩), List.reverse_cons,
          List.append_assoc]
        rfl

/-- The name at the first place of a text comes first. -/
theorem placeholdersFrom_none_cons (c : Char) (rest : List Char) :
    placeholdersFrom none (c :: rest) =
      (bracedName? (c :: rest)).toList ++ placeholdersFrom none rest := by
  rw [bracedName?]
  rcases isBrace_cases c with rfl | rfl | hc
  · rw [placeholdersFrom_opening, placeholdersFrom_some [] (List.forall_mem_nil _)]
    rfl
  · rfl
  · have hopen : c ≠ '\x7b' := fun h => by simp [h] at hc
    rw [placeholdersFrom_letter hc, if_neg hopen]
    rfl

/-- The names of a text are found at its places, in order. -/
theorem placeholdersFrom_none (cs : List Char) :
    placeholdersFrom none cs =
      (List.range cs.length).filterMap fun place => bracedName? (cs.drop place) := by
  induction cs with
  | nil => rfl
  | cons c rest ih =>
      rw [placeholdersFrom_none_cons, ih, List.length_cons, List.range_succ_eq_map,
        List.filterMap_cons, List.filterMap_map, List.drop_zero]
      cases bracedName? (c :: rest) <;> rfl

/-! ### Places -/

/-- A name in braces is made of letters, at least one, and stands between the two braces. -/
theorem bracedName?_eq_some_iff {name : String} :
    bracedName? cs = some name ↔ name ≠ "" ∧ (∀ c ∈ name.toList, isBrace c = false) ∧
      ∃ rest, cs = '\x7b' :: (name.toList ++ '\x7d' :: rest) := by
  cases cs with
  | nil => simp [bracedName?]
  | cons c cs =>
      rw [bracedName?, Option.ite_none_right_eq_some, Option.map_eq_some_iff]
      constructor
      · rintro ⟨rfl, letters, hletters, rfl⟩
        obtain ⟨hne, hall, rest, rfl⟩ := closedName?_eq_some_iff.mp hletters
        rw [String.toList_ofList]
        exact ⟨fun h => hne (by simpa using congrArg String.toList h), hall, rest, rfl⟩
      · rintro ⟨hne, hall, rest, hcs⟩
        obtain ⟨rfl, rfl⟩ := List.cons.inj hcs
        exact ⟨rfl, name.toList, closedName?_eq_some_iff.mpr
          ⟨fun h => hne (String.toList_eq_nil_iff.mp h), hall, rest, rfl⟩, String.ofList_toList⟩

/-- The name at a place is the one that the path holds between braces there. -/
theorem nameAt?_eq_some_iff {name : String} :
    nameAt? path place = some name ↔ NamedAt path place name := by
  rw [nameAt?, bracedName?_eq_some_iff, NamedAt]
  refine and_congr_right fun _ => and_congr_right fun _ => ?_
  constructor
  · rintro ⟨rest, hrest⟩
    have hplace : place < path.toList.length := by
      refine List.length_lt_of_drop_ne_nil ?_
      rw [hrest]
      exact List.cons_ne_nil _ _
    refine ⟨.ofList (path.toList.take place), .ofList rest, ?_, ?_⟩
    · have hpath := List.take_append_drop place path.toList
      rw [hrest] at hpath
      exact String.toList_inj.mp (hpath.symm.trans (by simp))
    · rw [String.length_ofList, List.length_take_of_le hplace.le]
  · rintro ⟨before, after, rfl, rfl⟩
    exact ⟨after.toList, by simp [← String.length_toList]⟩

/-- A name is closed if the first brace comes after a letter and is a closing one. -/
theorem isSome_closedName?_iff :
    (closedName? cs).isSome ↔ ∃ close, 0 < close ∧ cs[close]? = some '\x7d' ∧
      ∀ between < close, ∀ c ∈ cs[between]?, isBrace c = false := by
  constructor
  · intro h
    obtain ⟨name, hname⟩ := Option.isSome_iff_exists.mp h
    obtain ⟨hne, hall, rest, rfl⟩ := closedName?_eq_some_iff.mp hname
    refine ⟨name.length, List.length_pos_iff.mpr hne, by simp, fun between hbetween c hc => ?_⟩
    rw [List.getElem?_append_left hbetween] at hc
    exact hall c (List.mem_of_getElem? hc)
  · rintro ⟨close, hpos, hclose, hall⟩
    obtain ⟨hlt, hchar⟩ := List.getElem?_eq_some_iff.mp hclose
    have hcs : cs = cs.take close ++ '\x7d' :: cs.drop (close + 1) := by
      rw [← hchar, ← List.drop_eq_getElem_cons, List.take_append_drop]
    refine Option.isSome_iff_exists.mpr
      ⟨cs.take close, closedName?_eq_some_iff.mpr ⟨?_, ?_, _, hcs⟩⟩
    · exact List.ne_nil_of_length_pos (by rw [List.length_take]; omega)
    · intro c hc
      obtain ⟨between, hbetween, rfl⟩ := List.mem_iff_getElem.mp hc
      rw [List.length_take] at hbetween
      refine hall between (by omega) _ ?_
      simp

/-- A place has a name exactly if an opening brace stands there whose next brace is a closing one
that does not follow immediately. -/
theorem isSome_nameAt?_iff : (nameAt? path place).isSome ↔ OpensName path place := by
  have hopen : (nameAt? path place).isSome ↔ path.toList[place]? = some '\x7b' ∧
      (closedName? (path.toList.drop (place + 1))).isSome := by
    rw [nameAt?]
    by_cases hplace : place < path.toList.length
    · rw [List.drop_eq_getElem_cons hplace, bracedName?, List.getElem?_eq_getElem hplace]
      split <;> simp_all
    · rw [List.drop_eq_nil_of_le (not_lt.mp hplace)]
      simp [bracedName?, List.getElem?_eq_none (not_lt.mp hplace)]
  rw [hopen, isSome_closedName?_iff, OpensName]
  simp only [List.getElem?_drop]
  refine and_congr_right fun _ => ⟨?_, ?_⟩
  · rintro ⟨close, hpos, hclose, hall⟩
    refine ⟨place + 1 + close, by omega, hclose, fun between hafter hbefore c hc => ?_⟩
    refine hall (between - (place + 1)) (by omega) c ?_
    rwa [Nat.add_sub_cancel' hafter]
  · rintro ⟨close, hlt, hclose, hall⟩
    refine ⟨close - (place + 1), by omega, ?_, fun between hbefore => ?_⟩
    · rwa [Nat.add_sub_cancel' hlt.le]
    · exact hall _ (by omega) (by omega)

/-! ### Pieces between opening braces -/

/-- What stands in front of the first closing brace of a piece. -/
def pieceName? (piece : List Char) : Option (List Char) :=
  if piece.takeWhile (· != '\x7d') ≠ [] ∧ '\x7d' ∈ piece then
    some (piece.takeWhile (· != '\x7d'))
  else none

/-- A text is letters, perhaps with a brace behind them. -/
theorem exists_letters (cs : List Char) :
    ∃ letters, (∀ c ∈ letters, isBrace c = false) ∧
      (cs = letters ∨ ∃ rest, cs = letters ++ '\x7b' :: rest ∨ cs = letters ++ '\x7d' :: rest) := by
  induction cs with
  | nil => exact ⟨[], List.forall_mem_nil _, .inl rfl⟩
  | cons c cs ih =>
      obtain ⟨letters, hletters, hcs⟩ := ih
      rcases isBrace_cases c with rfl | rfl | hc
      · exact ⟨[], List.forall_mem_nil _, .inr ⟨cs, .inl rfl⟩⟩
      · exact ⟨[], List.forall_mem_nil _, .inr ⟨cs, .inr rfl⟩⟩
      · refine ⟨c :: letters, List.forall_mem_cons.mpr ⟨hc, hletters⟩, ?_⟩
        rcases hcs with rfl | ⟨rest, rfl | rfl⟩
        · exact .inl rfl
        · exact .inr ⟨rest, .inl rfl⟩
        · exact .inr ⟨rest, .inr rfl⟩

/-- No letter is a brace. -/
theorem ne_brace_of_letters {letters : List Char} {brace : Char} (hbrace : isBrace brace = true)
    (h : ∀ c ∈ letters, isBrace c = false) : ∀ c ∈ letters, (c != brace) = true := by
  intro c hc
  refine bne_iff_ne.mpr ?_
  rintro rfl
  exact absurd hbrace (ne_true_of_eq_false (h c hc))

/-- A piece goes up to the next opening brace, and a name goes no further. -/
theorem pieceName?_takeWhile (cs : List Char) :
    pieceName? (cs.takeWhile (· != '\x7b')) = closedName? cs := by
  obtain ⟨letters, hletters, hcs⟩ := exists_letters cs
  have hopen := ne_brace_of_letters isBrace_opening hletters
  have hclose := ne_brace_of_letters isBrace_closing hletters
  have hnone : pieceName? letters = none := by
    refine if_neg fun h => ?_
    exact absurd (hclose _ h.2) (by decide)
  rcases hcs with rfl | ⟨rest, rfl | rfl⟩
  · rw [List.takeWhile_eq_self_iff.mpr hopen, hnone, closedName?_letters hletters]
  · rw [List.takeWhile_append_of_pos hopen, List.takeWhile_cons_of_neg (by decide), List.append_nil,
      hnone, closedName?_opened hletters]
  · rw [List.takeWhile_append_of_pos hopen, List.takeWhile_cons_of_pos (by decide), pieceName?,
      List.takeWhile_append_of_pos hclose, List.takeWhile_cons_of_neg (by decide), List.append_nil]
    by_cases hempty : letters = []
    · rw [hempty, if_neg (fun h => h.1 rfl)]
      exact (closedName?_empty rest).symm
    · rw [if_pos ⟨hempty, by simp⟩, closedName?_closed hletters hempty]

/-- A text is split before its first character if this is an opening brace. -/
theorem splitOn_cons (c : Char) (cs : List Char) :
    (c :: cs).splitOn '\x7b' =
      if c = '\x7b' then [] :: cs.splitOn '\x7b' else (cs.splitOn '\x7b').modifyHead (c :: ·) := by
  rw [List.splitOn_eq_splitOnP, List.splitOnP_cons_eq_if_modifyHead, ← List.splitOn_eq_splitOnP]
  simp only [beq_iff_eq]

/-- The first piece of a text goes up to its first opening brace. -/
theorem splitOn_eq_cons_tail (cs : List Char) :
    cs.splitOn '\x7b' = cs.takeWhile (· != '\x7b') :: (cs.splitOn '\x7b').tail := by
  induction cs with
  | nil => rfl
  | cons c cs ih =>
      rw [splitOn_cons]
      by_cases hc : c = '\x7b'
      · simp [hc]
      · rw [if_neg hc, ih]
        simp [hc]

/-- The names of a text are those of its pieces, the first one apart. -/
theorem placeholdersFrom_none_eq_pieces (cs : List Char) :
    placeholdersFrom none cs =
      ((cs.splitOn '\x7b').tail.filterMap pieceName?).map String.ofList := by
  induction cs with
  | nil => rfl
  | cons c cs ih =>
      rw [placeholdersFrom_none_cons, ih, splitOn_cons, bracedName?]
      by_cases hc : c = '\x7b'
      · rw [if_pos hc, if_pos hc, List.tail_cons, splitOn_eq_cons_tail cs, List.filterMap_cons,
          pieceName?_takeWhile, List.tail_cons]
        cases closedName? cs <;> rfl
      · rw [if_neg hc, if_neg hc, List.tail_modifyHead]
        rfl

/-! ### The placeholders of a path -/

/-- The placeholders of a path are the names at its places, from the first to the last. -/
theorem placeholders_eq_filterMap (path : String) :
    placeholders path = (List.range path.length).filterMap (nameAt? path) := by
  rw [placeholders, placeholdersFrom_none, String.length_toList]
  rfl

/-- The placeholders of a path are the names at its places, from the first to the last: at each
place the name that stands between braces there, where an opening brace stands whose next brace is a
closing one that does not follow immediately. Cutting the path at its opening braces gives the same
names. -/
theorem placeholders_eq (path : String) :
    placeholders path = (List.range path.length).filterMap (nameAt? path) ∧
      (∀ place name, nameAt? path place = some name ↔ NamedAt path place name) ∧
      (∀ place, (nameAt? path place).isSome ↔ OpensName path place) ∧
      placeholders path =
        ((path.toList.splitOn '\x7b').tail.filterMap pieceName?).map String.ofList :=
  ⟨placeholders_eq_filterMap path, fun _ _ => nameAt?_eq_some_iff,
    fun _ => isSome_nameAt?_iff, placeholdersFrom_none_eq_pieces path.toList⟩

/-- Braces that are not closed, are opened again, are closed at once or close nothing name no part.
A name that stands twice is listed twice. -/
example :
    placeholders "\x7ba\x7bb\x7d" = ["b"] ∧ placeholders "\x7d\x7bx\x7d" = ["x"] ∧
      placeholders "\x7b\x7d" = [] ∧ placeholders "\x7ba\x7d\x7d/\x7ba\x7d" = ["a", "a"] := by
  decide +kernel

end ServiceDocs
