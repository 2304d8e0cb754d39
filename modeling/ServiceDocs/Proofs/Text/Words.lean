import ServiceDocs.Text.Blank

/-!
# Texts and Their Words

White space may stand in front of the words of a text and behind them, and must stand between two
of them. So a text writes a list of words if it is white space alone and the list is empty, or if it
is white space, the first word, and a text that does not go on with a letter and writes the other
words. The words that are found in a text are the only ones that it writes.

The reader holds the letters of a word that has begun. They are read as if they stood in front of
the text that is left, which is what the induction keeps.

## Main definitions

* `Text.Gap`, `Text.IsWord`: white space, and a word without any.
* `Text.Writes`: the words that a text writes.

## Main results

* `Text.writes_wordsFrom`: a text writes the words that are found in it.
* `Text.wordsFrom_eq_iff`: and no others.
-/

namespace ServiceDocs.Text

/-- White space, perhaps none. -/
def Gap (cs : List Char) : Prop := ∀ c ∈ cs, isBlank c = true

/-- Letters without white space, at least one. -/
def IsWord (w : List Char) : Prop := w ≠ [] ∧ ∀ c ∈ w, isBlank c = false

instance (cs : List Char) : Decidable (Gap cs) :=
  decidable_of_iff (cs.all isBlank = true) List.all_eq_true

instance (w : List Char) : Decidable (IsWord w) :=
  decidable_of_iff (w ≠ [] ∧ w.all (!isBlank ·) = true) (by simp [IsWord])

/-- A text that does not go on with a letter. -/
def EndsWord (cs : List Char) : Prop := ∀ c ∈ cs.head?, isBlank c = true

/-- The words that a text writes. -/
inductive Writes : List (List Char) → List Char → Prop
  /-- White space writes no word. -/
  | gap {gap : List Char} (h : Gap gap) : Writes [] gap
  /-- A word may stand behind white space, and the text that follows must not continue it. -/
  | word {gap w rest : List Char} {ws : List (List Char)} (hgap : Gap gap) (hw : IsWord w)
      (hend : EndsWord rest) (h : Writes ws rest) : Writes (w :: ws) (gap ++ (w ++ rest))

variable {gap w cs rest : List Char} {ws : List (List Char)} {c : Char}

theorem gap_nil : Gap [] := List.forall_mem_nil _

theorem Gap.cons (hc : isBlank c = true) (h : Gap cs) : Gap (c :: cs) :=
  List.forall_mem_cons.mpr ⟨hc, h⟩

theorem endsWord_cons (hc : isBlank c = true) : EndsWord (c :: cs) := by
  rintro _ ⟨⟩
  exact hc

/-- White space is not what a word begins with. -/
theorem IsWord.not_endsWord (hw : IsWord w) : ¬EndsWord (w ++ cs) := by
  obtain ⟨c, w, rfl⟩ := List.exists_cons_of_ne_nil hw.1
  intro h
  have hblank : isBlank c = true := h c rfl
  rw [hw.2 c List.mem_cons_self] at hblank
  exact absurd hblank (by decide)

/-- More white space in front changes no word. -/
theorem Writes.cons (hc : isBlank c = true) (h : Writes ws cs) : Writes ws (c :: cs) := by
  cases h with
  | gap hgap => exact .gap (hgap.cons hc)
  | word hgap hw hend h => exact .word (hgap.cons hc) hw hend h

/-! ### The words that are found -/

/-- A text writes the words that are found in it. The letters of a word that has begun count as
the front of the text. -/
theorem writes_wordsFrom (w : List Char) (hw : ∀ c ∈ w, isBlank c = false) (cs : List Char) :
    Writes (wordsFrom w cs) (w.reverse ++ cs) := by
  have hbegun : ∀ {w}, w ≠ [] → (∀ c ∈ w, isBlank c = false) → IsWord w.reverse :=
    fun hne hletters => ⟨mt List.reverse_eq_nil_iff.mp hne, fun c hc =>
      hletters c (List.mem_reverse.mp hc)⟩
  fun_induction wordsFrom w cs with
  | case1 w hempty =>
      obtain rfl := List.isEmpty_iff.mp hempty
      exact .gap gap_nil
  | case2 w hempty =>
      exact .word gap_nil (hbegun (mt List.isEmpty_iff.mpr hempty) hw) (by simp [EndsWord])
        (.gap gap_nil)
  | case3 w c cs hc hempty ih =>
      obtain rfl := List.isEmpty_iff.mp hempty
      exact (ih hw).cons hc
  | case4 w c cs hc hempty ih =>
      exact .word gap_nil (hbegun (mt List.isEmpty_iff.mpr hempty) hw) (endsWord_cons hc)
        ((ih (List.forall_mem_nil _)).cons hc)
  | case5 w c cs hc ih =>
      have hletters : ∀ b ∈ c :: w, isBlank b = false :=
        List.forall_mem_cons.mpr ⟨eq_false_of_ne_true hc, hw⟩
      have hwrites := ih hletters
      rwa [List.reverse_cons, List.append_assoc] at hwrites

/-! ### No other words -/

/-- White space in front is passed over. -/
theorem wordsFrom_gap_append (h : Gap gap) (cs : List Char) :
    wordsFrom [] (gap ++ cs) = wordsFrom [] cs := by
  induction gap with
  | nil => rfl
  | cons c gap ih =>
      obtain ⟨hc, hgap⟩ := List.forall_mem_cons.mp h
      rw [List.cons_append, wordsFrom, if_pos hc]
      exact ih hgap

/-- Letters are collected. -/
theorem wordsFrom_letters_append (h : ∀ c ∈ w, isBlank c = false) (begun cs : List Char) :
    wordsFrom begun (w ++ cs) = wordsFrom (w.reverse ++ begun) cs := by
  induction w generalizing begun with
  | nil => rfl
  | cons c w ih =>
      obtain ⟨hc, hw⟩ := List.forall_mem_cons.mp h
      rw [List.cons_append, wordsFrom, if_neg (ne_true_of_eq_false hc), ih hw, List.reverse_cons,
        List.append_assoc]
      rfl

/-- A word that has begun ends where the text does not go on with a letter. -/
theorem wordsFrom_of_endsWord (hw : w ≠ []) (h : EndsWord cs) :
    wordsFrom w cs = w.reverse :: wordsFrom [] cs := by
  have hempty : w.isEmpty = false := by simpa using hw
  cases cs with
  | nil => simp [wordsFrom, hempty]
  | cons c cs =>
      have hc : isBlank c = true := h c rfl
      simp [wordsFrom, hc, hempty]

/-- The first word of a text is found, and the others in what follows it. -/
theorem wordsFrom_word_append (hw : IsWord w) (h : EndsWord rest) :
    wordsFrom [] (w ++ rest) = w :: wordsFrom [] rest := by
  rw [wordsFrom_letters_append hw.2, List.append_nil,
    wordsFrom_of_endsWord (mt List.reverse_eq_nil_iff.mp hw.1) h, List.reverse_reverse]

/-- The words that a text writes are found in it. -/
theorem Writes.wordsFrom_eq (h : Writes ws cs) : wordsFrom [] cs = ws := by
  induction h with
  | gap hgap =>
      have hnil := wordsFrom_gap_append hgap []
      rwa [List.append_nil] at hnil
  | word hgap hw hend _ ih =>
      rw [wordsFrom_gap_append hgap, wordsFrom_word_append hw hend, ih]

/-- The words of a text are those that it writes. -/
theorem wordsFrom_eq_iff : wordsFrom [] cs = ws ↔ Writes ws cs := by
  constructor
  · rintro rfl
    exact writes_wordsFrom [] (List.forall_mem_nil _) cs
  · exact Writes.wordsFrom_eq

end ServiceDocs.Text
