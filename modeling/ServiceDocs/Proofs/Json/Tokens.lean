import Mathlib.Data.List.TakeWhile
import ServiceDocs.Json.Printer
import ServiceDocs.Proofs.Json.Trees

/-!
# Reading Strings and Numbers Back

A string is read back from its text, whatever follows it, and also if a slash in it has a backslash
in front: `JsonText.StandsFor` says for which characters a text between quotes stands. The end of a
number is not marked in its text, so what follows must not continue it: `JsonText.Delimits` says
that a blank, a comma, a closing bracket or nothing follows. An integer in range is read back from
its digits.

The text of a double is not looked into here. `JsonText.value_append` says that a text that
is read as a number by itself is read as this number in front of other text as well.

## Main definitions

* `JsonText.StandsFor`: what the text between quotes stands for.
* `JsonText.Delimits`: a text that may follow a value.

## Main results

* `JsonText.StandsFor.tree_eq`, `JsonText.string_quoteChars`: a string is read back.
* `JsonText.value_append`: a number is read alike with and without text behind it.
* `JsonText.value_integerText`: an integer in range is read back.
-/

namespace ServiceDocs.JsonText

/-! ### Strings -/

/-- The four digits of a control character are read back. -/
theorem codeUnit_hexFixed {n : Nat} (h : n < 0x20) (rest : List Char) :
    codeUnit (Text.hexFixed 4 n ++ rest) = .ok (n, rest) := by
  have hread : ∀ n < 0x20, codeUnit (Text.hexFixed 4 n) = .ok (n, []) := by decide
  have hlength : (Text.hexFixed 4 n).length = 4 := rfl
  have htake : (Text.hexFixed 4 n ++ rest).take 4 = Text.hexFixed 4 n := List.take_left' hlength
  have hdrop : (Text.hexFixed 4 n ++ rest).drop 4 = rest := List.drop_left' hlength
  have h := hread n h
  rw [codeUnit, List.take_of_length_le (Nat.le_of_eq hlength)] at h
  rw [codeUnit, htake, hdrop]
  split at h
  · simp at h
  · next hsize =>
      rw [if_neg hsize]
      split at h
      · simp at h
      · next hcount =>
          rw [if_neg hcount]
          split at h
          · simp only [Except.ok.injEq, Prod.mk.injEq] at h ⊢
            exact ⟨h.1, trivial⟩
          · simp at h

/-- A control character is read from its four digits. -/
theorem escape_hexFixed {n : Nat} (h : n < 0x20) (rest : List Char) :
    escape ('u' :: (Text.hexFixed 4 n ++ rest)) = .char (Char.ofNat n) rest := by
  have hlow : isLowSurrogate n = false := by
    simp only [isLowSurrogate, Bool.and_eq_false_iff, decide_eq_false_iff_not]
    omega
  have hhigh : isHighSurrogate n = false := by
    simp only [isHighSurrogate, Bool.and_eq_false_iff, decide_eq_false_iff_not]
    omega
  simp [escape, codeUnit_hexFixed h, hlow, hhigh]

/-- The characters that are written as a backslash and a single letter, each behind its letter. -/
def shortEscapes : List (Char × Char) :=
  [('"', '"'), ('\\', '\\'), ('b', '\x08'), ('t', '\t'), ('n', '\n'), ('f', '\x0c'), ('r', '\r')]

/-- A letter after a backslash is read as the character that the table has for it. -/
theorem escape_shortEscapes :
    ∀ entry ∈ shortEscapes, ∀ rest, escape (entry.1 :: rest) = .char entry.2 rest := by
  repeat refine List.forall_mem_cons.mpr ⟨fun _ => rfl, ?_⟩
  exact List.forall_mem_nil _

/-- A character is written as itself, with a letter behind a backslash, or with its digits. -/
theorem escapeChar_spec (c : Char) :
    (Json.escapeChar c = [c] ∧ c ≠ '"' ∧ c ≠ '\\' ∧ ¬c.toNat < 0x20) ∨
      (∃ entry ∈ shortEscapes, Json.escapeChar c = ['\\', entry.1] ∧ entry.2 = c) ∨
        (Json.escapeChar c = '\\' :: 'u' :: Text.hexFixed 4 c.toNat ∧ c.toNat < 0x20) := by
  by_cases hquote : c = '"'
  · subst hquote
    exact .inr (.inl ⟨('"', '"'), by decide, rfl, rfl⟩)
  by_cases hslash : c = '\\'
  · subst hslash
    exact .inr (.inl ⟨('\\', '\\'), by decide, rfl, rfl⟩)
  by_cases hlow : c.toNat < 0x20
  · have hcontrol : ∀ n < 0x20,
        (∃ entry ∈ shortEscapes,
          Json.escapeChar (.ofNat n) = ['\\', entry.1] ∧ entry.2 = .ofNat n) ∨
          Json.escapeChar (.ofNat n) = '\\' :: 'u' :: Text.hexFixed 4 n := by decide
    have hc := hcontrol c.toNat hlow
    rw [Char.ofNat_toNat] at hc
    exact .inr (hc.imp id fun heq => ⟨heq, hlow⟩)
  · rw [Json.escapeChar, if_neg hquote, if_neg hslash, if_neg hlow]
    exact .inl ⟨rfl, hquote, hslash, hlow⟩

/-- A character is read back from its written form. -/
theorem string_escapeChar (fuel : Nat) (c : Char) (read rest : List Char) :
    string (fuel + 1) true read (Json.escapeChar c ++ rest) =
      string fuel true (c :: read) rest := by
  rcases escapeChar_spec c with
    ⟨hself, hquote, hslash, hlow⟩ | ⟨entry, hentry, hshort, rfl⟩ | ⟨hdigits, hlow⟩
  · rw [hself, List.singleton_append, string]
    · exact if_neg hlow
    · exact hquote
    · exact hslash
  · have hescape := escape_shortEscapes entry hentry rest
    rw [hshort]
    simp only [List.cons_append, List.nil_append, string, hescape]
  · have hescape := escape_hexFixed hlow rest
    rw [Char.ofNat_toNat] at hescape
    rw [hdigits]
    simp only [List.cons_append, string, hescape]

/-- A text between quotes that stands for characters: each of them is in its written form, or is a
slash with a backslash in front of it. -/
inductive StandsFor : List Char → List Char → Prop
  | nil : StandsFor [] []
  | char {text cs : List Char} (c : Char) (h : StandsFor text cs) :
      StandsFor (Json.escapeChar c ++ text) (c :: cs)
  | slash {text cs : List Char} (h : StandsFor text cs) :
      StandsFor ('\\' :: '/' :: text) ('/' :: cs)

/-- The written form of characters stands for them. -/
theorem standsFor_flatMap (cs : List Char) : StandsFor (cs.flatMap Json.escapeChar) cs := by
  induction cs with
  | nil => exact .nil
  | cons c cs ih => exact .char c ih

/-- A character is written as itself, or with a backslash and letters or digits after it. -/
theorem escapeChar_cases (c : Char) :
    Json.escapeChar c = [c] ∨ (c = '"' ∨ c = '\\' ∨ c.toNat < 0x20) ∧
      ∃ rest, Json.escapeChar c = '\\' :: rest ∧ rest ⊆ "\"\\btnfru0123456789abcdef".toList := by
  have hdigits : ∀ n < 0x20, 'u' :: Text.hexFixed 4 n ⊆ "\"\\btnfru0123456789abcdef".toList := by
    decide
  have hletters : ∀ entry ∈ shortEscapes,
      (entry.2 = '"' ∨ entry.2 = '\\' ∨ entry.2.toNat < 0x20) ∧
        [entry.1] ⊆ "\"\\btnfru0123456789abcdef".toList := by decide
  rcases escapeChar_spec c with ⟨hself, -⟩ | ⟨entry, hentry, hshort, rfl⟩ | ⟨hhex, hlow⟩
  · exact .inl hself
  · obtain ⟨hescaped, hletter⟩ := hletters entry hentry
    exact .inr ⟨hescaped, _, hshort, hletter⟩
  · exact .inr ⟨.inr (.inr hlow), _, hhex, hdigits _ hlow⟩

/-- A text is no shorter than what it stands for. -/
theorem StandsFor.length_le {text cs : List Char} (h : StandsFor text cs) :
    cs.length ≤ text.length := by
  induction h with
  | nil => exact Nat.le_refl 0
  | @char text cs c h ih =>
      have hone : 1 ≤ (Json.escapeChar c).length := by
        rcases escapeChar_cases c with hself | ⟨-, rest, hescape, -⟩
        · rw [hself, List.length_singleton]
        · rw [hescape, List.length_cons]
          exact Nat.le_add_left 1 _
      rw [List.length_append, List.length_cons]
      omega
  | slash h ih =>
      rw [List.length_cons, List.length_cons, List.length_cons]
      omega

/-- What a text stands for is read up to the closing quote. -/
theorem StandsFor.string_eq {text cs : List Char} (h : StandsFor text cs) {fuel : Nat}
    (hfuel : cs.length < fuel) (read rest : List Char) :
    string fuel true read (text ++ '"' :: rest) =
      (.string (String.ofList (read.reverse ++ cs)), some rest) := by
  obtain ⟨fuel, rfl⟩ := Nat.exists_eq_add_one_of_ne_zero (Nat.ne_zero_of_lt hfuel)
  induction h generalizing fuel read with
  | nil => simp [string]
  | @char text cs c h ih =>
      obtain ⟨fuel, rfl⟩ := Nat.exists_eq_add_one_of_ne_zero
        (Nat.ne_zero_of_lt (Nat.lt_of_succ_lt_succ hfuel))
      rw [List.append_assoc, string_escapeChar, ih (c :: read) fuel (Nat.lt_of_succ_lt_succ hfuel)]
      simp
  | @slash text cs h ih =>
      obtain ⟨fuel, rfl⟩ := Nat.exists_eq_add_one_of_ne_zero
        (Nat.ne_zero_of_lt (Nat.lt_of_succ_lt_succ hfuel))
      have hslash : string (fuel + 1 + 1) true read ('\\' :: '/' :: text ++ '"' :: rest) =
          string (fuel + 1) true ('/' :: read) (text ++ '"' :: rest) := rfl
      rw [hslash, ih ('/' :: read) fuel (Nat.lt_of_succ_lt_succ hfuel)]
      simp

/-- The parser's own bound is enough. -/
theorem StandsFor.string_length {text cs : List Char} (h : StandsFor text cs) (rest : List Char) :
    string ((text ++ '"' :: rest).length + 1) true [] (text ++ '"' :: rest) =
      (.string (String.ofList cs), some rest) := by
  refine h.string_eq ?_ [] rest
  have hlength := h.length_le
  rw [List.length_append]
  omega

/-- A string is read back from its text after the opening quote, with the bound that the
parser gives it. -/
theorem string_quoteChars (cs rest : List Char) :
    string ((cs.flatMap Json.escapeChar ++ '"' :: rest).length + 1) true []
        (cs.flatMap Json.escapeChar ++ '"' :: rest) =
      (.string (String.ofList cs), some rest) :=
  (standsFor_flatMap cs).string_length rest

/-- What stands between quotes is read as the whole text. -/
theorem StandsFor.tree_eq {text cs : List Char} (h : StandsFor text cs) :
    tree (String.ofList ('"' :: (text ++ ['"']))) = (.string (String.ofList cs), .closed) := by
  have hvalue : ∀ fuel, value (fuel + 1) ('"' :: (text ++ ['"'])) =
      (.string (String.ofList cs), some []) := fun fuel => by
    rw [value]
    exact h.string_length []
  rw [tree, String.toList_ofList, hvalue]
  rfl

/-! ### What may follow a value -/

/-- A text that may follow a value: it is empty, or begins with a blank, a comma or a closing
bracket. -/
def Delimits (rest : List Char) : Prop :=
  ∀ c ∈ rest.head?, isBlank c = true ∨ c = ',' ∨ c = ']' ∨ c = '\x7d'

theorem delimits_nil : Delimits [] := fun _ hc => nomatch hc

/-- What may follow a value does not continue a number. -/
theorem Delimits.head {c : Char} {rest : List Char} (h : Delimits (c :: rest)) :
    isDigit c = false ∧ c ≠ '.' ∧ c ≠ 'e' ∧ c ≠ 'E' := by
  have hc := h c rfl
  simp only [isBlank, Bool.or_eq_true, beq_iff_eq] at hc
  rcases hc with (((rfl | rfl) | rfl) | rfl) | rfl | rfl | rfl <;> decide

/-- What may follow a value begins with no digit. -/
theorem Delimits.takeWhile_isDigit {rest : List Char} (h : Delimits rest) :
    rest.takeWhile isDigit = [] := by
  cases rest with
  | nil => rfl
  | cons c rest => rw [List.takeWhile_cons, h.head.1]; rfl

/-- The digits of a number end where what follows it begins. -/
theorem Delimits.takeWhile_append {rest : List Char} (h : Delimits rest) (cs : List Char) :
    (cs ++ rest).takeWhile isDigit = cs.takeWhile isDigit := by
  rw [List.takeWhile_append, h.takeWhile_isDigit, List.append_nil]
  split
  · next hall =>
      exact ((List.takeWhile_prefix isDigit).eq_of_length hall).symm
  · rfl

/-- What stands after the digits of a number goes on with what follows it. -/
theorem Delimits.dropWhile_append {rest : List Char} (h : Delimits rest) (cs : List Char) :
    (cs ++ rest).dropWhile isDigit = cs.dropWhile isDigit ++ rest := by
  have hsplit := List.takeWhile_append_dropWhile (p := isDigit) (l := cs ++ rest)
  rw [h.takeWhile_append] at hsplit
  refine List.append_cancel_left (hsplit.trans ?_)
  rw [← List.append_assoc, List.takeWhile_append_dropWhile]

/-- Where a value ends, there is no exponent. -/
theorem Delimits.exponent_eq {rest : List Char} (h : Delimits rest) (l : NumberLiteral) :
    exponent l rest = literal l rest := by
  cases rest with
  | nil => rfl
  | cons c rest =>
      obtain ⟨-, -, hlower, hupper⟩ := h.head
      rw [exponent, if_neg (by simp [hlower, hupper])]

/-- Where a value ends, there is no fraction. -/
theorem Delimits.fraction_eq {rest : List Char} (h : Delimits rest) (l : NumberLiteral) :
    fraction l rest = literal l rest := by
  cases rest with
  | nil => rfl
  | cons c rest =>
      rw [fraction]
      · exact h.exponent_eq l
      · rintro cs ⟨rfl, -⟩
        exact h.head.2.1 rfl

/-! ### Numbers in front of other text -/

variable {n : Number} {r : Option (List Char)} {rest : List Char}

/-- The outcome of reading a number in front of other text. -/
def Extends (step : Step) (n : Number) (r : Option (List Char)) (rest : List Char) : Prop :=
  ∃ left, r = some left ∧ step = (.number n, some (left ++ rest))

/-- The end of a number is read alike in front of other text. -/
theorem literal_append {l : NumberLiteral} {cs : List Char} (h : literal l cs = (.number n, r)) :
    Extends (literal l (cs ++ rest)) n r rest := by
  rw [literal] at h
  split at h
  · next m hm =>
      simp only [Prod.mk.injEq, Node.number.injEq] at h
      obtain ⟨rfl, rfl⟩ := h
      refine ⟨cs, rfl, ?_⟩
      rw [literal, hm]
  · simp at h

/-- The sign of an exponent is read alike, unless no digit follows it. -/
theorem exponentSign_append {cs : List Char} (h : cs ≠ []) (rest : List Char) :
    exponentSign (cs ++ rest) = ((exponentSign cs).1, (exponentSign cs).2 ++ rest) := by
  cases cs with
  | nil => exact absurd rfl h
  | cons sign cs =>
      by_cases hplus : sign = '+'
      · rw [hplus]; rfl
      · by_cases hminus : sign = '-'
        · rw [hminus]; rfl
        · have hother : ∀ cs, exponentSign (sign :: cs) = (false, sign :: cs) := by
            intro cs
            rw [exponentSign]
            · rintro _ ⟨rfl, -⟩; exact hplus rfl
            · rintro _ ⟨rfl, -⟩; exact hminus rfl
          rw [List.cons_append, hother, hother, List.cons_append]

/-- An exponent is read alike in front of what may follow a value. -/
theorem exponent_append (hrest : Delimits rest) {l : NumberLiteral} {cs : List Char}
    (h : exponent l cs = (.number n, r)) : Extends (exponent l (cs ++ rest)) n r rest := by
  cases cs with
  | nil =>
      have hliteral : literal l [] = (.number n, r) := h
      rw [List.nil_append, hrest.exponent_eq]
      exact literal_append hliteral
  | cons c cs =>
      rw [exponent] at h
      rw [List.cons_append, exponent]
      dsimp only at h ⊢
      split at h
      · next hc =>
          rw [if_pos hc]
          cases cs with
          | nil => simp [exponentSign, lackingDigit, stop] at h
          | cons sign cs =>
              rw [exponentSign_append (List.cons_ne_nil sign cs), hrest.takeWhile_append,
                hrest.dropWhile_append]
              split at h
              · simp [lackingDigit, stop] at h
              · next hdigits =>
                  rw [if_neg hdigits]
                  exact literal_append h
      · next hc =>
          rw [if_neg hc]
          exact literal_append h

/-- A fraction is read alike in front of what may follow a value. -/
theorem fraction_append (hrest : Delimits rest) {l : NumberLiteral} {cs : List Char}
    (h : fraction l cs = (.number n, r)) : Extends (fraction l (cs ++ rest)) n r rest := by
  cases cs with
  | nil =>
      have hliteral : literal l [] = (.number n, r) := h
      rw [List.nil_append, hrest.fraction_eq]
      exact literal_append hliteral
  | cons c cs =>
      by_cases hpoint : c = '.'
      · subst hpoint
        rw [fraction] at h
        rw [List.cons_append, fraction, hrest.takeWhile_append, hrest.dropWhile_append]
        split at h
        · simp [lackingDigit, stop] at h
        · next hdigits =>
            rw [if_neg hdigits]
            exact exponent_append hrest h
      · have hfraction : ∀ cs, fraction l (c :: cs) = exponent l (c :: cs) := by
          intro cs
          rw [fraction]
          rintro cs ⟨rfl, -⟩
          exact hpoint rfl
        rw [hfraction] at h
        rw [List.cons_append, hfraction]
        have hexponent := exponent_append hrest h
        exact hexponent

/-- A number is read alike in front of what may follow a value. -/
theorem number_append (hrest : Delimits rest) {negative : Bool} {cs : List Char}
    (h : number negative cs = (.number n, r)) :
    Extends (number negative (cs ++ rest)) n r rest := by
  rw [number] at h
  rw [number, hrest.takeWhile_append, hrest.dropWhile_append]
  split at h
  · simp [lackingDigit, stop] at h
  · simp [stop] at h
  · exact fraction_append hrest h

/-- Reading a word gives no number. -/
theorem word_ne_number {node : Node} (hnode : ∀ n, node ≠ .number n) (expected cs : List Char) :
    (word node expected cs).1 ≠ .number n := by
  induction expected generalizing cs with
  | nil => exact hnode n
  | cons e es ih =>
      cases cs with
      | nil => exact Node.noConfusion
      | cons c cs =>
          rw [word]
          split
          · exact ih cs
          · exact Node.noConfusion

/-- Reading a text between quotes gives no number. -/
theorem string_ne_number (fuel : Nat) (cs : List Char) :
    (string fuel true [] cs).1 ≠ .number n := by
  intro h
  rcases string_eq fuel true [] cs with ⟨s, hs⟩ | ⟨d, hd⟩
  · exact nomatch hs.symm.trans h
  · exact nomatch hd.symm.trans h

/-- Where something else than blanks is left, more text does not matter for skipping them. -/
theorem skipBlanks_append {cs : List Char} (h : skipBlanks cs ≠ []) (rest : List Char) :
    skipBlanks (cs ++ rest) = skipBlanks cs ++ rest := by
  rw [skipBlanks, List.dropWhile_append, if_neg]
  · rfl
  · rwa [List.isEmpty_iff]

/-- A text that is read as a number is read as this number in front of other text. -/
theorem value_append (hrest : Delimits rest) {fuel : Nat} {cs : List Char}
    (h : value fuel cs = (.number n, r)) (fuel' : Nat) :
    Extends (value (fuel' + 1) (cs ++ rest)) n r rest := by
  cases fuel with
  | zero => simp [value, absent, stop] at h
  | succ fuel =>
      have hblank : skipBlanks cs ≠ [] := by
        intro hnil
        simp [value, hnil, absent, stop] at h
      rw [value] at h
      rw [value, skipBlanks_append hblank]
      split at h
      · next hnil => exact absurd hnil hblank
      · exact absurd (congrArg Prod.fst h) (word_ne_number (by simp) _ _)
      · exact absurd (congrArg Prod.fst h) (word_ne_number (by simp) _ _)
      · exact absurd (congrArg Prod.fst h) (word_ne_number (by simp) _ _)
      · exact absurd (congrArg Prod.fst h) (string_ne_number _ _)
      · next hminus =>
          rw [hminus]
          exact number_append hrest h
      · exact absurd (congrArg Prod.fst h) (by simp)
      · exact absurd (congrArg Prod.fst h) (by simp)
      · next c cs hn ht hf hq hm hb ho hcons =>
          split at h
          · next hdigit =>
              have hnumber := number_append hrest h
              rw [hcons, List.cons_append]
              split
              all_goals simp_all
          · simp [absent, stop] at h

/-! ### Integers -/

/-- The value of digits is the number that they are the digits of. -/
theorem digitValue_foldl (digits : List Char) :
    digits.foldl (fun acc c => acc * 10 + NumberLiteral.digitValue c) 0 =
      Nat.ofDigitChars 10 digits 0 := by
  rw [Nat.ofDigitChars_eq_foldl]
  simp only [NumberLiteral.digitValue, Nat.mul_comm]

/-- Decimal digits are digits of a JSON text. -/
theorem isDigit_of_mem_toDigits {c : Char} {m : Nat} (h : c ∈ Nat.toDigits 10 m) :
    isDigit c = true := by
  have hdigit := Nat.isDigit_of_mem_toDigits (by decide) (by decide) h
  simpa [isDigit, Char.isDigit, Char.le_def] using hdigit

/-- The digits of a number other than zero begin with another digit. -/
theorem head?_toDigits {n : Nat} (h : 0 < n) : (Nat.toDigits 10 n).head? ≠ some '0' := by
  induction n using Nat.strongRecOn with
  | _ n ih =>
      rw [Nat.toDigits_eq_if (by decide)]
      split
      · next hlt =>
          have hdigit : ∀ d < 10, 0 < d → [Nat.digitChar d].head? ≠ some '0' := by decide
          exact hdigit n hlt h
      · next hge =>
          rw [List.head?_append, Option.or_of_isSome (by simp)]
          exact ih (n / 10) (by omega) (by omega)

/-- The decimal digits of a number have no zero in front of others. -/
theorem toDigits_ne_zero_cons (n : Nat) (c : Char) (cs : List Char) :
    Nat.toDigits 10 n ≠ '0' :: c :: cs := by
  intro h
  rcases Nat.eq_zero_or_pos n with rfl | hpos
  · simp at h
  · exact head?_toDigits hpos (by rw [h]; rfl)

/-- Digits are read as the value of the literal that they make. -/
theorem number_toDigits (hrest : Delimits rest) (negative : Bool) (m : Nat) :
    number negative (Nat.toDigits 10 m ++ rest) =
      literal ⟨negative, Nat.toDigits 10 m, none, none⟩ rest := by
  have htake : (Nat.toDigits 10 m).takeWhile isDigit = Nat.toDigits 10 m :=
    List.takeWhile_eq_self_iff.mpr fun _ => isDigit_of_mem_toDigits
  have hdrop : (Nat.toDigits 10 m).dropWhile isDigit = [] :=
    List.dropWhile_eq_nil_iff.mpr fun _ => isDigit_of_mem_toDigits
  rw [number, hrest.takeWhile_append, hrest.dropWhile_append, htake, hdrop]
  split
  · next hnil => exact absurd hnil Nat.toDigits_ne_nil
  · next hzero => exact absurd hzero (toDigits_ne_zero_cons m _ _)
  · exact hrest.fraction_eq _

/-- The literal of the digits of an integer has that integer as its value. -/
theorem literal_toDigits {i : Int} (h : (Number.int i).Sound) (rest : List Char) :
    literal ⟨decide (i < 0), Nat.toDigits 10 i.natAbs, none, none⟩ rest =
      (.number (.int i), some rest) := by
  obtain ⟨hlow, hhigh⟩ : -2 ^ 63 ≤ i ∧ i ≤ 2 ^ 64 - 1 := by cases h; constructor <;> assumption
  have hwhole :
      (NumberLiteral.mk (decide (i < 0)) (Nat.toDigits 10 i.natAbs) none none).wholeValue =
      i.natAbs := by
    rw [NumberLiteral.wholeValue, digitValue_foldl, Nat.ofDigitChars_ten_toDigits]
  have hvalue : (NumberLiteral.mk (decide (i < 0)) (Nat.toDigits 10 i.natAbs) none none).value? =
      some (.int i) := by
    rw [NumberLiteral.value?, hwhole]
    dsimp only
    split
    · next hneg =>
        have hneg := of_decide_eq_true hneg
        rw [if_neg (by simp only [Bool.or_eq_true, beq_iff_eq, decide_eq_true_eq]; omega)]
        congr 2
        omega
    · next hnonneg =>
        have hnonneg := of_decide_eq_false (Bool.not_eq_true _ ▸ hnonneg)
        rw [if_pos (by rw [NumberLiteral.greatestSignificand]; omega)]
        congr 2
        omega
  rw [literal, hvalue]

/-- A value that begins with a digit is a number. -/
theorem value_of_isDigit {c : Char} (hc : isDigit c = true) (fuel : Nat) (cs : List Char) :
    value (fuel + 1) (c :: cs) = number false (c :: cs) := by
  have hblank : isBlank c = false := by
    by_contra hblank
    simp only [Bool.not_eq_false, isBlank, Bool.or_eq_true, beq_iff_eq] at hblank
    rcases hblank with ((rfl | rfl) | rfl) | rfl <;> exact absurd hc (by decide)
  have hskip : skipBlanks (c :: cs) = c :: cs := List.dropWhile_cons_of_neg (by simp [hblank])
  rw [value, hskip]
  split
  case h_9 c' cs' _ _ _ _ _ _ _ heq =>
    obtain ⟨rfl, rfl⟩ := List.cons.inj heq
    exact if_pos hc
  all_goals simp_all
  all_goals exact absurd hc (by decide)

/-- An integer in range is read back from its text. -/
theorem value_integerText {i : Int} (h : (Number.int i).Sound) (hrest : Delimits rest)
    (fuel : Nat) :
    value (fuel + 1) ((integerText i).toList ++ rest) = (.number (.int i), some rest) := by
  have hliteral := literal_toDigits h rest
  rw [integerText]
  split
  · next hneg =>
      rw [decide_eq_true hneg] at hliteral
      have htext : ("-" ++ digitsText i.natAbs).toList = '-' :: Nat.toDigits 10 i.natAbs := by
        simp [digitsText]
      have hvalue : value (fuel + 1) ('-' :: (Nat.toDigits 10 i.natAbs ++ rest)) =
          number true (Nat.toDigits 10 i.natAbs ++ rest) := by
        rw [value]; rfl
      rw [htext, List.cons_append, hvalue, number_toDigits hrest, hliteral]
  · next hnonneg =>
      rw [decide_eq_false hnonneg] at hliteral
      rw [digitsText, String.toList_ofList]
      rw [← number_toDigits hrest] at hliteral
      cases hdigits : Nat.toDigits 10 i.natAbs with
      | nil => exact absurd hdigits Nat.toDigits_ne_nil
      | cons c cs =>
          have hc : isDigit c = true := by
            refine isDigit_of_mem_toDigits (m := i.natAbs) ?_
            rw [hdigits]
            exact List.mem_cons_self
          rw [List.cons_append, value_of_isDigit hc, ← List.cons_append, ← hdigits, hliteral]

end ServiceDocs.JsonText
