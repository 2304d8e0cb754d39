import Mathlib.Data.List.Infix
import ServiceDocs.Text.Replace

/-!
# Laws of Replacement

Replacing every occurrence of a pattern scans a text from left to right and passes over an
occurrence at once, and over a character at which none begins. What is proved of a replacement
follows this scan.

A text may be cut wherever no occurrence of the pattern is cut. Two conditions say so by one side
of the cut alone: no occurrence begins before it and goes on, or none that has begun goes on
after it.

## Main definitions

* `Text.occurrences`: how often a pattern occurs.
* `Text.Apart`: no occurrence is cut.
* `Text.EndsClear`, `Text.BeginsClear`: conditions on one side of a cut.
* `Text.Keeps`: characters are written without breaking or making a pattern.

## Main results

* `Text.scan_induction`: the scan of a text as a way of induction.
* `Text.replaceAll_append`, `Text.occurrences_append`: a text that is cut.
* `Text.occurrences_map_replaceAll`, `Text.count_replaceAll`: how often another pattern and a
character occur after a replacement.
* `Text.Keeps.occurrences_flatMap`: how often a pattern occurs in a text that is written.
* `Text.exists_replaceFirst`, `Text.replaceFirst_append_of_infix`: the first occurrence.
-/

namespace ServiceDocs.Text

variable {pattern new before after cs : List Char}

/-! ### The scan of a text -/

/-- Characters that are still to be passed over may be dropped. -/
theorem replaceFrom_eq (pattern new : List Char) (skip : Nat) (cs : List Char) :
    replaceFrom pattern new skip cs = replaceAll pattern new (cs.drop skip) := by
  induction cs generalizing skip with
  | nil => rw [List.drop_nil]; rfl
  | cons c rest ih =>
      cases skip with
      | zero => rfl
      | succ n => exact ih n

/-- A character where the pattern does not begin stays. -/
theorem replaceAll_cons {c : Char} {rest : List Char} (h : ¬pattern <+: c :: rest) :
    replaceAll pattern new (c :: rest) = c :: replaceAll pattern new rest := by
  rw [replaceAll, replaceFrom, if_neg fun hp => h (List.isPrefixOf_iff_prefix.mp hp)]
  rfl

/-- The pattern in front of a text is replaced, and then the text is gone through. -/
theorem replaceAll_pattern_append (h : pattern ≠ []) (rest : List Char) :
    replaceAll pattern new (pattern ++ rest) = new ++ replaceAll pattern new rest := by
  obtain ⟨c, tail, rfl⟩ := List.exists_cons_of_ne_nil h
  have hp : (c :: tail).isPrefixOf (c :: (tail ++ rest)) = true :=
    List.isPrefixOf_iff_prefix.mpr (List.prefix_append (c :: tail) rest)
  rw [List.cons_append, replaceAll, replaceFrom, if_pos hp, replaceFrom_eq, List.length_cons,
    Nat.add_sub_cancel, List.drop_left]

/-- A text is scanned by passing over an occurrence, or else over a character. -/
@[elab_as_elim]
theorem scan_induction {motive : List Char → Prop} (h : pattern ≠ []) (nil : motive [])
    (occurrence : ∀ rest, motive rest → motive (pattern ++ rest))
    (char : ∀ c rest, ¬pattern <+: c :: rest → motive rest → motive (c :: rest))
    (cs : List Char) : motive cs := by
  induction hn : cs.length using Nat.strong_induction_on generalizing cs with
  | _ n ih =>
      cases cs with
      | nil => exact nil
      | cons c rest =>
          by_cases hp : pattern <+: c :: rest
          · obtain ⟨tail, htail⟩ := hp
            have hpos := List.length_pos_of_ne_nil h
            have hlength := congrArg List.length htail
            rw [List.length_append, hn] at hlength
            exact htail ▸ occurrence tail (ih tail.length (by omega) tail rfl)
          · exact char c rest hp (ih rest.length (by simp [← hn]) rest rfl)

/-- A text in which the pattern does not occur stays as it is. -/
theorem replaceAll_of_not_infix (h : ¬pattern <:+: cs) : replaceAll pattern new cs = cs := by
  induction cs with
  | nil => rfl
  | cons c rest ih =>
      rw [replaceAll_cons fun hp => h hp.isInfix, ih fun hi => h (List.infix_cons hi)]

/-- A text that is the pattern is replaced as a whole. -/
theorem replaceAll_self (h : pattern ≠ []) : replaceAll pattern new pattern = new := by
  have happend : replaceAll pattern new (pattern ++ []) = new ++ replaceAll pattern new [] :=
    replaceAll_pattern_append h []
  rwa [List.append_nil, show replaceAll pattern new [] = [] from rfl, List.append_nil] at happend

/-- A character after a replacement was there or was put in. -/
theorem mem_of_mem_replaceAll (h : pattern ≠ []) {c : Char} (hc : c ∈ replaceAll pattern new cs) :
    c ∈ new ∨ c ∈ cs := by
  induction cs using scan_induction h with
  | nil => exact nomatch hc
  | occurrence rest ih =>
      rw [replaceAll_pattern_append h, List.mem_append] at hc
      exact hc.elim .inl fun hc => (ih hc).imp_right (List.mem_append_right pattern)
  | char c' rest hp ih =>
      rw [replaceAll_cons hp, List.mem_cons] at hc
      rcases hc with rfl | hc
      · exact .inr List.mem_cons_self
      · exact (ih hc).imp_right (List.mem_cons_of_mem c')

/-! ### Cutting a text -/

/-- No occurrence of a pattern begins in one text and goes on in the next. -/
def Apart (pattern before after : List Char) : Prop :=
  ∀ s, s <:+ before → s ≠ [] → pattern <+: s ++ after → pattern <+: s

/-- No occurrence of a pattern begins in a text and goes on after it. -/
def EndsClear (pattern before : List Char) : Prop :=
  ∀ s ∈ before.tails, s ≠ [] → s <+: pattern → s = pattern

/-- No occurrence of a pattern that has begun before goes on in a text. -/
def BeginsClear (pattern after : List Char) : Prop :=
  ∀ s ∈ pattern.tail.tails, s ≠ [] → ¬s <+: after ∧ ¬after <+: s

instance (pattern before : List Char) : Decidable (EndsClear pattern before) :=
  inferInstanceAs (Decidable (∀ s ∈ before.tails, s ≠ [] → s <+: pattern → s = pattern))

instance (pattern after : List Char) : Decidable (BeginsClear pattern after) :=
  inferInstanceAs (Decidable (∀ s ∈ pattern.tail.tails, s ≠ [] → ¬s <+: after ∧ ¬after <+: s))

/-- What does not go on from a text does not go on from an end of it. -/
theorem Apart.of_suffix {before' : List Char} (h : Apart pattern before after)
    (hs : before' <:+ before) : Apart pattern before' after :=
  fun s hs' hne hp => h s (hs'.trans hs) hne hp

/-- Nothing goes on in the empty text. -/
theorem apart_nil (pattern before : List Char) : Apart pattern before [] :=
  fun s _ _ hp => by rwa [List.append_nil] at hp

/-- Where no occurrence goes on after a text, it may be cut there. -/
theorem EndsClear.apart (h : EndsClear pattern before) (after : List Char) :
    Apart pattern before after := by
  intro s hs hne hp
  rcases List.prefix_or_prefix_of_prefix hp (List.prefix_append s after) with hp | hp
  · exact hp
  · exact h s ((List.mem_tails s before).mpr hs) hne hp ▸ List.prefix_rfl

/-- A text whose last character is not in the pattern ends clear. -/
theorem endsClear_of_getLast {c : Char} (h : before.getLast? = some c) (hc : c ∉ pattern) :
    EndsClear pattern before := by
  intro s hs hne hp
  obtain ⟨front, rfl⟩ := (List.mem_tails s before).mp hs
  rw [List.getLast?_append_of_ne_nil _ hne] at h
  exact absurd (hp.subset (List.mem_of_getLast? h)) hc

/-- Neither does one whose first character is not in the pattern go on with it. -/
theorem beginsClear_of_head {c : Char} (h : after.head? = some c) (hc : c ∉ pattern) :
    BeginsClear pattern after := by
  intro s hs hne
  obtain ⟨rest, rfl⟩ := List.head?_eq_some_iff.mp h
  obtain ⟨d, s, rfl⟩ := List.exists_cons_of_ne_nil hne
  have hd : d ∈ pattern :=
    List.mem_of_mem_tail (((List.mem_tails _ _).mp hs).subset List.mem_cons_self)
  exact ⟨fun hp => hc ((List.cons_prefix_cons.mp hp).1 ▸ hd),
    fun hp => hc ((List.cons_prefix_cons.mp hp).1 ▸ hd)⟩

/-- A single character is never cut. -/
theorem beginsClear_singleton (c : Char) (after : List Char) : BeginsClear [c] after := by
  intro s hs hne
  exact absurd (List.mem_singleton.mp hs) hne

/-- A pattern of one character does not go on. -/
theorem endsClear_singleton (c : Char) (before : List Char) : EndsClear [c] before := by
  intro s _ hne hp
  obtain ⟨d, rest, rfl⟩ := List.exists_cons_of_ne_nil hne
  obtain ⟨rfl, hrest⟩ := List.cons_prefix_cons.mp hp
  rw [List.prefix_nil.mp hrest]

/-- Where no occurrence goes on in a text, it may be cut off there. -/
theorem BeginsClear.apart (h : BeginsClear pattern after) (before : List Char) :
    Apart pattern before after := by
  intro s _ hne hp
  rcases List.prefix_or_prefix_of_prefix hp (List.prefix_append s after) with hp | ⟨q, rfl⟩
  · exact hp
  · -- the pattern begins with all of `s`, so its rest begins the second text
    obtain ⟨c, tail, rfl⟩ := List.exists_cons_of_ne_nil hne
    by_cases hq : q = []
    · rw [hq, List.append_nil]
    · have htails : q ∈ (c :: tail ++ q).tail.tails :=
        (List.mem_tails _ _).mpr (List.suffix_append tail q)
      exact absurd ((List.prefix_append_right_inj _).mp hp) (h q htails hq).1

/-- More text behind does not matter. -/
theorem BeginsClear.append (h : BeginsClear pattern after) (rest : List Char) :
    BeginsClear pattern (after ++ rest) := by
  intro s hs hne
  obtain ⟨hnot, hnot'⟩ := h s hs hne
  refine ⟨fun hp => ?_, fun hp => hnot' ((List.prefix_append after rest).trans hp)⟩
  exact (List.prefix_or_prefix_of_prefix hp (List.prefix_append after rest)).elim hnot hnot'

/-- Both parts of a text that is cut are replaced alone. -/
theorem replaceAll_append (h : pattern ≠ []) (hapart : Apart pattern before after) :
    replaceAll pattern new (before ++ after) =
      replaceAll pattern new before ++ replaceAll pattern new after := by
  induction before using scan_induction h with
  | nil => rfl
  | occurrence rest ih =>
      rw [List.append_assoc, replaceAll_pattern_append h, replaceAll_pattern_append h,
        ih (hapart.of_suffix (List.suffix_append pattern rest)), List.append_assoc]
  | char c rest hp ih =>
      have hp' : ¬pattern <+: c :: (rest ++ after) := fun hp' =>
        hp (hapart (c :: rest) List.suffix_rfl (List.cons_ne_nil c rest) hp')
      rw [List.cons_append, replaceAll_cons hp', replaceAll_cons hp,
        ih (hapart.of_suffix (List.suffix_cons c rest)), List.cons_append]

/-- A text that is cut where a character first stands is cut at one place. -/
theorem append_cons_inj {c : Char} {front front' rest rest' : List Char} (h : c ∉ front)
    (h' : c ∉ front') (heq : front ++ c :: rest = front' ++ c :: rest') :
    front = front' ∧ rest = rest' := by
  have htake : ∀ {front rest : List Char}, c ∉ front →
      (front ++ c :: rest).takeWhile (· ≠ c) = front := by
    intro front rest hfront
    rw [List.takeWhile_append_of_pos fun d hd => decide_eq_true (ne_of_mem_of_not_mem hd hfront),
      List.takeWhile_cons_of_neg (by simp), List.append_nil]
  obtain rfl : front = front' := by rw [← htake h, heq, htake h']
  exact ⟨rfl, (List.cons.inj (List.append_cancel_left heq)).2⟩

/-! ### Counting occurrences -/

/-- How often a pattern occurs. -/
def occurrences (pattern : List Char) : List Char → Nat
  | [] => 0
  | c :: rest => (if pattern <+: c :: rest then 1 else 0) + occurrences pattern rest

/-- Occurrences can be counted on both sides of a cut. -/
theorem occurrences_append (hapart : Apart pattern before after) :
    occurrences pattern (before ++ after) =
      occurrences pattern before + occurrences pattern after := by
  induction before with
  | nil => rw [List.nil_append, occurrences, Nat.zero_add]
  | cons c rest ih =>
      have hp : pattern <+: c :: (rest ++ after) ↔ pattern <+: c :: rest :=
        ⟨hapart (c :: rest) List.suffix_rfl (List.cons_ne_nil c rest),
          fun hp => hp.trans (List.prefix_append (c :: rest) after)⟩
      rw [List.cons_append, occurrences, ih (hapart.of_suffix (List.suffix_cons c rest)),
        occurrences, Nat.add_assoc]
      simp only [hp]

/-- A pattern whose first character is not there does not occur. -/
theorem occurrences_eq_zero {c : Char} (hpattern : pattern.head? = some c) (hc : c ∉ cs) :
    occurrences pattern cs = 0 := by
  obtain ⟨tail, rfl⟩ := List.head?_eq_some_iff.mp hpattern
  induction cs with
  | nil => rfl
  | cons c' rest ih =>
      rw [List.mem_cons, not_or] at hc
      rw [occurrences, ih hc.2, if_neg fun hp => hc.1 (List.cons_prefix_cons.mp hp).1]

/-- A pattern occurs at no place exactly if it is no part of the text. -/
theorem occurrences_eq_zero_iff (h : pattern ≠ []) :
    occurrences pattern cs = 0 ↔ ¬pattern <:+: cs := by
  induction cs with
  | nil => exact iff_of_true rfl fun hi => h (List.infix_nil.mp hi)
  | cons c rest ih =>
      rw [occurrences, List.infix_cons_iff, not_or, Nat.add_eq_zero_iff, ih]
      simp

/-- A pattern occurs in one of the parts of a text that is cut. -/
theorem infix_append_iff (h : pattern ≠ []) (hapart : Apart pattern before after) :
    pattern <:+: before ++ after ↔ pattern <:+: before ∨ pattern <:+: after := by
  rw [← not_iff_not, not_or, ← occurrences_eq_zero_iff h, ← occurrences_eq_zero_iff h,
    ← occurrences_eq_zero_iff h, occurrences_append hapart, Nat.add_eq_zero_iff]

/-- The occurrences of one character are counted as those in a list. -/
theorem occurrences_singleton (c : Char) (cs : List Char) : occurrences [c] cs = cs.count c := by
  induction cs with
  | nil => rfl
  | cons d rest ih =>
      have hp : [c] <+: d :: rest ↔ d = c := by
        rw [List.cons_prefix_cons, and_iff_left List.nil_prefix, eq_comm]
      rw [occurrences, ih, List.count_cons, Nat.add_comm]
      simp only [hp, beq_iff_eq]

/-- A pattern does not occur in a shorter text. -/
theorem occurrences_of_length_lt (h : cs.length < pattern.length) : occurrences pattern cs = 0 := by
  induction cs with
  | nil => rfl
  | cons c rest ih =>
      rw [occurrences, ih (Nat.lt_of_succ_lt h), if_neg fun hp => Nat.not_lt.mpr hp.length_le h]

/-- A pattern occurs once more if it stands in front. -/
theorem occurrences_pattern_append (h : pattern ≠ []) (hclear : EndsClear pattern pattern)
    (rest : List Char) : occurrences pattern (pattern ++ rest) = 1 + occurrences pattern rest := by
  have hself : occurrences pattern pattern = 1 := by
    obtain ⟨c, tail, rfl⟩ := List.exists_cons_of_ne_nil h
    rw [occurrences, if_pos List.prefix_rfl, occurrences_of_length_lt (Nat.lt_succ_self _)]
  rw [occurrences_append (hclear.apart rest), hself]

/-! ### Occurrences of another pattern

What is replaced and what is put in may both hold a second pattern, which is looked for in
changed characters. If neither continues an occurrence that has begun before it or begins one
that goes on after it, the occurrences in a text that is replaced can be counted. -/

section

variable {sought : List Char} {change : Char → Char}

/-- Where an occurrence of the second pattern has begun, replacing changes nothing of how it may go
on. -/
theorem prefix_map_replaceAll_iff (h : pattern ≠ [])
    (hpattern : BeginsClear sought (pattern.map change))
    (hnew : BeginsClear sought (new.map change)) {s : List Char} (hs : s ∈ sought.tail.tails) :
    s <+: (replaceAll pattern new cs).map change ↔ s <+: cs.map change := by
  induction cs using scan_induction h generalizing s with
  | nil => rfl
  | occurrence rest ih =>
      rw [replaceAll_pattern_append h, List.map_append, List.map_append]
      by_cases hne : s = []
      · exact iff_of_true (hne ▸ List.nil_prefix) (hne ▸ List.nil_prefix)
      · exact iff_of_false ((hnew.append _) s hs hne).1 ((hpattern.append _) s hs hne).1
  | char c rest hp ih =>
      rw [replaceAll_cons hp, List.map_cons, List.map_cons]
      cases s with
      | nil => exact iff_of_true List.nil_prefix List.nil_prefix
      | cons c' s =>
          have hs' : s ∈ sought.tail.tails := (List.mem_tails _ _).mpr
            ((List.suffix_cons c' s).trans ((List.mem_tails _ _).mp hs))
          rw [List.cons_prefix_cons, List.cons_prefix_cons, ih hs']

/-- Each occurrence that is replaced takes the occurrences of the second pattern in it away and
brings those in the new text. -/
theorem occurrences_map_replaceAll (h : pattern ≠ []) (hself : EndsClear pattern pattern)
    (hpattern : BeginsClear sought (pattern.map change) ∧ EndsClear sought (pattern.map change))
    (hnew : BeginsClear sought (new.map change) ∧ EndsClear sought (new.map change))
    (cs : List Char) :
    occurrences sought ((replaceAll pattern new cs).map change) +
        occurrences pattern cs * occurrences sought (pattern.map change) =
      occurrences sought (cs.map change) +
        occurrences pattern cs * occurrences sought (new.map change) := by
  induction cs using scan_induction h with
  | nil => simp [replaceAll, replaceFrom, occurrences]
  | occurrence rest ih =>
      rw [replaceAll_pattern_append h, List.map_append, List.map_append,
        occurrences_append (hnew.2.apart _), occurrences_append (hpattern.2.apart _),
        occurrences_pattern_append h hself, Nat.add_mul, Nat.add_mul, Nat.one_mul, Nat.one_mul]
      omega
  | char c rest hp ih =>
      have hsought : sought <+: change c :: (replaceAll pattern new rest).map change ↔
          sought <+: change c :: rest.map change := by
        cases sought with
        | nil => exact iff_of_true List.nil_prefix List.nil_prefix
        | cons c' tail =>
            have htail : tail ∈ (c' :: tail).tail.tails := (List.mem_tails _ _).mpr List.suffix_rfl
            rw [List.cons_prefix_cons, List.cons_prefix_cons,
              prefix_map_replaceAll_iff h hpattern.1 hnew.1 htail]
      have hfirst : occurrences pattern (c :: rest) = occurrences pattern rest := by
        rw [occurrences, if_neg hp, Nat.zero_add]
      rw [hfirst, replaceAll_cons hp, List.map_cons, List.map_cons, occurrences, occurrences]
      simp only [hsought]
      omega

end

/-- The same, if the characters are not changed. -/
theorem occurrences_replaceAll {sought : List Char} (h : pattern ≠ [])
    (hself : EndsClear pattern pattern)
    (hpattern : BeginsClear sought pattern ∧ EndsClear sought pattern)
    (hnew : BeginsClear sought new ∧ EndsClear sought new) (cs : List Char) :
    occurrences sought (replaceAll pattern new cs) +
        occurrences pattern cs * occurrences sought pattern =
      occurrences sought cs + occurrences pattern cs * occurrences sought new := by
  rw [← List.map_id pattern] at hpattern
  rw [← List.map_id new] at hnew
  have hcount := occurrences_map_replaceAll h hself hpattern hnew cs
  simpa only [List.map_id] using hcount

/-- Each occurrence that is replaced takes its characters away and brings those of the new text. -/
theorem count_replaceAll (h : pattern ≠ []) (hself : EndsClear pattern pattern) (c : Char)
    (new cs : List Char) :
    (replaceAll pattern new cs).count c + occurrences pattern cs * pattern.count c =
      cs.count c + occurrences pattern cs * new.count c := by
  have hclear : ∀ text : List Char, BeginsClear [c] text ∧ EndsClear [c] text := fun text =>
    ⟨beginsClear_singleton c text, endsClear_singleton c text⟩
  simpa only [occurrences_singleton] using
    occurrences_replaceAll h hself (hclear pattern) (hclear new) cs

/-! ### Writing characters in another way -/

/-- Characters are written so that a pattern is neither broken nor made: its own characters stand as
they are, and any other one begins with none of them and has not the first one. -/
structure Keeps (pattern : List Char) (write : Char → List Char) : Prop where
  /-- The characters of the pattern stand as they are. -/
  self : ∀ c ∈ pattern, write c = [c]
  /-- Any other one begins with no character of the pattern. -/
  begins : ∀ c ∉ pattern, ∃ d rest, write c = d :: rest ∧ d ∉ pattern
  /-- And the pattern does not begin in it. -/
  holds : ∀ c ∉ pattern, ∀ d ∈ pattern.head?, d ∉ write c

variable {write : Char → List Char}

/-- Such are escapes: a character stands as it is, or it is not one of the pattern and is written
behind a character that is none. -/
theorem Keeps.of_escapes {a : Char} (ha : a ∉ pattern)
    (h : ∀ c, write c = [c] ∨
      c ∉ pattern ∧ ∃ rest, write c = a :: rest ∧ ∀ d ∈ pattern.head?, d ∉ rest) :
    Keeps pattern write where
  self c hc := (h c).resolve_right fun hescaped => hescaped.1 hc
  begins c hc := by
    rcases h c with hwrite | ⟨-, rest, hwrite, -⟩
    · exact ⟨c, [], hwrite, hc⟩
    · exact ⟨a, rest, hwrite, ha⟩
  holds c hc d hd := by
    have hmem := List.mem_of_head? hd
    rcases h c with hwrite | ⟨-, rest, hwrite, hrest⟩
    · rw [hwrite, List.mem_singleton]
      exact ne_of_mem_of_not_mem hmem hc
    · rw [hwrite, List.mem_cons, not_or]
      exact ⟨ne_of_mem_of_not_mem hmem ha, hrest d hd⟩

/-- Characters of the pattern stand in front of the written text exactly if they stand in front of
the text. -/
theorem Keeps.prefix_flatMap_iff (h : Keeps pattern write) {s : List Char} (hs : s ⊆ pattern) :
    s <+: cs.flatMap write ↔ s <+: cs := by
  induction cs generalizing s with
  | nil => rfl
  | cons c rest ih =>
      cases s with
      | nil => exact iff_of_true List.nil_prefix List.nil_prefix
      | cons d s =>
          obtain ⟨hd, hs⟩ := List.cons_subset.mp hs
          by_cases hc : c ∈ pattern
          · rw [List.flatMap_cons, h.self c hc, List.singleton_append, List.cons_prefix_cons,
              List.cons_prefix_cons, ih hs]
          · obtain ⟨first, others, hwrite, hfirst⟩ := h.begins c hc
            rw [List.flatMap_cons, hwrite, List.cons_append, List.cons_prefix_cons,
              List.cons_prefix_cons]
            exact iff_of_false (fun hp => hfirst (hp.1 ▸ hd)) fun hp => hc (hp.1 ▸ hd)

/-- A pattern occurs as often as in the text that is written. -/
theorem Keeps.occurrences_flatMap (h : Keeps pattern write) (hne : pattern ≠ []) (cs : List Char) :
    occurrences pattern (cs.flatMap write) = occurrences pattern cs := by
  obtain ⟨a, tail, hpattern⟩ := List.exists_cons_of_ne_nil hne
  have hhead : pattern.head? = some a := hpattern ▸ rfl
  induction cs with
  | nil => rfl
  | cons c rest ih =>
      by_cases hc : c ∈ pattern
      · have hfront : pattern <+: (c :: rest).flatMap write ↔ pattern <+: c :: rest :=
          h.prefix_flatMap_iff (List.Subset.refl pattern)
        rw [List.flatMap_cons, h.self c hc, List.singleton_append] at hfront ⊢
        rw [occurrences, occurrences, ih]
        simp only [hfront]
      · have ha := h.holds c hc a hhead
        have hapart : Apart pattern (write c) (rest.flatMap write) := by
          intro s hs hsne hp
          obtain ⟨d, s, rfl⟩ := List.exists_cons_of_ne_nil hsne
          rw [hpattern, List.cons_append, List.cons_prefix_cons] at hp
          exact absurd (hs.subset (hp.1 ▸ List.mem_cons_self)) ha
        have hfront : ¬pattern <+: c :: rest := by
          rw [hpattern, List.cons_prefix_cons]
          exact fun hp => hc (hpattern ▸ hp.1 ▸ List.mem_cons_self)
        rw [List.flatMap_cons, occurrences_append hapart, occurrences_eq_zero hhead ha, ih,
          occurrences, if_neg hfront]

/-! ### The first occurrence -/

/-- A character where the pattern does not begin stays, and the first occurrence is searched behind
it. -/
theorem replaceFirst_cons {c : Char} {rest : List Char} (h : ¬pattern <+: c :: rest) :
    replaceFirst pattern new (c :: rest) = c :: replaceFirst pattern new rest := by
  rw [replaceFirst, if_neg fun hp => h (List.isPrefixOf_iff_prefix.mp hp)]

/-- The first occurrence of a pattern that occurs in a text is replaced where it stands. -/
theorem exists_replaceFirst (h : pattern ≠ []) (hcs : pattern <:+: cs) :
    ∃ before after, cs = before ++ (pattern ++ after) ∧
      ∀ new, replaceFirst pattern new cs = before ++ (new ++ after) := by
  induction cs with
  | nil => exact absurd (List.infix_nil.mp hcs) h
  | cons c rest ih =>
      by_cases hp : pattern <+: c :: rest
      · refine ⟨[], (c :: rest).drop pattern.length, ?_, fun new => ?_⟩
        · exact (List.prefix_append_drop hp)
        · rw [replaceFirst, if_pos (List.isPrefixOf_iff_prefix.mpr hp), List.nil_append]
      · obtain ⟨before, after, hrest, hfirst⟩ := ih ((List.infix_cons_iff.mp hcs).resolve_left hp)
        refine ⟨c :: before, after, by rw [hrest, List.cons_append], fun new => ?_⟩
        rw [replaceFirst_cons hp, hfirst, List.cons_append]

/-- The pattern in front of a text is its first occurrence. -/
theorem replaceFirst_pattern_append (h : pattern ≠ []) (rest : List Char) :
    replaceFirst pattern new (pattern ++ rest) = new ++ rest := by
  obtain ⟨c, tail, rfl⟩ := List.exists_cons_of_ne_nil h
  have hp : (c :: tail).isPrefixOf (c :: (tail ++ rest)) = true :=
    List.isPrefixOf_iff_prefix.mpr (List.prefix_append (c :: tail) rest)
  rw [List.cons_append, replaceFirst, if_pos hp, ← List.cons_append, List.drop_left]

/-- In a text that is cut the first part is searched first. -/
theorem replaceFirst_append_of_infix (h : pattern ≠ []) (hapart : Apart pattern before after)
    (hbefore : pattern <:+: before) :
    replaceFirst pattern new (before ++ after) = replaceFirst pattern new before ++ after := by
  induction before with
  | nil => exact absurd (List.infix_nil.mp hbefore) h
  | cons c rest ih =>
      by_cases hp : pattern <+: c :: rest
      · obtain ⟨tail, htail⟩ := hp
        rw [← htail, List.append_assoc, replaceFirst_pattern_append h,
          replaceFirst_pattern_append h, List.append_assoc]
      · have hp' : ¬pattern <+: c :: (rest ++ after) := fun hp' =>
          hp (hapart (c :: rest) List.suffix_rfl (List.cons_ne_nil c rest) hp')
        have hrest := (List.infix_cons_iff.mp hbefore).resolve_left hp
        rw [List.cons_append, replaceFirst_cons hp', replaceFirst_cons hp,
          ih (hapart.of_suffix (List.suffix_cons c rest)) hrest, List.cons_append]

/-- And if it has no occurrence, it stays as it is. -/
theorem replaceFirst_append_of_not_infix (hapart : Apart pattern before after)
    (hbefore : ¬pattern <:+: before) :
    replaceFirst pattern new (before ++ after) = before ++ replaceFirst pattern new after := by
  induction before with
  | nil => rfl
  | cons c rest ih =>
      have hp' : ¬pattern <+: c :: (rest ++ after) := fun hp' =>
        hbefore (hapart (c :: rest) List.suffix_rfl (List.cons_ne_nil c rest) hp').isInfix
      rw [List.cons_append, replaceFirst_cons hp',
        ih (hapart.of_suffix (List.suffix_cons c rest)) fun hi => hbefore (List.infix_cons hi),
        List.cons_append]

end ServiceDocs.Text
