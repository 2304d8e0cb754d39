import Mathlib.Data.List.DropRight
import ServiceDocs.Proofs.Json.Tokens
import ServiceDocs.Proofs.Reading.Values
import ServiceDocs.Reading.Codec

/-!
# Reading Values Back from Their Texts

The compact and the indented text of a value differ in blanks only, and a reader passes
over blanks. `Json.Spacing` says which blanks stand where, `Json.spell` is the text of a
value with them, and both texts of the printer are instances of it. The tree of such a text
is the tree of the value.

Whether the digits of a double name that double is a property of the double,
`Json.Rereads`: the parser rounds more than once, so it is not the case for every double.
It is the only condition.

## Main definitions

* `Json.Rereads`: a value that is read back from its compact text.
* `Json.Spacing`, `Json.spell`: a text of a value with given blanks.

## Main results

* `Json.tree_compact`, `Json.tree_pretty`: the trees of the two texts of a value.
-/

namespace ServiceDocs

/-- A value that is read back from its compact text. -/
def Json.Rereads (v : Json) : Prop := Codec.json.ofText (JsonText.tree v.compact) = .ok v

instance (v : Json) : Decidable v.Rereads :=
  decidable_of_iff ((Codec.json.ofText (JsonText.tree v.compact)).toOption = some v) <| by
    rw [Json.Rereads]
    cases Codec.json.ofText (JsonText.tree v.compact) <;> simp [Except.toOption]

/-! ### Values that can be read -/

open JsonText (value skipBlanks Delimits)

/-- A number that is read from its text, whatever may follow. -/
def Number.Legible (n : Number) : Prop :=
  ∀ rest, Delimits rest → ∀ fuel, ∃ r,
    value (fuel + 1) (n.render.toList ++ rest) = (.number n, some r) ∧
      skipBlanks r = skipBlanks rest

/-- A value all of whose numbers are read from their texts. -/
inductive Json.Legible : Json → Prop
  | null : Legible .null
  | bool (value : Bool) : Legible (.bool value)
  | number {value : Number} (h : value.Legible) : Legible (.number value)
  | string (value : String) : Legible (.string value)
  | array {items : List Json} (h : ∀ item ∈ items, Legible item) : Legible (.array items)
  | object {fields : List (String × Json)} (h : ∀ entry ∈ fields, Legible entry.2) :
      Legible (.object fields)

/-- A tree that is read as a number is that number. -/
theorem Node.eq_number_of_read {node : Node} (hnode : node.IsJson) {m : Mode} {n : Number}
    (h : Json.read m node = .ok (.number n)) : node = .number n := by
  cases hnode with
  | number hvalue =>
      cases hvalue with
      | int low high => cases h; rfl
      | float finite =>
          rw [Json.read, Json.float, if_pos finite] at h
          cases h
          rfl
  | array close hitems =>
      rw [Json.read] at h
      obtain ⟨inner, -, h⟩ := bind_eq_ok.mp h
      obtain ⟨items, -, h⟩ := bind_eq_ok.mp h
      obtain ⟨_, -, h⟩ := bind_eq_ok.mp h
      cases h
  | object close hkeys hvalues =>
      rw [Json.read] at h
      obtain ⟨inner, -, h⟩ := bind_eq_ok.mp h
      obtain ⟨fields, -, h⟩ := bind_eq_ok.mp h
      obtain ⟨_, -, h⟩ := bind_eq_ok.mp h
      cases h
  | null | bool | string | misplaced | defect => cases h

/-- A number that is read back is read in front of other text as well. -/
theorem Json.Rereads.legible {n : Number} (h : (Json.number n).Rereads) : n.Legible := by
  intro rest hrest fuel
  have hjson := JsonText.isJson_tree (Json.number n).compact
  obtain ⟨v, hread, hpass⟩ := bind_eq_ok.mp h
  obtain ⟨_, hclose, hv⟩ := bind_eq_ok.mp hpass
  cases hv
  have hnode := Node.eq_number_of_read hjson hread
  rw [JsonText.tree_eq_treeOf, JsonText.treeOf, Json.compact] at hnode hclose
  cases hvalue : value (3 * n.render.toList.length + 3) n.render.toList with
  | mk node r =>
      have hnumber : node = .number n := by
        rw [hvalue] at hnode
        cases r <;> exact hnode
      subst hnumber
      obtain ⟨left, rfl, hstep⟩ := JsonText.value_append hrest hvalue fuel
      refine ⟨_, hstep, ?_⟩
      rw [hvalue] at hclose
      have hblank : (skipBlanks left).isEmpty = true := by
        by_contra hleft
        simp [hleft, Close.pass] at hclose
      exact List.dropWhile_append.trans (if_pos hblank)

/-- An integer that a text can hold is legible. -/
theorem Number.legible_int {i : Int} (h : (Number.int i).Sound) : (Number.int i).Legible := by
  intro rest hrest fuel
  exact ⟨rest, JsonText.value_integerText h hrest fuel, rfl⟩

/-- A value that a text can hold is legible if its doubles are read back. -/
theorem Json.Sound.legible {v : Json} (h : v.Sound)
    (hdoubles : ∀ x ∈ v.doubles, (Json.number (.float x)).Rereads) : v.Legible := by
  induction h with
  | null => exact .null
  | bool value => exact .bool value
  | @number value hvalue =>
      cases value with
      | int i => exact .number (Number.legible_int hvalue)
      | float x =>
        exact .number (hdoubles x (by rw [Json.doubles]; exact List.mem_singleton_self x)).legible
  | string value => exact .string value
  | array _ ih =>
      refine .array fun item hitem => ih item hitem fun x hx => hdoubles x ?_
      exact Json.doubles_subset_array hitem hx
  | object _ _ ih =>
      refine .object fun entry hentry => ih entry hentry fun x hx => hdoubles x ?_
      exact Json.doubles_subset_object hentry hx

/-- A legible number has a text that is not empty. -/
theorem Number.Legible.render_ne_nil {n : Number} (h : n.Legible) : n.render.toList ≠ [] := by
  intro hnil
  obtain ⟨r, hr, -⟩ := h [] JsonText.delimits_nil 0
  rw [hnil] at hr
  simp [value, skipBlanks, JsonText.absent, JsonText.stop] at hr

/-! ### Texts with blanks -/

namespace Json

/-- The blanks of a text: those at the start of a line at a level, and those after a colon. -/
structure Spacing where
  /-- The blanks in front of a part at a level, and in front of the closing bracket. -/
  gap : Nat → List Char
  /-- The blanks after a colon. -/
  colon : List Char
  gap_blank : ∀ level, ∀ c ∈ gap level, JsonText.isBlank c = true
  colon_blank : ∀ c ∈ colon, JsonText.isBlank c = true

/-- The spacing of the compact text. -/
def Spacing.none : Spacing where
  gap _ := []
  colon := []
  gap_blank _ _ h := nomatch h
  colon_blank _ h := nomatch h

/-- The spacing of the indented text. -/
def Spacing.lines : Spacing where
  gap level := '\n' :: List.replicate (2 * level) ' '
  colon := [' ']
  gap_blank level c h := by
    rcases List.mem_cons.mp h with rfl | h
    · rfl
    · rw [List.eq_of_mem_replicate h]; rfl
  colon_blank c h := by rw [List.mem_singleton.mp h]; rfl

variable (s : Spacing)

mutual

/-- The text of a value at a level. -/
def spell (level : Nat) : Json → List Char
  | .null => ['n', 'u', 'l', 'l']
  | .bool value => if value then ['t', 'r', 'u', 'e'] else ['f', 'a', 'l', 's', 'e']
  | .number value => value.render.toList
  | .string value => quoteChars value.toList
  | .array items => '[' :: spellItems level true items
  | .object fields => '\x7b' :: spellFields level true fields

/-- The items of a list and its closing bracket. -/
def spellItems (level : Nat) (first : Bool) : List Json → List Char
  | [] => (if first then [] else s.gap level) ++ [']']
  | item :: rest =>
    (if first then [] else [',']) ++ s.gap (level + 1) ++ spell (level + 1) item ++
      spellItems level false rest

/-- The members of an object and its closing bracket. -/
def spellFields (level : Nat) (first : Bool) : List (String × Json) → List Char
  | [] => (if first then [] else s.gap level) ++ ['\x7d']
  | (name, value) :: rest =>
    (if first then [] else [',']) ++ s.gap (level + 1) ++ quoteChars name.toList ++
      ':' :: s.colon ++ spell (level + 1) value ++ spellFields level false rest

end

mutual

/-- The compact text is the text without blanks. -/
theorem toList_compact : ∀ (level : Nat) (v : Json), v.compact.toList = spell .none level v
  | _, .null => rfl
  | _, .bool value => by cases value <;> rfl
  | _, .number value => by rw [compact, spell]
  | _, .string value => by rw [compact, spell, quote, String.toList_ofList]
  | level, .array items => by
      rw [spell, ← toList_compactItems level true items, compact]
      simp
  | level, .object fields => by
      rw [spell, ← toList_compactFields level true fields, compact]
      simp

/-- The compact text of items, closing bracket included, is their spelling without blanks. -/
theorem toList_compactItems : ∀ (level : Nat) (first : Bool) (items : List Json),
    (compactItems first items).toList ++ [']'] = spellItems .none level first items
  | _, first, [] => by cases first <;> rfl
  | level, first, item :: rest => by
      have h := toList_compactItems level false rest
      rw [spellItems, ← h, ← toList_compact (level + 1) item, compactItems]
      cases first <;> simp [Spacing.none]

/-- The compact text of members, closing bracket included, is their spelling without blanks. -/
theorem toList_compactFields : ∀ (level : Nat) (first : Bool) (fields : List (String × Json)),
    (compactFields first fields).toList ++ ['\x7d'] = spellFields .none level first fields
  | _, first, [] => by cases first <;> rfl
  | level, first, (name, value) :: rest => by
      have h := toList_compactFields level false rest
      rw [spellFields, ← h, ← toList_compact (level + 1) value, compactFields]
      cases first <;> simp [Spacing.none, quote]

end

/-- The start of a line is the gap of its level. -/
theorem toList_lineStart (level : Nat) : (lineStart level).toList = Spacing.lines.gap level := by
  simp [lineStart, Spacing.lines]

mutual

/-- The indented text is the text with a line for each part. -/
theorem toList_prettyAt : ∀ (level : Nat) (v : Json),
    (prettyAt level v).toList = spell .lines level v
  | _, .null => by rw [prettyAt]; rfl
  | _, .bool value => by rw [prettyAt]; cases value <;> rfl
  | _, .number value => by rw [prettyAt, spell]
  | _, .string value => by rw [prettyAt, spell, quote, String.toList_ofList]
  | _, .array [] => by rw [prettyAt]; rfl
  | level, .array (item :: rest) => by
      rw [spell, ← toList_prettyItems level true (item :: rest), prettyAt]
      · simp [toList_lineStart]
      · simp
  | _, .object [] => by rw [prettyAt]; rfl
  | level, .object (entry :: rest) => by
      rw [spell, ← toList_prettyFields level true (entry :: rest), prettyAt]
      · simp [toList_lineStart]
      · simp

/-- The indented text of items, closing bracket included, is their spelling on lines. -/
theorem toList_prettyItems : ∀ (level : Nat) (first : Bool) (items : List Json),
    (prettyItems (level + 1) first items).toList ++
        ((if first && items.isEmpty then [] else Spacing.lines.gap level) ++ [']']) =
      spellItems .lines level first items
  | _, first, [] => by cases first <;> simp [prettyItems, spellItems]
  | level, first, item :: rest => by
      have h := toList_prettyItems level false rest
      rw [spellItems, ← h, ← toList_prettyAt (level + 1) item, prettyItems]
      cases first <;> simp [toList_lineStart]

/-- The indented text of members, closing bracket included, is their spelling on lines. -/
theorem toList_prettyFields : ∀ (level : Nat) (first : Bool) (fields : List (String × Json)),
    (prettyFields (level + 1) first fields).toList ++
        ((if first && fields.isEmpty then [] else Spacing.lines.gap level) ++ ['\x7d']) =
      spellFields .lines level first fields
  | _, first, [] => by cases first <;> simp [prettyFields, spellFields]
  | level, first, (name, value) :: rest => by
      have h := toList_prettyFields level false rest
      rw [spellFields, ← h, ← toList_prettyAt (level + 1) value, prettyFields]
      cases first <;> simp [toList_lineStart, Spacing.lines, quote]

end

end Json

/-! ### Reading the text of a value -/

namespace JsonText

/-- Blanks in front of a text are skipped. -/
theorem skipBlanks_of_blank {cs : List Char} (h : ∀ c ∈ cs, isBlank c = true) (rest : List Char) :
    skipBlanks (cs ++ rest) = skipBlanks rest := by
  have hdrop : cs.dropWhile isBlank = [] := List.dropWhile_eq_nil_iff.mpr h
  rw [skipBlanks, List.dropWhile_append, hdrop]
  rfl

/-- Blanks in front of a value do not matter. -/
theorem value_congr {cs cs' : List Char} (h : skipBlanks cs = skipBlanks cs') (fuel : Nat) :
    value fuel cs = value fuel cs' := by
  cases fuel with
  | zero => rfl
  | succ fuel => simp only [value, h]

/-- Blanks in front of items do not matter. -/
theorem items_congr {cs cs' : List Char} (h : skipBlanks cs = skipBlanks cs') (fuel : Nat)
    (first : Bool) (read : List Node) : items fuel first read cs = items fuel first read cs' := by
  cases fuel with
  | zero => rfl
  | succ fuel => simp only [items, h]

/-- Blanks in front of members do not matter. -/
theorem fields_congr {cs cs' : List Char} (h : skipBlanks cs = skipBlanks cs') (fuel : Nat)
    (first : Bool) (read : List (Node × Node)) :
    fields fuel first read cs = fields fuel first read cs' := by
  cases fuel with
  | zero => rfl
  | succ fuel => simp only [fields, h]

/-! The first step through the parts of a container. -/

variable {cs rest : List Char} {fuel : Nat}

/-- A closing bracket ends the items. -/
theorem items_close (h : skipBlanks cs = ']' :: rest) (first : Bool) (read : List Node) :
    items (fuel + 1) first read cs = (read.reverse, .closed, some rest) := by
  rw [items, h]
  rfl

/-- The first item follows the opening bracket. -/
theorem items_first {c : Char} (h : skipBlanks cs = c :: rest) (hc : c ≠ ']') (read : List Node) :
    items (fuel + 1) true read cs = item fuel read (c :: rest) := by
  rw [items, h]
  split
  · next heq => cases heq
  · next heq => exact absurd (List.cons.inj heq).1 hc
  · next heq =>
      rw [heq]
      exact if_pos rfl

/-- The other items follow a comma. -/
theorem items_comma (h : skipBlanks cs = ',' :: rest) (read : List Node) :
    items (fuel + 1) false read cs = item fuel read rest := by
  rw [items, h]
  rfl

/-- A closing bracket ends the members. -/
theorem fields_close (h : skipBlanks cs = '\x7d' :: rest) (first : Bool)
    (read : List (Node × Node)) :
    fields (fuel + 1) first read cs = (read.reverse, .closed, some rest) := by
  rw [fields, h]
  rfl

/-- The first member begins with the quote of its name. -/
theorem fields_first (h : skipBlanks cs = '"' :: rest) (read : List (Node × Node)) :
    fields (fuel + 1) true read cs = field fuel read ('"' :: rest) := by
  rw [fields, h]
  rfl

/-- The other members follow a comma. -/
theorem fields_comma (h : skipBlanks cs = ',' :: rest) (read : List (Node × Node)) :
    fields (fuel + 1) false read cs = field fuel read rest := by
  rw [fields, h]
  rfl

/-- A member is a name, a colon and a value. -/
theorem field_of_value {name : String} {node : Node} {key after left : List Char}
    (hcs : skipBlanks cs = '"' :: key)
    (hkey : string (key.length + 1) true [] key = (.string name, some after))
    (hcolon : colon after = .ok rest) (hvalue : value fuel rest = (node, some left))
    (read : List (Node × Node)) :
    field (fuel + 1) read cs = fields fuel false ((.string name, node) :: read) left := by
  simp only [field, hcs, hkey, hcolon, hvalue]

/-- Where a value is read, something other than a bracket stands. -/
theorem skipBlanks_of_value {fuel : Nat} {cs : List Char} {node : Node} {r : List Char}
    (h : value fuel cs = (node, some r)) :
    ∃ c rest, skipBlanks cs = c :: rest ∧ c ≠ ']' := by
  cases fuel with
  | zero => simp [value, absent, stop] at h
  | succ fuel =>
      rw [value] at h
      cases hcs : skipBlanks cs with
      | nil => simp [hcs, absent, stop] at h
      | cons c rest =>
          refine ⟨c, rest, rfl, ?_⟩
          rintro rfl
          simp [hcs, isDigit, absent, stop] at h

end JsonText

namespace Json

open JsonText (skipBlanks_of_blank)

variable (s : Spacing) {rest cs : List Char}

/-- A closing bracket may follow a value, on the same line or on a new one. -/
theorem delimits_gap (level : Nat) {bracket : Char} (h : bracket = ']' ∨ bracket = '\x7d')
    (rest : List Char) : Delimits (s.gap level ++ bracket :: rest) := by
  cases hgap : s.gap level with
  | nil => exact fun c hc => .inr (.inr (Option.some.inj hc ▸ h))
  | cons b bs =>
      have hb : b ∈ s.gap level := hgap ▸ List.mem_cons_self
      exact fun c hc => .inl (Option.some.inj hc ▸ s.gap_blank level b hb)

/-- What stands behind an item is a text that may follow a value. -/
theorem delimits_spellItems (level : Nat) (items : List Json) (rest : List Char) :
    Delimits (spellItems s level false items ++ rest) := by
  cases items with
  | nil =>
      rw [spellItems, List.append_assoc]
      exact delimits_gap s level (.inl rfl) rest
  | cons item items => exact fun c hc => .inr (.inl (Option.some.inj hc).symm)

/-- What follows a member may follow a value. -/
theorem delimits_spellFields (level : Nat) (fields : List (String × Json)) (rest : List Char) :
    Delimits (spellFields s level false fields ++ rest) := by
  cases fields with
  | nil =>
      rw [spellFields, List.append_assoc]
      exact delimits_gap s level (.inr rfl) rest
  | cons entry fields => exact fun c hc => .inr (.inl (Option.some.inj hc).symm)

/-! The blanks in front of the parts of a container. -/

/-- Without items there is the closing bracket. -/
theorem skipBlanks_spellItems_nil (level : Nat) (first : Bool) (rest : List Char) :
    skipBlanks (spellItems s level first [] ++ rest) = ']' :: rest := by
  rw [spellItems, List.append_assoc]
  cases first with
  | true => rfl
  | false => exact skipBlanks_of_blank (s.gap_blank level) _

/-- The first item is spelled behind the opening bracket and a gap. -/
theorem skipBlanks_spellItems_first (level : Nat) (item : Json) (items : List Json)
    (rest : List Char) :
    skipBlanks (spellItems s level true (item :: items) ++ rest) =
      skipBlanks (spell s (level + 1) item ++ (spellItems s level false items ++ rest)) := by
  simp only [spellItems, if_pos, List.nil_append, List.append_assoc]
  exact skipBlanks_of_blank (s.gap_blank _) _

/-- The other items are spelled behind a comma and a gap. -/
theorem skipBlanks_spellItems_comma (level : Nat) (item : Json) (items : List Json)
    (rest : List Char) :
    skipBlanks (spellItems s level false (item :: items) ++ rest) =
      ',' :: (s.gap (level + 1) ++ (spell s (level + 1) item ++
        (spellItems s level false items ++ rest))) := by
  simp only [spellItems, List.append_assoc]
  rfl

/-- Without members there is the closing bracket. -/
theorem skipBlanks_spellFields_nil (level : Nat) (first : Bool) (rest : List Char) :
    skipBlanks (spellFields s level first [] ++ rest) = '\x7d' :: rest := by
  rw [spellFields, List.append_assoc]
  cases first with
  | true => rfl
  | false => exact skipBlanks_of_blank (s.gap_blank level) _

/-- The first member is spelled behind the opening bracket and a gap. -/
theorem skipBlanks_spellFields_first (level : Nat) (name : String) (v : Json)
    (fields : List (String × Json)) (rest : List Char) :
    skipBlanks (spellFields s level true ((name, v) :: fields) ++ rest) =
      skipBlanks (quoteChars name.toList ++ (':' :: (s.colon ++
        (spell s (level + 1) v ++ (spellFields s level false fields ++ rest))))) := by
  simp only [spellFields, if_pos, List.nil_append, List.append_assoc, List.cons_append]
  exact skipBlanks_of_blank (s.gap_blank _) _

/-- The other members are spelled behind a comma and a gap. -/
theorem skipBlanks_spellFields_comma (level : Nat) (name : String) (v : Json)
    (fields : List (String × Json)) (rest : List Char) :
    skipBlanks (spellFields s level false ((name, v) :: fields) ++ rest) =
      ',' :: (s.gap (level + 1) ++ (quoteChars name.toList ++ (':' :: (s.colon ++
        (spell s (level + 1) v ++ (spellFields s level false fields ++ rest)))))) := by
  simp only [spellFields, List.append_assoc, List.cons_append]
  rfl

/-- No legible value is spelled as nothing. -/
theorem length_spell_pos {v : Json} (h : v.Legible) (level : Nat) :
    1 ≤ (spell s level v).length := by
  cases h with
  | null => simp [spell]
  | bool value => cases value <;> simp [spell]
  | number h => exact List.length_pos_iff.mpr h.render_ne_nil
  | string value => simp [spell, quoteChars]
  | array h => simp [spell]
  | object h => simp [spell]

/-- Items are spelled with their closing bracket at least. -/
theorem length_spellItems_pos (level : Nat) (first : Bool) (items : List Json) :
    1 ≤ (spellItems s level first items).length := by
  cases items with
  | nil => simp [spellItems]
  | cons item items =>
      have := length_spellItems_pos level false items
      rw [spellItems, List.length_append]
      omega

/-- Members are spelled with their closing bracket at least. -/
theorem length_spellFields_pos (level : Nat) (first : Bool) (fields : List (String × Json)) :
    1 ≤ (spellFields s level first fields).length := by
  cases fields with
  | nil => simp [spellFields]
  | cons entry fields => simp [spellFields]; omega

/-- No blank stands in front of a quoted text. -/
theorem skipBlanks_quoteChars (cs rest : List Char) :
    skipBlanks (quoteChars cs ++ rest) = '"' :: (cs.flatMap escapeChar ++ '"' :: rest) := by
  rw [quoteChars, List.append_assoc]
  rfl

mutual

/-- The text of a value is read as the tree of the value, whatever may follow. -/
theorem value_spell : ∀ (level : Nat) {v : Json}, v.Legible → ∀ (fuel : Nat) {rest : List Char},
    Delimits rest → 3 * (spell s level v).length ≤ fuel →
    ∃ r, value fuel (spell s level v ++ rest) = (.ofJson v, some r) ∧ skipBlanks r = skipBlanks rest
  | level, v, h, 0, rest, _, hfuel => by
      have := length_spell_pos s h level
      omega
  | level, .null, _, fuel + 1, rest, _, _ => ⟨rest, by rw [value]; rfl, rfl⟩
  | level, .bool true, _, fuel + 1, rest, _, _ => ⟨rest, by rw [value]; rfl, rfl⟩
  | level, .bool false, _, fuel + 1, rest, _, _ => ⟨rest, by rw [value]; rfl, rfl⟩
  | level, .number n, h, fuel + 1, rest, hrest, _ => by
      cases h with
      | number h => exact h rest hrest fuel
  | level, .string text, _, fuel + 1, rest, _, _ => by
      refine ⟨rest, ?_, rfl⟩
      rw [value, spell, skipBlanks_quoteChars]
      exact (JsonText.string_quoteChars _ _).trans (by rw [String.ofList_toList]; rfl)
  | level, .array items, h, fuel + 1, rest, _, hfuel => by
      cases h with
      | array h =>
          rw [spell, List.length_cons] at hfuel
          have hitems := items_spell level true h fuel [] rest (by omega)
          refine ⟨rest, ?_, rfl⟩
          have hstep : value (fuel + 1) (spell s level (.array items) ++ rest) =
              let (nodes, close, rest) :=
                JsonText.items fuel true [] (spellItems s level true items ++ rest)
              (.array nodes close, rest) := by
            rw [value]; rfl
          rw [hstep, hitems]
          rfl
  | level, .object fields, h, fuel + 1, rest, _, hfuel => by
      cases h with
      | object h =>
          rw [spell, List.length_cons] at hfuel
          have hfields := fields_spell level true h fuel [] rest (by omega)
          refine ⟨rest, ?_, rfl⟩
          have hstep : value (fuel + 1) (spell s level (.object fields) ++ rest) =
              let (nodes, close, rest) :=
                JsonText.fields fuel true [] (spellFields s level true fields ++ rest)
              (.object nodes close, rest) := by
            rw [value]; rfl
          rw [hstep, hfields]
          rfl

/-- Items are read back, behind those that were read before. -/
theorem items_spell : ∀ (level : Nat) (first : Bool) {items : List Json},
    (∀ item ∈ items, item.Legible) → ∀ (fuel : Nat) (read : List Node) (rest : List Char),
    3 * (spellItems s level first items).length ≤ fuel →
    JsonText.items fuel first read (spellItems s level first items ++ rest) =
      (read.reverse ++ Node.ofJsonItems items, .closed, some rest)
  | level, first, [], _, fuel, read, rest, hfuel => by
      have hpos := length_spellItems_pos s level first []
      obtain ⟨fuel, rfl⟩ := Nat.exists_eq_add_of_le' (m := 1) (n := fuel) (by omega)
      rw [JsonText.items_close (skipBlanks_spellItems_nil s level first rest), Node.ofJsonItems,
        List.append_nil]
  | level, first, item :: items, h, fuel, read, rest, hfuel => by
      obtain ⟨hitem, hitems⟩ := List.forall_mem_cons.mp h
      have hpos := length_spell_pos s hitem (level + 1)
      have hpos' := length_spellItems_pos s level false items
      rw [spellItems, List.length_append, List.length_append] at hfuel
      obtain ⟨fuel, rfl⟩ := Nat.exists_eq_add_of_le' (m := 2) (n := fuel) (by omega)
      obtain ⟨r, hvalue, hr⟩ := value_spell (level + 1) hitem fuel
        (delimits_spellItems s level items rest) (by omega)
      -- The item and those after it, whatever stands in front of it.
      have hread : ∀ cs, skipBlanks cs = skipBlanks (spell s (level + 1) item ++
            (spellItems s level false items ++ rest)) →
          JsonText.item (fuel + 1) read cs =
            (read.reverse ++ Node.ofJsonItems (item :: items), .closed, some rest) := by
        intro cs hcs
        rw [JsonText.item, JsonText.value_congr hcs, hvalue]
        dsimp only
        rw [JsonText.items_congr hr, items_spell level false hitems _ _ _ (by omega)]
        simp [Node.ofJsonItems]
      cases first with
      | true =>
          obtain ⟨c, cs, hcs, hc⟩ := JsonText.skipBlanks_of_value hvalue
          rw [JsonText.items_first
            ((skipBlanks_spellItems_first s level item items rest).trans hcs) hc]
          exact hread _ (hcs ▸ List.dropWhile_idempotent _ _)
      | false =>
          rw [JsonText.items_comma (skipBlanks_spellItems_comma s level item items rest)]
          exact hread _ (skipBlanks_of_blank (s.gap_blank _) _)

/-- Members are read back, behind those that were read before. -/
theorem fields_spell : ∀ (level : Nat) (first : Bool) {fields : List (String × Json)},
    (∀ entry ∈ fields, entry.2.Legible) →
    ∀ (fuel : Nat) (read : List (Node × Node)) (rest : List Char),
    3 * (spellFields s level first fields).length ≤ fuel →
    JsonText.fields fuel first read (spellFields s level first fields ++ rest) =
      (read.reverse ++ Node.ofJsonFields fields, .closed, some rest)
  | level, first, [], _, fuel, read, rest, hfuel => by
      have hpos := length_spellFields_pos s level first []
      obtain ⟨fuel, rfl⟩ := Nat.exists_eq_add_of_le' (m := 1) (n := fuel) (by omega)
      rw [JsonText.fields_close (skipBlanks_spellFields_nil s level first rest), Node.ofJsonFields,
        List.append_nil]
  | level, first, (name, v) :: fields, h, fuel, read, rest, hfuel => by
      have hv : v.Legible := h (name, v) List.mem_cons_self
      have hfields := (List.forall_mem_cons.mp h).2
      have hpos' := length_spellFields_pos s level false fields
      simp only [spellFields, List.length_append, List.length_cons] at hfuel
      obtain ⟨fuel, rfl⟩ := Nat.exists_eq_add_of_le' (m := 2) (n := fuel) (by omega)
      obtain ⟨r, hvalue, hr⟩ := value_spell (level + 1) hv fuel
        (delimits_spellFields s level fields rest) (by omega)
      -- The member and those after it, whatever stands in front of it.
      have hread : ∀ cs, skipBlanks cs = skipBlanks (quoteChars name.toList ++ (':' :: (s.colon ++
            (spell s (level + 1) v ++ (spellFields s level false fields ++ rest))))) →
          JsonText.field (fuel + 1) read cs =
            (read.reverse ++ Node.ofJsonFields ((name, v) :: fields), .closed, some rest) := by
        intro cs hcs
        rw [skipBlanks_quoteChars] at hcs
        have hcolon := JsonText.value_congr (skipBlanks_of_blank s.colon_blank
          (spell s (level + 1) v ++ (spellFields s level false fields ++ rest))) fuel
        rw [JsonText.field_of_value hcs (JsonText.string_quoteChars _ _) rfl (hcolon.trans hvalue),
          JsonText.fields_congr hr, fields_spell level false hfields _ _ _ (by omega)]
        simp [Node.ofJsonFields]
      cases first with
      | true =>
          have hskip := skipBlanks_spellFields_first s level name v fields rest
          rw [JsonText.fields_first (hskip.trans (skipBlanks_quoteChars _ _))]
          refine hread _ ?_
          rw [skipBlanks_quoteChars]
          rfl
      | false =>
          rw [JsonText.fields_comma (skipBlanks_spellFields_comma s level name v fields rest)]
          exact hread _ (skipBlanks_of_blank (s.gap_blank _) _)

end

/-! ### The two texts of a value -/

variable {v : Json}

/-- The tree of a spelled value is the one of the value. -/
theorem tree_of_spell (h : v.Legible) {text : String} {level : Nat}
    (htext : text.toList = spell s level v) : JsonText.tree text = (.ofJson v, .closed) := by
  obtain ⟨r, hvalue, hr⟩ := value_spell s level h _ JsonText.delimits_nil
    (Nat.le_add_right (3 * (spell s level v).length) 3)
  rw [List.append_nil] at hvalue
  rw [JsonText.tree_eq_treeOf, htext, JsonText.treeOf, hvalue]
  dsimp only
  rw [hr]
  rfl

/-- The tree of the compact text of a value is the tree of the value. -/
theorem tree_compact (h : v.Legible) : JsonText.tree v.compact = (.ofJson v, .closed) :=
  tree_of_spell .none h (toList_compact 0 v)

/-- The tree of the indented text of a value is the tree of the value. -/
theorem tree_pretty (h : v.Legible) : JsonText.tree v.pretty = (.ofJson v, .closed) :=
  tree_of_spell .lines h (toList_prettyAt 0 v)

end Json

end ServiceDocs
