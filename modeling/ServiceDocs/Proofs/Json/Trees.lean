import ServiceDocs.Json.Parser
import ServiceDocs.Proofs.Json.Sound

/-!
# Trees of Texts

Whatever a text says, its tree is one that a JSON text can have: numbers are in range and
keys are texts or faults. The parser has five mutually recursive parts that share one
bound, so the statement about all of them is proved by induction on the bound.

## Main definitions

* `JsonText.treeOf`: the tree of a text that is given by its characters.

## Main results

* `NumberLiteral.sound_value`: the value of a literal is in range.
* `JsonText.isJson_tree`: the tree of any text is a tree of a JSON text.
-/

namespace ServiceDocs

/-! ### Numbers -/

/-- The value of a literal is a number that a text can hold. -/
theorem NumberLiteral.sound_value {l : NumberLiteral} {n : Number} (h : l.value? = some n) :
    n.Sound := by
  have hdouble : ∀ {n}, l.double?.map Number.float = some n → n.Sound := by
    intro n hn
    obtain ⟨x, hx, rfl⟩ := Option.map_eq_some_iff.mp hn
    exact .float (Option.filter_eq_some_iff.mp hx).2
  rw [value?] at h
  split at h
  · dsimp only at h
    split at h
    · split at h
      · exact hdouble h
      · next hrange =>
          obtain rfl := Option.some.inj h
          simp only [Bool.or_eq_true, beq_iff_eq, decide_eq_true_eq, not_or] at hrange
          exact .int (by omega) (by omega)
    · split at h
      · next hrange =>
          obtain rfl := Option.some.inj h
          rw [greatestSignificand] at hrange
          exact .int (by omega) (by omega)
      · exact hdouble h
  · exact hdouble h

namespace JsonText

/-- What is read as the end of a number is a tree of a JSON text. -/
theorem isJson_literal (l : NumberLiteral) (rest : List Char) : (literal l rest).1.IsJson := by
  rw [literal]
  cases h : l.value? with
  | some n => exact .number (NumberLiteral.sound_value h)
  | none => exact .defect _

/-- So is what is read as an exponent. -/
theorem isJson_exponent (l : NumberLiteral) (cs : List Char) : (exponent l cs).1.IsJson := by
  have hdigits : ∀ (sign : Bool × List Char), (if (sign.2.takeWhile isDigit).isEmpty then
      lackingDigit sign.2
    else literal { l with exponent := some (sign.1, sign.2.takeWhile isDigit) }
      (sign.2.dropWhile isDigit)).1.IsJson := by
    intro sign
    split
    · exact .defect _
    · exact isJson_literal _ _
  rw [exponent.eq_def]
  split
  · split
    · exact hdigits _
    · exact isJson_literal _ _
  · exact isJson_literal _ _

/-- So is what is read as a fraction. -/
theorem isJson_fraction (l : NumberLiteral) (cs : List Char) : (fraction l cs).1.IsJson := by
  rw [fraction.eq_def]
  split
  · dsimp only
    split
    · exact .defect _
    · exact isJson_exponent _ _
  · exact isJson_exponent _ _

/-- So is what is read as a number. -/
theorem isJson_number (negative : Bool) (cs : List Char) : (number negative cs).1.IsJson := by
  rw [number.eq_def]
  dsimp only
  split
  · exact .defect _
  · exact .defect _
  · exact isJson_fraction _ _

/-! ### Words and strings -/

/-- So is what is read as a word. -/
theorem isJson_word {node : Node} (h : node.IsJson) (expected cs : List Char) :
    (word node expected cs).1.IsJson := by
  induction expected generalizing cs with
  | nil => exact h
  | cons e es ih =>
      cases cs with
      | nil => exact .defect _
      | cons c cs =>
          rw [word]
          split
          · exact ih cs
          · exact .defect _

/-- A string is read as a text or as a fault. -/
theorem string_eq (fuel : Nat) (whole : Bool) (read cs : List Char) :
    (∃ s, (string fuel whole read cs).1 = .string s) ∨
      ∃ d, (string fuel whole read cs).1 = .defect d := by
  induction fuel generalizing whole read cs with
  | zero => exact .inr ⟨_, rfl⟩
  | succ fuel ih =>
      rw [string.eq_def]
      dsimp only
      split
      · exact .inr ⟨_, rfl⟩
      · split
        · exact .inl ⟨_, rfl⟩
        · exact .inr ⟨_, rfl⟩
      · split
        · exact ih _ _ _
        · exact ih _ _ _
        · exact .inr ⟨_, rfl⟩
      · split
        · exact .inr ⟨_, rfl⟩
        · exact ih _ _ _

/-- So is what is read between quotes. -/
theorem isJson_string (fuel : Nat) (cs : List Char) : (string fuel true [] cs).1.IsJson := by
  rcases string_eq fuel true [] cs with ⟨s, h⟩ | ⟨d, h⟩
  · rw [h]; exact .string s
  · rw [h]; exact .defect d

/-- What is read between quotes may also be a key. -/
theorem isKey_string (fuel : Nat) (cs : List Char) : (string fuel true [] cs).1.IsKey := by
  rcases string_eq fuel true [] cs with ⟨s, h⟩ | ⟨d, h⟩
  · rw [h]; exact .inl ⟨s, rfl⟩
  · rw [h]; exact .inr (.inr ⟨d, rfl⟩)

/-! ### Values -/

/-- Members that an object of a JSON text can have. -/
def AreMembers (fields : List (Node × Node)) : Prop :=
  ∀ entry ∈ fields, entry.1.IsKey ∧ entry.2.IsJson

/-- Everything that is read with a bound is part of a tree of a JSON text. -/
structure ReadsTrees (fuel : Nat) : Prop where
  value : ∀ cs, (value fuel cs).1.IsJson
  items : ∀ first read cs, (∀ n ∈ read, n.IsJson) → ∀ n ∈ (items fuel first read cs).1, n.IsJson
  item : ∀ read cs, (∀ n ∈ read, n.IsJson) → ∀ n ∈ (item fuel read cs).1, n.IsJson
  fields : ∀ first read cs, AreMembers read → AreMembers (fields fuel first read cs).1
  field : ∀ read cs, AreMembers read → AreMembers (field fuel read cs).1

/-- One more step for values keeps to trees of a JSON text. -/
theorem value_succ {fuel : Nat} (h : ReadsTrees fuel) (cs : List Char) :
    (JsonText.value (fuel + 1) cs).1.IsJson := by
  rw [JsonText.value]
  split
  · exact .defect _
  · exact isJson_word .null _ _
  · exact isJson_word (.bool true) _ _
  · exact isJson_word (.bool false) _ _
  · exact isJson_string _ _
  · exact isJson_number _ _
  · exact .array _ (h.items true [] _ (fun _ hn => nomatch hn))
  · next rest _ =>
    have hfields := h.fields true [] rest (fun _ hn => nomatch hn)
    exact .object _ (fun entry hentry => (hfields entry hentry).1)
      (fun entry hentry => (hfields entry hentry).2)
  · split
    · exact isJson_number _ _
    · exact .defect _

/-- So does one more step for items. -/
theorem items_succ {fuel : Nat} (h : ReadsTrees fuel) (first : Bool) (read : List Node)
    (cs : List Char) (hread : ∀ n ∈ read, n.IsJson) :
    ∀ n ∈ (JsonText.items (fuel + 1) first read cs).1, n.IsJson := by
  have hreverse : ∀ n ∈ read.reverse, n.IsJson := fun n hn => hread n (List.mem_reverse.mp hn)
  rw [JsonText.items]
  split
  · exact hreverse
  · exact hreverse
  · split
    · exact h.item _ _ hread
    · split
      · exact h.item _ _ hread
      · exact hreverse

/-- So does one more step for a single item. -/
theorem item_succ {fuel : Nat} (h : ReadsTrees fuel) (read : List Node) (cs : List Char)
    (hread : ∀ n ∈ read, n.IsJson) : ∀ n ∈ (JsonText.item (fuel + 1) read cs).1, n.IsJson := by
  have hvalue := h.value cs
  rw [JsonText.item]
  split
  · next node rest he =>
      rw [he] at hvalue
      exact h.items _ _ _ (List.forall_mem_cons.mpr ⟨hvalue, hread⟩)
  · next node he =>
      rw [he] at hvalue
      intro n hn
      exact List.forall_mem_cons.mpr ⟨hvalue, hread⟩ n (List.mem_reverse.mp hn)

/-- So does one more step for members. -/
theorem fields_succ {fuel : Nat} (h : ReadsTrees fuel) (first : Bool) (read : List (Node × Node))
    (cs : List Char) (hread : AreMembers read) :
    AreMembers (JsonText.fields (fuel + 1) first read cs).1 := by
  have hreverse : AreMembers read.reverse := fun n hn => hread n (List.mem_reverse.mp hn)
  rw [JsonText.fields]
  split
  · exact hreverse
  · exact hreverse
  · split
    · exact h.field _ _ hread
    · split
      · exact h.field _ _ hread
      · exact hreverse

/-- So does one more step for a single member. -/
theorem field_succ {fuel : Nat} (h : ReadsTrees fuel) (read : List (Node × Node)) (cs : List Char)
    (hread : AreMembers read) : AreMembers (JsonText.field (fuel + 1) read cs).1 := by
  have hlast :
      ∀ key node : Node, key.IsKey → node.IsJson → AreMembers ((key, node) :: read).reverse := by
    intro key node hkey hnode n hn
    exact List.forall_mem_cons.mpr ⟨⟨hkey, hnode⟩, hread⟩ n (List.mem_reverse.mp hn)
  rw [JsonText.field]
  dsimp only
  split
  · exact hlast _ _ (.inr (.inr ⟨_, rfl⟩)) .null
  · exact hlast _ _ (.inr (.inr ⟨_, rfl⟩)) .null
  · next rest _ =>
      have hkey := isKey_string (rest.length + 1) rest
      split
      · next key he =>
          rw [he] at hkey
          exact hlast _ _ hkey .null
      · next key rest he =>
          rw [he] at hkey
          split
          · exact hlast _ _ hkey (.defect _)
          · next rest _ =>
              have hvalue := h.value rest
              split
              · next node rest he =>
                  rw [he] at hvalue
                  exact h.fields _ _ _ (List.forall_mem_cons.mpr ⟨⟨hkey, hvalue⟩, hread⟩)
              · next node he =>
                  rw [he] at hvalue
                  exact hlast _ _ hkey hvalue
  · exact hlast _ _ (.inr (.inl ⟨_, rfl⟩)) .null

/-- With any bound, all that is read is part of a tree of a JSON text. -/
theorem readsTrees (fuel : Nat) : ReadsTrees fuel := by
  induction fuel with
  | zero =>
      refine ⟨fun cs => .defect _, fun first read cs hread n hn => ?_, fun read cs hread n hn => ?_,
        fun first read cs hread n hn => ?_, fun read cs hread n hn => ?_⟩
      all_goals exact hread n (List.mem_reverse.mp hn)
  | succ fuel ih =>
      exact ⟨value_succ ih, items_succ ih, item_succ ih, fields_succ ih, field_succ ih⟩

/-- The tree of a text that is given by its characters. -/
def treeOf (cs : List Char) : Node × Close :=
  match value (3 * cs.length + 3) cs with
  | (node, none) => (node, .closed)
  | (node, some rest) => (node, if (skipBlanks rest).isEmpty then .closed else .fault .malformed)

/-- The tree of a text is the one of its characters. -/
theorem tree_eq_treeOf (text : String) : tree text = treeOf text.toList := rfl

/-- The tree of any text is one that a JSON text can have. -/
theorem isJson_tree (text : String) : (tree text).1.IsJson := by
  have h := (readsTrees (3 * text.toList.length + 3)).value text.toList
  rw [tree_eq_treeOf, treeOf]
  split
  · next node he => rwa [he] at h
  · next node rest he => rwa [he] at h

end JsonText

end ServiceDocs
