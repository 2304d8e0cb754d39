/-!
# Slashes

Paths are told apart by their slashes: one that begins with a slash is absolute, one that ends
with a slash is closed, and the others are not. A text is such a path if it is a slash before or
behind another text.

## Main definitions

* `Text.Absolute`, `Text.Closed`: texts that begin and that end with a slash.

## Main results

* `Text.startsWith_slash_iff`, `Text.endsWith_slash_iff`: how these texts are recognised.
-/

namespace ServiceDocs.Text

/-- A text that begins with a slash. -/
def Absolute (text : String) : Prop := ∃ rest, text = "/" ++ rest

/-- A text that ends with a slash. -/
def Closed (text : String) : Prop := ∃ front, text = front ++ "/"

variable {text : String}

/-- A text begins with a slash exactly if it is one before another text. -/
theorem startsWith_slash_iff : text.startsWith "/" = true ↔ Absolute text := by
  rw [String.startsWith_string_iff]
  constructor
  · rintro ⟨rest, hrest⟩
    exact ⟨.ofList rest, String.toList_inj.mp (by simpa using hrest.symm)⟩
  · rintro ⟨rest, rfl⟩
    exact ⟨rest.toList, (String.toList_append ..).symm⟩

/-- A text ends with a slash exactly if it is one behind another text. -/
theorem endsWith_slash_iff : text.endsWith "/" = true ↔ Closed text := by
  rw [String.endsWith_eq_endsWith_toSlice, String.Slice.endsWith_string_iff, String.copy_toSlice]
  constructor
  · rintro ⟨front, hfront⟩
    exact ⟨.ofList front, String.toList_inj.mp (by simpa using hfront.symm)⟩
  · rintro ⟨front, rfl⟩
    exact ⟨front.toList, (String.toList_append ..).symm⟩

end ServiceDocs.Text
