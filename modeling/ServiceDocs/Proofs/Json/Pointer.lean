import ServiceDocs.Json.Basic

/-!
# Pointers into JSON Values

A reference to a part of a document names it by a pointer: `#`, and after every slash one step
down, either the name of a member or the index of an item. A name may hold slashes itself, so a
pointer writes `~1` for a slash within a name and `~0` for a tilde.

A name that is put into a pointer as it is stands for itself only if it holds neither a slash nor
what would be read as an escape. Of any other name, the first step of the pointer is shorter than
the name, and so the pointer goes somewhere else.

## Main definitions

* `Pointer.names`: the steps of a pointer.
* `Pointer.IsLiteral`: the names that need no escapes.
* `Json.under?`, `Json.resolve?`: the part of a value that a pointer names.

## Main results

* `Pointer.names_of_isLiteral`, `Pointer.exists_names_of_not_isLiteral`: names that are put into a
  pointer as they are.
-/

namespace ServiceDocs

namespace Pointer

/-! ### Escapes -/

/-- A step of a pointer without its escapes: `~0` stands for a tilde and `~1` for a slash. A
tilde before anything else stands for itself. -/
def unescape : List Char → List Char
  | '~' :: '0' :: rest => '~' :: unescape rest
  | '~' :: '1' :: rest => '/' :: unescape rest
  | c :: rest => c :: unescape rest
  | [] => []

/-- Some tilde begins an escape. -/
def HasEscape (step : List Char) : Prop := ['~', '0'] <:+: step ∨ ['~', '1'] <:+: step

instance (step : List Char) : Decidable (HasEscape step) := inferInstanceAs (Decidable (_ ∨ _))

/-- Taking the escapes out of a step makes it no longer. -/
theorem length_unescape_le (step : List Char) : (unescape step).length ≤ step.length := by
  fun_induction unescape step with
  | case1 rest ih | case2 rest ih =>
      simp only [List.length_cons]
      omega
  | case3 c rest _ _ ih => exact Nat.succ_le_succ ih
  | case4 => exact Nat.le_refl 0

/-- Only a step without escapes is left as it is. -/
theorem unescape_eq_self_iff {step : List Char} : unescape step = step ↔ ¬HasEscape step := by
  fun_induction unescape step with
  | case1 rest _ | case2 rest _ =>
      have hlength := length_unescape_le rest
      refine iff_of_false (fun h => ?_) (fun h => h ?_)
      · have := congrArg List.length h
        simp only [List.length_cons] at this
        omega
      · simp [HasEscape, List.infix_cons_iff]
  | case3 c rest hzero hone ih =>
      have hstart :
          ∀ digit, ['~', digit] <+: c :: rest → ∃ more, c = '~' ∧ rest = digit :: more := by
        rintro digit ⟨more, hmore⟩
        obtain ⟨hc, hrest⟩ := List.cons.inj hmore
        exact ⟨more, hc.symm, hrest.symm⟩
      have hnotZero : ¬['~', '0'] <+: c :: rest := by
        intro h
        obtain ⟨more, hc, hrest⟩ := hstart '0' h
        exact hzero more hc hrest
      have hnotOne : ¬['~', '1'] <+: c :: rest := by
        intro h
        obtain ⟨more, hc, hrest⟩ := hstart '1' h
        exact hone more hc hrest
      rw [List.cons_inj_right, ih]
      simp only [HasEscape, List.infix_cons_iff, hnotZero, hnotOne, false_or]
  | case4 => simp [HasEscape]

/-! ### Steps -/

/-- The steps of a pointer, whose first slash is left out. -/
def names (path : List Char) : List String :=
  (path.splitOn '/').map fun step => String.ofList (unescape step)

/-- The first step ends at the first slash. -/
theorem names_append {step : List Char} (h : '/' ∉ step) (path : List Char) :
    names (step ++ '/' :: path) = String.ofList (unescape step) :: names path := by
  rw [names, List.splitOn_append_cons_self_of_not_mem h, List.map_cons, names]

/-- A text without a slash is one step. -/
theorem names_of_notMem {step : List Char} (h : '/' ∉ step) :
    names step = [String.ofList (unescape step)] := by
  rw [names, List.splitOn_eq_singleton h, List.map_singleton]

/-- A name that is the same with and without escapes. -/
def IsLiteral (name : String) : Prop := '/' ∉ name.toList ∧ ¬HasEscape name.toList

instance (name : String) : Decidable (IsLiteral name) := inferInstanceAs (Decidable (_ ∧ _))

/-- A literal name is a single step, to what has this name. -/
theorem names_of_isLiteral {name : String} (h : IsLiteral name) : names name.toList = [name] := by
  rw [names_of_notMem h.1, unescape_eq_self_iff.mpr h.2, String.ofList_toList]

/-- The first step of a name that is not literal has another name. -/
theorem exists_names_of_not_isLiteral {name : String} (h : ¬IsLiteral name) :
    ∃ first rest, first ≠ name ∧ names name.toList = first :: rest := by
  by_cases hslash : '/' ∈ name.toList
  · obtain ⟨step, path, hname, hstep⟩ := List.eq_append_cons_of_mem hslash
    refine ⟨_, _, fun hfirst => ?_, hname ▸ names_append hstep path⟩
    -- What stands before the slash is shorter than the name.
    have hlength := length_unescape_le step
    have hwhole : name.toList.length = step.length + (path.length + 1) := by rw [hname]; simp
    rw [← hfirst, String.toList_ofList] at hwhole
    omega
  · refine ⟨_, _, fun hfirst => h ⟨hslash, ?_⟩, names_of_notMem hslash⟩
    rw [← unescape_eq_self_iff]
    exact String.ofList_injective (hfirst.trans String.ofList_toList.symm)

end Pointer

/-! ### Parts of a value -/

namespace Json

/-- The values one step below: the members of an object by their names, the items of a list by
their indices. -/
def children : Json → List (String × Json)
  | .object fields => fields
  | .array items => items.mapIdx fun index item => (toString index, item)
  | .null | .bool _ | .number _ | .string _ => []

/-- The value some steps below. -/
def under? : List String → Json → Option Json
  | [], v => some v
  | name :: rest, v => (OrderedMap.findEntry name v.children).bind (under? rest)

/-- The part of a document that a reference to a place of the document itself means. -/
def resolve? (place : String) (document : Json) : Option Json :=
  match place.toList with
  | ['#'] => some document
  | '#' :: '/' :: path => document.under? (Pointer.names path)
  | _ => none

end Json

end ServiceDocs
