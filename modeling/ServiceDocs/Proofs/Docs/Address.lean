import Mathlib.Data.List.Induction
import ServiceDocs.Docs.Viewer
import ServiceDocs.Proofs.Json.Tokens
import ServiceDocs.Proofs.Text.Replace

/-!
# The Address in a Script

A fixed address is quoted for the script of the page, and in what comes out a backslash is put
between each `<` and a slash after it. This happens to the quoted text and not to the address, so it
must not meet the escapes of the quoting. It does not: an escape begins with a backslash and has no
`<`, so `<` and a slash stand next to each other in the quoted text where they do in the address,
and the slash that has got a backslash is another escape of the same slash.

## Main results

* `DocumentUrl.not_infix_replaceAll`: no `<` with a slash after it is left or made.
* `DocumentUrl.standsFor_replaceAll`: the text between the quotes stands for the address.
* `DocumentUrl.ofText_script_fixed`: the expression for an address is a string that says the
address.
-/

namespace ServiceDocs.DocumentUrl

open JsonText (StandsFor escapeChar_cases)
open Text (Apart BeginsClear replaceAll)

/-- Where a slash follows `<`, a backslash is put between them. -/
theorem not_infix_replaceAll (cs : List Char) :
    ¬['<', '/'] <:+: replaceAll ['<', '/'] ['<', '\\', '/'] cs := by
  induction cs using Text.scan_induction (List.cons_ne_nil '<' ['/']) with
  | nil => decide
  | occurrence rest ih =>
      rw [Text.replaceAll_pattern_append (List.cons_ne_nil _ _)]
      simp [List.infix_cons_iff, List.cons_prefix_cons, ih]
  | char c rest hp ih =>
      rw [Text.replaceAll_cons hp, List.infix_cons_iff, not_or]
      refine ⟨fun hp' => ?_, ih⟩
      obtain ⟨rfl, hslash⟩ := List.cons_prefix_cons.mp hp'
      -- what follows begins with a slash, as it did before
      cases rest with
      | nil => exact absurd hslash (by decide)
      | cons d rest =>
          by_cases hd : ['<', '/'] <+: d :: rest
          · obtain ⟨tail, htail⟩ := hd
            rw [← htail, Text.replaceAll_pattern_append (List.cons_ne_nil _ _)] at hslash
            exact absurd (List.cons_prefix_cons.mp hslash).1 (by decide)
          · rw [Text.replaceAll_cons hd] at hslash
            obtain ⟨rfl, -⟩ := List.cons_prefix_cons.mp hslash
            exact hp (List.prefix_append ['<', '/'] rest)

/-- A document beside the page is asked for below the address of the page itself. -/
theorem script_sibling : sibling.script = "window.location.href + '.json'".toList := rfl

/-- A given address is quoted as a text, and every slash after a `<` gets a backslash. -/
theorem script_fixed (url : String) :
    (fixed url).script = replaceAll ['<', '/'] ['<', '\\', '/']
      (['"'] ++ (url.toList.flatMap Json.escapeChar ++ ['"'])) := rfl

/-- A fixed address stands between quotes, and what is replaced lies between them. -/
theorem script_fixed_eq (url : String) :
    (fixed url).script = ['"'] ++ (replaceAll ['<', '/'] ['<', '\\', '/']
      (url.toList.flatMap Json.escapeChar) ++ ['"']) := by
  have hquote : BeginsClear ['<', '/'] ['"'] := by decide
  rw [script_fixed, List.singleton_append, Text.replaceAll_cons (by simp),
    Text.replaceAll_append (List.cons_ne_nil _ _) (hquote.apart _)]
  rfl

/-! ### Escapes and what is replaced -/

/-- Only a slash is written with a slash in front. -/
theorem eq_slash_of_head? {c : Char} {cs : List Char}
    (h : ((c :: cs).flatMap Json.escapeChar).head? = some '/') : c = '/' := by
  rw [List.flatMap_cons] at h
  rcases escapeChar_cases c with hself | ⟨-, rest, hescape, -⟩
  · rw [hself, List.singleton_append, List.head?_cons] at h
    exact Option.some.inj h
  · rw [hescape, List.cons_append, List.head?_cons] at h
    exact absurd (Option.some.inj h) (by decide)

/-- No other character is written with a `<`. -/
theorem eq_of_mem_escapeChar {c : Char} (h : '<' ∈ Json.escapeChar c) : c = '<' := by
  rcases escapeChar_cases c with hself | ⟨-, rest, hescape, hrest⟩
  · rw [hself, List.mem_singleton] at h
    exact h.symm
  · rw [hescape, List.mem_cons] at h
    rcases h with h | h
    · exact absurd h (by decide)
    · exact absurd (hrest h) (by decide)

/-- A written character is passed over, unless it is a `<` with a slash after it. -/
theorem replaceAll_escapeChar_append {c : Char} {rest : List Char}
    (h : c = '<' → rest.head? ≠ some '/') :
    replaceAll ['<', '/'] ['<', '\\', '/'] (Json.escapeChar c ++ rest) =
      Json.escapeChar c ++ replaceAll ['<', '/'] ['<', '\\', '/'] rest := by
  by_cases hc : c = '<'
  · have hnot : ¬['<', '/'] <+: '<' :: rest := by
      intro hp
      obtain ⟨tail, rfl⟩ := (List.cons_prefix_cons.mp hp).2
      exact h hc rfl
    have hwritten : Json.escapeChar c = ['<'] := by
      rw [hc]
      rfl
    rw [hwritten, List.singleton_append, Text.replaceAll_cons hnot, List.singleton_append]
  · have hnone : '<' ∉ Json.escapeChar c := fun hmem => hc (eq_of_mem_escapeChar hmem)
    have hapart : Apart ['<', '/'] (Json.escapeChar c) rest := by
      intro s hs hne hp
      obtain ⟨d, s, rfl⟩ := List.exists_cons_of_ne_nil hne
      obtain ⟨rfl, -⟩ := List.cons_prefix_cons.mp hp
      exact absurd (hs.subset List.mem_cons_self) hnone
    have hself : ¬['<', '/'] <:+: Json.escapeChar c := fun hi =>
      hnone (hi.subset List.mem_cons_self)
    rw [Text.replaceAll_append (List.cons_ne_nil _ _) hapart, Text.replaceAll_of_not_infix hself]

/-- What stands between the quotes stands for the address. A `<` and the slash after it are read
together, since only they are replaced. -/
theorem standsFor_replaceAll (cs : List Char) :
    StandsFor (replaceAll ['<', '/'] ['<', '\\', '/'] (cs.flatMap Json.escapeChar)) cs := by
  induction cs using List.twoStepInduction with
  | nil => exact .nil
  | singleton c =>
      rw [List.flatMap_cons, replaceAll_escapeChar_append fun _ => by simp]
      exact .char c .nil
  | cons_cons c d cs ih ih' =>
      by_cases h : c = '<' ∧ d = '/'
      · obtain ⟨rfl, rfl⟩ := h
        have hflat : ('<' :: '/' :: cs).flatMap Json.escapeChar =
            ['<', '/'] ++ cs.flatMap Json.escapeChar := rfl
        rw [hflat, Text.replaceAll_pattern_append (List.cons_ne_nil _ _)]
        exact .char '<' (.slash ih)
      · have hhead : c = '<' → ((d :: cs).flatMap Json.escapeChar).head? ≠ some '/' :=
          fun hc hhead => h ⟨hc, eq_slash_of_head? hhead⟩
        rw [List.flatMap_cons, replaceAll_escapeChar_append hhead]
        exact .char c (ih' d)

/-- The expression for a fixed address is a string between quotes that is read as the address, and
no slash follows a `<` in it. -/
theorem ofText_script_fixed (url : String) :
    Codec.json.ofText (JsonText.tree (String.ofList (fixed url).script)) = .ok (.string url) ∧
      (∃ inner, (fixed url).script = '"' :: (inner ++ ['"'])) ∧
      ¬['<', '/'] <:+: (fixed url).script := by
  have hscript := script_fixed_eq url
  refine ⟨?_, ⟨_, hscript⟩, not_infix_replaceAll _⟩
  have htree := (standsFor_replaceAll url.toList).tree_eq
  rw [String.ofList_toList] at htree
  rw [hscript, List.singleton_append, htree]
  rfl

end ServiceDocs.DocumentUrl
