import Mathlib.Data.List.Infix
import ServiceDocs.Docs.Viewer

/-!
# Escaping a Text for the Page

A text without characters that mean something to the page is not gone through, and any other one
is written character by character. Both ways give the same: where nothing is escaped, the characters
written one by one are the text itself.

An entity begins with `&` and has no other one, so a reader that goes from left to right finds the
entities that were written and no others, also in a text that looks as if it had been escaped
before.

## Main definitions

* `htmlEntities`: what the characters that mean something are written as.
* `unescapeHtml`: reads them back.

## Main results

* `escapeHtml_eq`: both ways of escaping agree.
* `not_mem_escapeHtml`, `exists_entity_of_suffix`: what an escaped text has none of, and what each
`&` in it begins.
* `unescapeHtml_flatMap`: a text that was escaped is read back.
-/

namespace ServiceDocs

/-- What the characters that mean something to the page are written as. -/
def htmlEntities : List String := ["&amp;", "&lt;", "&gt;", "&quot;"]

/-- Reads the entities of a text, in one pass from left to right. -/
def unescapeHtml : List Char → List Char
  | '&' :: 'a' :: 'm' :: 'p' :: ';' :: rest => '&' :: unescapeHtml rest
  | '&' :: 'l' :: 't' :: ';' :: rest => '<' :: unescapeHtml rest
  | '&' :: 'g' :: 't' :: ';' :: rest => '>' :: unescapeHtml rest
  | '&' :: 'q' :: 'u' :: 'o' :: 't' :: ';' :: rest => '"' :: unescapeHtml rest
  | c :: rest => c :: unescapeHtml rest
  | [] => []

/-- An entity is `&` with letters and a semicolon after it. -/
theorem exists_entity_eq {e : String} (h : e ∈ htmlEntities) :
    ∃ rest, e.toList = '&' :: rest ∧ rest ⊆ "amp;ltgquo".toList := by
  simp only [htmlEntities, List.mem_cons, List.not_mem_nil, or_false] at h
  rcases h with rfl | rfl | rfl | rfl
  all_goals exact ⟨_, rfl, by decide⟩

variable {c : Char} {cs : List Char}

/-- A character means nothing to the page exactly if it is none of these four. -/
theorem isMarkup_eq_false_iff : isMarkup c = false ↔ c ≠ '&' ∧ c ≠ '<' ∧ c ≠ '>' ∧ c ≠ '"' := by
  simp [isMarkup, and_assoc]

/-- Other characters stand as they are. -/
theorem escapeHtmlChar_eq_self (h : isMarkup c = false) : escapeHtmlChar c = [c] := by
  obtain ⟨hamp, hlt, hgt, hquote⟩ := isMarkup_eq_false_iff.mp h
  rw [escapeHtmlChar, if_neg hamp, if_neg hlt, if_neg hgt, if_neg hquote]

/-- A character stands as it is or is written as an entity. -/
theorem escapeHtmlChar_cases (c : Char) :
    isMarkup c = false ∧ escapeHtmlChar c = [c] ∨
      ∃ e ∈ htmlEntities, escapeHtmlChar c = e.toList := by
  cases h : isMarkup c with
  | false => exact .inl ⟨rfl, escapeHtmlChar_eq_self h⟩
  | true =>
      simp only [isMarkup, Bool.or_eq_true, beq_iff_eq] at h
      rcases h with ((rfl | rfl) | rfl) | rfl
      all_goals exact .inr ⟨_, by simp [htmlEntities], rfl⟩

/-- A text that is not gone through would come out as it is. -/
theorem escapeHtml_eq (cs : List Char) : escapeHtml cs = cs.flatMap escapeHtmlChar := by
  rw [escapeHtml]
  split
  · rfl
  · next h =>
      have hnone : ∀ c ∈ cs, isMarkup c = false := by simpa using h
      have hself : cs.flatMap escapeHtmlChar = cs.flatMap fun c => [c] :=
        List.flatMap_congr fun c hc => escapeHtmlChar_eq_self (hnone c hc)
      rw [hself, List.flatMap_singleton']

/-- An escaped text has no characters that mean something to the page, but for those that begin an
entity. -/
theorem not_mem_escapeHtml (h : isMarkup c = true) (hamp : c ≠ '&') (cs : List Char) :
    c ∉ escapeHtml cs := by
  rw [escapeHtml_eq]
  intro hmem
  obtain ⟨d, -, hd⟩ := List.mem_flatMap.mp hmem
  rcases escapeHtmlChar_cases d with ⟨hplain, hself⟩ | ⟨e, he, hentity⟩
  · rw [hself, List.mem_singleton] at hd
    exact absurd (hd ▸ h) (by simp [hplain])
  · obtain ⟨tail, heq, htail⟩ := exists_entity_eq he
    have hletters : "amp;ltgquo".toList.all (!isMarkup ·) = true := by decide
    rw [hentity, heq, List.mem_cons] at hd
    refine hd.elim hamp fun hmem => ?_
    have hplain := List.all_eq_true.mp hletters c (htail hmem)
    rw [h] at hplain
    exact Bool.false_ne_true hplain

/-- What begins with a character that does not stand in the front of a text is a part of the
rest. -/
theorem suffix_of_head?_eq {s front rest : List Char} (hs : s <:+ front ++ rest)
    (hhead : s.head? = some c) (hc : c ∉ front) : s <:+ rest := by
  induction front with
  | nil => exact hs
  | cons d front ih =>
      rw [List.mem_cons, not_or] at hc
      rw [List.cons_append, List.suffix_cons_iff] at hs
      rcases hs with rfl | hs
      · exact absurd (Option.some.inj hhead).symm hc.1
      · exact ih hs hc.2

/-- Each `&` of an escaped text begins an entity. -/
theorem exists_entity_of_suffix {s : List Char} (hs : s <:+ cs.flatMap escapeHtmlChar)
    (hhead : s.head? = some '&') : ∃ e ∈ htmlEntities, e.toList <+: s := by
  induction cs with
  | nil => exact absurd hhead (by simp [List.suffix_nil.mp hs])
  | cons c rest ih =>
      rw [List.flatMap_cons] at hs
      rcases escapeHtmlChar_cases c with ⟨hplain, hself⟩ | ⟨e, he, hentity⟩
      · rw [hself] at hs
        have hamp : '&' ∉ [c] := by
          rw [List.mem_singleton]
          exact (isMarkup_eq_false_iff.mp hplain).1.symm
        exact ih (suffix_of_head?_eq hs hhead hamp)
      · obtain ⟨tail, heq, htail⟩ := exists_entity_eq he
        -- the entity has no `&` but the first character
        have hamp : '&' ∉ tail := fun hmem => absurd (htail hmem) (by decide)
        rw [hentity, heq, List.cons_append, List.suffix_cons_iff] at hs
        rcases hs with rfl | hs
        · exact ⟨e, he, heq ▸ List.prefix_append ('&' :: tail) _⟩
        · exact ih (suffix_of_head?_eq hs hhead hamp)

/-- A character that begins no entity is read as itself. -/
theorem unescapeHtml_cons (h : c ≠ '&') (rest : List Char) :
    unescapeHtml (c :: rest) = c :: unescapeHtml rest := by
  rw [unescapeHtml]
  all_goals
    intros
    simp_all

/-- A character is read back from what it is written as. -/
theorem unescapeHtml_escapeHtmlChar_append (c : Char) (rest : List Char) :
    unescapeHtml (escapeHtmlChar c ++ rest) = c :: unescapeHtml rest := by
  rw [escapeHtmlChar]
  split_ifs with hamp hlt hgt hquote
  · rw [hamp]; rfl
  · rw [hlt]; rfl
  · rw [hgt]; rfl
  · rw [hquote]; rfl
  · exact unescapeHtml_cons hamp rest

/-- A text is read back from what its characters are written as. -/
theorem unescapeHtml_flatMap (cs : List Char) : unescapeHtml (cs.flatMap escapeHtmlChar) = cs := by
  induction cs with
  | nil => rfl
  | cons c rest ih => rw [List.flatMap_cons, unescapeHtml_escapeHtmlChar_append, ih]

/-- Escaping is safe and loses nothing. An escaped text has no `<`, no `>` and no quote, each `&` in
it begins an entity, and reading the entities gives the text back, so that no two texts are escaped
alike. It makes no difference whether a text is gone through. -/
theorem escapeHtml_lossless (cs : List Char) :
    ('<' ∉ escapeHtml cs ∧ '>' ∉ escapeHtml cs ∧ '"' ∉ escapeHtml cs) ∧
      (∀ s, s <:+ escapeHtml cs → s.head? = some '&' → ∃ e ∈ htmlEntities, e.toList <+: s) ∧
      unescapeHtml (escapeHtml cs) = cs ∧
      (∀ cs', escapeHtml cs = escapeHtml cs' → cs = cs') ∧
      escapeHtml cs = cs.flatMap escapeHtmlChar := by
  have hread : ∀ cs, unescapeHtml (escapeHtml cs) = cs := fun cs => by
    rw [escapeHtml_eq, unescapeHtml_flatMap]
  refine ⟨⟨?_, ?_, ?_⟩, fun s hs hhead => ?_, hread cs, fun cs' heq => ?_, escapeHtml_eq cs⟩
  · exact not_mem_escapeHtml rfl (by decide) cs
  · exact not_mem_escapeHtml rfl (by decide) cs
  · exact not_mem_escapeHtml rfl (by decide) cs
  · exact exists_entity_of_suffix (escapeHtml_eq cs ▸ hs) hhead
  · rw [← hread cs, heq, hread cs']

end ServiceDocs
