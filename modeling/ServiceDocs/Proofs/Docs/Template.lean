import Mathlib.Algebra.Ring.Nat
import ServiceDocs.Docs.OAuth
import ServiceDocs.Docs.Template
import ServiceDocs.Proofs.Text.Replace

/-!
# Filling the Template

The values of the viewer page are put in one after the other, each into the whole page. The texts
of the template have no marks, and no mark is cut between two pieces, so every step changes the
pieces one by one. In the end a piece that is a value holds what the steps make of its mark.

## Main definitions

* `PagePiece.filled`: a piece with a text for each value.
* `PagePiece.Lacks`, `PagePiece.Framed`: a text of the template has no pattern and cuts none.
* `PageValue.final`: what a value holds in the end.
* `openingPieces`, `pageEnd`: the page before and after the statement that makes the viewer known.

## Main results

* `PagePiece.occurrences_flatMap`, `PagePiece.infix_flatMap_iff`: how often a pattern occurs in a
page, and when it does at all.
* `fillTemplate_eq`: the page is filled piece by piece.
* `final_title`, `final_version`, `final_react`, `final_url`, `final_presets`: what a value holds in
the end.
* `pageTemplate_flatMap`: the page is cut before and after the statement.
-/

namespace ServiceDocs

open OAuthSettings (viewerStatement)
open Text (Apart BeginsClear EndsClear occurrences replaceAll)

namespace PagePiece

variable {pattern new : List Char} {change : Char → Char} {texts : PageValue → List Char}
  {pieces : List PagePiece}

/-! ### Pieces -/

/-- The text of a piece, with a text for each value. -/
def filled (texts : PageValue → List Char) : PagePiece → List Char
  | text lines => (joinLines lines).toList
  | value v => texts v

/-- The value of a piece that is no text of the template. -/
def value? : PagePiece → Option PageValue
  | text _ => none
  | value v => some v

/-- A text of the template does not hold a pattern. -/
def Lacks (pattern : List Char) : PagePiece → Prop
  | text lines => ¬pattern <:+: (joinLines lines).toList
  | value _ => True

/-- No occurrence of a pattern in the changed characters is cut where a text of the template begins
or ends. -/
def Framed (pattern : List Char) (change : Char → Char) : PagePiece → Prop
  | text lines => BeginsClear pattern ((joinLines lines).toList.map change) ∧
      EndsClear pattern ((joinLines lines).toList.map change)
  | value _ => True

/-- Of two pieces in a row, one is a text of the template. -/
def Alternating (pieces : List PagePiece) : Prop :=
  pieces.IsChain fun p q => p.value? = none ∨ q.value? = none

/-- No occurrence of a pattern is cut between a piece and those after it. -/
theorem apart_flatMap {p : PagePiece} (halternating : Alternating (p :: pieces))
    (hframed : ∀ q ∈ p :: pieces, q.Framed pattern change) (texts : PageValue → List Char) :
    Apart pattern ((p.filled texts).map change) ((pieces.flatMap (filled texts)).map change) := by
  obtain ⟨hp, hpieces⟩ := List.forall_mem_cons.mp hframed
  cases pieces with
  | nil => exact Text.apart_nil _ _
  | cons q rest =>
      cases p with
      | text lines => exact hp.2.apart _
      | value v =>
          cases q with
          | text lines =>
              rw [List.flatMap_cons, List.map_append]
              exact ((hpieces _ List.mem_cons_self).1.append _).apart _
          | value v' => simp [Alternating, value?] at halternating

/-- The same holds of the texts as they are. -/
theorem apart_flatMap_id {p : PagePiece} (halternating : Alternating (p :: pieces))
    (hframed : ∀ q ∈ p :: pieces, q.Framed pattern id) (texts : PageValue → List Char) :
    Apart pattern (p.filled texts) (pieces.flatMap (filled texts)) := by
  simpa only [List.map_id] using apart_flatMap halternating hframed texts

/-- A page is replaced piece by piece, and only the values change. -/
theorem replaceAll_flatMap (hpattern : pattern ≠ []) (halternating : Alternating pieces)
    (hframed : ∀ p ∈ pieces, p.Framed pattern id) (hlacks : ∀ p ∈ pieces, p.Lacks pattern) :
    replaceAll pattern new (pieces.flatMap (filled texts)) =
      pieces.flatMap (filled fun v => replaceAll pattern new (texts v)) := by
  induction pieces with
  | nil => rfl
  | cons p rest ih =>
      have hapart := apart_flatMap_id halternating hframed texts
      obtain ⟨hp, hrest⟩ := List.forall_mem_cons.mp hlacks
      have hpiece : replaceAll pattern new (p.filled texts) =
          p.filled fun v => replaceAll pattern new (texts v) := by
        cases p with
        | text lines => exact Text.replaceAll_of_not_infix hp
        | value v => rfl
      rw [List.flatMap_cons, Text.replaceAll_append hpattern hapart, hpiece,
        ih halternating.of_cons (List.forall_mem_cons.mp hframed).2 hrest, List.flatMap_cons]

/-- The occurrences in a page are those in its texts and those in its values. -/
theorem occurrences_flatMap (halternating : Alternating pieces)
    (hframed : ∀ p ∈ pieces, p.Framed pattern change) (texts : PageValue → List Char) :
    occurrences pattern ((pieces.flatMap (filled texts)).map change) =
      occurrences pattern ((pieces.flatMap (filled fun _ => [])).map change) +
        ((pieces.filterMap value?).map fun v =>
          occurrences pattern ((texts v).map change)).sum := by
  induction pieces with
  | nil => rfl
  | cons p rest ih =>
      have hrest := ih halternating.of_cons (List.forall_mem_cons.mp hframed).2
      rw [List.flatMap_cons, List.flatMap_cons, List.map_append, List.map_append,
        Text.occurrences_append (apart_flatMap halternating hframed texts),
        Text.occurrences_append (apart_flatMap halternating hframed fun _ => []), hrest]
      cases p with
      | text lines => exact (Nat.add_assoc _ _ _).symm
      | value v =>
          have hvalue : ((value v :: rest).filterMap value?) = v :: rest.filterMap value? := rfl
          rw [hvalue, List.map_cons, List.sum_cons, filled, filled, List.map_nil, occurrences]
          omega

/-- A pattern that the texts of a page lack and do not cut occurs in the page if it does in one of
its values. -/
theorem infix_flatMap_iff (hpattern : pattern ≠ []) (halternating : Alternating pieces)
    (hframed : ∀ p ∈ pieces, p.Framed pattern id) (hlacks : ∀ p ∈ pieces, p.Lacks pattern)
    (texts : PageValue → List Char) :
    pattern <:+: pieces.flatMap (filled texts) ↔
      ∃ v ∈ pieces.filterMap value?, pattern <:+: texts v := by
  induction pieces with
  | nil => exact iff_of_false (fun hi => hpattern (List.infix_nil.mp hi)) (by simp)
  | cons p rest ih =>
      have hapart := apart_flatMap_id halternating hframed texts
      obtain ⟨hp, hrest⟩ := List.forall_mem_cons.mp hlacks
      rw [List.flatMap_cons, Text.infix_append_iff hpattern hapart,
        ih halternating.of_cons (List.forall_mem_cons.mp hframed).2 hrest]
      cases p with
      | text lines => exact or_iff_right hp
      | value v =>
          have hvalues : (value v :: rest).filterMap value? = v :: rest.filterMap value? := rfl
          rw [hvalues, List.exists_mem_cons_iff, filled]

end PagePiece

/-! ### Marks -/

namespace PageValue

theorem mark_ne_nil (v : PageValue) : v.mark ≠ [] := nofun

/-- No mark occurs in another one. -/
theorem not_mark_infix {v v' : PageValue} (h : v ≠ v') : ¬v.mark <:+: v'.mark := by
  revert h
  cases v <;> cases v' <;> decide

end PageValue

/-- A value is put in at its own mark and leaves the others alone. -/
theorem putValue_mark (values : PageValue → List Char) (v v' : PageValue) :
    putValue values v'.mark v = if v = v' then values v else v'.mark := by
  split
  · next h => exact h ▸ Text.replaceAll_self v.mark_ne_nil
  · next h => exact Text.replaceAll_of_not_infix (PageValue.not_mark_infix h)

/-- What a value holds in the end: what the steps make of its mark. -/
def PageValue.final (values : PageValue → List Char) (v : PageValue) : List Char :=
  PageValue.all.foldl (putValue values) v.mark

/-! ### The page -/

/-- Two values of the page never touch. -/
theorem alternating_pageTemplate : PagePiece.Alternating pageTemplate := by
  simp [PagePiece.Alternating, pageTemplate, PagePiece.value?]

/-- The values of the page, in order. -/
theorem values_pageTemplate : pageTemplate.filterMap PagePiece.value? =
    [.title, .version, .react, .version, .version, .url, .presets] := rfl

/-- The texts of the page have no marks and cut none. -/
theorem lacks_and_framed_pageTemplate (v : PageValue) :
    ∀ p ∈ pageTemplate, p.Lacks v.mark ∧ p.Framed v.mark id := by
  simp only [pageTemplate, List.forall_mem_cons, List.not_mem_nil, false_imp_iff, implies_true,
    PagePiece.Lacks, PagePiece.Framed, joinLines, String.toList_intercalate, List.map_cons,
    List.map_nil]
  -- the characters of the lines are compared, not their bytes
  repeat rw [String.toList_ofList]
  cases v <;> decide +kernel

variable (values texts : PageValue → List Char)

/-- A value is put into the page piece by piece. -/
theorem putValue_flatMap (v : PageValue) :
    putValue values (pageTemplate.flatMap (PagePiece.filled texts)) v =
      pageTemplate.flatMap (PagePiece.filled fun v' => putValue values (texts v') v) := by
  have hfacts := lacks_and_framed_pageTemplate v
  simp only [putValue]
  exact PagePiece.replaceAll_flatMap v.mark_ne_nil alternating_pageTemplate
    (fun p hp => (hfacts p hp).2) fun p hp => (hfacts p hp).1

/-- So are several values. -/
theorem foldl_putValue_flatMap (vs : List PageValue) :
    vs.foldl (putValue values) (pageTemplate.flatMap (PagePiece.filled texts)) =
      pageTemplate.flatMap (PagePiece.filled fun v => vs.foldl (putValue values) (texts v)) := by
  induction vs generalizing texts with
  | nil => simp only [List.foldl_nil]
  | cons v rest ih =>
      rw [List.foldl_cons, putValue_flatMap, ih]
      simp only [List.foldl_cons]

/-- The page is filled piece by piece: each value holds what becomes of its mark. -/
theorem fillTemplate_eq :
    fillTemplate values = pageTemplate.flatMap (PagePiece.filled (PageValue.final values)) := by
  have hmarked : PagePiece.marked = PagePiece.filled PageValue.mark := by
    funext p
    cases p <;> rfl
  have hfinal : PageValue.final values = fun v =>
      PageValue.all.foldl (putValue values) v.mark := rfl
  rw [fillTemplate, markedPage, hmarked, foldl_putValue_flatMap, hfinal]

/-! A value is put in at its own mark, and those that come later are put into what it says. -/

/-- The title is put in first, and all other values after it. -/
theorem final_title :
    PageValue.final values .title =
      [.version, .react, .url, .presets].foldl (putValue values) (values .title) := by
  simp [PageValue.final, PageValue.all, putValue_mark]

/-- After the version, the script, the address and the presets are put in. -/
theorem final_version :
    PageValue.final values .version =
      [.react, .url, .presets].foldl (putValue values) (values .version) := by
  simp [PageValue.final, PageValue.all, putValue_mark]

/-- After the script, the address and the presets are put in. -/
theorem final_react :
    PageValue.final values .react = [.url, .presets].foldl (putValue values) (values .react) := by
  simp [PageValue.final, PageValue.all, putValue_mark]

/-- After the address, only the presets are put in. -/
theorem final_url :
    PageValue.final values .url = [.presets].foldl (putValue values) (values .url) := by
  simp [PageValue.final, PageValue.all, putValue_mark]

/-- The presets are put in last and stay as they are. -/
theorem final_presets : PageValue.final values .presets = values .presets := by
  simp [PageValue.final, PageValue.all, putValue_mark]

/-! ### The page before and after the statement that makes the viewer known -/

/-- The pieces of the page up to the statement that makes the viewer known. It stands in the last
piece, in the function that runs when the page has been loaded. -/
def openingPieces : List PagePiece :=
  pageTemplate.dropLast ++
    [.text ["],", "          layout: 'StandaloneLayout',", "        \x7d);", "        "]]

/-- The page after this statement. -/
def pageEnd : List Char :=
  (joinLines ["", "      \x7d;", "    </script>", "  </head>", "  <body>",
    "    <div id=\"swagger-ui\"></div>", "  </body>", "</html>", ""]).toList

theorem viewerStatement_eq : viewerStatement = "window.ui = ui;".toList := rfl

/-- The page is cut before and after the statement. -/
theorem pageTemplate_flatMap (texts : PageValue → List Char) :
    pageTemplate.flatMap (PagePiece.filled texts) =
      openingPieces.flatMap (PagePiece.filled texts) ++ (viewerStatement ++ pageEnd) := by
  obtain ⟨lines, hlast, hlines⟩ : ∃ lines, pageTemplate = pageTemplate.dropLast ++ [.text lines] ∧
      (joinLines lines).toList =
        (joinLines ["],", "          layout: 'StandaloneLayout',", "        \x7d);",
          "        "]).toList ++ (viewerStatement ++ pageEnd) := by
    refine ⟨_, rfl, ?_⟩
    rw [viewerStatement_eq, pageEnd]
    simp only [joinLines, String.toList_intercalate]
    repeat rw [List.map_cons]
    repeat rw [String.toList_ofList]
    decide +kernel
  have hfilled : pageTemplate.flatMap (PagePiece.filled texts) =
      pageTemplate.dropLast.flatMap (PagePiece.filled texts) ++ (joinLines lines).toList := by
    conv_lhs => rw [hlast]
    rw [List.flatMap_append, List.flatMap_singleton]
    rfl
  rw [hfilled, hlines, openingPieces, List.flatMap_append, List.flatMap_singleton,
    List.append_assoc]
  rfl

end ServiceDocs
