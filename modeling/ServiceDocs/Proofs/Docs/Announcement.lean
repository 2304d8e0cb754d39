import ServiceDocs.Proofs.Docs.Literal

/-!
# Where an Authorisation Is Announced

The settings of an authorisation are handed to the viewer by a statement that belongs right after
the one of the template that makes the viewer known. Its place is looked for in the filled page,
from the front, and the title, the version and the address stand in front of it there. If one of
them holds the text of the template's statement, the settings are announced within it and never
reach the viewer.

So the page is cut before the statement of the template. No occurrence of the statement goes on over
the cut, and the texts of the template have no other one, which leaves the three values. A statement
that is put in one place cannot look as if it were in the other, since the two statements end
differently.

## Main definitions

* `ViewerSettings.opening`: the page before the statement of the template.
* `ViewerSettings.announcedPage`: the page with the settings announced where they belong.

## Main results

* `ViewerSettings.infix_opening_iff`: the statement stands in front if it stands in a value.
* `ViewerSettings.announce_plainPage`: where the settings are announced.
* `ViewerSettings.page_withOAuth`: when they are announced where they belong.
-/

namespace ServiceDocs

open OAuthSettings (viewerStatement)
open Text (Apart BeginsClear)

/-! ### Occurrences of the statement -/

/-- The statement is written alike everywhere, and none goes on in another one. -/
theorem verbatim_viewerStatement :
    Verbatim viewerStatement ∧ BeginsClear viewerStatement viewerStatement := by
  rw [viewerStatement_eq, String.toList_ofList]
  decide

/-- The texts in front of the statement do not hold it and cut none. -/
theorem lacks_and_framed_openingPieces :
    ∀ p ∈ openingPieces, p.Lacks viewerStatement ∧ p.Framed viewerStatement id := by
  simp only [openingPieces, pageTemplate, List.dropLast_cons_cons, List.dropLast_singleton,
    List.cons_append, List.nil_append, List.forall_mem_cons, List.not_mem_nil, false_imp_iff,
    implies_true, PagePiece.Lacks, PagePiece.Framed, joinLines, String.toList_intercalate,
    List.map_cons, List.map_nil, viewerStatement_eq]
  repeat rw [String.toList_ofList]
  decide +kernel

/-- No two values stand next to each other in front of the viewer. -/
theorem alternating_openingPieces : PagePiece.Alternating openingPieces := by
  simp [PagePiece.Alternating, openingPieces, pageTemplate, PagePiece.value?]

/-- The values in front of the viewer, in the order of the page. -/
theorem values_openingPieces : openingPieces.filterMap PagePiece.value? =
    [.title, .version, .react, .version, .version, .url, .presets] := rfl

namespace ViewerSettings

variable (s : ViewerSettings) (o : OAuthSettings)

/-- The script for scopes does not hold the statement behind which settings are announced. -/
theorem not_infix_react : ¬viewerStatement <:+: s.values .react := by
  rw [values_react, viewerStatement_eq]
  split
  · rw [reactScript, String.toList_ofList, String.toList_ofList]
    decide +kernel
  · decide

/-- The presets do not hold that statement either. -/
theorem not_infix_presets : ¬viewerStatement <:+: s.values .presets := by
  rw [values_presets, viewerStatement_eq]
  split
  · rw [String.toList_append, String.toList_append, joinLines, String.toList_intercalate,
      defaultPresets]
    unfold operationScopesPreset
    repeat rw [List.map_cons]
    repeat rw [String.toList_ofList]
    decide +kernel
  · rw [defaultPresets, String.toList_ofList, String.toList_ofList]
    decide

/-- The page before the statement of the template. -/
def opening : List Char := openingPieces.flatMap (PagePiece.filled (PageValue.final s.values))

/-- The page is cut once, before the statement that hands the viewer to the window. -/
theorem plainPage_eq : s.plainPage = s.opening ++ (viewerStatement ++ pageEnd) := by
  rw [plainPage, fillTemplate_eq, pageTemplate_flatMap, opening]

/-- The statement stands in front of that of the template if it stands in the title, the version or
the address. -/
theorem infix_opening_iff :
    viewerStatement <:+: s.opening ↔
      ∃ v ∈ [PageValue.title, .version, .url], viewerStatement <:+: v.final s.values := by
  have hreact : ¬viewerStatement <:+: PageValue.final s.values .react :=
    s.final_react_eq ▸ s.not_infix_react
  have hpresets : ¬viewerStatement <:+: PageValue.final s.values .presets :=
    final_presets s.values ▸ s.not_infix_presets
  have hpieces := PagePiece.infix_flatMap_iff verbatim_viewerStatement.1.1 alternating_openingPieces
    (fun p hp => (lacks_and_framed_openingPieces p hp).2)
    (fun p hp => (lacks_and_framed_openingPieces p hp).1) (PageValue.final s.values)
  rw [opening, hpieces, values_openingPieces]
  simp only [List.mem_cons, List.not_mem_nil, or_false]
  constructor
  · rintro ⟨v, rfl | rfl | rfl | rfl | rfl | rfl | rfl, hv⟩
    · exact ⟨.title, .inl rfl, hv⟩
    · exact ⟨.version, .inr (.inl rfl), hv⟩
    · exact absurd hv hreact
    · exact ⟨.version, .inr (.inl rfl), hv⟩
    · exact ⟨.version, .inr (.inl rfl), hv⟩
    · exact ⟨.url, .inr (.inr rfl), hv⟩
    · exact absurd hv hpresets
  · rintro ⟨v, rfl | rfl | rfl, hv⟩
    · exact ⟨.title, by simp, hv⟩
    · exact ⟨.version, by simp, hv⟩
    · exact ⟨.url, by simp, hv⟩

/-! ### Where the settings are announced -/

/-- The page with the settings announced where they belong. -/
def announcedPage : List Char := s.opening ++ (viewerStatement ++ (o.statement ++ pageEnd))

/-- The settings are announced where they belong, unless the statement stands in front. -/
theorem announce_plainPage :
    o.announce s.plainPage =
      if viewerStatement <:+: s.opening then o.announce s.opening ++ (viewerStatement ++ pageEnd)
      else s.announcedPage o := by
  obtain ⟨⟨hne, -⟩, hclear⟩ := verbatim_viewerStatement
  have hapart : Apart viewerStatement s.opening (viewerStatement ++ pageEnd) :=
    (hclear.append pageEnd).apart s.opening
  rw [plainPage_eq]
  simp only [OAuthSettings.announce]
  split
  · next h => exact Text.replaceFirst_append_of_infix hne hapart h
  · next h =>
      rw [Text.replaceFirst_append_of_not_infix hapart h, Text.replaceFirst_pattern_append hne,
        announcedPage, List.append_assoc]

/-- Settings that are announced in front are not announced where they belong. From the place where
the two pages part, the statement of the template comes last in one of them and that of the settings
in the other. -/
theorem announce_opening_ne (h : viewerStatement <:+: s.opening) :
    o.announce s.opening ++ (viewerStatement ++ pageEnd) ≠ s.announcedPage o := by
  obtain ⟨before, after, hopening, hfirst⟩ :=
    Text.exists_replaceFirst verbatim_viewerStatement.1.1 h
  obtain ⟨front, hviewer⟩ : ∃ front, viewerStatement = front ++ ['i', ';'] := by
    rw [viewerStatement_eq, String.toList_ofList]
    exact ⟨['w', 'i', 'n', 'd', 'o', 'w', '.', 'u', 'i', ' ', '=', ' ', 'u'], rfl⟩
  have hstatement : o.statement =
      "\n        ui.initOAuth(".toList ++ o.toJson.compact.toList ++ [')', ';'] := rfl
  intro heq
  rw [OAuthSettings.announce, hfirst, announcedPage, hopening] at heq
  simp only [List.append_assoc, List.append_cancel_left_eq] at heq
  simp only [← List.append_assoc, List.append_cancel_right_eq] at heq
  have hends : (o.statement ++ after ++ front) ++ ['i', ';'] =
      (after ++ viewerStatement ++ ("\n        ui.initOAuth(".toList ++ o.toJson.compact.toList)) ++
        [')', ';'] := by
    rw [List.append_assoc _ front, ← hviewer, heq, List.append_assoc _ _ [')', ';'], ← hstatement]
  exact absurd (List.append_inj' hends rfl).2 (by decide)

/-- The settings are announced where they belong exactly if no value in front holds the
statement. -/
theorem announce_plainPage_eq_iff :
    o.announce s.plainPage = s.announcedPage o ↔
      ∀ v ∈ [PageValue.title, .version, .url], ¬viewerStatement <:+: v.final s.values := by
  have hnone : (∀ v ∈ [PageValue.title, .version, .url], ¬viewerStatement <:+: v.final s.values) ↔
      ¬viewerStatement <:+: s.opening := by
    rw [infix_opening_iff]
    simp only [not_exists, not_and]
  rw [announce_plainPage, hnone]
  split
  · next h => exact iff_of_false (s.announce_opening_ne o h) (not_not_intro h)
  · next h => exact iff_of_true rfl h

/-- A title, a version and an address that stand in the page as they are hold the statement if they
do in the settings. -/
theorem forall_not_infix_iff (h : s.plainPage = s.literalPage) :
    (∀ v ∈ [PageValue.title, .version, .url], ¬viewerStatement <:+: v.final s.values) ↔
      ¬viewerStatement <:+: s.title.toList ∧ ¬viewerStatement <:+: s.version.toList ∧
        ∀ url, s.url = .fixed url → ¬viewerStatement <:+: url.toList := by
  have hfinal := s.plainPage_eq_literalPage_iff.mp h
  have hverbatim := verbatim_viewerStatement.1
  have htitle : viewerStatement <:+: s.values .title ↔ viewerStatement <:+: s.title.toList :=
    hverbatim.infix_escapeHtml_iff s.title.toList
  have hurl : ¬viewerStatement <:+: s.values .url ↔
      ∀ url, s.url = .fixed url → ¬viewerStatement <:+: url.toList := by
    rw [values_url]
    cases s.url with
    | sibling =>
        refine iff_of_true ?_ nofun
        rw [DocumentUrl.script_sibling, viewerStatement_eq, String.toList_ofList,
          String.toList_ofList]
        decide
    | fixed url =>
        rw [hverbatim.infix_script_iff]
        simp only [DocumentUrl.fixed.injEq, forall_eq']
  simp only [List.forall_mem_cons, List.not_mem_nil, false_imp_iff, implies_true, and_true, hfinal]
  rw [htitle, hurl]
  rfl

/-- A page with settings for an authorisation is the page without them, with the settings announced
in it. -/
theorem page_withOAuth_eq :
    ({ s with oauth := some o } : ViewerSettings).page.toList = o.announce s.plainPage := by
  rw [← plainPage_withOAuth s (some o)]
  exact String.toList_ofList

/-- A page with an authorisation is the one without it with the settings announced after the first
statement that makes the viewer known. This is the statement of the template exactly if the title,
the version and the address do not hold it as they stand in the page, and otherwise the settings are
announced in front of it and the page is not as it should be. If all values stand in the page as
they are, it is a matter of the settings themselves. -/
theorem page_withOAuth :
    ({ s with oauth := none } : ViewerSettings).page.toList =
        s.opening ++ (viewerStatement ++ pageEnd) ∧
      ({ s with oauth := some o } : ViewerSettings).page.toList =
        (if viewerStatement <:+: s.opening then o.announce s.opening ++ (viewerStatement ++ pageEnd)
        else s.announcedPage o) ∧
      (({ s with oauth := some o } : ViewerSettings).page.toList = s.announcedPage o ↔
        ∀ v ∈ [PageValue.title, .version, .url], ¬viewerStatement <:+: v.final s.values) ∧
      (s.plainPage = s.literalPage →
        (({ s with oauth := some o } : ViewerSettings).page.toList = s.announcedPage o ↔
          ¬viewerStatement <:+: s.title.toList ∧ ¬viewerStatement <:+: s.version.toList ∧
            ∀ url, s.url = .fixed url → ¬viewerStatement <:+: url.toList)) := by
  have hplain : ({ s with oauth := none } : ViewerSettings).page.toList = s.plainPage := by
    rw [← plainPage_withOAuth s none]
    exact String.toList_ofList
  rw [hplain, page_withOAuth_eq]
  refine ⟨s.plainPage_eq, s.announce_plainPage o, s.announce_plainPage_eq_iff o, fun h => ?_⟩
  rw [announce_plainPage_eq_iff, s.forall_not_infix_iff h]

/-- A title with the statement that makes the viewer known. -/
def misleading : ViewerSettings where
  title := "window.ui = ui;"

/-- The settings for a page with this title are not announced where they belong. -/
theorem page_ne_announcedPage_misleading :
    ({ misleading with oauth := some { appName := some "pets" } } : ViewerSettings).page.toList ≠
      misleading.announcedPage { appName := some "pets" } := by
  have htitle : viewerStatement <:+: PageValue.final misleading.values .title := by
    rw [final_title, viewerStatement_eq]
    decide
  rw [page_withOAuth_eq]
  exact fun heq => (misleading.announce_plainPage_eq_iff _).mp heq .title List.mem_cons_self htitle

end ViewerSettings

end ServiceDocs
