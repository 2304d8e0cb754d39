import ServiceDocs.Proofs.Docs.Address
import ServiceDocs.Proofs.Docs.Escape
import ServiceDocs.Proofs.Docs.Template

/-!
# What Can Close a Script of the Viewer Page

A browser ends a script at the first `</script`, in capitals or not, wherever it stands. The
page of a viewer has as many of them as its template, whatever its title and its address are:
the title has no `<`, and no `<` of an address is followed by a slash. The version is put in as it
is, so it must not have a `<`.

Two more sources remain. The settings of an authorisation are written without any such care,
so each `</script` in one of their texts is one of the page. And a mark in the title or in the
version is filled like a mark of the template: with the scopes of operations, the mark of their
script brings a whole script with it.

## Main definitions

* `scriptEnds`: how often a script is closed.
* `ViewerSettings.scriptMarks`: the marks of the script for scopes in the title and the version.

## Main results

* `scriptEnds_putValue`: what a step of filling the page adds.
* `OAuthSettings.scriptEnds_announce`: what the settings of an authorisation add.
* `ViewerSettings.scriptEnds_page`: what a page has more than the default one.
* `ViewerSettings.scriptEnds_page_closing`: an authorisation that closes the script.
-/

namespace ServiceDocs

open Text (Apart BeginsClear EndsClear occurrences replaceAll)

/-! ### The end of a script -/

/-- The beginning of the tag that closes a script. -/
def scriptEnd : List Char := ['<', '/', 's', 'c', 'r', 'i', 'p', 't']

/-- How often a script is closed, in capitals or not. -/
def scriptEnds (cs : List Char) : Nat := occurrences scriptEnd (cs.map Char.toLower)

/-- No end of a script is cut where a text begins or ends. -/
def ScriptClear (cs : List Char) : Prop :=
  BeginsClear scriptEnd (cs.map Char.toLower) ∧ EndsClear scriptEnd (cs.map Char.toLower)

instance (cs : List Char) : Decidable (ScriptClear cs) :=
  inferInstanceAs (Decidable (BeginsClear scriptEnd (cs.map Char.toLower) ∧
    EndsClear scriptEnd (cs.map Char.toLower)))

/-- Only capitals are changed. -/
theorem eq_of_toLower_eq {c d : Char} (hd : d.toNat < 97) (h : c.toLower = d) : c = d := by
  delta Char.toLower at h
  split at h
  · next hc =>
    have hlow : 65 ≤ c.val.toNat := UInt32.le_iff_toNat_le.mp hc.1
    have hhigh : c.val.toNat ≤ 90 := UInt32.le_iff_toNat_le.mp hc.2
    have hval : (c.val.toNat + 32) % 2 ^ 32 = d.toNat := congrArg Char.toNat h
    omega
  · exact h

/-- A text without `<` closes no script. -/
theorem scriptEnds_eq_zero {cs : List Char} (h : '<' ∉ cs) : scriptEnds cs = 0 := by
  refine Text.occurrences_eq_zero (c := '<') rfl fun hmem => ?_
  obtain ⟨c, hc, hlower⟩ := List.mem_map.mp hmem
  exact h (eq_of_toLower_eq (by decide) hlower ▸ hc)

/-- A script is not closed where no `<` is followed by a slash. -/
theorem scriptEnds_eq_zero_of_not_infix {cs : List Char} (h : ¬['<', '/'] <:+: cs) :
    scriptEnds cs = 0 := by
  induction cs with
  | nil => rfl
  | cons c rest ih =>
      have hrest := ih fun hi => h (List.infix_cons hi)
      rw [scriptEnds, List.map_cons, occurrences, ← scriptEnds, hrest, if_neg]
      intro hp
      obtain ⟨hc, hp⟩ := List.cons_prefix_cons.mp hp
      cases rest with
      | nil => exact absurd (List.prefix_nil.mp hp) (List.cons_ne_nil _ _)
      | cons d rest =>
          obtain ⟨hd, -⟩ := List.cons_prefix_cons.mp hp
          obtain rfl := eq_of_toLower_eq (by decide) hc.symm
          obtain rfl := eq_of_toLower_eq (by decide) hd.symm
          exact h ⟨[], rest, rfl⟩

/-- The ends of scripts in a text between two others. -/
theorem scriptEnds_append_append {cs : List Char} (h : ScriptClear cs) (before after : List Char) :
    scriptEnds (before ++ (cs ++ after)) =
      scriptEnds before + scriptEnds cs + scriptEnds after := by
  have hbegins : Apart scriptEnd (before.map Char.toLower) ((cs ++ after).map Char.toLower) := by
    rw [List.map_append]
    exact (h.1.append _).apart _
  rw [scriptEnds, List.map_append, Text.occurrences_append hbegins, List.map_append,
    Text.occurrences_append (h.2.apart _), ← Nat.add_assoc]
  rfl

/-- What closes scripts can be counted on both sides of a cut that is clear. -/
theorem scriptEnds_append {cs : List Char} (h : ScriptClear cs) (after : List Char) :
    scriptEnds (cs ++ after) = scriptEnds cs + scriptEnds after := by
  have hends := scriptEnds_append_append h [] after
  rwa [List.nil_append, show scriptEnds [] = 0 from rfl, Nat.zero_add] at hends

/-! ### The values of the page -/

/-- Marks have nothing to do with scripts. -/
theorem scriptClear_mark (v : PageValue) : ScriptClear v.mark ∧ scriptEnds v.mark = 0 := by
  cases v <;> decide

/-- No mark begins in a mark and goes on after it. -/
theorem endsClear_mark (v : PageValue) : EndsClear v.mark v.mark := by
  cases v <;> decide

/-- Putting in a value brings the ends of scripts in it, at each of its marks. -/
theorem scriptEnds_putValue {values : PageValue → List Char} {v : PageValue}
    (h : ScriptClear (values v)) (cs : List Char) :
    scriptEnds (putValue values cs v) =
      scriptEnds cs + occurrences v.mark cs * scriptEnds (values v) := by
  obtain ⟨hclear, hends⟩ := scriptClear_mark v
  have hcount := Text.occurrences_map_replaceAll v.mark_ne_nil (endsClear_mark v) hclear h cs
  rw [scriptEnds] at hends
  rwa [hends, Nat.mul_zero, Nat.add_zero] at hcount

namespace DocumentUrl

/-- The expression for an address closes no script. -/
theorem script_url (url : DocumentUrl) : ScriptClear url.script ∧ scriptEnds url.script = 0 := by
  cases url with
  | sibling =>
      rw [script_sibling, String.toList_ofList]
      decide
  | fixed url =>
      refine ⟨?_, scriptEnds_eq_zero_of_not_infix (not_infix_replaceAll _)⟩
      have hquote : ScriptClear ['"'] := by decide
      have hlast : ((fixed url).script.map Char.toLower).getLast? = some '"' := by
        rw [script_fixed_eq, ← List.append_assoc, List.map_append, List.getLast?_append]
        rfl
      refine ⟨?_, Text.endsClear_of_getLast hlast (by decide)⟩
      rw [script_fixed_eq, List.map_append]
      exact hquote.1.append _

end DocumentUrl

namespace ViewerSettings

variable (s : ViewerSettings)

/-- The script for scopes is put in only where scopes are wanted. -/
theorem values_react :
    s.values .react = if s.operationScopes then reactScript.toList else [] := rfl

/-- The address is put in as an expression of the script. -/
theorem values_url : s.values .url = s.url.script := rfl

/-- The presets are the usual ones, with one for scopes after them where scopes are wanted. -/
theorem values_presets :
    s.values .presets = if s.operationScopes then
        (defaultPresets ++ "," ++ joinLines operationScopesPreset).toList
      else defaultPresets.toList := rfl

/-- The script for scopes is closed once, at its end. -/
theorem script_react : ScriptClear reactScript.toList ∧ scriptEnds reactScript.toList = 1 := by
  rw [reactScript, String.toList_ofList]
  decide

/-- The usual presets close no script, and no end of one is cut at their ends. -/
theorem script_defaultPresets :
    ScriptClear defaultPresets.toList ∧ scriptEnds defaultPresets.toList = 0 := by
  rw [defaultPresets, String.toList_ofList]
  decide

/-- The presets for scopes close no script, and no end of one is cut at their ends. -/
theorem script_operationScopesPreset :
    let presets := (defaultPresets ++ "," ++ joinLines operationScopesPreset).toList
    ScriptClear presets ∧ scriptEnds presets = 0 := by
  rw [String.toList_append, String.toList_append, joinLines, String.toList_intercalate,
    defaultPresets]
  unfold operationScopesPreset
  repeat rw [List.map_cons]
  repeat rw [String.toList_ofList]
  decide +kernel

/-- The presets close no script. -/
theorem script_presets : ScriptClear (s.values .presets) ∧ scriptEnds (s.values .presets) = 0 := by
  rw [values_presets]
  split
  · exact script_operationScopesPreset
  · exact script_defaultPresets

/-! ### Filling the page -/

/-- An address adds no end of a script, wherever it is put in. -/
theorem scriptEnds_putValue_url (cs : List Char) :
    scriptEnds (putValue s.values cs .url) = scriptEnds cs := by
  obtain ⟨hclear, hends⟩ := s.url.script_url
  rw [← values_url] at hclear hends
  rw [scriptEnds_putValue hclear, hends, Nat.mul_zero, Nat.add_zero]

/-- Neither do the presets. -/
theorem scriptEnds_putValue_presets (cs : List Char) :
    scriptEnds (putValue s.values cs .presets) = scriptEnds cs := by
  obtain ⟨hclear, hends⟩ := s.script_presets
  rw [scriptEnds_putValue hclear, hends, Nat.mul_zero, Nat.add_zero]

/-- The script for scopes adds one at each of its marks, if it is put in. -/
theorem scriptEnds_putValue_react {cs : List Char} (h : '<' ∉ cs) :
    scriptEnds (putValue s.values cs .react) =
      if s.operationScopes then occurrences PageValue.react.mark cs else 0 := by
  have hvalues := s.values_react
  split
  · next hscopes =>
      rw [if_pos hscopes] at hvalues
      rw [scriptEnds_putValue (hvalues ▸ script_react.1), hvalues, script_react.2, Nat.mul_one,
        scriptEnds_eq_zero h, Nat.zero_add]
  · next hscopes =>
      rw [if_neg hscopes] at hvalues
      refine scriptEnds_eq_zero fun hmem => ?_
      exact (Text.mem_of_mem_replaceAll PageValue.react.mark_ne_nil hmem).elim
        (fun hmem => List.not_mem_nil (hvalues ▸ hmem)) h

/-- The ends of scripts in what a value holds in the end. -/
theorem scriptEnds_final (h : '<' ∉ s.version.toList) (v : PageValue) :
    scriptEnds (PageValue.final s.values v) = match v with
      | .title => if s.operationScopes then occurrences PageValue.react.mark
          (putValue s.values (s.values .title) .version) else 0
      | .version =>
        if s.operationScopes then occurrences PageValue.react.mark s.version.toList else 0
      | .react => scriptEnds (s.values .react)
      | .url => 0
      | .presets => 0 := by
  have htitle : '<' ∉ putValue s.values (s.values .title) .version := fun hmem =>
    (Text.mem_of_mem_replaceAll PageValue.version.mark_ne_nil hmem).elim h
      (not_mem_escapeHtml rfl (by decide) s.title.toList)
  cases v with
  | title =>
      simp only [final_title, List.foldl_cons, List.foldl_nil, scriptEnds_putValue_presets,
        scriptEnds_putValue_url, scriptEnds_putValue_react s htitle]
  | version =>
      simp only [final_version, List.foldl_cons, List.foldl_nil, scriptEnds_putValue_presets,
        scriptEnds_putValue_url]
      exact scriptEnds_putValue_react s h
  | react =>
      simp only [final_react, List.foldl_cons, List.foldl_nil, scriptEnds_putValue_presets,
        scriptEnds_putValue_url]
  | url =>
      simp only [final_url, List.foldl_cons, List.foldl_nil, scriptEnds_putValue_presets]
      exact s.url.script_url.2
  | presets =>
      rw [final_presets]
      exact s.script_presets.2

/-- No end of a script is cut where a text of the template begins or ends. -/
theorem framed_pageTemplate_scriptEnd : ∀ p ∈ pageTemplate, p.Framed scriptEnd Char.toLower := by
  simp only [pageTemplate, List.forall_mem_cons, List.not_mem_nil, false_imp_iff, implies_true,
    PagePiece.Framed, joinLines, String.toList_intercalate, List.map_cons, List.map_nil]
  repeat rw [String.toList_ofList]
  decide +kernel

/-- The marks of the script for scopes in the title, with the version put in, and in the version,
which stands at three places. -/
def scriptMarks : Nat :=
  occurrences PageValue.react.mark (putValue s.values (s.values .title) .version) +
    3 * occurrences PageValue.react.mark s.version.toList

/-- The ends of scripts in a page without an authorisation. -/
theorem scriptEnds_plainPage (h : '<' ∉ s.version.toList) :
    scriptEnds s.plainPage =
      scriptEnds (pageTemplate.flatMap (PagePiece.filled fun _ => [])) +
        scriptEnds (s.values .react) + if s.operationScopes then s.scriptMarks else 0 := by
  have hcount := PagePiece.occurrences_flatMap alternating_pageTemplate
    framed_pageTemplate_scriptEnd (PageValue.final s.values)
  rw [← fillTemplate_eq, values_pageTemplate] at hcount
  have hfinal := s.scriptEnds_final h
  simp only [scriptEnds] at hfinal
  simp only [List.map_cons, List.map_nil, List.sum_cons, List.sum_nil, hfinal] at hcount
  rw [plainPage, scriptEnds, hcount, scriptMarks]
  simp only [scriptEnds]
  split <;> omega

end ViewerSettings

/-! ### Authorisation -/

namespace OAuthSettings

/-- The statement for an authorisation closes a script where its settings do. -/
theorem script_statement (o : OAuthSettings) :
    ScriptClear o.statement ∧ scriptEnds o.statement = scriptEnds o.toJson.compact.toList := by
  have hstatement : o.statement =
      "\n        ui.initOAuth(".toList ++ (o.toJson.compact.toList ++ ");".toList) :=
    List.append_assoc _ _ _
  have hopening : ScriptClear "\n        ui.initOAuth(".toList ∧
      scriptEnds "\n        ui.initOAuth(".toList = 0 := by
    rw [String.toList_ofList]
    decide
  have hclosing : ScriptClear ");".toList ∧ scriptEnds ");".toList = 0 := by
    rw [String.toList_ofList]
    decide
  rw [hstatement]
  constructor
  · refine ⟨?_, Text.endsClear_of_getLast (c := ';') ?_ (by decide)⟩
    · rw [List.map_append]
      exact hopening.1.1.append _
    · rw [← List.append_assoc, List.map_append, List.getLast?_append, String.toList_ofList]
      rfl
  · have hlast := scriptEnds_append_append hclosing.1 o.toJson.compact.toList []
    have hnil : scriptEnds [] = 0 := rfl
    rw [List.append_nil] at hlast
    rw [scriptEnds_append hopening.1, hlast, hopening.2, hclosing.2, hnil]
    omega

/-- The statement that makes the viewer known has nothing to do with scripts. -/
theorem scriptClear_viewerStatement : viewerStatement ≠ [] ∧ ScriptClear viewerStatement := by
  rw [viewerStatement_eq, String.toList_ofList]
  decide

/-- The page makes the viewer known. -/
theorem viewerStatement_infix (s : ViewerSettings) : viewerStatement <:+: s.plainPage := by
  rw [ViewerSettings.plainPage, fillTemplate_eq, pageTemplate_flatMap]
  exact ⟨_, pageEnd, List.append_assoc ..⟩

/-- The settings of an authorisation add the ends of scripts in their own text. -/
theorem scriptEnds_announce (o : OAuthSettings) {page : List Char} (h : viewerStatement <:+: page) :
    scriptEnds (o.announce page) = scriptEnds page + scriptEnds o.toJson.compact.toList := by
  obtain ⟨hne, hclear⟩ := scriptClear_viewerStatement
  obtain ⟨hstatement, hends⟩ := o.script_statement
  obtain ⟨before, after, rfl, hfirst⟩ := Text.exists_replaceFirst hne h
  rw [announce, hfirst, List.append_assoc, scriptEnds_append_append hclear,
    scriptEnds_append_append hclear, scriptEnds_append hstatement, hends]
  omega

end OAuthSettings

namespace ViewerSettings

/-- Without a title and a version of its own, a page has no marks of the script in them. -/
theorem scriptMarks_default (scopes : Bool) :
    ({ operationScopes := scopes : ViewerSettings }).scriptMarks = 0 := by
  have hversion : '\x7b' ∉ "4.5.0".toList := by decide
  have htitle : '\x7b' ∉ escapeHtml "SwaggerUI".toList := by decide
  have hfilled : '\x7b' ∉ putValue ({ operationScopes := scopes : ViewerSettings }).values
      (escapeHtml "SwaggerUI".toList) .version := fun hmem =>
    (Text.mem_of_mem_replaceAll PageValue.version.mark_ne_nil hmem).elim hversion htitle
  have hmark : PageValue.react.mark.head? = some '\x7b' := rfl
  exact congrArg₂ (fun m n => m + 3 * n) (Text.occurrences_eq_zero hmark hfilled)
    (Text.occurrences_eq_zero hmark hversion)

/-- The page without an authorisation does not depend on it. -/
theorem plainPage_withOAuth (s : ViewerSettings) (oauth : Option OAuthSettings) :
    ({ s with oauth := oauth } : ViewerSettings).plainPage = s.plainPage :=
  congrArg fillTemplate (funext fun v => by cases v <;> rfl)

/-- Scripts are closed by the page without settings for an authorisation and by these settings. -/
theorem scriptEnds_page_eq (s : ViewerSettings) : scriptEnds s.page.toList =
    scriptEnds s.plainPage + s.oauth.elim 0 fun o => scriptEnds o.toJson.compact.toList := by
  rw [page]
  cases s.oauth with
  | none =>
      rw [String.toList_ofList, Option.elim_none, Nat.add_zero]
  | some o =>
      rw [String.toList_ofList, Option.elim_some,
        o.scriptEnds_announce (OAuthSettings.viewerStatement_infix s)]

/-- A page has as many ends of scripts as the default page with or without the scopes of
operations, if its version has no `<`, and two kinds more: those in the settings of an
authorisation, and those of the script for scopes, which is put in at its marks in the title and in
the version as well. -/
theorem scriptEnds_page (s : ViewerSettings) (h : '<' ∉ s.version.toList) :
    scriptEnds s.page.toList =
      scriptEnds ({ operationScopes := s.operationScopes : ViewerSettings }).page.toList +
        (if s.operationScopes then s.scriptMarks else 0) +
        s.oauth.elim 0 fun o => scriptEnds o.toJson.compact.toList := by
  have hversion : '<' ∉ "4.5.0".toList := by decide
  have hplain := scriptEnds_plainPage { operationScopes := s.operationScopes } hversion
  have hreact : ({ operationScopes := s.operationScopes : ViewerSettings }).values .react =
      s.values .react := rfl
  rw [scriptMarks_default, ite_self, Nat.add_zero, hreact] at hplain
  have hdefault :=
    (scriptEnds_page_eq { operationScopes := s.operationScopes }).trans (Nat.add_zero _)
  rw [scriptEnds_page_eq, s.scriptEnds_plainPage h, hdefault, hplain]

/-- A page with a mark in its title, an address that would end a script, and a client whose name
does. -/
def crowded : ViewerSettings where
  title := "\x7b\x7breact\x7d\x7d"
  url := .fixed "</script>"
  oauth := some { clientId := some "</SCRIPT>" }
  operationScopes := true

/-- The crowded page has two ends of scripts more, and none of them is that of its address. -/
theorem scriptEnds_page_crowded :
    '<' ∉ crowded.version.toList ∧
      scriptEnds crowded.page.toList =
        scriptEnds ({ operationScopes := true : ViewerSettings }).page.toList + 1 + 1 := by
  have hversion : '<' ∉ crowded.version.toList := by decide
  have hmarks : crowded.scriptMarks = 1 := by decide
  have hoauth : (crowded.oauth.elim 0 fun o => scriptEnds o.toJson.compact.toList) = 1 := by
    decide
  have hscopes : crowded.operationScopes = true := rfl
  have hpage := scriptEnds_page crowded hversion
  rw [hscopes, if_pos rfl, hmarks, hoauth] at hpage
  exact ⟨hversion, hpage⟩

/-- Settings of an authorisation that close a script do so in every page. -/
theorem scriptEnds_page_ne (s : ViewerSettings) {o : OAuthSettings}
    (h : scriptEnds o.toJson.compact.toList ≠ 0) :
    scriptEnds ({ s with oauth := some o } : ViewerSettings).page.toList ≠
      scriptEnds ({ s with oauth := none } : ViewerSettings).page.toList := by
  rw [scriptEnds_page_eq, scriptEnds_page_eq, plainPage_withOAuth s (some o),
    plainPage_withOAuth s none, Option.elim_some, Option.elim_none]
  omega

/-- A default page for a client whose name ends a script. -/
def closing : ViewerSettings where
  oauth := some { clientId := some "</script>" }

/-- The page for this client closes a script once more than the default page. -/
theorem scriptEnds_page_closing :
    '<' ∉ closing.version.toList ∧
      scriptEnds closing.page.toList ≠
        scriptEnds
          ({ operationScopes := closing.operationScopes : ViewerSettings }).page.toList := by
  have hoauth :
      scriptEnds ({ clientId := some "</script>" } : OAuthSettings).toJson.compact.toList ≠ 0 := by
    decide
  exact ⟨by decide, scriptEnds_page_ne {} hoauth⟩

end ViewerSettings

end ServiceDocs
