import ServiceDocs.Proofs.Docs.Script

/-!
# Values That Stand in the Page as They Are

A page says what its settings say if every value stands in it as it is. But a value is searched for
the marks of the values that are put in after it. The script for scopes, the address and the presets
leave a trace wherever they are put in: a text with quotes brings quotes, and a text without braces
takes the braces of its mark away. So what they are put into is another text afterwards, and the
version and the address stand as they are exactly if they have no such mark. The version may be
anything, so a title with its mark may come out as it was, if all later steps together undo what the
version has done.

That the whole page is as it should be does not yet say that its values are, since one could make up
for another. It cannot: the title has no quote before the text after it has one, which fixes where
the title ends, and the other values can only gain quotes or lose braces.

## Main definitions

* `PageValue.later`: the values that are put in after a value.
* `ViewerSettings.literalPage`: the page whose values stand as they are.
* `Traceable`: a text that leaves a trace where it is put in for a mark.
* `valueCount`: how often a character stands in the values of a page.
* `Verbatim`: a pattern that is written alike everywhere.

## Main results

* `foldl_putValue_eq_self_iff`: when putting in such texts changes nothing.
* `ViewerSettings.plainPage_eq_literalPage_iff`: a page is as it should be if its values are.
* `Verbatim.infix_escapeHtml_iff`, `Verbatim.infix_script_iff`: patterns like the marks in a title
and in an address.
* `ViewerSettings.page_eq_literalPage_iff`: when they are.
-/

namespace ServiceDocs

open Text (occurrences replaceAll)

/-! ### Traces of values -/

/-- The quotes of a text, of both kinds. -/
def quotes (cs : List Char) : Nat := cs.count '"' + cs.count '\''

/-- The opening braces of a text. -/
def braces (cs : List Char) : Nat := cs.count '\x7b'

/-- A text that leaves a trace where it is put in for a mark: it brings quotes, or it has no
braces. -/
def Traceable (cs : List Char) : Prop := 0 < quotes cs ∨ braces cs = 0

instance (cs : List Char) : Decidable (Traceable cs) :=
  inferInstanceAs (Decidable (0 < quotes cs ∨ braces cs = 0))

section

variable {values : PageValue → List Char} {v : PageValue} {vs : List PageValue} {cs : List Char}

/-- Marks have no quotes. -/
theorem count_putValue {c : Char} (h : c = '"' ∨ c = '\'') (values : PageValue → List Char)
    (v : PageValue) (cs : List Char) :
    (putValue values cs v).count c = cs.count c + occurrences v.mark cs * (values v).count c := by
  have hmark : v.mark.count c = 0 := by
    rcases h with rfl | rfl <;> cases v <;> decide
  have hcount := Text.count_replaceAll v.mark_ne_nil (endsClear_mark v) c (values v) cs
  rwa [hmark, Nat.mul_zero, Nat.add_zero] at hcount

/-- A value brings its quotes once for each of its marks. -/
theorem quotes_putValue (values : PageValue → List Char) (v : PageValue) (cs : List Char) :
    quotes (putValue values cs v) = quotes cs + occurrences v.mark cs * quotes (values v) := by
  rw [quotes, count_putValue (.inl rfl), count_putValue (.inr rfl), quotes, quotes, Nat.mul_add]
  omega

/-- Marks have two braces. -/
theorem braces_putValue (values : PageValue → List Char) (v : PageValue) (cs : List Char) :
    braces (putValue values cs v) + occurrences v.mark cs * 2 =
      braces cs + occurrences v.mark cs * braces (values v) := by
  have hmark : v.mark.count '\x7b' = 2 := by
    cases v <;> decide
  have hcount := Text.count_replaceAll v.mark_ne_nil (endsClear_mark v) '\x7b' (values v) cs
  rwa [hmark] at hcount

/-- Quotes are never lost. -/
theorem count_le_foldl_putValue {c : Char} (h : c = '"' ∨ c = '\'')
    (values : PageValue → List Char) (vs : List PageValue) (cs : List Char) :
    cs.count c ≤ (vs.foldl (putValue values) cs).count c := by
  induction vs generalizing cs with
  | nil => exact Nat.le_refl _
  | cons v rest ih =>
      refine Nat.le_trans ?_ (ih (putValue values cs v))
      rw [count_putValue h]
      exact Nat.le_add_right _ _

/-- Putting in values takes no quotes away. -/
theorem quotes_le_foldl_putValue (values : PageValue → List Char) (vs : List PageValue)
    (cs : List Char) : quotes cs ≤ quotes (vs.foldl (putValue values) cs) :=
  Nat.add_le_add (count_le_foldl_putValue (.inl rfl) values vs cs)
    (count_le_foldl_putValue (.inr rfl) values vs cs)

/-- A text without the mark of a value stays as it is. -/
theorem putValue_eq_self (h : ¬v.mark <:+: cs) : putValue values cs v = cs :=
  Text.replaceAll_of_not_infix h

/-- Values whose marks a text does not have leave it as it is. -/
theorem foldl_putValue_eq_self (h : ∀ v ∈ vs, ¬v.mark <:+: cs) :
    vs.foldl (putValue values) cs = cs := by
  induction vs with
  | nil => rfl
  | cons v rest ih =>
      obtain ⟨hv, hrest⟩ := List.forall_mem_cons.mp h
      rw [List.foldl_cons, putValue_eq_self hv, ih hrest]

/-- A text that gains no quotes from traceable values gains no braces, and if it loses none, it has
none of their marks. -/
theorem braces_foldl_putValue_le (h : ∀ v ∈ vs, Traceable (values v))
    (hquotes : quotes (vs.foldl (putValue values) cs) ≤ quotes cs) :
    braces (vs.foldl (putValue values) cs) ≤ braces cs ∧
      (braces cs ≤ braces (vs.foldl (putValue values) cs) → ∀ v ∈ vs, ¬v.mark <:+: cs) := by
  induction vs generalizing cs with
  | nil => exact ⟨Nat.le_refl _, fun _ => List.forall_mem_nil _⟩
  | cons v rest ih =>
      obtain ⟨hv, hrest⟩ := List.forall_mem_cons.mp h
      rw [List.foldl_cons] at hquotes ⊢
      have hkept := quotes_le_foldl_putValue values rest (putValue values cs v)
      have hq := quotes_putValue values v cs
      have hb := braces_putValue values v cs
      have hgained : occurrences v.mark cs * quotes (values v) = 0 := by omega
      obtain ⟨hle, hmarks⟩ := @ih (putValue values cs v) hrest (by omega)
      -- the value brings quotes, so its mark is not there, or it brings no braces
      have hlost : occurrences v.mark cs * braces (values v) = 0 := by
        rcases hv with hv | hv
        · rw [(Nat.mul_eq_zero.mp hgained).resolve_right (by omega), Nat.zero_mul]
        · rw [hv, Nat.mul_zero]
      refine ⟨by omega, fun hbraces => ?_⟩
      have hnone : ¬v.mark <:+: cs := (Text.occurrences_eq_zero_iff v.mark_ne_nil).mp (by omega)
      refine List.forall_mem_cons.mpr ⟨hnone, ?_⟩
      rw [putValue_eq_self hnone] at hmarks hbraces
      exact hmarks hbraces

/-- Traceable values leave a text as it is exactly if it has none of their marks. -/
theorem foldl_putValue_eq_self_iff (h : ∀ v ∈ vs, Traceable (values v)) :
    vs.foldl (putValue values) cs = cs ↔ ∀ v ∈ vs, ¬v.mark <:+: cs := by
  refine ⟨fun heq => ?_, foldl_putValue_eq_self⟩
  exact (braces_foldl_putValue_le h (by rw [heq])).2 (by rw [heq])

end

/-! ### Values of the page -/

/-- The values that are put in after a value. -/
def PageValue.later : PageValue → List PageValue
  | .title => [.version, .react, .url, .presets]
  | .version => [.react, .url, .presets]
  | .react => [.url, .presets]
  | .url => [.presets]
  | .presets => []

/-- A value holds in the end what the later ones make of it. -/
theorem PageValue.final_eq (values : PageValue → List Char) (v : PageValue) :
    v.final values = v.later.foldl (putValue values) (values v) := by
  cases v with
  | title => exact final_title values
  | version => exact final_version values
  | react => exact final_react values
  | url => exact final_url values
  | presets => exact final_presets values

namespace ViewerSettings

variable (s : ViewerSettings)

/-- The script for scopes leaves a trace, also where there is none. -/
theorem traceable_react : Traceable (s.values .react) := by
  rw [values_react]
  split
  · rw [reactScript, String.toList_ofList]
    decide
  · decide

/-- The expression for the address leaves a trace, since both of its forms bring quotes. -/
theorem traceable_url : Traceable (s.values .url) := by
  rw [values_url]
  cases s.url with
  | sibling =>
      rw [DocumentUrl.script_sibling, String.toList_ofList]
      decide
  | fixed url =>
      have hquote : '"' ∈ (DocumentUrl.fixed url).script :=
        DocumentUrl.script_fixed_eq url ▸ List.mem_cons_self
      exact .inl (Nat.add_pos_left (List.count_pos_iff.mpr hquote) _)

/-- The presets leave a trace, with and without the one for scopes. -/
theorem traceable_presets : Traceable (s.values .presets) := by
  rw [values_presets]
  split
  · rw [String.toList_append, String.toList_append, joinLines, String.toList_intercalate,
      defaultPresets]
    unfold operationScopesPreset
    repeat rw [List.map_cons]
    repeat rw [String.toList_ofList]
    decide +kernel
  · rw [defaultPresets, String.toList_ofList]
    decide

/-- What is put in after another value than the title leaves a trace. -/
theorem traceable_later {w : PageValue} (hw : w ≠ .title) :
    ∀ v ∈ w.later, Traceable (s.values v) := by
  have hlater : ∀ v ∈ w.later, v ∈ [PageValue.react, .url, .presets] := by
    revert hw
    cases w <;> decide
  have htraceable : ∀ v ∈ [PageValue.react, .url, .presets], Traceable (s.values v) :=
    List.forall_mem_cons.mpr ⟨s.traceable_react, List.forall_mem_cons.mpr
      ⟨s.traceable_url, List.forall_mem_singleton.mpr s.traceable_presets⟩⟩
  exact fun v hv => htraceable v (hlater v hv)

/-- Another value than the title stands as it is exactly if it has no mark of a later one. -/
theorem final_eq_iff {w : PageValue} (hw : w ≠ .title) :
    w.final s.values = s.values w ↔ ∀ v ∈ w.later, ¬v.mark <:+: s.values w := by
  rw [PageValue.final_eq]
  exact foldl_putValue_eq_self_iff (s.traceable_later hw)

/-- If it gains no quotes and loses no braces, it stands as it is. -/
theorem braces_final_le {w : PageValue} (hw : w ≠ .title)
    (hquotes : quotes (w.final s.values) ≤ quotes (s.values w)) :
    braces (w.final s.values) ≤ braces (s.values w) ∧
      (braces (s.values w) ≤ braces (w.final s.values) → w.final s.values = s.values w) := by
  rw [s.final_eq_iff hw, PageValue.final_eq]
  rw [PageValue.final_eq] at hquotes
  exact braces_foldl_putValue_le (s.traceable_later hw) hquotes

/-! ### The page as it should be -/

/-- The page whose values stand as they are. -/
def literalPage : List Char := pageTemplate.flatMap (PagePiece.filled s.values)

end ViewerSettings

/-- How often a character stands in the values of a page, the version standing at three places. -/
def valueCount (c : Char) (texts : PageValue → List Char) : Nat :=
  (texts .title).count c + 3 * (texts .version).count c + (texts .react).count c +
    (texts .url).count c + (texts .presets).count c

/-- The characters of a page are those of its template and those of its values. -/
theorem count_filled (c : Char) (texts : PageValue → List Char) :
    (pageTemplate.flatMap (PagePiece.filled texts)).count c =
      (pageTemplate.flatMap (PagePiece.filled fun _ => [])).count c + valueCount c texts := by
  have hframed : ∀ p ∈ pageTemplate, p.Framed [c] id := by
    intro p _
    cases p with
    | text lines => exact ⟨Text.beginsClear_singleton c _, Text.endsClear_singleton c _⟩
    | value v => trivial
  have hcount := PagePiece.occurrences_flatMap alternating_pageTemplate hframed texts
  simp only [List.map_id, Text.occurrences_singleton, values_pageTemplate, List.map_cons,
    List.map_nil, List.sum_cons, List.sum_nil] at hcount
  rw [valueCount]
  omega

/-- So pages that agree have as many characters of each kind in their values. -/
theorem valueCount_eq_of_filled_eq {texts texts' : PageValue → List Char}
    (heq : pageTemplate.flatMap (PagePiece.filled texts) =
      pageTemplate.flatMap (PagePiece.filled texts')) (c : Char) :
    valueCount c texts = valueCount c texts' := by
  have hcount := congrArg (List.count c) heq
  rw [count_filled c texts, count_filled c texts'] at hcount
  exact Nat.add_left_cancel hcount

/-- A quote that stands after the title tells where it ends. -/
theorem title_eq_of_filled_eq {texts texts' : PageValue → List Char} (h : '"' ∉ texts .title)
    (h' : '"' ∉ texts' .title)
    (heq : pageTemplate.flatMap (PagePiece.filled texts) =
      pageTemplate.flatMap (PagePiece.filled texts')) : texts .title = texts' .title := by
  obtain ⟨opening, lines, rest, htemplate, hquote⟩ : ∃ opening lines rest,
      pageTemplate = .text opening :: .value .title :: .text lines :: rest ∧
        '"' ∈ (joinLines lines).toList := by
    refine ⟨_, _, _, rfl, ?_⟩
    rw [joinLines, String.toList_intercalate]
    repeat rw [List.map_cons]
    repeat rw [String.toList_ofList]
    decide +kernel
  obtain ⟨front, back, hlines, hfront⟩ := List.eq_append_cons_of_mem hquote
  simp only [htemplate, List.flatMap_cons, PagePiece.filled, hlines, List.append_assoc,
    List.cons_append] at heq
  have hcut := List.append_cancel_left heq
  rw [← List.append_assoc, ← List.append_assoc] at hcut
  have hends : ∀ {title : List Char}, '"' ∉ title → '"' ∉ title ++ front := fun htitle hmem =>
    (List.mem_append.mp hmem).elim htitle hfront
  exact List.append_cancel_right (Text.append_cons_inj (hends h) (hends h') hcut).1

namespace ViewerSettings

variable (s : ViewerSettings)

/-- Since no value loses quotes, none gains any if they are as many as they should be. -/
theorem count_final_eq {c : Char} (hc : c = '"' ∨ c = '\'')
    (h : valueCount c (PageValue.final s.values) = valueCount c s.values) (v : PageValue) :
    (v.final s.values).count c = (s.values v).count c := by
  have hle : ∀ w : PageValue, (s.values w).count c ≤ (w.final s.values).count c := by
    intro w
    rw [PageValue.final_eq]
    exact count_le_foldl_putValue hc s.values w.later (s.values w)
  have htitle := hle .title
  have hversion := hle .version
  have hreact := hle .react
  have hurl := hle .url
  have hpresets := hle .presets
  rw [valueCount, valueCount] at h
  cases v <;> omega

/-- And no other value than the title loses braces, if the title stands as it is. -/
theorem final_eq_of_valueCount_eq
    (h : ∀ c, valueCount c (PageValue.final s.values) = valueCount c s.values)
    (htitle : PageValue.final s.values .title = s.values .title) (v : PageValue) :
    v.final s.values = s.values v := by
  have hquotes : ∀ w : PageValue, quotes (w.final s.values) ≤ quotes (s.values w) := fun w =>
    Nat.add_le_add (s.count_final_eq (.inl rfl) (h _) w).le
      (s.count_final_eq (.inr rfl) (h _) w).le
  obtain ⟨hversion, version⟩ := s.braces_final_le (w := .version) (by decide) (hquotes _)
  obtain ⟨hreact, react⟩ := s.braces_final_le (w := .react) (by decide) (hquotes _)
  obtain ⟨hurl, url⟩ := s.braces_final_le (w := .url) (by decide) (hquotes _)
  obtain ⟨hpresets, presets⟩ := s.braces_final_le (w := .presets) (by decide) (hquotes _)
  have hbraces := h '\x7b'
  rw [valueCount, valueCount, htitle] at hbraces
  simp only [braces] at hversion version hreact react hurl url hpresets presets
  cases v with
  | title => exact htitle
  | version => exact version (by omega)
  | react => exact react (by omega)
  | url => exact url (by omega)
  | presets => exact presets (by omega)

/-- A page is as it should be exactly if every value stands in it as it is. -/
theorem plainPage_eq_literalPage_iff :
    s.plainPage = s.literalPage ↔ ∀ v, PageValue.final s.values v = s.values v := by
  rw [plainPage, fillTemplate_eq, literalPage]
  constructor
  · intro heq
    have hcount := valueCount_eq_of_filled_eq heq
    -- the title has no quotes, so it ends where it should
    have htitle : PageValue.final s.values .title = s.values .title := by
      have hescaped : '"' ∉ s.values .title := not_mem_escapeHtml rfl (by decide) s.title.toList
      have hnone := (s.count_final_eq (.inl rfl) (hcount _) .title).trans
        (List.count_eq_zero_of_not_mem hescaped)
      exact title_eq_of_filled_eq (List.count_eq_zero.mp hnone) hescaped heq
    exact s.final_eq_of_valueCount_eq hcount htitle
  · intro h
    rw [funext h]

end ViewerSettings

/-! ### Patterns in texts that are written in another way -/

/-- A pattern that stands in a text as it is wherever the text is escaped or quoted: its characters
are not written in another way, no slash is among them, and the first one is not in what other
characters are written as. -/
def Verbatim (pattern : List Char) : Prop :=
  pattern ≠ [] ∧
    (∀ c ∈ pattern, isMarkup c = false ∧ c ≠ '\\' ∧ c ≠ '/' ∧ ¬c.toNat < 0x20) ∧
      ∀ c ∈ pattern.head?, c ∉ "amp;ltgquo".toList ∧ c ∉ "\"\\btnfru0123456789abcdef".toList

instance (pattern : List Char) : Decidable (Verbatim pattern) :=
  -- only the characters of the pattern are gone through, and not all there are
  @instDecidableAnd _ _ _
    (@instDecidableAnd _ _ (List.decidableBAll _ _) (Option.decidableForallMem _))

/-- Every mark is such a pattern. -/
theorem verbatim_mark (v : PageValue) : Verbatim v.mark := by
  cases v <;> decide

section

variable {pattern : List Char}

/-- Such a pattern is neither made nor broken where a text is escaped for the page. -/
theorem Verbatim.keeps_escapeHtmlChar (h : Verbatim pattern) :
    Text.Keeps pattern escapeHtmlChar := by
  obtain ⟨-, hplain, hhead⟩ := h
  have hamp : '&' ∉ pattern := fun hmem => (isMarkup_eq_false_iff.mp (hplain _ hmem).1).1 rfl
  refine Text.Keeps.of_escapes hamp fun c => ?_
  cases hc : isMarkup c with
  | false => exact .inl (escapeHtmlChar_eq_self hc)
  | true =>
      rcases escapeHtmlChar_cases c with ⟨hplain', -⟩ | ⟨e, he, hwrite⟩
      · exact absurd (hplain'.symm.trans hc) Bool.false_ne_true
      · obtain ⟨rest, heq, hrest⟩ := exists_entity_eq he
        refine .inr ⟨fun hmem => ?_, rest, hwrite.trans heq, fun d hd hmem => ?_⟩
        · exact Bool.false_ne_true ((hplain c hmem).1.symm.trans hc)
        · exact (hhead d hd).1 (hrest hmem)

/-- Nor where it is written between quotes. -/
theorem Verbatim.keeps_escapeChar (h : Verbatim pattern) : Text.Keeps pattern Json.escapeChar := by
  obtain ⟨-, hplain, hhead⟩ := h
  have hslash : '\\' ∉ pattern := fun hmem => (hplain _ hmem).2.1 rfl
  refine Text.Keeps.of_escapes hslash fun c => ?_
  rcases JsonText.escapeChar_cases c with hself | ⟨hescaped, rest, hwrite, hrest⟩
  · exact .inl hself
  · refine .inr ⟨fun hmem => ?_, rest, hwrite, fun d hd hmem => (hhead d hd).2 (hrest hmem)⟩
    obtain ⟨hmarkup, hback, -, hcontrol⟩ := hplain c hmem
    rcases hescaped with rfl | rfl | hlow
    · exact absurd hmarkup (by decide)
    · exact hback rfl
    · exact hcontrol hlow

/-- It occurs in an escaped text if it does in the text. -/
theorem Verbatim.infix_escapeHtml_iff (h : Verbatim pattern) (cs : List Char) :
    pattern <:+: escapeHtml cs ↔ pattern <:+: cs := by
  rw [← not_iff_not, ← Text.occurrences_eq_zero_iff h.1, ← Text.occurrences_eq_zero_iff h.1,
    escapeHtml_eq, h.keeps_escapeHtmlChar.occurrences_flatMap h.1]

/-- And in the expression for a fixed address if it does in the address. -/
theorem Verbatim.infix_script_iff (h : Verbatim pattern) (url : String) :
    pattern <:+: (DocumentUrl.fixed url).script ↔ pattern <:+: url.toList := by
  have hplain : ∀ c ∈ ['"', '<', '\\', '/'], c ∉ pattern := by
    intro c hc hmem
    obtain ⟨hmarkup, hback, hslash, -⟩ := h.2.1 c hmem
    simp only [List.mem_cons, List.not_mem_nil, or_false] at hc
    rcases hc with rfl | rfl | rfl | rfl
    · exact absurd hmarkup (by decide)
    · exact absurd hmarkup (by decide)
    · exact hback rfl
    · exact hslash rfl
  have hnone : ∀ cs ⊆ ['"', '<', '\\', '/'], ¬pattern <:+: cs := by
    intro cs hcs hi
    obtain ⟨c, hc⟩ := List.exists_mem_of_ne_nil pattern h.1
    exact hplain c (hcs (hi.subset hc)) hc
  have hclear : ∀ cs : List Char, ∀ c d, cs.head? = some c → cs.getLast? = some d → c ∉ pattern →
      d ∉ pattern → Text.BeginsClear pattern cs ∧ Text.EndsClear pattern cs :=
    fun cs c d hfirst hlast hc hd =>
      ⟨Text.beginsClear_of_head hfirst hc, Text.endsClear_of_getLast hlast hd⟩
  have hcount := Text.occurrences_replaceAll (List.cons_ne_nil '<' ['/']) (by decide)
    (hclear _ '<' '/' rfl rfl (hplain _ (by decide)) (hplain _ (by decide)))
    (hclear ['<', '\\', '/'] '<' '/' rfl rfl (hplain _ (by decide)) (hplain _ (by decide)))
    (url.toList.flatMap Json.escapeChar)
  have hpair : occurrences pattern ['<', '/'] = 0 :=
    (Text.occurrences_eq_zero_iff h.1).mpr (hnone _ (by decide))
  have htriple : occurrences pattern ['<', '\\', '/'] = 0 :=
    (Text.occurrences_eq_zero_iff h.1).mpr (hnone _ (by decide))
  rw [hpair, htriple, Nat.mul_zero, Nat.add_zero, Nat.add_zero,
    h.keeps_escapeChar.occurrences_flatMap h.1] at hcount
  have hquote := hclear ['"'] '"' '"' rfl rfl (hplain _ (by decide)) (hplain _ (by decide))
  rw [DocumentUrl.script_fixed_eq, Text.infix_append_iff h.1 (hquote.2.apart _),
    or_iff_right (hnone _ (by decide)), Text.infix_append_iff h.1 (hquote.1.apart _),
    or_iff_left (hnone _ (by decide)), ← not_iff_not, ← Text.occurrences_eq_zero_iff h.1, hcount,
    Text.occurrences_eq_zero_iff h.1]

end

/-- A text without opening braces holds no mark. -/
theorem not_mark_infix_of_not_mem {v : PageValue} {cs : List Char} (h : '\x7b' ∉ cs) :
    ¬v.mark <:+: cs :=
  fun hi => h (hi.subset List.mem_cons_self)

/-! ### When values stand as they are -/

namespace ViewerSettings

variable (s : ViewerSettings)

/-- A title without the mark of the version stands as it is exactly if it has no mark of the values
after it either. -/
theorem foldl_putValue_title_iff (h : ¬PageValue.version.mark <:+: s.title.toList) :
    PageValue.title.later.foldl (putValue s.values) (s.values .title) = s.values .title ↔
      ∀ v ∈ PageValue.title.later, ¬v.mark <:+: s.title.toList := by
  have hmark : ∀ v : PageValue, v.mark <:+: s.values .title ↔ v.mark <:+: s.title.toList :=
    fun v => (verbatim_mark v).infix_escapeHtml_iff s.title.toList
  have hlater : PageValue.title.later = .version :: PageValue.version.later := rfl
  rw [hlater, List.foldl_cons, putValue_eq_self ((not_congr (hmark _)).mpr h),
    foldl_putValue_eq_self_iff (s.traceable_later (w := .version) (by decide)),
    List.forall_mem_cons, and_iff_right h]
  simp only [hmark]

/-- The script for scopes has no marks. -/
theorem final_react_eq : PageValue.final s.values .react = s.values .react := by
  have hbrace : '\x7b' ∉ s.values .react := by
    rw [values_react]
    split
    · rw [reactScript, String.toList_ofList]
      decide
    · decide
  exact (s.final_eq_iff (w := .react) (by decide)).mpr fun _ _ => not_mark_infix_of_not_mem hbrace

/-- The expression for an address has the marks of a fixed address. -/
theorem final_url_eq_iff :
    PageValue.final s.values .url = s.values .url ↔
      ∀ url, s.url = .fixed url → ¬PageValue.presets.mark <:+: url.toList := by
  rw [s.final_eq_iff (w := .url) (by decide), PageValue.later, List.forall_mem_singleton,
    values_url]
  cases s.url with
  | sibling =>
      have hbrace : '\x7b' ∉ DocumentUrl.sibling.script := by
        rw [DocumentUrl.script_sibling, String.toList_ofList]
        decide
      exact iff_of_true (not_mark_infix_of_not_mem hbrace) nofun
  | fixed url =>
      rw [(verbatim_mark _).infix_script_iff]
      simp only [DocumentUrl.fixed.injEq, forall_eq']

/-- A page without an authorisation is the template, each value of which holds what the later ones
have made of it. It is the page whose values stand as they are exactly if the title comes out as it
was, the version has no mark of a value after it, and a fixed address has none of the presets. The
title comes out as it was if it has no mark of a value after it, and only then if it has none of the
version. -/
theorem page_eq_literalPage_iff (h : s.oauth = none) :
    s.page.toList = pageTemplate.flatMap
        (PagePiece.filled fun v => v.later.foldl (putValue s.values) (s.values v)) ∧
      (s.page.toList = s.literalPage ↔
        PageValue.title.later.foldl (putValue s.values) (s.values .title) = s.values .title ∧
          (∀ v ∈ PageValue.version.later, ¬v.mark <:+: s.version.toList) ∧
            ∀ url, s.url = .fixed url → ¬PageValue.presets.mark <:+: url.toList) ∧
      (¬PageValue.version.mark <:+: s.title.toList →
        (PageValue.title.later.foldl (putValue s.values) (s.values .title) = s.values .title ↔
          ∀ v ∈ PageValue.title.later, ¬v.mark <:+: s.title.toList)) := by
  have hpage : s.page.toList = s.plainPage := by
    rw [page, h, String.toList_ofList]
  have hversion : PageValue.final s.values .version = s.values .version ↔
      ∀ v ∈ PageValue.version.later, ¬v.mark <:+: s.version.toList := s.final_eq_iff (by decide)
  refine ⟨?_, ?_, s.foldl_putValue_title_iff⟩
  · have hfinal : PageValue.final s.values =
        fun v => v.later.foldl (putValue s.values) (s.values v) :=
      funext (PageValue.final_eq s.values)
    rw [hpage, plainPage, fillTemplate_eq, hfinal]
  · rw [hpage, plainPage_eq_literalPage_iff, ← hversion, ← final_url_eq_iff, ← PageValue.final_eq]
    constructor
    · exact fun hfinal => ⟨hfinal .title, hfinal .version, hfinal .url⟩
    · rintro ⟨htitle, hversion, hurl⟩ v
      cases v with
      | title => exact htitle
      | version => exact hversion
      | react => exact s.final_react_eq
      | url => exact hurl
      | presets => exact final_presets s.values

/-- Settings with braces in the title and the mark of the title in the address, which nothing is put
in after. -/
def braced : ViewerSettings where
  version := "5.17.14"
  title := "Pets & \x7b\x7bmore\x7d\x7d"
  url := .fixed "/pets/\x7b\x7btitle\x7d\x7d.json"
  operationScopes := true

/-- The values of these settings stand as they are. -/
theorem page_eq_literalPage_braced :
    braced.oauth = none ∧ braced.page.toList = braced.literalPage := by
  obtain ⟨-, hliteral, htitle⟩ := page_eq_literalPage_iff braced rfl
  refine ⟨rfl, hliteral.mpr ⟨(htitle (by decide)).mpr (by decide), by decide, ?_⟩⟩
  rintro _ ⟨⟩
  decide

/-- A title with the mark of the version. -/
def versionTitled : ViewerSettings where
  title := "\x7b\x7bversion\x7d\x7d"

/-- The page shows the version in place of this title. -/
theorem page_ne_literalPage_versionTitled :
    versionTitled.oauth = none ∧ PageValue.final versionTitled.values .title = "4.5.0".toList ∧
      versionTitled.page.toList ≠ versionTitled.literalPage := by
  have hfinal : PageValue.final versionTitled.values .title = "4.5.0".toList := by
    rw [final_title]
    decide
  have htitle : "4.5.0".toList ≠ versionTitled.values .title := by decide
  have hpage : versionTitled.page.toList = versionTitled.plainPage := String.toList_ofList
  refine ⟨rfl, hfinal, fun heq => htitle ?_⟩
  rw [← hfinal]
  exact versionTitled.plainPage_eq_literalPage_iff.mp (hpage.symm.trans heq) .title

end ViewerSettings

end ServiceDocs
