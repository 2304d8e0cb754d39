import ServiceDocs.Proofs.Text.Words
import ServiceDocs.Service.Event

/-!
# Events Given in Short

A text stands for an event if it is a method and a path: two words with white space between them,
and perhaps around them. Nothing else does, neither one word, such as the route for everything else,
nor three. The text says which word is the method and which is the path, and the event has nothing
but them.

## Main definitions

* `EventForm.ShortFor`: a text that is a method and a path.

## Main results

* `EventForm.words_eq_pair_iff`: such a text has exactly two words.
* `EventForm.event?_shorthand`: the events that texts stand for.
-/

namespace ServiceDocs

namespace Text

theorem Gap.endsWord {cs : List Char} (h : Gap cs) : EndsWord cs :=
  fun c hc => h c (List.mem_of_mem_head? hc)

/-- The texts that write two words. -/
theorem writes_pair_iff {v w cs : List Char} :
    Writes [v, w] cs ↔ ∃ before between after, cs = before ++ (v ++ (between ++ (w ++ after))) ∧
      Gap before ∧ IsWord v ∧ Gap between ∧ between ≠ [] ∧ IsWord w ∧ Gap after := by
  constructor
  · rintro (_ | @⟨before, _, _, _, hbefore, hv, hend, h⟩)
    obtain _ | @⟨between, _, after, _, hbetween, hw, -, ⟨hafter⟩⟩ := h
    refine ⟨before, between, after, rfl, hbefore, hv, hbetween, ?_, hw, hafter⟩
    -- without a gap the second word would continue the first one
    rintro rfl
    exact hw.not_endsWord hend
  · rintro ⟨before, between, after, rfl, hbefore, hv, hbetween, hne, hw, hafter⟩
    obtain ⟨c, between, rfl⟩ := List.exists_cons_of_ne_nil hne
    exact .word hbefore hv (endsWord_cons (hbetween c List.mem_cons_self))
      (.word hbetween hw hafter.endsWord (.gap hafter))

end Text

namespace EventForm

/-- A text that is a method and a path. -/
def ShortFor (method path text : String) : Prop :=
  ∃ before between after : String, text = before ++ method ++ between ++ path ++ after ∧
    Text.Gap before.toList ∧ Text.IsWord method.toList ∧ Text.Gap between.toList ∧ between ≠ "" ∧
    Text.IsWord path.toList ∧ Text.Gap after.toList

variable {text method path : String}

/-- Such a text has exactly two words. -/
theorem words_eq_pair_iff : Text.words text = [method, path] ↔ ShortFor method path text := by
  have hlists : Text.words text = [method, path] ↔
      Text.Writes [method.toList, path.toList] text.toList := by
    rw [← Text.wordsFrom_eq_iff, Text.words]
    constructor
    · intro h
      have hletters := congrArg (List.map String.toList) h
      simpa [List.map_map, Function.comp_def] using hletters
    · intro h
      simp [h]
  rw [hlists, Text.writes_pair_iff]
  constructor
  · rintro ⟨before, between, after, htext, hbefore, hmethod, hbetween, hne, hpath, hafter⟩
    refine ⟨.ofList before, .ofList between, .ofList after, ?_, ?_⟩
    · rw [← String.toList_inj, htext]
      simp
    · simpa [String.toList_ofList, ← String.toList_inj] using
        ⟨hbefore, hmethod, hbetween, hne, hpath, hafter⟩
  · rintro ⟨before, between, after, rfl, hbefore, hmethod, hbetween, hne, hpath, hafter⟩
    refine ⟨before.toList, between.toList, after.toList, by simp, hbefore, hmethod, hbetween, ?_,
      hpath, hafter⟩
    exact mt String.toList_eq_nil_iff.mp hne

/-- What a text stands for, if it is a method and a path. -/
theorem ShortFor.event?_eq (h : ShortFor method path text) :
    (shorthand text).event? = some { method, path } := by
  rw [event?, words_eq_pair_iff.mpr h]

/-- No other text stands for an event. -/
theorem exists_shortFor_of_event? {event : HttpEvent} (h : (shorthand text).event? = some event) :
    ∃ method path, ShortFor method path text := by
  rw [event?] at h
  split at h
  · next method path hwords => exact ⟨method, path, words_eq_pair_iff.mp hwords⟩
  · exact nomatch h

/-- The text says which word is the method and which is the path. -/
theorem ShortFor.unique {method' path' : String} (h : ShortFor method path text)
    (h' : ShortFor method' path' text) : method = method' ∧ path = path' := by
  have hwords := words_eq_pair_iff.mpr h
  rw [words_eq_pair_iff.mpr h'] at hwords
  simpa [eq_comm] using hwords

/-- A text stands for an event exactly if it is a method and a path. These are determined by the
text, and the event has them and is blank otherwise. -/
theorem event?_shorthand (text : String) :
    ((shorthand text).event?.isSome ↔ ∃ method path, ShortFor method path text) ∧
      (∀ method path, ShortFor method path text →
        (shorthand text).event? = some { HttpEvent.record.blank with method, path }) ∧
      ∀ method path method' path', ShortFor method path text → ShortFor method' path' text →
        method = method' ∧ path = path' := by
  refine ⟨⟨fun h => ?_, ?_⟩, fun _ _ h => h.event?_eq, fun _ _ _ _ h h' => h.unique h'⟩
  · obtain ⟨event, hevent⟩ := Option.isSome_iff_exists.mp h
    exact exists_shortFor_of_event? hevent
  · rintro ⟨method, path, h⟩
    rw [h.event?_eq, Option.isSome_some]

/-- A method and a path with white space of several kinds around them. -/
def spaced : String := "\u00a0GET \t/pets\u3000"

/-- Its two words are its method and its path. -/
theorem event?_shorthand_spaced :
    ShortFor "GET" "/pets" spaced ∧
      (shorthand spaced).event? = some { method := "GET", path := "/pets" } ∧
      ∀ method path, ShortFor method path spaced → method = "GET" ∧ path = "/pets" := by
  have hshort : ShortFor "GET" "/pets" spaced := ⟨"\u00a0", " \t", "\u3000", by decide +kernel⟩
  obtain ⟨-, hevent, hunique⟩ := event?_shorthand spaced
  exact ⟨hshort, hevent _ _ hshort, fun _ _ h => hunique _ _ _ _ h hshort⟩

/-- A route for everything else and a text with a third word stand for none. -/
example : (shorthand "*").event? = none ∧ (shorthand "GET /pets now").event? = none := by
  decide +kernel

end EventForm

end ServiceDocs
