import ServiceDocs.Docs.Slot

/-!
# Runs on the Installed Document

A process uses its slot in three ways, in any order and any number of times: it reads a text and
installs it, it looks at the installed document, and it answers a call with it. A step fills the
slot if it is empty and the text of the step is a document; no other step changes it. So after any
steps the slot holds the first document that one of their texts was, and what the next step gives
depends on that document alone.

A text that is no document and one that comes too late fail for different reasons. Neither disturbs
the document that is served, and the first one leaves an empty slot empty.

## Main definitions

* `Slot.Step`, `Slot.step`: a use of the slot, and what it gives and leaves.
* `Slot.outcomes`, `Slot.after`: what a run gives and leaves.
* `Slot.Unread`: steps none of whose texts is a document.

## Main results

* `Slot.installed_step`, `Slot.installed_after`: the installed document after a step and after a
run.
* `Slot.outcomes_writeOnce`: what the steps of a run give.
-/

namespace ServiceDocs.Slot

/-- A use of the slot. -/
inductive Step where
  /-- A text is read and installed. -/
  | install (text : String)
  /-- The installed document is looked at. -/
  | look
  /-- An event is answered by a handler that serves the installed document. -/
  | call (event : Json) (namesContentType : Bool)

/-- What a use of the slot gives. -/
inductive Outcome where
  /-- The document that is installed now, or why the text is not. -/
  | installed (result : Except Failure Document)
  /-- The installed document. -/
  | document (d? : Option Document)
  /-- The response of the handler. -/
  | response (r? : Option Envelope)

/-- What a step gives, and the slot that it leaves. -/
def step (s : Slot) : Step → Outcome × Slot
  | .install text => (.installed (s.installText text).1, (s.installText text).2)
  | .look => (.document s.installed, s)
  | .call _ namesContentType =>
    (.response (s.handler?.map fun h => DocumentHandler.respond { h with namesContentType }), s)

/-- What the steps of a run give. -/
def outcomes : Slot → List Step → List Outcome
  | _, [] => []
  | s, u :: us => (s.step u).1 :: outcomes (s.step u).2 us

/-- The slot that a run leaves. -/
def after (s : Slot) (us : List Step) : Slot := us.foldl (fun s u => (s.step u).2) s

/-- The document that the text of a step is. -/
def Step.document? : Step → Option Document
  | .install text => (parse text).toOption
  | .look | .call _ _ => none

/-- Steps none of whose texts is a document. -/
def Unread (us : List Step) : Prop :=
  ∀ text, .install text ∈ us → ∃ failure, parse text = .error failure

/-- What a step gives before a document is installed: its own document is, if there is one. -/
def Step.onEmpty : Step → Outcome
  | .install text => .installed (parse text)
  | .look => .document none
  | .call _ _ => .response none

/-- What a step gives when a document is installed: a text is refused even if it is a document, and
a call is answered with the text of the installed one. -/
def Step.onFilled (d : Document) : Step → Outcome
  | .install text =>
    .installed <| match parse text with
      | .ok _ => .error .alreadyInstalled
      | .error failure => .error failure
  | .look => .document (some d)
  | .call _ namesContentType =>
    .response (some {
      statusCode := 200
      body := d.compact
      headers :=
        if namesContentType then some ⟨[("content-type", "application/json")]⟩ else none })

variable {s : Slot} {u : Step} {us before : List Step} {d : Document} {text : String}

/-! ### The installed document -/

/-- An empty slot takes a document. -/
theorem install_of_none (h : s.installed = none) (d : Document) :
    s.install d = (.ok d, { installed := some d }) := by
  simp only [install, h]

/-- A slot that holds a document refuses another one and keeps what it has. -/
theorem install_of_some {d' : Document} (h : s.installed = some d') (d : Document) :
    s.install d = (.error .alreadyInstalled, s) := by
  simp only [install, h]

/-- A text that is a document is installed as this document. -/
theorem installText_of_ok (h : parse text = .ok d) (s : Slot) :
    s.installText text = s.install d := by
  rw [installText, h]

/-- A text that is no document fails as it fails to be read, and the slot stays as it is. -/
theorem installText_of_error {failure : Failure} (h : parse text = .error failure) (s : Slot) :
    s.installText text = (.error failure, s) := by
  rw [installText, h]

/-- A step fills an empty slot with the document that its text is, and changes nothing else. -/
theorem installed_step (s : Slot) (u : Step) :
    (s.step u).2.installed = s.installed.or u.document? := by
  cases u with
  | install text =>
      rw [step, Step.document?]
      cases hparse : parse text with
      | error failure =>
          rw [installText_of_error hparse]
          exact Option.or_none.symm
      | ok d =>
          rw [installText_of_ok hparse]
          cases h : s.installed with
          | none =>
              rw [install_of_none h]
              rfl
          | some d' =>
              rw [install_of_some h]
              exact h
  | look | call event namesContentType => rw [step, Step.document?, Option.or_none]

/-- A run fills an empty slot with the first document that a text of its steps is. -/
theorem installed_after (s : Slot) (us : List Step) :
    (s.after us).installed = s.installed.or (us.findSome? Step.document?) := by
  induction us generalizing s with
  | nil => rw [List.findSome?_nil, Option.or_none, after, List.foldl_nil]
  | cons u us ih =>
      rw [after, List.foldl_cons, ← after, ih, installed_step, Option.or_assoc, List.findSome?_cons]
      cases u.document? <;> rfl

theorem toOption_parse_eq_some_iff : (parse text).toOption = some d ↔ parse text = .ok d := by
  cases parse text <;> simp [Except.toOption]

theorem toOption_parse_eq_none_iff :
    (parse text).toOption = none ↔ ∃ failure, parse text = .error failure := by
  cases parse text <;> simp [Except.toOption]

/-- A run has no first document exactly if none of its texts is one. -/
theorem findSome?_eq_none_iff : us.findSome? Step.document? = none ↔ Unread us := by
  rw [List.findSome?_eq_none_iff, Unread]
  constructor
  · intro h text htext
    exact toOption_parse_eq_none_iff.mp (h _ htext)
  · rintro h (text | _ | _) hu
    · exact toOption_parse_eq_none_iff.mpr (h text hu)
    · rfl
    · rfl

/-- Before the first document is read, the slot is empty. -/
theorem installed_after_of_unread (h : Unread us) : (after {} us).installed = none := by
  rw [installed_after, findSome?_eq_none_iff.mpr h]
  rfl

/-- Afterwards it holds that document. -/
theorem installed_after_of_parse (h : Unread before) (hparse : parse text = .ok d)
    (us : List Step) : (after {} (before ++ .install text :: us)).installed = some d := by
  rw [installed_after, List.findSome?_append, findSome?_eq_none_iff.mpr h, List.findSome?_cons,
    Step.document?, hparse]
  rfl

/-! ### What the steps give -/

/-- While the slot is empty, a step gives nothing but a document of its own. -/
theorem fst_step_of_none (h : s.installed = none) (u : Step) : (s.step u).1 = u.onEmpty := by
  cases u with
  | install text =>
      rw [step, Step.onEmpty]
      cases hparse : parse text with
      | error failure => rw [installText_of_error hparse]
      | ok d => rw [installText_of_ok hparse, install_of_none h]
  | look => rw [step, Step.onEmpty, h]
  | call event namesContentType =>
      rw [step, Step.onEmpty, handler?, h]
      rfl

/-- When the slot is filled, a step gives the installed document or refuses its own. -/
theorem fst_step_of_some (h : s.installed = some d) (u : Step) : (s.step u).1 = u.onFilled d := by
  cases u with
  | install text =>
      rw [step, Step.onFilled]
      cases hparse : parse text with
      | error failure => rw [installText_of_error hparse]
      | ok d' => rw [installText_of_ok hparse, install_of_some h]
  | look => rw [step, Step.onFilled, h]
  | call event namesContentType =>
      rw [step, Step.onFilled, handler?, h]
      cases namesContentType <;> rfl

/-- What a step of a run gives depends on the slot that the steps before it leave. -/
theorem getElem?_outcomes (s : Slot) (before : List Step) (u : Step) (us : List Step) :
    (s.outcomes (before ++ u :: us))[before.length]? = some ((s.after before).step u).1 := by
  induction before generalizing s with
  | nil => rfl
  | cons v before ih =>
      rw [List.cons_append, outcomes, List.length_cons, List.getElem?_cons_succ]
      exact ih (s.step v).2

/-- A text that is no document adds its own failure to what a run gives. The other steps give what
they give without it. -/
theorem outcomes_of_error {failure : Failure} (h : parse text = .error failure) (s : Slot)
    (us vs : List Step) :
    s.outcomes (us ++ .install text :: vs) =
      (s.outcomes (us ++ vs)).insertIdx us.length (.installed (.error failure)) := by
  induction us generalizing s with
  | nil =>
      rw [List.nil_append, outcomes, step, installText_of_error h]
      rfl
  | cons u us ih =>
      rw [List.cons_append, List.cons_append, outcomes, outcomes, List.length_cons,
        List.insertIdx_succ_cons, ih]

/-- Along every run from the empty slot, nothing is given out before a text is a document. The first
such text is installed, and its document is given out by all later steps, whatever they are and
however they fail: a text that is a document is refused then, and one that is none fails for its own
reason. Such a text changes nothing anywhere in a run. -/
theorem outcomes_writeOnce (before : List Step) (hbefore : Unread before) :
    (∀ u us, (outcomes {} (before ++ u :: us))[before.length]? = some u.onEmpty) ∧
      (∀ text d, parse text = .ok d → ∀ between u us,
        (outcomes {} (before ++ .install text :: (between ++ u :: us)))[
          before.length + 1 + between.length]? = some (u.onFilled d)) ∧
      ∀ text failure, parse text = .error failure → ∀ us vs,
        outcomes {} (us ++ .install text :: vs) =
            (outcomes {} (us ++ vs)).insertIdx us.length (.installed (.error failure)) ∧
          after {} (us ++ .install text :: vs) = after {} (us ++ vs) := by
  refine ⟨fun u us => ?_, fun text d hparse between u us => ?_, fun text failure hparse us vs => ?_⟩
  · rw [getElem?_outcomes, fst_step_of_none (installed_after_of_unread hbefore)]
  · have hfilled := installed_after_of_parse hbefore hparse between
    have hlength : before.length + 1 + between.length =
        (before ++ .install text :: between).length := by
      rw [List.length_append, List.length_cons, Nat.add_assoc, Nat.add_comm 1]
    rw [hlength, ← List.cons_append, ← List.append_assoc, getElem?_outcomes,
      fst_step_of_some hfilled]
  · refine ⟨outcomes_of_error hparse {} us vs, ?_⟩
    rw [after, after, List.foldl_append, List.foldl_cons, step, installText_of_error hparse,
      List.foldl_append]

/-- A text that breaks off, and two documents. -/
def brokenText : String := "\x7b\"info\": "

/-- The text of a document with a title. -/
def titledText (title : String) : String :=
  "\x7b\"info\": \x7b\"title\": \"" ++ title ++ "\"\x7d\x7d"

/-- A run that installs three texts, of which only the second one is installed. -/
def contended : List Step :=
  [.look, .install brokenText, .install (titledText "first"), .install (titledText "second"),
    .call .null true, .look]

/-- The first document is served to the end. -/
theorem outcomes_writeOnce_contended :
    Unread [.look, .install brokenText] ∧
      ∃ d failure, parse (titledText "first") = .ok d ∧ d.info.title = "first" ∧
        parse brokenText = .error failure ∧
        (outcomes {} contended)[2]? = some (.installed (.ok d)) ∧
        (outcomes {} contended)[3]? = some (.installed (.error .alreadyInstalled)) ∧
        (outcomes {} contended)[5]? = some (.document (some d)) ∧
        outcomes {} contended =
          (outcomes {} (contended.eraseIdx 1)).insertIdx 1 (.installed (.error failure)) := by
  have hbroken : (parse brokenText).toOption = none := by
    rw [← Option.isNone_iff_eq_none]
    decide +kernel
  have htitled : ∀ title ∈ ["first", "second"],
      ∃ d, parse (titledText title) = .ok d ∧ d.info.title = title := by
    have htitle : ∀ title ∈ ["first", "second"],
        (parse (titledText title)).toOption.map (·.info.title) = some title := by decide +kernel
    intro title h
    obtain ⟨d, hparse, hd⟩ := Option.map_eq_some_iff.mp (htitle title h)
    exact ⟨d, toOption_parse_eq_some_iff.mp hparse, hd⟩
  obtain ⟨failure, hfailure⟩ := toOption_parse_eq_none_iff.mp hbroken
  obtain ⟨d, hfirst, htitle⟩ := htitled "first" (by decide)
  obtain ⟨d', hsecond, -⟩ := htitled "second" (by decide)
  have hunread : Unread [.look, .install brokenText] := by
    intro text htext
    obtain rfl : text = brokenText := by simpa using htext
    exact ⟨failure, hfailure⟩
  obtain ⟨hempty, hfilled, hchanges⟩ := outcomes_writeOnce _ hunread
  refine ⟨hunread, d, failure, hfirst, htitle, hfailure, ?_, ?_, ?_, ?_⟩
  · rw [← hfirst]
    exact hempty (.install (titledText "first")) _
  · have hrefused :=
      hfilled _ d hfirst [] (.install (titledText "second")) [.call .null true, .look]
    rwa [Step.onFilled, hsecond] at hrefused
  · exact hfilled _ d hfirst [.install (titledText "second"), .call .null true] .look []
  · exact (hchanges brokenText failure hfailure [.look] _).1

end ServiceDocs.Slot
