import ServiceDocs.Document.Merge

/-!
# Changes That Fail

A change of a document that fails half-way leaves a document behind. It is the one from before
the change if everything that can fail comes before everything that changes something. The
changes that cannot fail, those that change nothing, and those that do nothing if they fail are
kept apart here, with the ways in which they may follow each other.

## Main definitions

* `Document.Change.Total`: a change that does not fail.
* `Document.Change.Quiet`: a step that leaves the document alone.
* `Document.Change.Atomic`: a change that leaves the document alone if it fails.

## Main results

* `Document.atomic_mergeFragment`: a merge is atomic.
* `Document.run_mergeFragment`: what a merge leaves behind.
-/

namespace ServiceDocs.Document

namespace Change

variable {ε α β : Type}

/-- A change that does not fail. -/
def Total (change : Change ε α) : Prop := ∀ d e d', change.run d ≠ .error e d'

/-- A step that leaves the document alone, whether it fails or not. -/
structure Quiet (step : Change ε α) : Prop where
  /-- The document after a success. -/
  ok : ∀ {d a d'}, step.run d = .ok a d' → d' = d
  /-- The document after a failure. -/
  error : ∀ {d e d'}, step.run d = .error e d' → d' = d

/-- A change that leaves the document alone if it fails. -/
def Atomic (change : Change ε α) : Prop := ∀ {d e d'}, change.run d = .error e d' → d' = d

/-- A result that is taken into a change succeeds or fails as it did and leaves the document alone.
-/
theorem run_ofExcept (x : Except ε α) (d : Document) :
    (ofExcept x : Change ε α).run d = match x with
      | .ok a => .ok a d
      | .error e => .error e d := by
  cases x <;> rfl

/-- How the second of two steps comes to its end. -/
theorem run_bind_eq_error {step : Change ε α} {next : α → Change ε β} {d d' : Document} {e : ε}
    (h : (step >>= next).run d = .error e d') :
    step.run d = .error e d' ∨ ∃ a middle, step.run d = .ok a middle ∧
      (next a).run middle = .error e d' := by
  rw [EStateM.run_bind] at h
  cases hstep : step.run d with
  | ok a middle =>
      rw [hstep] at h
      exact .inr ⟨a, middle, rfl, h⟩
  | error e₁ d₁ =>
      rw [hstep] at h
      obtain ⟨rfl, rfl⟩ := EStateM.Result.error.inj h
      exact .inl rfl

/-- So it is a quiet step. -/
theorem quiet_ofExcept (x : Except ε α) : (ofExcept x : Change ε α).Quiet := by
  constructor
  · intro d a d' h
    rw [run_ofExcept] at h
    cases x with
    | ok value => exact (EStateM.Result.ok.inj h).2.symm
    | error e => exact nomatch h
  · intro d e d' h
    rw [run_ofExcept] at h
    cases x with
    | ok value => exact nomatch h
    | error e => exact (EStateM.Result.error.inj h).2.symm

/-- Looking at the document is a quiet step. -/
theorem quiet_get : (get : Change ε Document).Quiet where
  ok h := (EStateM.Result.ok.inj h).2.symm
  error h := nomatch h

/-- Replacing the document does not fail. -/
theorem total_set (d : Document) : (set d : Change ε PUnit).Total := fun _ _ _ h => nomatch h

/-- Changing the document by a function does not fail. -/
theorem total_modify (f : Document → Document) : (modify f : Change ε PUnit).Total :=
  fun _ _ _ h => nomatch h

/-- Changes that do not fail may follow each other. -/
theorem Total.bind {change : Change ε α} {next : α → Change ε β} (h : change.Total)
    (hnext : ∀ a, (next a).Total) : (change >>= next).Total := by
  intro d e d' herror
  rcases run_bind_eq_error herror with herror | ⟨a, middle, -, herror⟩
  · exact h d e d' herror
  · exact hnext a middle e d' herror

/-- A change that does not fail leaves nothing half done. -/
theorem Total.atomic {change : Change ε α} (h : change.Total) : change.Atomic :=
  fun herror => absurd herror (h _ _ _)

/-- An atomic change may come after a step that leaves the document alone. -/
theorem Quiet.bind_atomic {step : Change ε α} {next : α → Change ε β} (h : step.Quiet)
    (hnext : ∀ a, (next a).Atomic) : (step >>= next).Atomic := by
  intro d e d' herror
  rcases run_bind_eq_error herror with herror | ⟨a, middle, hstep, herror⟩
  · exact h.error herror
  · exact (hnext a herror).trans (h.ok hstep)

/-- Another name for the fault makes no difference. -/
theorem Atomic.adaptExcept {ε' : Type} {change : Change ε α} (h : change.Atomic) (f : ε → ε') :
    Atomic (change.adaptExcept f) := by
  intro d e d' herror
  rw [EStateM.run_adaptExcept] at herror
  cases hchange : change.run d with
  | ok a middle =>
      rw [hchange] at herror
      exact nomatch herror
  | error e₁ middle =>
      rw [hchange] at herror
      exact (EStateM.Result.error.inj herror).2 ▸ h hchange

end Change

open Change

/-- A merge that fails leaves the document alone: its three changes come last. -/
theorem atomic_mergeFragment (fragment : OrderedMap Json) : (mergeFragment fragment).Atomic := by
  refine (quiet_ofExcept _).bind_atomic fun paths => ?_
  refine (quiet_ofExcept _).bind_atomic fun definitions => ?_
  refine quiet_get.bind_atomic fun current => ?_
  refine (quiet_ofExcept _).bind_atomic fun merged => Total.atomic ?_
  exact (total_set merged).bind fun _ => (total_modify _).bind fun _ => total_modify _

/-- What a merge leaves behind. -/
theorem run_mergeFragment (fragment : OrderedMap Json) (d : Document) :
    (mergeFragment fragment).run d = match d.merge fragment with
      | .ok merged => .ok () merged
      | .error fault => .error fault d := by
  rw [merge]
  cases h : (mergeFragment fragment).run d with
  | ok _ merged => rfl
  | error fault d' => exact congrArg _ (atomic_mergeFragment fragment h)

/-- What merging gives, without the document in between. -/
theorem merge_eq (fragment : OrderedMap Json) (d : Document) :
    d.merge fragment = (do
      let paths ← readPart pathsCodec (fragment.takeOut "paths").1
      let definitions ←
        readPart definitionsCodec ((fragment.takeOut "paths").2.takeOut "definitions").1
      let merged ← d.overlay ((fragment.takeOut "paths").2.takeOut "definitions").2
      return { merged with
        paths := extendPart merged.paths paths,
        definitions := extendPart merged.definitions definitions }) := by
  simp only [merge, mergeFragment, EStateM.run_bind, run_ofExcept]
  cases readPart pathsCodec (fragment.takeOut "paths").1 with
  | error fault => rfl
  | ok paths =>
      cases readPart definitionsCodec ((fragment.takeOut "paths").2.takeOut "definitions").1 with
      | error fault => rfl
      | ok definitions =>
          have hget : (get : Change Fault Document).run d = .ok d d := rfl
          simp only [hget]
          cases d.overlay ((fragment.takeOut "paths").2.takeOut "definitions").2 with
          | error fault => rfl
          | ok merged => rfl

end ServiceDocs.Document
