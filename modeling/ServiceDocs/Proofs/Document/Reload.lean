import ServiceDocs.Proofs.Document.Basic
import ServiceDocs.Proofs.Json.RoundTrip

/-!
# Reading Documents Back from Their Texts

A text opens at most 127 containers inside each other. A stable document that is no deeper
is read back from its compact and from its indented text, provided that the digits of its
doubles name them.

## Main results

* `Codec.Stable.ofText`: reading back from text, for every regular codec.
* `Document.ofText_text`: reading a document back.
-/

namespace ServiceDocs

/-- How many containers of a text may open inside each other. -/
def deepest : Nat := 127

/-- A stable value that is not too deep is read back from both of its texts. -/
theorem Codec.Stable.ofText {α : Type} {c : Codec α} {slack : Nat} {a : α}
    (h : c.Stable deepest a) (hc : c.Regular (fun _ => True) slack) (hl : (c.write a).Legible) :
    c.ofText (JsonText.tree (c.write a).compact) = .ok a ∧
      c.ofText (JsonText.tree (c.write a).pretty) = .ok a := by
  have hread : c.ofText (.ofJson (c.write a), .closed) = .ok a :=
    bind_eq_ok.mpr ⟨a, hc.reread h trivial h.depth_le, rfl⟩
  rw [Json.tree_compact hl, Json.tree_pretty hl]
  exact ⟨hread, hread⟩

/-- What is read from a text is stable, and no deeper than a text may be. -/
theorem Codec.Regular.stable_of_ofText {α : Type} {c : Codec α} {slack : Nat} {a : α}
    {text : String} (hc : c.Regular (fun _ => True) slack) (hs : slack ≤ deepest)
    (h : c.ofText (JsonText.tree text) = .ok a) : c.Stable deepest a := by
  obtain ⟨b, hread, hb⟩ := bind_eq_ok.mp h
  obtain ⟨_, -, hb⟩ := bind_eq_ok.mp hb
  obtain rfl := Except.ok.inj hb
  exact (hc.stable rfl (JsonText.isJson_tree text) trivial hread).mono
    (Nat.max_le.mpr ⟨Nat.le_refl _, hs⟩)

namespace Document

/-- A stable document is read back from both of its texts. -/
theorem ofText_text {d : Document} (h : codec.Stable deepest d)
    (hdoubles : ∀ x ∈ d.toJson.doubles, (Json.number (.float x)).Rereads) :
    ofText d.compact = .ok d ∧ ofText d.pretty = .ok d :=
  h.ofText regular (h.sound.legible hdoubles)

/-- A document that is read from a text is stable. -/
theorem stable_of_ofText {d : Document} {text : String} (h : ofText text = .ok d) :
    codec.Stable deepest d :=
  (regular (K := fun _ => True)).stable_of_ofText (by decide) h

end Document

end ServiceDocs
