import ServiceDocs.Proofs.Document.Collapse
import ServiceDocs.Proofs.Generate.Regeneration

/-!
# Definitions of Generated Documents

The definitions of a generated document are those that its generator merged, in their order and
each of them collapsed. What the other steps do leaves them alone.

So no definition has a union at a place that is reached through items, properties and
alternatives. Collapsing stops at what an object may hold besides its properties: the unions that
it misses there are left, and no others.

## Main definitions

* `Schema.Cleared`: which unions of a schema are gone in another one.

## Main results

* `Schema.cleared_collapse`, `Schema.Cleared.complete_iff`: which unions collapsing leaves, and
  when it leaves none.
* `Generator.definitions_of_generate`: the definitions of a generated document.
* `Generator.generate_cleared`: which unions are left in generated documents.
* `Schema.exists_isUnion_collapse_bag`: a union that is left.
-/

namespace ServiceDocs

/-! ### Which unions are left -/

namespace Schema

/-- Of the unions of a schema, none is left at a place that is reached through parts alone, and one
is left anywhere exactly if collapsing misses it. -/
structure Cleared (s cleared : Schema) : Prop where
  reached : ∀ t ∈ cleared.places false, t.isUnion = false
  left_iff : ∀ t : Schema, t.isUnion = true → (t ∈ cleared.places true ↔ s.Missed t)

/-- Collapsing clears a schema of the unions that it reaches. -/
theorem cleared_collapse (s : Schema) : s.Cleared (collapse s) where
  reached _ := isUnion_of_mem_places_collapse
  left_iff _ := mem_places_collapse_iff

/-- No union is left anywhere exactly if none is missed. -/
theorem Cleared.complete_iff {s cleared : Schema} (h : s.Cleared cleared) :
    (∀ t ∈ cleared.places true, t.isUnion = false) ↔ ∀ t, s.Missed t → t.isUnion = false := by
  constructor
  · intro hcomplete t hmissed
    by_contra hunion
    rw [Bool.not_eq_false] at hunion
    exact absurd
      ((hcomplete t ((h.left_iff t hunion).mpr hmissed)).symm.trans hunion) Bool.false_ne_true
  · intro hmissed t ht
    by_contra hunion
    rw [Bool.not_eq_false] at hunion
    exact absurd ((hmissed t ((h.left_iff t hunion).mp ht)).symm.trans hunion) Bool.false_ne_true

end Schema

/-! ### The definitions of a generated document -/

namespace Generator

variable {g : Generator} {d : Document}

/-- The definitions of a generated document are the merged ones, collapsed one by one. -/
theorem definitions_of_generate (h : g.generate = .ok d) :
    d.definitions = g.merged.document.definitions.mapValues Schema.collapse := by
  obtain ⟨-, rfl⟩ := generate_eq_ok_iff.mp h
  rw [finish_eq]

/-- Collapsing clears a schema of the unions that it reaches, and of all of them exactly if it
misses none. The definitions of a generated document are cleared in the same way: each is a merged
definition of the same name without these unions. -/
theorem generate_cleared (s : Schema) (g : Generator) :
    s.Cleared s.collapse ∧
      ((∀ t ∈ s.collapse.places true, t.isUnion = false) ↔ ∀ t, s.Missed t → t.isUnion = false) ∧
      ∀ d : Document, g.generate = .ok d →
        d.definitions.keys = g.merged.document.definitions.keys ∧
          ∀ entry ∈ d.definitions.entries, ∃ merged : Schema,
            (entry.1, merged) ∈ g.merged.document.definitions.entries ∧ merged.Cleared entry.2 := by
  refine ⟨s.cleared_collapse, s.cleared_collapse.complete_iff, fun d h => ?_⟩
  rw [definitions_of_generate h]
  refine ⟨OrderedMap.keys_mapValues .., fun entry hentry => ?_⟩
  obtain ⟨⟨name, merged⟩, hmerged, rfl⟩ := List.mem_map.mp hentry
  exact ⟨merged, hmerged, merged.cleared_collapse⟩

/-- A service whose file defines a bag: its items are one letter, and so is what it may hold
besides. -/
def bagSample : Generator where
  description :=
    { service := .name "pets", custom := { autoswagger := { swaggerFiles := ["bag.json"] } } }
  files := { entries := [(⟨false, ["bag.json"]⟩, .file text.toUTF8)] }
where
  text :=
    "\x7b\"definitions\": \x7b\"Bag\": " ++
    "\x7b\"items\": \x7b\"anyOf\": [\x7b\"const\": \"a\"\x7d]\x7d, " ++
    "\"additionalProperties\": \x7b\"anyOf\": [\x7b\"const\": \"b\"\x7d]\x7d\x7d\x7d\x7d"

/-- The bag is generated, and it is cleared. -/
theorem generate_cleared_bagSample :
    let d := bagSample.finish bagSample.merged.document
    bagSample.generate = .ok d ∧ d.definitions.keys = ["Bag"] ∧
      ∀ entry ∈ d.definitions.entries, ∃ merged : Schema,
        (entry.1, merged) ∈ bagSample.merged.document.definitions.entries ∧
          merged.Cleared entry.2 := by
  intro d
  obtain ⟨hfailure, hkeys⟩ : bagSample.merged.failure.isNone = true ∧
      d.definitions.keys = ["Bag"] := by decide +kernel
  have hgenerate : bagSample.generate = .ok d :=
    generate_eq_ok_iff.mpr ⟨Option.isNone_iff_eq_none.mp hfailure, rfl⟩
  obtain ⟨-, -, hcleared⟩ := generate_cleared .blank bagSample
  exact ⟨hgenerate, hkeys, (hcleared d hgenerate).2⟩

end Generator

namespace Schema

/-- A bag may hold letters, and nothing is said of its items. -/
def bag : Schema := .node {} none (some (.schema letters)) none none
where
  letters :=
    .node {} none none none (some [.node { const := some (.string "a") } none none none none])

/-- Collapsing leaves the letters of a bag as they are, so not every union is gone. -/
theorem exists_isUnion_collapse_bag :
    bag.letters ∈ bag.collapse.places true ∧ bag.letters.isUnion = true ∧
      ¬ ∀ s : Schema, ∀ t ∈ s.collapse.places true, t.isUnion = false := by
  have hfurther : bag.letters ∈ bag.further := List.mem_singleton_self _
  have hmissed : bag.Missed bag.letters := .further hfurther (mem_places_self true bag.letters)
  have hunion : bag.letters.isUnion = true := by decide
  refine ⟨hmissed.mem_places_collapse, hunion, fun h => ?_⟩
  exact absurd ((h bag _ hmissed.mem_places_collapse).symm.trans hunion) Bool.false_ne_true

end Schema

end ServiceDocs
