import ServiceDocs.Proofs.Document.Loading
import ServiceDocs.Proofs.Generate.Reachable
import ServiceDocs.Proofs.OrderedMap.Vacated

/-!
# The Order of Merged Extensions

The extensions of a document keep their places when a partial document is merged, and the new ones
follow. They do not always follow in the order of the partial document: its paths and its
definitions are taken out first, and each time the last member moves to the place that is left. The
order is kept exactly if no new extension passes another one in this way, or if the second move
undoes the first one.

## Main definitions

* `Document.isNew`: the names that become new extensions.

## Main results

* `Document.merge_extensionOrder`: the order of the extensions of a merged document.
* `Document.merge_extensionOrder_passed`: new extensions that do not keep their order.
-/

namespace ServiceDocs.Document

open OrderedMap (vacate Overtakes Restores)

variable {d d' : Document} {fragment : OrderedMap Json} {text : String}

/-- Whether a name is that of a new extension: no field and no extension of the document has it. -/
def isNew (d : Document) (name : String) : Bool := name ∉ record.names ∧ name ∉ d.extensions.keys

/-- The two maps of a document are no new members for it. -/
theorem isNew_of_mem_mapNames {name : String} (h : name ∈ mapNames) : d.isNew name = false := by
  have hfield : name ∈ record.names := by
    rcases List.mem_cons.mp h with rfl | h
    · exact Record.name_mem_names pathsField_mem
    · exact List.mem_singleton.mp h ▸ Record.name_mem_names definitionsField_mem
  exact decide_eq_false fun hnew => hnew.1 hfield

/-- The names of a partial document that become new extensions. -/
theorem filter_keys_others (members : OrderedMap Json) :
    (record.others members).keys.filter (fun name => name ∉ d.extensions.keys) =
      members.keys.filter d.isNew := by
  have hothers : (record.others members).keys =
      members.keys.filter fun name => name ∉ record.names := by
    rw [OrderedMap.keys, OrderedMap.keys, Record.others, List.filter_map]
    rfl
  rw [hothers, List.filter_filter]
  refine List.filter_congr fun name _ => ?_
  rw [isNew, Bool.decide_and, Bool.and_comm]

/-- The keys of the head are those of the file after both maps are swapped out. -/
theorem keys_headMembers (fragment : OrderedMap Json) :
    (headMembers fragment).keys = vacate "definitions" (vacate "paths" fragment.keys) := by
  rw [headMembers, OrderedMap.keys_takeOut, OrderedMap.keys_takeOut]

/-- The extensions of a merged document: the old ones, and the new ones in the order in which they
stand after paths and definitions are taken out. -/
theorem Merged.keys_extensions (h : Merged fragment d d') (hd : fragment.Distinct) :
    d'.extensions.keys =
      d.extensions.keys ++
        (vacate "definitions" (vacate "paths" fragment.keys)).filter d.isNew := by
  have hothers : (record.others (headMembers fragment)).Distinct :=
    (List.filter_sublist.map _).nodup (distinct_headMembers hd)
  rw [h.extensions, OrderedMap.keys_extend hothers, filter_keys_others, keys_headMembers]

/-- The extensions of a document that a partial document was merged into are the old ones in their
order and then the new ones. These are all there, in the order that taking out paths and definitions
leaves. It is the order of the partial document exactly if no new one passes another one, or the
second move undoes the first one. -/
theorem merge_extensionOrder (hd : d.Reachable) (hf : parseFragment text = .ok fragment)
    (h : d.merge fragment = .ok d') :
    d'.extensions.keys =
        d.extensions.keys ++ (vacate "definitions" (vacate "paths" fragment.keys)).filter d.isNew ∧
      ((vacate "definitions" (vacate "paths" fragment.keys)).filter d.isNew).Perm
        (fragment.keys.filter d.isNew) ∧
      (d'.extensions.keys = d.extensions.keys ++ fragment.keys.filter d.isNew ↔
        (¬Overtakes d.isNew "paths" fragment.keys ∧
            ¬Overtakes d.isNew "definitions" (vacate "paths" fragment.keys)) ∨
          Restores d.isNew "paths" "definitions" fragment.keys) := by
  have hfragment := isFragment_of_parseFragment hf
  have hdistinct := hfragment.distinct
  have hmerged := (merge_iff (by decide) hd.settled hfragment).mp h
  have hkeys := hmerged.keys_extensions hdistinct
  refine ⟨hkeys, ?_, ?_⟩
  · have hperm := ((perm_others_headMembers hdistinct).map (·.1)).filter
      fun name => name ∉ d.extensions.keys
    have hhead := filter_keys_others (d := d) (headMembers fragment)
    rw [keys_headMembers] at hhead
    rw [← hhead, ← filter_keys_others]
    exact hperm.symm
  · have hpaths : d.isNew "paths" = false := isNew_of_mem_mapNames (by decide)
    have hdefinitions : d.isNew "definitions" = false := isNew_of_mem_mapNames (by decide)
    rw [hkeys, List.append_cancel_left_eq,
      OrderedMap.filter_vacate_vacate_eq_iff hdistinct hpaths hdefinitions]

/-- A text with paths between its extensions. -/
def crossedText : String :=
  "\x7b\"x-first\": 1, \"paths\": \x7b\x7d, \"x-second\": 2, \"definitions\": \x7b\x7d, " ++
  "\"x-third\": 3\x7d"

/-- The third extension of the text passes the second one. -/
theorem merge_crossedText : ∃ fragment d', parseFragment crossedText = .ok fragment ∧
    blank.merge fragment = .ok d' ∧
    fragment.keys.filter blank.isNew = ["x-first", "x-second", "x-third"] ∧
    d'.extensions.keys = ["x-first", "x-third", "x-second"] := by
  have hruns : (parseFragment crossedText).toOption.bind (fun fragment =>
      (blank.merge fragment).toOption.map fun d' =>
        (fragment.keys.filter blank.isNew, d'.extensions.keys)) =
      some (["x-first", "x-second", "x-third"], ["x-first", "x-third", "x-second"]) := by
    decide +kernel
  cases hf : parseFragment crossedText with
  | error fault => exact nomatch hf ▸ hruns
  | ok fragment =>
      cases h : blank.merge fragment with
      | error fault => simp [hf, h, Except.toOption] at hruns
      | ok d' =>
          simp only [hf, h, Except.toOption, Option.bind_some, Option.map_some, Option.some.injEq,
            Prod.mk.injEq] at hruns
          exact ⟨fragment, d', rfl, h, hruns⟩

/-- The text is merged, and its extensions stand in the order that taking out leaves. -/
theorem merge_extensionOrder_crossedText : ∃ fragment d',
    parseFragment crossedText = .ok fragment ∧ blank.merge fragment = .ok d' ∧
      d'.extensions.keys = blank.extensions.keys ++
        (vacate "definitions" (vacate "paths" fragment.keys)).filter blank.isNew ∧
      ¬((¬Overtakes blank.isNew "paths" fragment.keys ∧
          ¬Overtakes blank.isNew "definitions" (vacate "paths" fragment.keys)) ∨
        Restores blank.isNew "paths" "definitions" fragment.keys) := by
  obtain ⟨fragment, d', hf, h, hnew, hkeys⟩ := merge_crossedText
  obtain ⟨hexact, -, hiff⟩ := merge_extensionOrder .blank hf h
  refine ⟨fragment, d', hf, h, hexact, fun hkept => ?_⟩
  have horder := hiff.mpr hkept
  rw [hkeys, hnew] at horder
  exact absurd horder (by decide)

/-- So new extensions do not always keep the order of the partial document. -/
theorem merge_extensionOrder_passed :
    ¬∀ (d d' : Document) (text : String) (fragment : OrderedMap Json), d.Reachable →
      parseFragment text = .ok fragment → d.merge fragment = .ok d' →
        d'.extensions.keys = d.extensions.keys ++ fragment.keys.filter d.isNew := by
  intro hall
  obtain ⟨fragment, d', hf, h, hnew, hkeys⟩ := merge_crossedText
  have horder := hall blank d' crossedText fragment .blank hf h
  rw [hkeys, hnew] at horder
  exact absurd horder (by decide)

end ServiceDocs.Document
