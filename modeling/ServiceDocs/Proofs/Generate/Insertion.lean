import ServiceDocs.Proofs.Document.Operation
import ServiceDocs.Proofs.Generate.Placement
import ServiceDocs.Proofs.Service.Shorthand
import ServiceDocs.Proofs.Text.Slash

/-!
# The Last Event of a Slot Wins

The events of a service that the document shows are the requests of its functions that are not
excluded and have a method that documents know, in any case of letters. Each goes to a slot: its
path, with a slash in front if it has none, and its method. After the operations are added, a slot
has the operation of the last event that goes to it, or the one that it had. Paths and methods that
are there keep their places, and new ones follow in the order in which events first name them.
Nothing else changes.

The statement is about lists of operations: it holds of the empty list, and one more operation
in front of a list preserves it.

## Main definitions

* `HttpEvent.GoesUnder`: the path of the document that an event goes to.
* `FunctionEvent.Shows`: the operation that the document shows for an event, and its slot.
* `Document.Inserted`: what a list of operations makes of a document.

## Main results

* `Generator.generatePaths_inserted`: what the events of a service make of a document.
-/

namespace ServiceDocs

/-! ### The events that are shown -/

/-- The request that a form stands for. -/
inductive EventForm.StandsFor : EventForm → HttpEvent → Prop
  /-- A request at length stands for itself. -/
  | detailed (event : HttpEvent) : StandsFor (.detailed event) event
  /-- A text that is a method and a path stands for a request that has nothing but them. -/
  | shorthand {text method path : String} (h : ShortFor method path text) :
      StandsFor (.shorthand text) { method, path }

/-- What a form is read as is the request that it stands for. -/
theorem EventForm.event?_eq_some_iff {form : EventForm} {event : HttpEvent} :
    form.event? = some event ↔ form.StandsFor event := by
  constructor
  · intro h
    cases form with
    | detailed event' => exact Option.some.inj h ▸ .detailed event'
    | shorthand text =>
        rw [event?] at h
        split at h
        · next method path hwords =>
            exact Option.some.inj h ▸ .shorthand (words_eq_pair_iff.mp hwords)
        · cases h
  · rintro (⟨_⟩ | ⟨hshort⟩)
    · rfl
    · exact hshort.event?_eq

/-- The path of the document that an event goes to. -/
inductive HttpEvent.GoesUnder (e : HttpEvent) : String → Prop
  /-- A path that begins with a slash stays as it is. -/
  | absolute (h : Text.Absolute e.path) : GoesUnder e e.path
  /-- Any other path gets a slash in front. -/
  | relative (h : ¬Text.Absolute e.path) : GoesUnder e ("/" ++ e.path)

/-- The path of an event in the document is the one that it goes under. -/
theorem HttpEvent.documentedPath_eq_iff {e : HttpEvent} {path : String} :
    e.documentedPath = path ↔ e.GoesUnder path := by
  rw [documentedPath]
  split
  · next h =>
      have habsolute := Text.startsWith_slash_iff.mp h
      constructor
      · rintro rfl
        exact .absolute habsolute
      · rintro (- | hrelative)
        · rfl
        · exact absurd habsolute hrelative
  · next h =>
      have hrelative := mt Text.startsWith_slash_iff.mpr h
      constructor
      · rintro rfl
        exact .relative hrelative
      · rintro (habsolute | -)
        · exact absurd habsolute hrelative
        · rfl

namespace FunctionEvent

/-- The request that an event of a function stands for. -/
inductive StandsFor (e : FunctionEvent) (event : HttpEvent) : Prop
  /-- A plain request counts. -/
  | http {form : EventForm} (h : e.http = some form) (hform : form.StandsFor event)
  /-- A request of the newer gateway counts if there is no plain one. -/
  | httpApi {form : EventForm} (hnone : e.http = none) (h : e.httpApi = some form)
      (hform : form.StandsFor event)

/-- What an event of a function is read as is the request that it stands for. -/
theorem event?_eq_some_iff {e : FunctionEvent} {event : HttpEvent} :
    e.event? = some event ↔ e.StandsFor event := by
  simp only [event?, form?, Option.bind_eq_some_iff, EventForm.event?_eq_some_iff,
    Option.or_eq_some_iff]
  constructor
  · rintro ⟨form, h | ⟨hnone, h⟩, hform⟩
    · exact .http h hform
    · exact .httpApi hnone h hform
  · rintro (⟨h, hform⟩ | ⟨hnone, h, hform⟩)
    · exact ⟨_, .inl h, hform⟩
    · exact ⟨_, .inr ⟨hnone, h⟩, hform⟩

/-- The operation that the document shows for an event of a function, and its slot. -/
inductive Shows (headers : List String) (function : String) (e : FunctionEvent) : Placement → Prop
  /-- The event is a request that is not excluded and names a method, in any case of letters. -/
  | intro {event : HttpEvent} {path : String} {method : Method} (hevent : e.StandsFor event)
      (hexclude : event.exclude = false) (hpath : event.GoesUnder path)
      (hmethod : event.method.toList.map Char.toLower = method.name.toList) :
      Shows headers function e ⟨path, method, event.operation headers function method⟩

/-- The operation that the document shows for an event of a function, if it shows one. -/
def placement? (headers : List String) (function : String) (e : FunctionEvent) : Option Placement :=
  e.event?.bind (HttpEvent.placement? headers function)

/-- An event gives the operation that the document shows for it. -/
theorem placement?_eq_some_iff {headers : List String} {function : String} {e : FunctionEvent}
    {p : Placement} : e.placement? headers function = some p ↔ e.Shows headers function p := by
  have hshown : ∀ event : HttpEvent, event.placement? headers function = some p ↔
      event.exclude = false ∧ ∃ method, Method.ofText? event.method = some method ∧
        ⟨event.documentedPath, method, event.operation headers function method⟩ = p := by
    intro event
    rw [HttpEvent.placement?]
    cases event.exclude <;> simp [Option.map_eq_some_iff]
  rw [placement?, Option.bind_eq_some_iff]
  simp only [event?_eq_some_iff, hshown, Method.ofText?_eq_some_iff]
  constructor
  · rintro ⟨event, hevent, hexclude, method, hmethod, rfl⟩
    exact .intro hevent hexclude (HttpEvent.documentedPath_eq_iff.mp rfl) hmethod
  · rintro ⟨hevent, hexclude, hpath, hmethod⟩
    rw [← HttpEvent.documentedPath_eq_iff.mpr hpath]
    exact ⟨_, hevent, hexclude, _, hmethod, rfl⟩

end FunctionEvent

/-- The operations of a service come from the events of its functions, in order. -/
theorem ServiceDescription.placements_eq (s : ServiceDescription) :
    s.placements = s.functions.entries.flatMap fun entry =>
      entry.2.events.filterMap (FunctionEvent.placement? s.keyHeaders entry.1) := by
  rw [placements, requests, List.filterMap_flatMap]
  congr 1
  funext entry
  rw [List.filterMap_map, List.filterMap_filterMap]
  rfl

/-! ### Keys in the order of their first appearance -/

section

variable {κ : Type} [DecidableEq κ]

/-- Keys that are there, and new ones after them in the order of their first appearance. -/
def withNew (old new : List κ) : List κ := old ++ (new.removeAll old).eraseDups

theorem withNew_nil (old : List κ) : withNew old [] = old := List.append_nil old

/-- Keys may be added one after the other. -/
theorem withNew_cons (old : List κ) (key : κ) (rest : List κ) :
    withNew old (key :: rest) = withNew (if key ∈ old then old else old ++ [key]) rest := by
  split
  · next h =>
      have hremove : (key :: rest).removeAll old = rest.removeAll old := by
        simp [List.removeAll, h]
      rw [withNew, hremove, withNew]
  · next h =>
      -- the key is new, so it comes first and is passed over wherever it stands again
      have hremove : (key :: rest).removeAll old = key :: rest.removeAll old := by
        simp [List.removeAll, h]
      have hlater : (rest.removeAll old).filter (fun other => !other == key) =
          rest.removeAll (old ++ [key]) := by
        simp [List.removeAll, List.filter_filter, Bool.and_comm, beq_eq_decide]
      rw [withNew, hremove, List.eraseDups_cons, hlater, withNew, List.append_assoc]
      rfl

end

/-! ### The last operation of a slot -/

/-- The last of a list of operations that goes to a slot. -/
def lastAt (path : String) (method : Method) (placements : List Placement) : Option Operation :=
  (placements.filter fun p => p.path = path ∧ p.method = method).getLast?.map (·.operation)

/-- An operation counts for its slot only if none after it goes there. -/
theorem lastAt_cons (path : String) (method : Method) (p : Placement) (rest : List Placement) :
    lastAt path method (p :: rest) = (lastAt path method rest).or
      (if p.path = path ∧ p.method = method then some p.operation else none) := by
  rw [lastAt, lastAt, List.filter_cons]
  by_cases h : p.path = path ∧ p.method = method
  · simp only [h, and_self, decide_true, if_true, List.getLast?_cons]
    cases (rest.filter fun p => p.path = path ∧ p.method = method).getLast? <;> rfl
  · simp only [h, decide_false, Bool.false_eq_true, if_false, Option.or_none]

/-! ### Insertion -/

/-- The methods of a path that have operations, in order. -/
def PathItem.methods (item : PathItem) : List Method := item.operations.map (·.1)

/-- An operation adds its method at the end, unless the path has it. -/
theorem PathItem.methods_withOperation (method : Method) (operation : Operation) (item : PathItem) :
    (item.withOperation method operation).methods =
      if method ∈ item.methods then item.methods else item.methods ++ [method] :=
  OrderedMap.map_fst_insertEntry method operation item.operations

namespace Document

variable {d d' : Document} {p : Placement} {placements : List Placement}

/-- The operation of a slot. -/
def operation? (d : Document) (path : String) (method : Method) : Option Operation :=
  OrderedMap.findEntry method (d.item path).operations

/-- An operation is put into its slot, and the other slots stay as they are. -/
theorem operation?_addOperation (path' : String) (method' : Method) (operation : Operation)
    (d : Document) (path : String) (method : Method) :
    (d.addOperation path' method' operation).operation? path method =
      if path' = path ∧ method' = method then some operation else d.operation? path method := by
  rw [operation?, item_addOperation]
  by_cases hpath : path' = path
  · rw [if_pos hpath, PathItem.withOperation, OrderedMap.findEntry_insertEntry]
    simp only [hpath, true_and]
    rfl
  · rw [if_neg hpath, if_neg fun h => hpath h.1]
    rfl

/-- What a list of operations makes of a document. -/
structure Inserted (placements : List Placement) (d d' : Document) : Prop where
  /-- A slot has the last operation that goes to it, or else the one that it had. -/
  operations : ∀ path method,
    d'.operation? path method = (lastAt path method placements).or (d.operation? path method)
  /-- Paths keep their places, and new ones follow in the order of their first appearance. -/
  paths : d'.paths.keys = withNew d.paths.keys (placements.map (·.path))
  /-- So do the methods of each path. -/
  methods : ∀ path, (d'.item path).methods =
    withNew (d.item path).methods ((placements.filter (·.path = path)).map (·.method))
  /-- The parameters that the operations of a path share are unchanged. -/
  parameters : ∀ path, (d'.item path).parameters = (d.item path).parameters
  /-- So are the extensions of each path. -/
  extensions : ∀ path, (d'.item path).extensions = (d.item path).extensions
  /-- Only paths are changed. -/
  others : d' = { d with paths := d'.paths }

/-- No operations leave a document as it is. -/
theorem Inserted.refl (d : Document) : Inserted [] d d where
  operations _ _ := rfl
  paths := (withNew_nil _).symm
  methods _ := (withNew_nil _).symm
  parameters _ := rfl
  extensions _ := rfl
  others := rfl

/-- One operation may be added before the others. -/
theorem Inserted.cons (h : Inserted placements (Generator.place d p) d') :
    Inserted (p :: placements) d d' where
  operations path method := by
    rw [h.operations, Generator.place, operation?_addOperation, lastAt_cons, Option.or_assoc]
    split <;> rfl
  paths := by
    rw [h.paths, Generator.place, paths_addOperation, OrderedMap.keys_insert, List.map_cons,
      withNew_cons]
  methods path := by
    rw [h.methods, Generator.place, item_addOperation, List.filter_cons]
    by_cases hpath : p.path = path
    · rw [if_pos hpath, PathItem.methods_withOperation, if_pos (decide_eq_true hpath),
        List.map_cons, withNew_cons]
    · rw [if_neg hpath, if_neg (by simpa using hpath)]
  parameters path := by
    rw [h.parameters, Generator.place, item_addOperation]
    split <;> rfl
  extensions path := by
    rw [h.extensions, Generator.place, item_addOperation]
    split <;> rfl
  others := by
    have hothers := h.others
    rwa [Generator.place, addOperation] at hothers

/-- Adding a list of operations inserts them. -/
theorem inserted_foldl_place (placements : List Placement) (d : Document) :
    Inserted placements d (placements.foldl Generator.place d) := by
  induction placements generalizing d with
  | nil => exact .refl d
  | cons p rest ih =>
      -- the others are inserted into what the first one makes of the document
      exact (ih (Generator.place d p)).cons

end Document

/-- The operations of the events that the document shows, function by function and event by
event, are inserted into any document, and no other slot appears. -/
theorem Generator.generatePaths_inserted (g : Generator) (d : Document) :
    (g.description.placements = g.description.functions.entries.flatMap fun entry =>
      entry.2.events.filterMap (FunctionEvent.placement? g.description.keyHeaders entry.1)) ∧
      (∀ function (e : FunctionEvent) (p : Placement),
        e.placement? g.description.keyHeaders function = some p ↔
          e.Shows g.description.keyHeaders function p) ∧
      Document.Inserted g.description.placements d (g.generatePaths d) ∧
      ∀ path method, (g.generatePaths d).HasSlot path method ↔
        (∃ p ∈ g.description.placements, path = p.path ∧ method = p.method) ∨
          d.HasSlot path method :=
  ⟨g.description.placements_eq, fun _ _ _ => FunctionEvent.placement?_eq_some_iff,
    Document.inserted_foldl_place g.description.placements d, fun _ _ => hasSlot_foldl_place⟩

end ServiceDocs
