import Mathlib.Data.List.Induction
import ServiceDocs.Generate.Generator
import ServiceDocs.Proofs.OrderedMap

/-!
# Placing Operations Again

Operations go to slots, one for each path and method, and the last one that goes to a slot
stays there. A slot that is taken keeps its place among the others. Placing the operations of
a service in a document that has their slots therefore moves nothing, and placing them twice
is the same as placing them once.

## Main definitions

* `Document.item`: the entry of a path.
* `Document.HasSlot`: the slots of a document.

## Main results

* `Generator.generatePaths_generatePaths`: adding the operations of a service twice.
* `Generator.generate_congr`: what a generated document depends on.
* `ServiceDescription.placements_of_events`: changes of events that do not show.
-/

namespace ServiceDocs

/-! ### Slots of a path -/

namespace PathItem

variable {method other : Method} {item : PathItem}

/-- The second of two operations of a method stays. -/
theorem withOperation_withOperation (method : Method) (first second : Operation) (item : PathItem) :
    (item.withOperation method first).withOperation method second =
      item.withOperation method second := by
  rw [withOperation, withOperation, withOperation,
    OrderedMap.insertEntry_insertEntry method first second item.operations]

/-- An operation of a method that is there may be set first. -/
theorem withOperation_comm (hne : method ≠ other) (h : method ∈ item.operations.map (·.1))
    (operation operation' : Operation) :
    (item.withOperation other operation').withOperation method operation =
      (item.withOperation method operation).withOperation other operation' := by
  rw [withOperation, withOperation, withOperation, withOperation,
    OrderedMap.insertEntry_comm hne h operation operation']

/-- A path with an operation has its method and those it had. -/
theorem mem_methods_withOperation (other : Method) (operation : Operation) (item : PathItem) :
    method ∈ (item.withOperation other operation).operations.map (·.1) ↔
      method = other ∨ method ∈ item.operations.map (·.1) := by
  rw [withOperation, OrderedMap.map_fst_insertEntry]
  split
  · next hother => exact ⟨.inr, fun h => h.elim (· ▸ hother) id⟩
  · rw [List.mem_append, List.mem_singleton]
    exact or_comm

end PathItem

/-! ### Slots of a document -/

namespace Document

variable {d : Document} {path path' : String} {method method' : Method}

/-- The entry of a path, or the one that a new path begins with. -/
def item (d : Document) (path : String) : PathItem := (d.paths.get? path).getD {}

/-- Whether a document has an operation for a path and method. -/
def HasSlot (d : Document) (path : String) (method : Method) : Prop :=
  method ∈ (d.item path).operations.map (·.1)

/-- An operation is added to the path it belongs to, which is put in if it is not there. -/
theorem paths_addOperation (path : String) (method : Method) (operation : Operation)
    (d : Document) :
    (d.addOperation path method operation).paths =
      d.paths.insert path ((d.item path).withOperation method operation) := rfl

/-- An operation is added to its own path and to no other. -/
theorem item_addOperation (path' : String) (method' : Method) (operation : Operation) (d : Document)
    (path : String) :
    (d.addOperation path' method' operation).item path =
      if path' = path then (d.item path).withOperation method' operation else d.item path := by
  rw [item, paths_addOperation, OrderedMap.get?_insert]
  split
  · next h => rw [h, Option.getD_some]
  · rfl

/-- A path with a slot is there. -/
theorem HasSlot.mem_keys (h : d.HasSlot path method) : path ∈ d.paths.keys := by
  by_contra hpath
  rw [HasSlot, item, (OrderedMap.get?_eq_none_iff d.paths path).mpr hpath] at h
  exact nomatch h

/-- The slots after an operation is added. -/
theorem hasSlot_addOperation_iff {operation : Operation} :
    (d.addOperation path' method' operation).HasSlot path method ↔
      path = path' ∧ method = method' ∨ d.HasSlot path method := by
  rw [HasSlot, item_addOperation]
  split
  · next h =>
      subst h
      rw [PathItem.mem_methods_withOperation, HasSlot]
      simp only [true_and]
  · next h => simp [HasSlot, Ne.symm h]

/-- The second of two operations of a slot stays. -/
theorem addOperation_addOperation (path : String) (method : Method) (first second : Operation)
    (d : Document) :
    (d.addOperation path method first).addOperation path method second =
      d.addOperation path method second := by
  have hitem :
      (d.addOperation path method first).item path = (d.item path).withOperation method first := by
    rw [item_addOperation, if_pos rfl]
  have hpaths : ((d.addOperation path method first).addOperation path method second).paths =
      (d.addOperation path method second).paths := by
    rw [paths_addOperation, hitem, PathItem.withOperation_withOperation, paths_addOperation,
      OrderedMap.insert_insert, paths_addOperation]
  exact congrArg (fun paths => { d with paths := paths }) hpaths

/-- An operation of a slot that is there may be added first. -/
theorem addOperation_comm (hne : ¬(path = path' ∧ method = method')) (h : d.HasSlot path method)
    (operation operation' : Operation) :
    (d.addOperation path' method' operation').addOperation path method operation =
      (d.addOperation path method operation).addOperation path' method' operation' := by
  have hpaths :
      ((d.addOperation path' method' operation').addOperation path method operation).paths =
      ((d.addOperation path method operation).addOperation path' method' operation').paths := by
    simp only [paths_addOperation, item_addOperation]
    by_cases hpath : path = path'
    · subst hpath
      have hmethod : method ≠ method' := fun he => hne ⟨rfl, he⟩
      rw [if_pos rfl, if_pos rfl, OrderedMap.insert_insert, OrderedMap.insert_insert,
        PathItem.withOperation_comm hmethod h]
    · rw [if_neg (Ne.symm hpath), if_neg hpath, OrderedMap.insert_comm hpath h.mem_keys]
  exact congrArg (fun paths => { d with paths := paths }) hpaths

end Document

/-! ### Placing a list of operations -/

namespace Generator

variable {d : Document} {p : Placement} {placements : List Placement}

/-- After operations are added, the slots are theirs and those that were there. -/
theorem hasSlot_foldl_place {path : String} {method : Method} :
    (placements.foldl place d).HasSlot path method ↔
      (∃ p ∈ placements, path = p.path ∧ method = p.method) ∨ d.HasSlot path method := by
  induction placements generalizing d with
  | nil => simp
  | cons p rest ih =>
      rw [List.foldl_cons, ih, place, Document.hasSlot_addOperation_iff, List.exists_mem_cons_iff]
      exact or_assoc.symm.trans (or_congr_left or_comm)

/-- What is placed last may be placed before others too, if these have their slots. -/
theorem place_foldl_place (h : ∀ q ∈ placements, d.HasSlot q.path q.method) :
    place (placements.foldl place (place d p)) p = place (placements.foldl place d) p := by
  induction placements generalizing d with
  | nil => exact Document.addOperation_addOperation p.path p.method p.operation p.operation d
  | cons q rest ih =>
      obtain ⟨hq, hrest⟩ := List.forall_mem_cons.mp h
      have hafter : ∀ r ∈ rest, (place d q).HasSlot r.path r.method := fun r hr =>
        Document.hasSlot_addOperation_iff.mpr (.inr (hrest r hr))
      rw [List.foldl_cons, List.foldl_cons]
      by_cases hslot : q.path = p.path ∧ q.method = p.method
      · -- what was placed first is lost at once
        have hlost : place (place d p) q = place d q := by
          rw [place, place, place, hslot.1, hslot.2, Document.addOperation_addOperation]
        rw [hlost]
      · have hswap : place (place d p) q = place (place d q) p :=
          Document.addOperation_comm hslot hq q.operation p.operation
        rw [hswap, ih hafter]

/-- Placing a list of operations twice is placing them once. -/
theorem foldl_place_foldl_place (placements : List Placement) (d : Document) :
    placements.foldl place (placements.foldl place d) = placements.foldl place d := by
  induction placements using List.reverseRecOn with
  | nil => rfl
  | append_singleton front p ih =>
      have hslots : ∀ q ∈ front, (front.foldl place d).HasSlot q.path q.method := fun q hq =>
        hasSlot_foldl_place.mpr (.inl ⟨q, hq, rfl, rfl⟩)
      simp only [List.foldl_append, List.foldl_cons, List.foldl_nil]
      rw [place_foldl_place hslots, ih]

/-- Adding the operations of a service twice is adding them once. -/
theorem generatePaths_generatePaths (g : Generator) (d : Document) :
    g.generatePaths (g.generatePaths d) = g.generatePaths d :=
  foldl_place_foldl_place g.description.placements d

/-! ### What placing leaves alone -/

/-- The paths that are there keep their places. -/
theorem keys_prefix_generatePaths (g : Generator) (d : Document) :
    d.paths.keys <+: (g.generatePaths d).paths.keys := by
  refine List.foldlRecOn (motive := fun d' : Document => d.paths.keys <+: d'.paths.keys)
    g.description.placements place List.prefix_rfl fun d' hd p _ => ?_
  exact hd.trans (OrderedMap.keys_prefix_insert d'.paths p.path _)

/-- Only paths are changed. -/
theorem generatePaths_eq (g : Generator) (d : Document) :
    g.generatePaths d = { d with paths := (g.generatePaths d).paths } := by
  refine List.foldlRecOn (motive := fun d' : Document => d' = { d with paths := d'.paths })
    g.description.placements place rfl fun d' hd p _ => ?_
  rw [place, Document.addOperation, hd]

/-! ### What documents depend on -/

/-- A generated document depends on the name of the service, its settings, its files and its
operations. -/
theorem generate_congr {g g' : Generator}
    (hname : g'.description.serviceName = g.description.serviceName)
    (hsettings : g'.description.settings = g.description.settings) (hfiles : g'.files = g.files)
    (hbase : g'.baseDirectory = g.baseDirectory)
    (hplacements : g'.description.placements = g.description.placements) :
    g'.generate = g.generate := by
  have hmerged : g'.merged = g.merged := by
    rw [merged, merged, mergeSwaggerFiles, mergeSwaggerFiles, fragmentPaths, fragmentPaths,
      applyOverrides, applyOverrides, start, start, hname, hsettings, hfiles, hbase]
  have hfinish : ∀ d, g'.finish d = g.finish d := by
    intro d
    rw [finish, finish, generatePaths, generatePaths, generateSecurity, generateSecurity,
      ServiceDescription.keyHeaders, ServiceDescription.keyHeaders, hsettings, hplacements]
  simp only [generate, hmerged, hfinish]

end Generator

/-! ### Services with changed events -/

/-- An event whose two forms stand for changed requests stands for a changed request. -/
theorem FunctionEvent.event?_eq_map {form : EventForm → EventForm} {change : HttpEvent → HttpEvent}
    (h : ∀ f : EventForm, (form f).event? = f.event?.map change) {e e' : FunctionEvent}
    (hhttp : e'.http = e.http.map form) (hapi : e'.httpApi = e.httpApi.map form) :
    e'.event? = e.event?.map change := by
  rw [event?, event?, form?, form?, hhttp, hapi]
  cases e.http with
  | some f => exact h f
  | none =>
      cases e.httpApi with
      | some f => exact h f
      | none => rfl

namespace ServiceDescription

variable {s s' : ServiceDescription} {event : FunctionEvent → FunctionEvent}
  {change : HttpEvent → HttpEvent}

/-- If every event of a service is changed, its requests are changed one by one. -/
theorem requests_of_events
    (hfunctions : s'.functions =
      s.functions.mapValues fun f => { f with events := f.events.map event })
    (hevent : ∀ e, (event e).event? = e.event?.map change) :
    s'.requests = s.requests.map fun request => (request.1, change request.2) := by
  have hevents : ∀ events : List FunctionEvent,
      (events.map event).filterMap FunctionEvent.event? =
        (events.filterMap FunctionEvent.event?).map change := by
    intro events
    rw [List.filterMap_map, List.map_filterMap]
    exact congrArg (List.filterMap · events) (funext hevent)
  simp only [requests, hfunctions, OrderedMap.mapValues, List.flatMap_map, List.map_flatMap,
    hevents, List.map_map]
  rfl

/-- If no change of a request shows in its operation, the operations of the service are the same. -/
theorem placements_of_events
    (hfunctions : s'.functions =
      s.functions.mapValues fun f => { f with events := f.events.map event })
    (hevent : ∀ e, (event e).event? = e.event?.map change)
    (hplacement : ∀ function e,
      (change e).placement? s'.keyHeaders function = e.placement? s.keyHeaders function) :
    s'.placements = s.placements := by
  rw [placements, placements, requests_of_events hfunctions hevent, List.filterMap_map]
  exact congrArg (List.filterMap · s.requests)
    (funext fun request => hplacement request.1 request.2)

end ServiceDescription

end ServiceDocs
