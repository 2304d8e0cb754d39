import ServiceDocs.Proofs.Generate.Insertion
import ServiceDocs.Proofs.Text.Replace

/-!
# Names of Operations

An operation whose event names none is named by its function, its method and the path as the event
gives it, with dots between them. A dot in the path does no harm, because it stands last, and
methods have none. So if the names of functions have no dots, the name of an operation tells its
function, its method and its path, and therefore its slot: two operations that stand at different
slots have different names, although many events may have gone to each slot.

## Main definitions

* `HttpEvent.Unnamed`: an event that names no operation.
* `HttpEvent.GoesTo`, `ServiceDescription.lastRequest?`: the request that a slot ends up with.

## Main results

* `HttpEvent.defaultOperationId_inj`: the parts of a name.
* `Generator.operation?_generatePaths`: the operations of a document that had none.
* `Generator.generatePaths_operationIds`: the names of two of them.
-/

namespace ServiceDocs

/-! ### Names -/

namespace HttpEvent

/-- An event that does not name its operation. An empty name is none. -/
def Unnamed (e : HttpEvent) : Prop := ∀ id ∈ e.operationId, id = ""

/-- An event without a name has the usual id. -/
theorem Unnamed.operationId_operation {e : HttpEvent} (h : e.Unnamed) (headers : List String)
    (function : String) (method : Method) :
    (e.operation headers function method).operationId =
      some (e.defaultOperationId function method) := by
  have hnone : nonEmpty? e.operationId = none := by
    cases hid : e.operationId with
    | none => rfl
    | some id =>
        obtain rfl := h id hid
        decide
  rw [operation, hnone, Option.getD_none]

/-- The usual id is the function, the method and the path with dots between them. -/
theorem toList_defaultOperationId (function : String) (method : Method) (e : HttpEvent) :
    (e.defaultOperationId function method).toList =
      function.toList ++ '.' :: (method.name.toList ++ '.' :: e.path.toList) := by
  simp [defaultOperationId]

/-- A name of an operation tells its function, its method and its path. -/
theorem defaultOperationId_inj {function function' : String} {method method' : Method}
    {e e' : HttpEvent} (hfunction : '.' ∉ function.toList) (hfunction' : '.' ∉ function'.toList)
    (h : e.defaultOperationId function method = e'.defaultOperationId function' method') :
    function = function' ∧ method = method' ∧ e.path = e'.path := by
  have hmethod : ∀ m : Method, '.' ∉ m.name.toList := by
    intro m
    cases m <;> decide
  have hname : ∀ m m' : Method, m.name.toList = m'.name.toList → m = m' := by
    intro m m'
    cases m <;> cases m' <;> decide
  have hlists := congrArg String.toList h
  rw [toList_defaultOperationId, toList_defaultOperationId] at hlists
  obtain ⟨hfirst, hrest⟩ := Text.append_cons_inj hfunction hfunction' hlists
  obtain ⟨hsecond, hthird⟩ := Text.append_cons_inj (hmethod _) (hmethod _) hrest
  exact ⟨String.toList_inj.mp hfirst, hname _ _ hsecond, String.toList_inj.mp hthird⟩

end HttpEvent

/-! ### The last request of a slot -/

/-- Whether an event is shown in a document and goes to a slot. -/
def HttpEvent.GoesTo (path : String) (method : Method) (e : HttpEvent) : Prop :=
  e.exclude = false ∧ e.documentedPath = path ∧ Method.ofText? e.method = some method

instance (path : String) (method : Method) (e : HttpEvent) : Decidable (e.GoesTo path method) :=
  inferInstanceAs (Decidable (e.exclude = false ∧ e.documentedPath = path ∧
    Method.ofText? e.method = some method))

/-- What an event puts into a slot is its operation, if it goes there, and else nothing. -/
theorem HttpEvent.filter_placement? (path : String) (method : Method) (headers : List String)
    (function : String) (e : HttpEvent) :
    (e.placement? headers function).filter (fun p => p.path = path ∧ p.method = method) =
      if e.GoesTo path method then some ⟨path, method, e.operation headers function method⟩
      else none := by
  rw [placement?]
  cases hexclude : e.exclude with
  | true => simp [GoesTo, hexclude]
  | false =>
      cases hmethod : Method.ofText? e.method with
      | none => simp [GoesTo, hmethod]
      | some method' =>
          by_cases hslot : e.documentedPath = path ∧ method' = method
          · obtain ⟨rfl, rfl⟩ := hslot
            simp [GoesTo, hexclude, hmethod]
          · simp only [Bool.false_eq_true, if_false, Option.map_some, Option.filter_some, GoesTo,
              hexclude, hmethod, true_and, Option.some.injEq, hslot, decide_false]

namespace ServiceDescription

/-- The last request that goes to a slot, with the name of its function. -/
def lastRequest? (s : ServiceDescription) (path : String) (method : Method) :
    Option (String × HttpEvent) :=
  (s.requests.filter fun request => request.2.GoesTo path method).getLast?

/-- The last operation that goes to a slot is that of the last request. -/
theorem lastAt_placements (s : ServiceDescription) (path : String) (method : Method) :
    lastAt path method s.placements = (s.lastRequest? path method).map fun request =>
      request.2.operation s.keyHeaders request.1 method := by
  have hplacements : (s.placements.filter fun p => p.path = path ∧ p.method = method) =
      (s.requests.filter fun request => request.2.GoesTo path method).map fun request =>
        ⟨path, method, request.2.operation s.keyHeaders request.1 method⟩ := by
    rw [placements, List.filter_filterMap, ← List.filterMap_eq_map', List.filterMap_filter]
    refine List.filterMap_congr fun request _ => ?_
    rw [HttpEvent.filter_placement?]
    simp
  rw [lastAt, hplacements, List.getLast?_map, Option.map_map, lastRequest?]
  rfl

/-- The function of a request is a function of the service. -/
theorem mem_keys_of_mem_requests {s : ServiceDescription} {request : String × HttpEvent}
    (h : request ∈ s.requests) : request.1 ∈ s.functions.keys := by
  obtain ⟨entry, hentry, hrequest⟩ := List.mem_flatMap.mp h
  obtain ⟨e, -, rfl⟩ := List.mem_map.mp hrequest
  exact List.mem_map_of_mem hentry

/-- The last request of a slot is a request of the service that goes there. -/
theorem mem_requests_of_lastRequest? {s : ServiceDescription} {path : String} {method : Method}
    {request : String × HttpEvent} (h : s.lastRequest? path method = some request) :
    request ∈ s.requests ∧ request.2.GoesTo path method := by
  obtain ⟨hmem, hgoes⟩ := List.mem_filter.mp (List.mem_of_getLast? h)
  exact ⟨hmem, of_decide_eq_true hgoes⟩

end ServiceDescription

/-! ### Documents -/

namespace Generator

variable {d : Document}

/-- A document without paths gets the operations of the last requests. -/
theorem operation?_generatePaths (g : Generator) (hpaths : d.paths = .empty) (path : String)
    (method : Method) :
    (g.generatePaths d).operation? path method =
      (g.description.lastRequest? path method).map fun request =>
        request.2.operation g.description.keyHeaders request.1 method := by
  have hnone : d.operation? path method = none := by
    rw [Document.operation?, Document.item, hpaths]
    rfl
  rw [generatePaths, (Document.inserted_foldl_place _ d).operations, hnone, Option.or_none,
    ServiceDescription.lastAt_placements]

/-- Without dots in the names of functions, the last requests of different slots name their
operations differently. -/
theorem operationId_ne {s : ServiceDescription}
    (hnames : ∀ function ∈ s.functions.keys, '.' ∉ function.toList) {path path' : String}
    {method method' : Method} {request request' : String × HttpEvent}
    (hslots : (path, method) ≠ (path', method')) (h : s.lastRequest? path method = some request)
    (h' : s.lastRequest? path' method' = some request') :
    request.2.defaultOperationId request.1 method ≠
      request'.2.defaultOperationId request'.1 method' := by
  intro hid
  obtain ⟨hmem, -, hpath, -⟩ := ServiceDescription.mem_requests_of_lastRequest? h
  obtain ⟨hmem', -, hpath', -⟩ := ServiceDescription.mem_requests_of_lastRequest? h'
  obtain ⟨-, hmethod, hraw⟩ := HttpEvent.defaultOperationId_inj
    (hnames _ (ServiceDescription.mem_keys_of_mem_requests hmem))
    (hnames _ (ServiceDescription.mem_keys_of_mem_requests hmem')) hid
  -- the slot has the path with a slash in front, so paths that agree go to one slot
  refine hslots (Prod.ext ?_ hmethod)
  rw [← hpath, ← hpath', HttpEvent.documentedPath, hraw, HttpEvent.documentedPath]

/-- In a document that had no paths, the operation of a slot is that of the last request that goes
to it. If the names of functions have no dots, the operations of two slots whose requests name none
have different names. -/
theorem generatePaths_operationIds (g : Generator) (hpaths : d.paths = .empty)
    (hnames : ∀ function ∈ g.description.functions.keys, '.' ∉ function.toList) :
    (∀ path method, (g.generatePaths d).operation? path method =
      (g.description.lastRequest? path method).map fun request =>
        request.2.operation g.description.keyHeaders request.1 method) ∧
      ∀ path path' method method' request request' operation operation',
        (path, method) ≠ (path', method') →
        g.description.lastRequest? path method = some request →
        g.description.lastRequest? path' method' = some request' →
        request.2.Unnamed → request'.2.Unnamed →
        (g.generatePaths d).operation? path method = some operation →
        (g.generatePaths d).operation? path' method' = some operation' →
        operation.operationId ≠ operation'.operationId := by
  refine ⟨g.operation?_generatePaths hpaths, ?_⟩
  intro path path' method method' request request' operation operation' hslots h h' hunnamed
    hunnamed' hoperation hoperation'
  rw [operation?_generatePaths g hpaths, h, Option.map_some, Option.some.injEq] at hoperation
  rw [operation?_generatePaths g hpaths, h', Option.map_some, Option.some.injEq] at hoperation'
  rw [← hoperation, ← hoperation', hunnamed.operationId_operation, hunnamed'.operationId_operation]
  exact fun hid => operationId_ne hnames hslots h h' (Option.some.inj hid)

/-- A service whose paths have dots, and two events of which go to one slot. -/
def dotted : Generator where
  description :=
    { functions := ⟨[("pets", { events := [request "GET" "get.pets", request "get" "/get.pets"] }),
        ("pets-get", { events := [request "post" "get.pets"] })]⟩ }
where
  request (method path : String) : FunctionEvent :=
    { http := some (.detailed { method, path, operationId := some "" }) }

/-- The last event of its first slot and the event of its second one give different names. -/
theorem generatePaths_operationIds_dotted :
    Document.blank.paths = .empty ∧
      (∀ function ∈ dotted.description.functions.keys, '.' ∉ function.toList) ∧
      ∃ operation operation',
        (dotted.generatePaths .blank).operation? "/get.pets" .get = some operation ∧
          (dotted.generatePaths .blank).operation? "/get.pets" .post = some operation' ∧
          operation.operationId = some "pets.get./get.pets" ∧
          operation.operationId ≠ operation'.operationId := by
  have hnames : ∀ function ∈ dotted.description.functions.keys, '.' ∉ function.toList := by
    decide
  have hlast : dotted.description.lastRequest? "/get.pets" .get =
      some ("pets", { method := "get", path := "/get.pets", operationId := some "" }) := by
    decide +kernel
  have hlast' : dotted.description.lastRequest? "/get.pets" .post =
      some ("pets-get", { method := "post", path := "get.pets", operationId := some "" }) := by
    decide +kernel
  have hunnamed : ∀ id ∈ some "", id = "" := by
    rintro _ ⟨⟩
    rfl
  obtain ⟨hoperations, hids⟩ :=
    generatePaths_operationIds (d := .blank) dotted rfl hnames
  have hfirst := hoperations "/get.pets" .get
  have hsecond := hoperations "/get.pets" .post
  rw [hlast] at hfirst
  rw [hlast'] at hsecond
  refine ⟨rfl, hnames, _, _, hfirst, hsecond, by decide, ?_⟩
  exact hids _ _ _ _ _ _ _ _ (by decide) hlast hlast' hunnamed hunnamed hfirst hsecond

end Generator

end ServiceDocs
