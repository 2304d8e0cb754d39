import ServiceDocs.Proofs.Reading.Yields
import ServiceDocs.Generate.Operation
import ServiceDocs.Service.Load

/-!
# Maps of Request Events

The parameters of an event are given in maps, so no two of one map have the same name. The maps of
a description that was read are such maps, whether the text was a YAML text or a JSON text, and an
event in short form has no parameters at all.

## Main definitions

* `HttpEvent.MapsDistinct`: the maps of parameters of an event have distinct keys.

## Main results

* `ServiceDescription.mapsDistinct_of_ofYamlText`, `ServiceDescription.mapsDistinct_of_ofJsonText`:
  the events of descriptions that are read.
-/

namespace ServiceDocs

/-- The maps of parameters of request settings have distinct keys. -/
structure RequestParameters.MapsDistinct (p : RequestParameters) : Prop where
  paths : ∀ map ∈ p.paths, map.Distinct
  headers : ∀ map ∈ p.headers, map.Distinct
  querystrings : ∀ map ∈ p.querystrings, map.Distinct

/-- The maps of parameters of an event have distinct keys. -/
structure HttpEvent.MapsDistinct (e : HttpEvent) : Prop where
  headerParameters : ∀ map ∈ e.headerParameters, map.Distinct
  queryStringParameters : ∀ map ∈ e.queryStringParameters, map.Distinct
  request : ∀ settings ∈ e.request, ∀ p ∈ settings.parameters, p.MapsDistinct

/-! ### Parameters -/

/-- Nothing needs to be known of a value. -/
theorem Reader.yields_true {α : Type} (read : Reader α) : read.Yields fun _ => True :=
  fun _ _ _ _ => trivial

/-- An optional map that is read has distinct keys. -/
theorem Codec.option_map_yields {α : Type} (c : Codec α) :
    (Codec.map c).option.read.Yields fun x => ∀ map ∈ x, map.Distinct :=
  Codec.option_yields fun _ _ _ h => (Codec.map_yields c.read.yields_true h).1

/-- Declared parameters are read with distinct names. -/
theorem RequestParameters.mapsDistinct : record.codec.read.Yields MapsDistinct := by
  refine Record.yields rfl ⟨nofun, nofun, nofun⟩ ?_
  simp only [record, List.forall_mem_cons]
  exact ⟨fun _ _ _ hx _ h => ⟨Codec.option_map_yields _ hx, h.headers, h.querystrings⟩,
    fun _ _ _ hx _ h => ⟨h.paths, Codec.option_map_yields _ hx, h.querystrings⟩,
    fun _ _ _ hx _ h => ⟨h.paths, h.headers, Codec.option_map_yields _ hx⟩,
    List.forall_mem_nil _⟩

/-- So are those in request settings. -/
theorem RequestSettings.mapsDistinct :
    record.codec.read.Yields fun s => ∀ p ∈ s.parameters, p.MapsDistinct := by
  refine Record.yields rfl nofun ?_
  simp only [record, List.forall_mem_cons]
  exact ⟨fun _ _ _ hx _ _ => Codec.option_yields RequestParameters.mapsDistinct hx,
    List.forall_mem_nil _⟩

/-! ### Events -/

/-- An event that is read has maps. -/
theorem HttpEvent.mapsDistinct : codec.read.Yields MapsDistinct := by
  refine Record.yields rfl ⟨nofun, nofun, nofun⟩ ?_
  have other : ∀ {f : Field HttpEvent},
      (∀ x e, (f.set x e).headerParameters = e.headerParameters ∧
        (f.set x e).queryStringParameters = e.queryStringParameters ∧
        (f.set x e).request = e.request) →
      f.codec.read.Yields fun x => ∀ e, MapsDistinct e → MapsDistinct (f.set x e) := by
    intro f hf _ _ x _ e h
    obtain ⟨hheaders, hqueries, hrequest⟩ := hf x e
    exact ⟨hheaders ▸ h.headerParameters, hqueries ▸ h.queryStringParameters, hrequest ▸ h.request⟩
  simp only [record, List.forall_mem_cons]
  refine ⟨other ?_, other ?_, other ?_, other ?_, other ?_, other ?_, other ?_, other ?_, other ?_,
    other ?_, other ?_, other ?_, other ?_, ?_, ?_, ?_, List.forall_mem_nil _⟩
  iterate 13 exact fun _ _ => ⟨rfl, rfl, rfl⟩
  · exact fun _ _ _ hx _ h =>
      ⟨Codec.option_map_yields _ hx, h.queryStringParameters, h.request⟩
  · exact fun _ _ _ hx _ h => ⟨h.headerParameters, Codec.option_map_yields _ hx, h.request⟩
  · exact fun _ _ _ hx _ h => ⟨h.headerParameters, h.queryStringParameters,
      Codec.option_yields RequestSettings.mapsDistinct hx⟩

/-- The maps of the event that a form stands for have distinct keys. -/
def EventForm.MapsDistinct (form : EventForm) : Prop := ∀ e ∈ form.event?, e.MapsDistinct

/-- A text that stands for an event declares no parameters. -/
theorem EventForm.mapsDistinct_shorthand (text : String) : (shorthand text).MapsDistinct := by
  intro e he
  rw [event?] at he
  split at he
  · obtain rfl := Option.some.inj he
    exact ⟨nofun, nofun, nofun⟩
  · exact nomatch he

/-- The maps of a request that is read have distinct keys. -/
theorem EventForm.mapsDistinct : codec.read.Yields MapsDistinct := by
  refine Reader.yields_oneOf (List.forall_mem_cons.mpr ⟨?_, List.forall_mem_singleton.mpr ?_⟩)
  · exact Reader.Yields.map fun _ _ text _ => mapsDistinct_shorthand text
  · refine Reader.Yields.map fun _ _ e he => ?_
    rintro _ ⟨⟩
    exact HttpEvent.mapsDistinct he

/-! ### Descriptions -/

/-- The maps of both request events of a function event have distinct keys. -/
structure FunctionEvent.MapsDistinct (e : FunctionEvent) : Prop where
  http : ∀ form ∈ e.http, form.MapsDistinct
  httpApi : ∀ form ∈ e.httpApi, form.MapsDistinct

/-- So do those of the requests of an event. -/
theorem FunctionEvent.mapsDistinct : record.codec.read.Yields MapsDistinct := by
  refine Record.yields rfl ⟨fun _ h => (nomatch h), fun _ h => (nomatch h)⟩ ?_
  simp only [record, List.forall_mem_cons]
  exact ⟨fun _ _ _ hx _ h => ⟨Codec.option_yields EventForm.mapsDistinct hx, h.httpApi⟩,
    fun _ _ _ hx _ h => ⟨h.http, Codec.option_yields EventForm.mapsDistinct hx⟩,
    List.forall_mem_nil _⟩

/-- The request of an event has distinct keys if both of its forms do. -/
theorem FunctionEvent.MapsDistinct.event {e : FunctionEvent} (h : e.MapsDistinct)
    {event : HttpEvent} (hevent : event ∈ e.event?) : event.MapsDistinct := by
  obtain ⟨form, hform, hevent⟩ := Option.bind_eq_some_iff.mp hevent
  rcases Option.or_eq_some_iff.mp hform with hhttp | ⟨-, hhttpApi⟩
  · exact h.http form hhttp event hevent
  · exact h.httpApi form hhttpApi event hevent

/-- The maps of the events of a function that is read have distinct keys. -/
theorem ServiceFunction.mapsDistinct :
    codec.read.Yields fun f => ∀ e ∈ f.events, e.MapsDistinct := by
  refine Record.yields rfl (List.forall_mem_nil _) ?_
  simp only [record, List.forall_mem_cons]
  exact ⟨fun _ _ _ _ _ h => h,
    fun _ _ _ hx _ _ => Codec.list_yields FunctionEvent.mapsDistinct hx, List.forall_mem_nil _⟩

namespace ServiceDescription

/-- The request events of a description that is read have maps. -/
theorem mapsDistinct :
    codec.read.Yields fun d => ∀ request ∈ d.requests, request.2.MapsDistinct := by
  have hfunctions : codec.read.Yields fun d =>
      ∀ entry ∈ d.functions.entries, ∀ e ∈ entry.2.events, e.MapsDistinct := by
    refine Record.yields rfl (List.forall_mem_nil _) ?_
    simp only [record, List.forall_mem_cons]
    exact ⟨fun _ _ _ _ _ h => h, fun _ _ _ _ _ h => h,
      fun _ _ _ hx _ _ => (Codec.map_yields ServiceFunction.mapsDistinct hx).2,
      fun _ _ _ _ _ h => h, List.forall_mem_nil _⟩
  intro m n d hd request hrequest
  obtain ⟨entry, hentry, hevents⟩ := List.mem_flatMap.mp hrequest
  obtain ⟨event, hevent, rfl⟩ := List.mem_map.mp hevents
  obtain ⟨e, he, hform⟩ := List.mem_filterMap.mp hevent
  exact (hfunctions hd entry hentry e he).event hform

/-- A description that was read from a JSON text has requests with distinct keys. -/
theorem mapsDistinct_of_ofJsonText {text : String} {d : ServiceDescription}
    (h : ofJsonText text = .ok d) : ∀ request ∈ d.requests, request.2.MapsDistinct := by
  simp only [ofJsonText, Codec.ofText, Reader.ofText, bind_eq_ok, pure_eq_ok, Except.ok.injEq] at h
  obtain ⟨d, hd, -, -, rfl⟩ := h
  exact mapsDistinct hd

/-- So does one that was read from a YAML text. -/
theorem mapsDistinct_of_ofYamlText {text : String} {d : ServiceDescription}
    (h : ofYamlText text = .ok d) : ∀ request ∈ d.requests, request.2.MapsDistinct := by
  have hread : ofYamlText? text = some d := by
    rw [ofYamlText] at h
    split at h
    · next found hfound => exact hfound.trans (congrArg some (Except.ok.inj h))
    · exact nomatch h
  obtain ⟨graph, -, htree⟩ := Option.bind_eq_some_iff.mp hread
  obtain ⟨tree, -, hd⟩ := Option.bind_eq_some_iff.mp htree
  cases hcodec : codec.read .yamlText tree with
  | error fault => exact nomatch hcodec ▸ hd
  | ok found =>
      rw [hcodec] at hd
      obtain rfl : found = d := Option.some.inj hd
      exact mapsDistinct hcodec

end ServiceDescription

end ServiceDocs
