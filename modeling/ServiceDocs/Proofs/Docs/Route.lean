import Mathlib.Data.List.Nodup
import Mathlib.Data.List.Pairwise
import Mathlib.Data.List.TakeWhile
import ServiceDocs.Docs.Route

/-!
# Addresses of Documentation Endpoints

All endpoints of a service are called with one method below one path, so two of them have the same
address exactly if their last parts are equal. The document stands beside the viewer page, and the
page that an authorisation returns to has a name of its own. The viewer page may be put anywhere,
also where that page is, with any number of slashes in front: this is the one way in which two
endpoints can meet, and nothing keeps the settings from it. The names of the functions behind the
endpoints end differently and never meet.

## Main definitions

* `Route.address`: the method and the path of an endpoint.
* `Routes.Meet`: the viewer page stands where the page that an authorisation returns to does.
* `ServiceDescription.deployedTo`: a description whose stage may be given by the deployment.

## Main results

* `Routes.withoutLeadingSlashes_eq_redirectPage_iff`: the paths that lead to that page.
* `Routes.path_route_inj`, `Routes.functionName?_inj`: endpoints are told apart by the last parts of
their paths, and functions by what they serve.
* `Routes.pairwise_address_eq_iff`: which endpoints have one address.
* `Routes.nodup_addresses`: when no two endpoints have one address.
-/

namespace ServiceDocs

/-- The method and the path of an endpoint. -/
def Route.address (r : Route) : Method × String := (r.method, r.path)

/-- The description with the stage that a deployment gives, if it gives one. -/
def ServiceDescription.deployedTo (d : ServiceDescription) (stage? : Option String) :
    ServiceDescription :=
  stage?.elim d fun stage => d.withStage stage

namespace Routes

/-- A text of slashes. -/
def slashes (count : Nat) : String := .ofList (List.replicate count '/')

/-- The viewer page stands where the page that an authorisation returns to does: its path is the
name of that page, perhaps with slashes in front. -/
def Meet (d : ServiceDescription) : Prop :=
  ∃ count, d.settings.swaggerPath = slashes count ++ "oauth2-redirect.html"

variable {d : ServiceDescription}

/-- The stage does not change the settings. -/
theorem settings_deployedTo (d : ServiceDescription) (stage? : Option String) :
    (d.deployedTo stage?).settings = d.settings := by
  cases stage? <;> rfl

/-- A path leads to the page that an authorisation returns to if it is the name of this page with
slashes in front. -/
theorem withoutLeadingSlashes_eq_redirectPage_iff {path : String} :
    withoutLeadingSlashes path = redirectPage ↔
      ∃ count, path = slashes count ++ "oauth2-redirect.html" := by
  rw [withoutLeadingSlashes, ← String.toList_inj, String.toList_ofList]
  constructor
  · intro h
    have hslashes : path.toList.takeWhile (· == '/') =
        List.replicate (path.toList.takeWhile (· == '/')).length '/' :=
      List.eq_replicate_of_mem fun c hc => by simpa using List.mem_takeWhile_imp hc
    refine ⟨(path.toList.takeWhile (· == '/')).length, String.toList_inj.mp ?_⟩
    rw [String.toList_append, slashes, String.toList_ofList, ← hslashes]
    exact (List.takeWhile_append_dropWhile.symm).trans (congrArg _ h)
  · rintro ⟨count, rfl⟩
    rw [String.toList_append, slashes, String.toList_ofList, List.dropWhile_append_of_pos]
    · decide
    · intro c hc
      simpa using List.eq_of_mem_replicate hc

/-- Endpoints of one service are told apart by the last parts of their paths. -/
theorem path_route_inj {kind kind' : RouteKind} {page page' : String}
    {authorizer authorizer' : Option Json} :
    (route d kind page authorizer).path = (route d kind' page' authorizer').path ↔ page = page' :=
  String.append_right_inj _

/-- Two endpoints of one service have the same address exactly if their pages are equal. -/
theorem address_route_inj {kind kind' : RouteKind} {page page' : String}
    {authorizer authorizer' : Option Json} :
    (route d kind page authorizer).address = (route d kind' page' authorizer').address ↔
      page = page' := by
  have hmethod : (route d kind page authorizer).method = (route d kind' page' authorizer').method :=
    rfl
  rw [Route.address, Route.address, Prod.mk.injEq, path_route_inj]
  exact and_iff_right hmethod

/-- The document never stands where the viewer page does. -/
theorem page_ne_document (page : String) : page ≠ page ++ ".json" := by
  intro h
  have hlength := congrArg String.length h
  rw [String.length_append] at hlength
  exact absurd hlength (Nat.ne_of_lt (Nat.lt_add_of_pos_right (by decide)))

/-- Nor where the page that an authorisation returns to does. -/
theorem document_ne_redirectPage (page : String) : page ++ ".json" ≠ redirectPage := by
  intro h
  have hlast : (page ++ ".json").toList.getLast? = some 'n' := by
    rw [String.toList_append, List.getLast?_append]
    rfl
  rw [h] at hlast
  exact absurd hlast (by decide)

/-! ### Pairs of endpoints -/

/-- The endpoints are compared in pairs. -/
theorem pairwise_toList_iff {p : Route → Route → Prop} {r : Routes} :
    r.toList.Pairwise p ↔
      p r.viewer r.document ∧ ∀ redirect ∈ r.redirect,
        p r.viewer redirect ∧ p r.document redirect := by
  rw [toList]
  cases r.redirect with
  | none => simp
  | some redirect => simp [and_assoc]

/-- The endpoints of a service, one by one. -/
theorem mem_toList_iff {endpoint : Route} {r : Routes} :
    endpoint ∈ r.toList ↔ endpoint = r.viewer ∨ endpoint = r.document ∨ endpoint ∈ r.redirect := by
  simp [toList]

/-- The page that an authorisation returns to has an endpoint exactly if the settings ask for it. -/
theorem mem_redirect_iff {redirect : Route} :
    redirect ∈ (ofDescription d).redirect ↔
      d.settings.useRedirectUI = true ∧ route d .redirect redirectPage none = redirect := by
  simp [ofDescription]

@[simp] theorem viewer_kind : (ofDescription d).viewer.kind = .viewer := rfl

@[simp] theorem document_kind : (ofDescription d).document.kind = .document := rfl

/-- Only the viewer page and the page that an authorisation returns to can have one address. -/
theorem pairwise_address_eq_iff (d : ServiceDescription) :
    (ofDescription d).toList.Pairwise fun first second =>
      first.address = second.address ↔
        first.kind = .viewer ∧ second.kind = .redirect ∧ Meet d := by
  rw [pairwise_toList_iff]
  constructor
  · exact iff_of_false (fun h => page_ne_document _ (address_route_inj.mp h)) (by simp)
  · intro redirect hredirect
    obtain ⟨-, rfl⟩ := mem_redirect_iff.mp hredirect
    constructor
    · exact (address_route_inj.trans withoutLeadingSlashes_eq_redirectPage_iff).trans
        ⟨fun h => ⟨rfl, rfl, h⟩, fun h => h.2.2⟩
    · exact iff_of_false (fun h => document_ne_redirectPage _ (address_route_inj.mp h)) (by simp)

/-- The addresses of all endpoints are different, unless these two pages are both there and meet. -/
theorem nodup_address_iff (d : ServiceDescription) :
    ((ofDescription d).toList.map Route.address).Nodup ↔
      ¬(d.settings.useRedirectUI = true ∧ Meet d) := by
  have hpairs := pairwise_address_eq_iff d
  rw [List.Nodup, List.pairwise_map, not_and]
  constructor
  · intro hne hredirect hmeet
    have hmem := mem_redirect_iff.mpr ⟨hredirect, rfl⟩
    have heq := ((pairwise_toList_iff.mp hpairs).2 _ hmem).1.mpr ⟨rfl, rfl, hmeet⟩
    exact ((pairwise_toList_iff.mp hne).2 _ hmem).1 heq
  · intro hne
    rw [pairwise_toList_iff] at hpairs ⊢
    refine ⟨fun heq => ?_, fun redirect hmem => ⟨fun heq => ?_, fun heq => ?_⟩⟩
    · simpa using hpairs.1.mp heq
    · exact hne (mem_redirect_iff.mp hmem).1 ((hpairs.2 _ hmem).1.mp heq).2.2
    · simpa using (hpairs.2 _ hmem).2.mp heq

/-! ### Names of functions -/

/-- The names of functions for different endpoints end differently. -/
theorem functionEnding_injective {kind kind' : RouteKind}
    (h : kind.functionEnding = kind'.functionEnding) : kind = kind' := by
  cases kind <;> cases kind' <;> first | rfl | exact absurd h (by decide)

/-- Functions of one service are told apart by what they serve. -/
theorem functionName?_inj {kind kind' : RouteKind} {name : String}
    (h : functionName? d kind = some name) (h' : functionName? d kind' = some name) :
    kind = kind' := by
  rw [functionName?] at h h'
  cases hstage : d.stage? with
  | none => simp [hstage] at h
  | some stage =>
      rw [hstage] at h h'
      dsimp only at h h'
      split at h
      · exact absurd h (by simp)
      · next hname =>
          rw [if_neg hname] at h'
          have heq := Option.some.inj (h.trans h'.symm)
          exact functionEnding_injective ((String.append_right_inj _).mp heq)

/-- What the endpoints of a service serve is different. -/
theorem pairwise_kind_ne (d : ServiceDescription) :
    (ofDescription d).toList.Pairwise fun first second => first.kind ≠ second.kind := by
  rw [pairwise_toList_iff]
  refine ⟨by simp, fun redirect hredirect => ?_⟩
  obtain ⟨-, rfl⟩ := mem_redirect_iff.mp hredirect
  exact ⟨by simp [route], by simp [route]⟩

/-- The function behind an endpoint is named for what the endpoint serves. -/
theorem functionName_of_mem {endpoint : Route} (h : endpoint ∈ (ofDescription d).toList) :
    endpoint.functionName = functionName? d endpoint.kind := by
  obtain rfl | rfl | hredirect := mem_toList_iff.mp h
  · rfl
  · rfl
  · obtain ⟨-, rfl⟩ := mem_redirect_iff.mp hredirect
    rfl

/-- No two functions have one name. -/
theorem nodup_functionNames (d : ServiceDescription) :
    ((ofDescription d).toList.filterMap (·.functionName)).Nodup := by
  rw [List.Nodup, List.pairwise_filterMap]
  refine (pairwise_kind_ne d).imp_of_mem fun hfirst hsecond hkind name hname name' hname' heq => ?_
  subst heq
  rw [functionName_of_mem hfirst] at hname
  rw [functionName_of_mem hsecond] at hname'
  exact hkind (functionName?_inj hname hname')

/-! ### Deployments -/

/-- In whatever stage a service is deployed, no two of its endpoints have one address unless they
are the viewer page and the page that an authorisation returns to, and these have if both are there
and meet. The functions have different names, and the document stands beside the viewer page. -/
theorem nodup_addresses (d : ServiceDescription) (stage? : Option String) :
    let r := ofDescription (d.deployedTo stage?)
    ((r.toList.map Route.address).Nodup ↔ ¬(d.settings.useRedirectUI = true ∧ Meet d)) ∧
      (r.toList.Pairwise fun first second => first.address = second.address ↔
        first.kind = .viewer ∧ second.kind = .redirect ∧ Meet d) ∧
      (r.toList.filterMap (·.functionName)).Nodup ∧
      r.document.path = r.viewer.path ++ ".json" := by
  have hsettings := settings_deployedTo d stage?
  have hmeet : Meet (d.deployedTo stage?) ↔ Meet d := by rw [Meet, Meet, hsettings]
  have hnodup := nodup_address_iff (d.deployedTo stage?)
  have hpairs := pairwise_address_eq_iff (d.deployedTo stage?)
  rw [hsettings, hmeet] at hnodup
  simp only [hmeet] at hpairs
  exact ⟨hnodup, hpairs, nodup_functionNames _, (String.append_assoc ..).symm⟩

/-- A service that puts its viewer page where the page that an authorisation returns to is, with a
slash in front. -/
def shadowed : ServiceDescription where
  service := .name "pets"
  custom := { autoswagger := { swaggerPath := "/oauth2-redirect.html", useRedirectUI := true } }

/-- Two endpoints of this service have one address. -/
theorem not_nodup_address_shadowed :
    ¬((ofDescription (shadowed.deployedTo none)).toList.map Route.address).Nodup := by
  rw [nodup_address_iff, not_not]
  exact ⟨rfl, 1, by decide⟩

end Routes

end ServiceDocs
