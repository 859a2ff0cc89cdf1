import MapCatalog.Proofs.Catalog.Overwriting
import MapCatalog.Proofs.Service.Returning

/-! # Requests that replace a record -/

namespace MapCatalog

namespace Service

/-! ## A replacement that succeeds -/

structure Replaced (service : Service) (visit : Visit) {tier : Tier} (id : Id tier)
    (operation : Operation) (answer : Answer) (next : Catalog) : Prop where
  route : Route.parse visit.request.method visit.request.path = .ok (.replace tier id)
  accepted : ∃ subject, service.guard.verdict visit = .ok subject
  asked : replacement visit.request tier id = .ok operation
  done : service.catalog.perform operation = .ok (answer, next)

theorem isSuccess_failure (e : ServiceError) : (Response.failure e).isSuccess = false := by
  have hstatus : 300 ≤ e.status := by
    cases e with
    | auth cause =>
        simp only [ServiceError.status, ServiceError.authStatus]
        split <;> omega
    | catalog cause => cases cause <;> simp [ServiceError.status, ServiceError.catalogStatus]
    | configuration | missingSecret | record | style | badBody | noRoute | methodNotAllowed
    | unknownMethod => simp [ServiceError.status]
  simp [Response.isSuccess, Response.failure, Response.member, Nat.not_lt.2 hstatus]

/-- The operation of a replacement replaces the record at the address. -/
theorem replaces_of_replacement {request : Request} {tier : Tier} {id : Id tier}
    {operation : Operation} (h : replacement request tier id = .ok operation) :
    Catalog.Replaces operation ⟨tier, id⟩ := by
  have hasks : Asks request 0 (.replace tier id) operation := asks_of_replacement h
  cases hasks with
  | replaceSection id hbody => exact .aSection id _
  | replaceGroup id hbody => exact .aGroup id _
  | replaceLayer id hform hfields => exact .aLayer id _

variable {service : Service} {visit : Visit} {tier : Tier} {id : Id tier}

/-- A request to replace a record that succeeds was accepted, and its operation was done. -/
theorem replaced_of_success (hwell : Catalog.WellFormed service.catalog)
    (hroute : Route.parse visit.request.method visit.request.path = .ok (.replace tier id))
    (hsuccess : (service.step visit).response.isSuccess = true) :
    ∃ operation answer next, service.Replaced visit id operation answer next := by
  obtain ⟨subject, -, -, -, haccepted⟩ :=
    letsIn_of_success service visit.request visit.now visit.fresh hroute rfl hsuccess
  rw [response_of_accepted hroute rfl haccepted] at hsuccess
  cases hasked : replacement visit.request tier id with
  | error e =>
      simp only [act, action, hasked, Except.map, respond, isSuccess_failure] at hsuccess
      cases hsuccess
  | ok operation =>
      have hact : act service.catalog visit.request visit.fresh (.replace tier id) =
          perform service.catalog (.change operation) := by
        simp only [act, action, hasked, Except.map]
      rw [hact, perform_change hwell] at hsuccess
      cases hperform : service.catalog.perform operation with
      | error e =>
          simp only [hperform, respond, isSuccess_failure] at hsuccess
          cases hsuccess
      | ok result =>
          obtain ⟨answer, next⟩ := result
          exact ⟨operation, answer, next, hroute, ⟨subject, haccepted⟩, hasked, hperform⟩

namespace Replaced

variable {operation : Operation} {answer : Answer} {next : Catalog}

/-- A replacement that was done is answered with its record, and the guard has looked at one token. -/
theorem step_eq (h : service.Replaced visit id operation answer next)
    (hwell : Catalog.WellFormed service.catalog) :
    (service.step visit).response = response operation answer ∧
      (service.step visit).after =
        ⟨next, (service.guard.check visit.request.authorization visit.now).2⟩ := by
  obtain ⟨subject, haccepted⟩ := h.accepted
  have hact : act service.catalog visit.request visit.fresh (.replace tier id) =
      (.ok (response operation answer), next) := act_of_replacement hwell h.asked h.done
  rw [step, handle_of_accepted service _ _ _ h.route rfl haccepted, hact]
  exact ⟨rfl, rfl⟩

/-- Whatever the fields of the record were before, the response and what is left are the same. -/
theorem forgets (h : service.Replaced visit id operation answer next)
    (hwell : Catalog.WellFormed service.catalog) {other : Service}
    (hguard : other.guard = service.guard)
    (hsame : Catalog.SameBut ⟨tier, id⟩ service.catalog other.catalog) :
    (other.step visit).response = (service.step visit).response ∧
      Catalog.Same (service.step visit).after.catalog (other.step visit).after.catalog ∧
      (other.step visit).after.guard = (service.step visit).after.guard := by
  have hedits := hsame.perform (replaces_of_replacement h.asked)
  rw [h.done] at hedits
  generalize hdone : other.catalog.perform operation = edit at hedits
  cases hedits with
  | done answer hnext =>
      have hother : other.Replaced visit id operation answer _ :=
        ⟨h.route, hguard ▸ h.accepted, h.asked, hdone⟩
      obtain ⟨hresponse, hafter⟩ := h.step_eq hwell
      obtain ⟨hresponse', hafter'⟩ := hother.step_eq (hsame.wellFormed hwell)
      rw [hresponse, hafter, hresponse', hafter', hguard]
      exact ⟨rfl, hnext, rfl⟩

/-- The guard accepts the request again at the same moment. -/
theorem accepted_again (h : service.Replaced visit id operation answer next)
    (hwell : Catalog.WellFormed service.catalog) :
    ∃ subject, (service.step visit).after.guard.verdict visit = .ok subject := by
  obtain ⟨subject, haccepted⟩ := h.accepted
  refine ⟨subject, ?_⟩
  rw [(h.step_eq hwell).2, ← haccepted]
  refine Guard.check_congr (service.guard.key_check _ _) fun claims _ => ?_
  exact service.guard.revoked_check_iff _ Int.le_rfl claims.subject

/-- The same request, whenever it is accepted again, is answered as it was and changes nothing. -/
theorem repeated (h : service.Replaced visit id operation answer next)
    (hwell : Catalog.WellFormed service.catalog) {again : Visit}
    (hrequest : again.request = visit.request)
    (haccepted : ∃ subject, (service.step visit).after.guard.verdict again = .ok subject) :
    ((service.step visit).after.step again).response = (service.step visit).response ∧
      ((service.step visit).after.step again).after.catalog = (service.step visit).after.catalog := by
  obtain ⟨hresponse, hafter⟩ := h.step_eq hwell
  have hreplaces := replaces_of_replacement h.asked
  have hnext : Catalog.WellFormed next := hwell.perform (hreplaces.fresh _) h.done
  have hdone := hwell.perform_again hreplaces h.done
  have hagain : (service.step visit).after.Replaced again id operation answer next := by
    refine ⟨hrequest ▸ h.route, haccepted, hrequest ▸ h.asked, ?_⟩
    rw [hafter, hdone]
  have hwell' : Catalog.WellFormed (service.step visit).after.catalog := by
    rw [hafter]
    exact hnext
  obtain ⟨hresponse', hafter'⟩ := hagain.step_eq hwell'
  rw [hresponse, hresponse', hafter', hafter]
  exact ⟨rfl, rfl⟩

end Replaced

/-! ## What is stored -/

/-- The record that a request leaves is read from its body.  What it keeps is what no body tells: a
section its groups, a group its layers and its revision, a layer its group and its place. -/
inductive Overwritten (request : Request) (c next : Catalog) (response : Response) :
    {tier : Tier} → Id tier → Prop where
  | aSection {id : SectionId} {fields : SectionFields} {old : SectionEntry}
      (body : needBody SectionFields.decode request = .ok fields)
      (before : c.sections.get? id = some old)
      (stored : next.sections.get? id = some ⟨fields, old.groups⟩)
      (told : response = .ok "layer" (⟨id, fields⟩ : SectionRecord).toJson) :
      Overwritten request c next response id
  | aGroup {id : GroupId} {fields : GroupFields} {old : GroupEntry}
      (body : needBody GroupFields.decode request = .ok fields)
      (before : c.groups.get? id = some old)
      (stored : next.groups.get? id = some ⟨fields, old.layers, old.revision⟩)
      (listed : id ∈ next.groupIds fields.sectionId)
      (told : response = .ok "layer" (⟨id, fields⟩ : GroupRecord).toJson) :
      Overwritten request c next response id
  | aLayer {id : LayerId} {form : LayerForm} {fields : LayerFields} {old : LayerRecord}
      (body : needBody LayerForm.decode request = .ok form) (compiled : form.toFields = .ok fields)
      (before : c.layer? id = some old)
      (stored : next.layer? id = some { old with fields := fields })
      (lists : next.groups = c.groups)
      (told : response = .ok "layer" ({ old with fields := fields } : LayerRecord).toJson) :
      Overwritten request c next response id

theorem Replaced.overwritten {operation : Operation} {answer : Answer} {next : Catalog}
    (h : service.Replaced visit id operation answer next)
    (hwell : Catalog.WellFormed service.catalog) :
    Overwritten visit.request service.catalog (service.step visit).after.catalog
      (service.step visit).response id := by
  obtain ⟨hresponse, hafter⟩ := h.step_eq hwell
  have hnext : Catalog.WellFormed next :=
    hwell.perform ((replaces_of_replacement h.asked).fresh _) h.done
  have hasks : Asks visit.request visit.fresh (.replace tier id) operation :=
    asks_of_replacement h.asked
  have hdone := h.done
  rw [hresponse, hafter]
  cases hasks with
  | replaceSection id hbody =>
      obtain ⟨record, hrecord, rfl⟩ := Catalog.Edit.as_eq_ok hdone
      obtain ⟨-, rfl, old, hold, rfl⟩ := Catalog.replaceSection_eq_ok hrecord
      exact .aSection hbody hold (Table.get?_insert_self _ _ _) rfl
  | @replaceGroup fields id hbody =>
      obtain ⟨record, hrecord, rfl⟩ := Catalog.Edit.as_eq_ok hdone
      obtain ⟨-, rfl, -, old, hold, hafter⟩ := Catalog.replaceGroup_eq_ok hrecord
      have hstored : next.groups.get? id = some ⟨fields, old.layers, old.revision⟩ := by
        rw [hafter]
        exact Table.get?_insert_self _ _ _
      obtain ⟨parent, hparent, hlisted⟩ := hnext.section_of_group hstored
      exact .aGroup hbody hold hstored (Catalog.mem_groupIds_iff.2 ⟨parent, hparent, hlisted⟩) rfl
  | replaceLayer id hform hfields =>
      obtain ⟨record, hrecord, rfl⟩ := Catalog.Edit.as_eq_ok hdone
      obtain ⟨-, old, hold, rfl, rfl⟩ := Catalog.replaceLayer_eq_ok_iff.1 hrecord
      exact .aLayer hform hfields hold (Catalog.layer?_withLayerFields hold _) rfl rfl

/-- What a request that replaces a record in full does. -/
structure ReplacesInFull (service : Service) (visit : Visit) {tier : Tier} (id : Id tier) : Prop where
  overwritten : Overwritten visit.request service.catalog (service.step visit).after.catalog
    (service.step visit).response id
  /-- Services that differ in the previous fields of the record answer alike and are left alike. -/
  forgotten : ∀ other : Service, other.guard = service.guard →
    Catalog.SameBut ⟨tier, id⟩ service.catalog other.catalog →
      (other.step visit).response = (service.step visit).response ∧
        Catalog.Same (service.step visit).after.catalog (other.step visit).after.catalog ∧
        (other.step visit).after.guard = (service.step visit).after.guard
  accepted_again : ∃ subject, (service.step visit).after.guard.verdict visit = .ok subject
  /-- Sent again, at any moment at which it is accepted, the request changes nothing. -/
  repeated : ∀ again : Visit, again.request = visit.request →
    (∃ subject, (service.step visit).after.guard.verdict again = .ok subject) →
      ((service.step visit).after.step again).response = (service.step visit).response ∧
        ((service.step visit).after.step again).after.catalog = (service.step visit).after.catalog

/-- At every service that requests make of a new one, a request that replaces a record and succeeds
replaces it in full. -/
theorem replacement_is_full {start : Service} (hstart : Catalog.Initial start.catalog)
    {visits : List Visit} (hids : Catalog.NeverRepeats start.catalog (start.history visits))
    {visit : Visit} {tier : Tier} {id : Id tier}
    (hroute : Route.parse visit.request.method visit.request.path = .ok (.replace tier id))
    (hsuccess : ((start.after visits).step visit).response.isSuccess = true) :
    (start.after visits).ReplacesInFull visit id := by
  have hwell : Catalog.WellFormed (start.after visits).catalog := by
    rw [(wellFormed_steps hstart.wellFormed hids).1]
    exact hstart.wellFormed.run hids
  obtain ⟨operation, answer, next, h⟩ := replaced_of_success hwell hroute hsuccess
  exact
    { overwritten := h.overwritten hwell
      forgotten := fun _ hguard hsame => h.forgets hwell hguard hsame
      accepted_again := h.accepted_again hwell
      repeated := fun _ hrequest haccepted => h.repeated hwell hrequest haccepted }

/-! ## A sample -/

def sampleOverlays : Visit :=
  sampleFiling "/LayerSection" 2 10 (.object [("name", .text "Overlays")])

def sampleSections : List Visit :=
  [sampleBase, sampleOverlays, sampleWeather]

def sampleMoving : Visit :=
  ⟨{ (sampleVisit "ann" .put (⟨8⟩ : GroupId).path 4).request with
      body := some (.object
        [("name", .text "Radar"), ("layerSectionId", (⟨10⟩ : SectionId).toJson)]) },
    .ofSeconds 4, 0⟩

theorem history_sampleSections :
    sampleNew.history sampleSections =
      [.createSection ⟨7⟩ ⟨"Base"⟩, .createSection ⟨10⟩ ⟨"Overlays"⟩,
       .createGroup ⟨8⟩ (.named "Weather" ⟨7⟩)] := by
  have hbase : FilesAtNew sampleBase (.createSection ⟨7⟩ ⟨"Base"⟩) :=
    ⟨verdict_sampleFiling _ (by decide) _ _, .sections, by decide +kernel, by decide +kernel⟩
  have hoverlays : FilesAtNew sampleOverlays (.createSection ⟨10⟩ ⟨"Overlays"⟩) :=
    ⟨verdict_sampleFiling _ (by decide) _ _, .sections, by decide +kernel, by decide +kernel⟩
  have hweather : FilesAtNew sampleWeather (.createGroup ⟨8⟩ (.named "Weather" ⟨7⟩)) :=
    ⟨verdict_sampleFiling _ (by decide) _ _, .groups, by decide +kernel, by decide +kernel⟩
  exact history_of_new rfl (.cons hbase (.cons hoverlays (.cons hweather .nil)))

theorem neverRepeats_sampleSections :
    Catalog.NeverRepeats sampleNew.catalog (sampleNew.history sampleSections) := by
  rw [history_sampleSections]
  exact ⟨by decide, by decide⟩

theorem route_sampleMoving :
    Route.parse sampleMoving.request.method sampleMoving.request.path = .ok (.replace .groups ⟨8⟩) :=
  Route.parse_put_of_get (Id.parse_path (⟨8⟩ : GroupId) rfl)

theorem isSuccess_sampleMoving :
    ((sampleNew.after sampleSections).step sampleMoving).response.isSuccess = true := by
  have hguard : (sampleNew.after sampleSections).guard = sampleNew.guard :=
    guard_after_of_new rfl (by decide +kernel)
  have haccepted : (sampleNew.after sampleSections).guard.verdict sampleMoving = .ok "ann" := by
    rw [hguard]
    exact legible_ann.accepted rfl .put (⟨8⟩ : GroupId).path 4 (by decide) (unrevoked_sample "ann" _)
  obtain ⟨hcatalog, -⟩ := wellFormed_steps Catalog.wellFormed_empty neverRepeats_sampleSections
  have hwell : Catalog.WellFormed (sampleNew.after sampleSections).catalog := by
    rw [hcatalog]
    exact Catalog.wellFormed_empty.run neverRepeats_sampleSections
  have hasked : replacement sampleMoving.request .groups ⟨8⟩ =
      .ok (.replaceGroup ⟨8⟩ (.named "Radar" ⟨10⟩)) := by decide +kernel
  have hdone : ∃ next, (sampleNew.after sampleSections).catalog.perform
      (.replaceGroup ⟨8⟩ (.named "Radar" ⟨10⟩)) =
        .ok (.aGroup ⟨⟨8⟩, .named "Radar" ⟨10⟩⟩, next) := by
    rw [hcatalog, history_sampleSections]
    exact ⟨_, rfl⟩
  obtain ⟨next, hdone⟩ := hdone
  have h : (sampleNew.after sampleSections).Replaced sampleMoving ⟨8⟩ _ _ next :=
    ⟨route_sampleMoving, ⟨"ann", haccepted⟩, hasked, hdone⟩
  rw [(h.step_eq hwell).1]
  exact isSuccess_response _ _

theorem sample_replacement_is_full :
    Catalog.Initial sampleNew.catalog ∧
      Catalog.NeverRepeats sampleNew.catalog (sampleNew.history sampleSections) ∧
      Route.parse sampleMoving.request.method sampleMoving.request.path =
        .ok (.replace .groups ⟨8⟩) ∧
      ((sampleNew.after sampleSections).step sampleMoving).response.isSuccess = true ∧
      (sampleNew.after sampleSections).ReplacesInFull sampleMoving (⟨8⟩ : GroupId) :=
  ⟨.inl rfl, neverRepeats_sampleSections, route_sampleMoving, isSuccess_sampleMoving,
    replacement_is_full (.inl rfl) neverRepeats_sampleSections route_sampleMoving
      isSuccess_sampleMoving⟩

end Service

end MapCatalog
