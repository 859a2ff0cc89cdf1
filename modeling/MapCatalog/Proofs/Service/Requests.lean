import MapCatalog.Proofs.Catalog.Cameras
import MapCatalog.Proofs.Record.Finite
import MapCatalog.Proofs.Service.History

/-! # What requests ask for -/

namespace MapCatalog

namespace Service

variable {c : Catalog} {request : Request} {fresh : BitVec 128} {route : Route}
  {operation : Operation}

/-- What a route asks for, with what it reads in the body. -/
inductive Asks (request : Request) (fresh : BitVec 128) : Route → Operation → Prop where
  | createSection {fields : SectionFields}
      (hbody : needBody SectionFields.decode request = .ok fields) :
      Asks request fresh (.create .sections) (.createSection ⟨fresh⟩ fields)
  | createGroup {fields : GroupFields} (hbody : needBody GroupFields.decode request = .ok fields) :
      Asks request fresh (.create .groups) (.createGroup ⟨fresh⟩ fields)
  | createLayer {form : LayerForm} {group : GroupId} {fields : LayerFields}
      (hbody : needBody LayerForm.decode request = .ok form) (hgroup : form.group = .ok group)
      (hfields : form.toFields = .ok fields) :
      Asks request fresh (.create .layers) (.createLayer ⟨fresh⟩ group fields)
  | replaceSection {fields : SectionFields} (id : SectionId)
      (hbody : needBody SectionFields.decode request = .ok fields) :
      Asks request fresh (.replace .sections id) (.replaceSection id fields)
  | replaceGroup {fields : GroupFields} (id : GroupId)
      (hbody : needBody GroupFields.decode request = .ok fields) :
      Asks request fresh (.replace .groups id) (.replaceGroup id fields)
  | replaceLayer {form : LayerForm} {fields : LayerFields} (id : LayerId)
      (hbody : needBody LayerForm.decode request = .ok form)
      (hfields : form.toFields = .ok fields) :
      Asks request fresh (.replace .layers id) (.replaceLayer id fields)
  | delete (tier : Tier) (id : Id tier) :
      Asks request fresh (.delete tier id) (deletion tier id)
  | move {expected : Option Nat} (direction : Direction) (id : LayerId)
      (hbody : expectedRevision request = .ok expected) :
      Asks request fresh (.rearrange direction id) (.moveLayer id direction expected)

theorem formFields_eq_ok {form : LayerForm} {fields : LayerFields}
    (h : formFields form = .ok fields) : form.toFields = .ok fields := by
  unfold formFields at h
  cases hfields : form.toFields with
  | error e =>
      rw [hfields] at h
      cases h
  | ok found =>
      rw [hfields] at h
      cases h
      rfl

theorem asks_of_creation {tier : Tier} (h : creation request fresh tier = .ok operation) :
    Asks request fresh (.create tier) operation := by
  cases tier with
  | sections =>
      obtain ⟨fields, hbody, rfl⟩ := Decode.map_eq_ok h
      exact .createSection hbody
  | groups =>
      obtain ⟨fields, hbody, rfl⟩ := Decode.map_eq_ok h
      exact .createGroup hbody
  | layers =>
      rw [creation] at h
      split at h
      case h_1 => cases h
      case h_2 form hbody =>
        split at h
        case h_1 => cases h
        case h_2 group hgroup =>
          obtain ⟨fields, hfields, rfl⟩ := Decode.map_eq_ok h
          exact .createLayer hbody hgroup (formFields_eq_ok hfields)

theorem asks_of_replacement {tier : Tier} {id : Id tier}
    (h : replacement request tier id = .ok operation) :
    Asks request fresh (.replace tier id) operation := by
  cases tier with
  | sections =>
      obtain ⟨fields, hbody, rfl⟩ := Decode.map_eq_ok h
      exact .replaceSection id hbody
  | groups =>
      obtain ⟨fields, hbody, rfl⟩ := Decode.map_eq_ok h
      exact .replaceGroup id hbody
  | layers =>
      rw [replacement] at h
      split at h
      case h_1 => cases h
      case h_2 form hbody =>
        obtain ⟨fields, hfields, rfl⟩ := Decode.map_eq_ok h
        exact .replaceLayer id hbody (formFields_eq_ok hfields)

theorem asks_of_action (h : action c request fresh route = .ok (.change operation)) :
    Asks request fresh route operation := by
  cases route with
  | list | logout => cases h
  | read tier id => cases tier <;> cases h
  | create tier =>
      obtain ⟨found, hcreation, hsame⟩ := Decode.map_eq_ok h
      cases hsame
      exact asks_of_creation hcreation
  | replace tier id =>
      obtain ⟨found, hreplacement, hsame⟩ := Decode.map_eq_ok h
      cases hsame
      exact asks_of_replacement hreplacement
  | delete tier id =>
      cases h
      exact .delete tier id
  | rearrange direction id =>
      obtain ⟨expected, hbody, hsame⟩ := Decode.map_eq_ok h
      cases hsame
      exact .move direction id hbody

/-- The fields that an operation brings along are in the body: those of a layer as its form. -/
theorem Asks.brings_body (h : Asks request fresh route operation) :
    operation.Brings (fun fields => needBody SectionFields.decode request = .ok fields)
      (fun fields => needBody GroupFields.decode request = .ok fields)
      fun fields => ∃ form, needBody LayerForm.decode request = .ok form ∧
        form.toFields = .ok fields := by
  cases h with
  | createSection hbody | createGroup hbody | replaceSection id hbody | replaceGroup id hbody =>
      exact hbody
  | createLayer hbody hgroup hfields | replaceLayer id hbody hfields =>
      exact ⟨_, hbody, hfields⟩
  | delete tier id =>
      cases tier <;> trivial
  | move =>
      trivial

theorem asked?_congr (c other : Catalog) (request : Request) (fresh : BitVec 128) (route : Route) :
    asked? c request fresh route = asked? other request fresh route := by
  cases route with
  | read tier id => cases tier <;> rfl
  | list | create tier | replace tier id | delete tier id | rearrange direction id | logout => rfl

theorem Asks.of_moveLayer {id : LayerId} {direction : Direction} {expected : Option Nat}
    (h : Asks request fresh route (.moveLayer id direction expected)) :
    route = .rearrange direction id ∧ expectedRevision request = .ok expected := by
  generalize hoperation : Operation.moveLayer id direction expected = operation at h
  cases h with
  | delete tier other => cases tier <;> cases hoperation
  | move direction id hbody =>
      cases hoperation
      exact ⟨rfl, hbody⟩
  | createSection | createGroup | createLayer | replaceSection | replaceGroup | replaceLayer =>
      cases hoperation

theorem exists_route_of_operation? {service : Service} {visit : Visit}
    (h : service.operation? visit = some operation) :
    ∃ route, Route.parse visit.request.method visit.request.path = .ok route ∧
      Asks visit.request visit.fresh route operation := by
  unfold operation? at h
  split at h
  case h_1 route subject hroute hverdict =>
    exact ⟨route, hroute, asks_of_action (action_of_asked h)⟩
  case h_2 => cases h

theorem asks_of_operation? {service : Service} {visit : Visit}
    (h : service.operation? visit = some operation) :
    ∃ route, Asks visit.request visit.fresh route operation := by
  obtain ⟨route, -, hasks⟩ := exists_route_of_operation? h
  exact ⟨route, hasks⟩

theorem response_of_accepted {service : Service} {visit : Visit} {route : Route}
    (hroute : Route.parse visit.request.method visit.request.path = .ok route)
    (hauth : route.requiresAuth = true) {subject : String}
    (haccepted : service.guard.verdict visit = .ok subject) :
    (service.step visit).response =
      respond (act service.catalog visit.request visit.fresh route).1 := by
  rw [step, handle_of_accepted service _ _ _ hroute hauth haccepted]

/-! ## Bodies without infinities -/

def FiniteBody (request : Request) : Prop :=
  ∀ body, request.body = some body → body.Finite

theorem needBody_eq_ok_iff {α : Type} {decode : Decoder α} {value : α} :
    needBody decode request = .ok value ↔
      ∃ body, request.body = some body ∧ Decode.ofJson decode body = .ok value := by
  unfold needBody
  cases request.body with
  | none =>
      simp
  | some body =>
      cases hdecoded : Decode.ofJson decode body <;>
        simp [decodeBody, Except.mapError, hdecoded]

/-- A request is refused for a body that cannot be decoded. -/
theorem needBody_undecodable_iff {α : Type} {decode : Decoder α} {body : Json}
    (hbody : request.body = some body) :
    (∃ e, needBody decode request = .error (.badBody (.undecodable e))) ↔
      ∃ e, Decode.ofJson decode body = .error e := by
  simp only [needBody, hbody, decodeBody]
  cases Decode.ofJson decode body <;> simp [Except.mapError]

/-- What is known of the normal form of the body tells of what is decoded from it. -/
theorem holds_of_known {α : Type} {decode : Decoder α} {R : Reading → Prop} {P : α → Prop}
    (hdecode : Decode.YieldsFrom R decode P)
    (hbody : ∀ body, request.body = some body → R (Reading.ofJson body.normalize)) {value : α}
    (h : needBody decode request = .ok value) : P value := by
  obtain ⟨body, hsome, hdecoded⟩ := needBody_eq_ok_iff.1 h
  exact hdecode _ _ _ (hbody body hsome) hdecoded

theorem holds_of_needBody {α : Type} {decode : Decoder α} {P : α → Prop}
    (hdecode : Decode.Yields decode P) (hfinite : FiniteBody request) {value : α}
    (h : needBody decode request = .ok value) : P value :=
  holds_of_known hdecode (fun body hbody => (hfinite body hbody).normalize) h

theorem camera_toFields {form : LayerForm} {fields : LayerFields}
    (h : form.toFields = .ok fields) : fields.camera = form.camera := by
  unfold LayerForm.toFields at h
  split at h
  case h_1 => cases h
  case h_2 =>
    cases h
    rfl

/-- Whatever is asked for brings along no camera with an infinity. -/
theorem Asks.finite (h : Asks request fresh route operation) (hfinite : FiniteBody request) :
    ∀ camera, operation.camera? = some camera → camera.Finite := by
  intro camera hcamera
  cases h with
  | createGroup hbody | replaceGroup id hbody =>
      cases hcamera
      exact holds_of_needBody GroupFields.yields_finite hfinite hbody
  | createLayer hbody hgroup hfields | replaceLayer id hbody hfields =>
      cases hcamera
      rw [camera_toFields hfields]
      exact holds_of_needBody LayerForm.yields_finite hfinite hbody
  | delete tier id => cases tier <;> cases hcamera
  | createSection | replaceSection | move => cases hcamera

/-- No infinity gets into the catalogue. -/
theorem finite_step {service : Service} (hwell : Catalog.WellFormed service.catalog)
    (hfinite : Catalog.AllCameras Camera.Finite service.catalog) {visit : Visit}
    (hbody : FiniteBody visit.request) :
    Catalog.AllCameras Camera.Finite (service.step visit).after.catalog := by
  rw [service.catalog_step hwell]
  cases hoperation : service.operation? visit with
  | none => exact hfinite
  | some operation =>
      obtain ⟨route, hasks⟩ := asks_of_operation? hoperation
      exact hfinite.after (hasks.finite hbody)

end Service

end MapCatalog
