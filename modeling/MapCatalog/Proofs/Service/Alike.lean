import MapCatalog.Proofs.Catalog.Alike
import MapCatalog.Proofs.Service.Requests

/-! # Services that differ in revisions only -/

namespace MapCatalog

namespace Visit

def Moves (visit : Visit) : Prop :=
  ∃ direction id,
    Route.parse visit.request.method visit.request.path = .ok (.rearrange direction id)

def ExpectsNoRevision (visit : Visit) : Prop :=
  visit.Moves → ∀ revision, Service.expectedRevision visit.request ≠ .ok (some revision)

/-- The same response to a request, but for the revision in the response to a move. -/
inductive AnswersAlike (visit : Visit) : Response → Response → Prop where
  | same (response : Response) : AnswersAlike visit response response
  | moved (hmoves : visit.Moves) (changed : Bool) (order revision other : Nat) :
      AnswersAlike visit
        ⟨200, .object [("moved", .bool changed), ("order", .ofNat order),
          ("revision", .ofNat revision)]⟩
        ⟨200, .object [("moved", .bool changed), ("order", .ofNat order),
          ("revision", .ofNat other)]⟩

theorem AnswersAlike.isSuccess {visit : Visit} {response other : Response}
    (h : visit.AnswersAlike response other) : response.isSuccess = other.isSuccess := by
  cases h <;> rfl

end Visit

theorem Catalog.moveLayer_of_moved {c next : Catalog} {operation : Operation} {outcome : Moved}
    (h : c.perform operation = .ok (.moved outcome, next)) :
    ∃ id direction expected, operation = .moveLayer id direction expected := by
  cases operation with
  | moveLayer id direction expected => exact ⟨id, direction, expected, rfl⟩
  | createSection | createGroup | createLayer | replaceSection | replaceGroup | replaceLayer
  | deleteSection | deleteGroup | deleteLayer =>
      obtain ⟨_, -, hanswer⟩ := Edit.as_eq_ok h
      cases hanswer

namespace Service

/-! ## Actions -/

section

variable {left right : Catalog} (h : Catalog.Alike left right)
include h

/-- A route reads the same in both and asks both for the same. -/
theorem action_alike (request : Request) (fresh : BitVec 128) (route : Route) :
    action left request fresh route = action right request fresh route := by
  cases route with
  | list => rw [action, action, h.trees]
  | read tier id =>
      cases tier with
      | sections => rw [action, action, readTier, readTier, h.sectionTree?]
      | groups => rw [action, action, readTier, readTier, h.groupTree?]
      | layers => rw [action, action, readTier, readTier, h.layer?]
  | create tier | replace tier id | delete tier id | rearrange direction id | logout => rfl

theorem act_alike (hleft : Catalog.WellFormed left) {visit : Visit} {route : Route}
    (hroute : Route.parse visit.request.method visit.request.path = .ok route)
    (hplain : visit.ExpectsNoRevision) :
    visit.AnswersAlike (respond (act left visit.request visit.fresh route).1)
        (respond (act right visit.request visit.fresh route).1) ∧
      Catalog.Alike (act left visit.request visit.fresh route).2
        (act right visit.request visit.fresh route).2 := by
  have hsame := action_alike h visit.request visit.fresh route
  unfold act
  rw [← hsame]
  cases haction : action left visit.request visit.fresh route with
  | error e => exact ⟨.same _, h⟩
  | ok action =>
      cases action with
      | read key value | endSession => exact ⟨.same _, h⟩
      | change operation =>
          have hasks := asks_of_action haction
          have hmove : ∀ id direction revision,
              operation ≠ .moveLayer id direction (some revision) := by
            rintro id direction revision rfl
            obtain ⟨rfl, hbody⟩ := hasks.of_moveLayer
            exact hplain ⟨direction, id, hroute⟩ revision hbody
          have hedits := h.perform hmove
          simp only [perform_change hleft, perform_change (h.wellFormed hleft)]
          generalize hperform : left.perform operation = first at hedits ⊢
          generalize right.perform operation = second at hedits ⊢
          cases hedits with
          | failed e => exact ⟨.same _, h⟩
          | done hanswer hcatalog =>
              refine ⟨?_, hcatalog⟩
              cases hanswer with
              | same answer => exact .same _
              | @moved outcome other hchanged htarget =>
                  obtain ⟨id, direction, expected, rfl⟩ := Catalog.moveLayer_of_moved hperform
                  obtain ⟨rfl, -⟩ := hasks.of_moveLayer
                  simp only [respond, response, hchanged, htarget]
                  exact .moved ⟨direction, id, hroute⟩ _ _ _ _

end

/-! ## Steps -/

/-- Services with one guard take a step alike when their catalogues are alike. -/
theorem step_alike {left right : Service} (hguard : left.guard = right.guard)
    (h : Catalog.Alike left.catalog right.catalog) (hleft : Catalog.WellFormed left.catalog)
    {visit : Visit} (hplain : visit.ExpectsNoRevision) :
    visit.AnswersAlike (left.step visit).response (right.step visit).response ∧
      Catalog.Alike (left.step visit).after.catalog (right.step visit).after.catalog := by
  cases hroute : Route.parse visit.request.method visit.request.path with
  | error e =>
      rw [step, step, handle_of_unparsed left _ _ _ hroute, handle_of_unparsed right _ _ _ hroute]
      exact ⟨.same _, h⟩
  | ok route =>
      have hact := act_alike h hleft hroute hplain
      cases hauth : route.requiresAuth with
      | false =>
          rw [step, step, handle_of_open left _ _ _ hroute hauth,
            handle_of_open right _ _ _ hroute hauth]
          exact ⟨hact.1, h⟩
      | true =>
          cases hverdict : left.guard.verdict visit with
          | error e =>
              rw [step, step, handle_of_refused left _ _ _ hroute hauth hverdict,
                handle_of_refused right _ _ _ hroute hauth (hguard ▸ hverdict)]
              exact ⟨.same _, h⟩
          | ok subject =>
              rw [step, step, handle_of_accepted left _ _ _ hroute hauth hverdict,
                handle_of_accepted right _ _ _ hroute hauth (hguard ▸ hverdict)]
              exact hact

/-- A guard that has revoked nobody is kept by every request but a logout. -/
theorem guard_step_of_new {service : Service}
    (hnew : service.guard.revocations.entries = .empty) {visit : Visit}
    (hstays : Route.parse visit.request.method visit.request.path ≠ .ok .logout) :
    (service.step visit).after.guard = service.guard := by
  rcases guard_of_not_logsOut fun subject (hlogout : service.LogsOut visit subject) =>
    hstays hlogout.1 with hsame | hchecked
  · exact hsame
  · rw [hchecked]
    rcases service.guard.snd_check visit.request.authorization visit.now with
      hsame | ⟨subject, hlooked⟩
    · exact hsame
    · have hnone : service.guard.revocations.entries.get? subject = none := by
        rw [hnew]
        rfl
      rw [hlooked, Revocations.check, hnone]

theorem guard_after_of_new {service : Service}
    (hnew : service.guard.revocations.entries = .empty) {visits : List Visit}
    (hstays : ∀ visit ∈ visits,
      Route.parse visit.request.method visit.request.path ≠ .ok .logout) :
    (service.after visits).guard = service.guard := by
  induction visits generalizing service with
  | nil =>
      rfl
  | cons visit rest ih =>
      obtain ⟨hfirst, hrest⟩ := List.forall_mem_cons.1 hstays
      have hstep := guard_step_of_new hnew hfirst
      have hlater : ((service.step visit).after.after rest).guard =
          (service.step visit).after.guard := ih (hstep ▸ hnew) hrest
      exact hlater.trans hstep

end Service

end MapCatalog
