import MapCatalog.Proofs.Catalog.InPlace
import MapCatalog.Proofs.Service.Sessions

/-! # The operations of a run -/

namespace MapCatalog

namespace Service

def Action.operation? : Action → Option Operation
  | .change operation => some operation
  | .read _ _ => none
  | .endSession => none

def asked? (c : Catalog) (request : Request) (fresh : BitVec 128) (route : Route) :
    Option Operation :=
  match action c request fresh route with
  | .error _ => none
  | .ok action => action.operation?

/-- The operation that a request comes to: its route asks for one, and the guard accepts it. -/
def operation? (service : Service) (visit : Visit) : Option Operation :=
  match Route.parse visit.request.method visit.request.path, service.guard.verdict visit with
  | .ok route, .ok _ => asked? service.catalog visit.request visit.fresh route
  | _, _ => none

theorem operation?_of_accepted {service : Service} {visit : Visit} {route : Route}
    (hroute : Route.parse visit.request.method visit.request.path = .ok route) {subject : String}
    (haccepted : service.guard.verdict visit = .ok subject) :
    service.operation? visit = asked? service.catalog visit.request visit.fresh route := by
  rw [operation?, hroute, haccepted]

def history (service : Service) : List Visit → List Operation
  | [] => []
  | visit :: rest => (service.operation? visit).toList ++ (service.step visit).after.history rest

/-! ## Single steps -/

theorem action_of_asked {c : Catalog} {request : Request} {fresh : BitVec 128} {route : Route}
    {operation : Operation} (h : asked? c request fresh route = some operation) :
    action c request fresh route = .ok (.change operation) := by
  unfold asked? at h
  cases haction : action c request fresh route with
  | error e =>
      rw [haction] at h
      cases h
  | ok found =>
      rw [haction] at h
      cases found with
      | change other =>
          cases h
          rfl
      | read key value | endSession =>
          cases h

section

variable {c : Catalog} (h : Catalog.WellFormed c)
include h

/-- In a well-formed catalogue an operation in place does all of what it says, or nothing. -/
theorem perform_change (operation : Operation) :
    perform c (.change operation) =
      match c.perform operation with
      | .error e => (.error (.catalog e), c)
      | .ok (answer, next) => (.ok (response operation answer), next) := by
  rw [perform, h.run_work]
  cases c.perform operation <;> rfl

theorem act_of_asked {request : Request} {fresh : BitVec 128} {route : Route}
    {operation : Operation} (hasked : asked? c request fresh route = some operation) :
    act c request fresh route =
      match c.perform operation with
      | .error e => (.error (.catalog e), c)
      | .ok (answer, next) => (.ok (response operation answer), next) := by
  rw [← perform_change h, act, action_of_asked hasked]

end

/-- A route that asks for no operation keeps the catalogue. -/
theorem act_of_not_asked {c : Catalog} {request : Request} {fresh : BitVec 128} {route : Route}
    (h : asked? c request fresh route = none) : (act c request fresh route).2 = c := by
  unfold asked? at h
  unfold act
  cases haction : action c request fresh route with
  | error e =>
      rfl
  | ok action =>
      rw [haction] at h
      cases action with
      | change operation =>
          cases h
      | read key value | endSession =>
          rfl

/-- The catalogue after a route is what the operation that it asks for leaves. -/
theorem snd_act (c : Catalog) (request : Request) (fresh : BitVec 128) (route : Route) :
    (act c request fresh route).2 = c.runInPlace (asked? c request fresh route).toList := by
  cases hasked : asked? c request fresh route with
  | none =>
      exact act_of_not_asked hasked
  | some operation =>
      rw [act, action_of_asked hasked]
      change (perform c (.change operation)).2 = Catalog.left (operation.work.run c)
      rw [perform]
      cases operation.work.run c <;> rfl

/-- A route that is open to everybody asks for no operation. -/
theorem asked?_of_open {route : Route} (h : route.requiresAuth = false) (c : Catalog)
    (request : Request) (fresh : BitVec 128) : asked? c request fresh route = none := by
  cases route with
  | list =>
      rfl
  | read tier id =>
      cases tier <;> rfl
  | create tier | replace tier id | delete tier id | rearrange direction id | logout =>
      cases h

/-- The catalogue after a request is what the operation that it comes to leaves. -/
theorem catalog_step_in_place (service : Service) (visit : Visit) :
    (service.step visit).after.catalog =
      service.catalog.runInPlace (service.operation? visit).toList := by
  unfold operation? step
  cases hroute : Route.parse visit.request.method visit.request.path with
  | error e =>
      rw [handle_of_unparsed service visit.request visit.now visit.fresh hroute]
      rfl
  | ok route =>
      cases hauth : route.requiresAuth with
      | false =>
          rw [handle_of_open service visit.request visit.now visit.fresh hroute hauth]
          cases service.guard.verdict visit with
          | error e =>
              rfl
          | ok subject =>
              simp only [asked?_of_open hauth]
              rfl
      | true =>
          cases hverdict : service.guard.verdict visit with
          | error e =>
              rw [handle_of_refused service visit.request visit.now visit.fresh hroute hauth
                hverdict]
              rfl
          | ok subject =>
              rw [handle_of_accepted service visit.request visit.now visit.fresh hroute hauth
                hverdict]
              exact snd_act service.catalog visit.request visit.fresh route

theorem catalog_step (service : Service) (hwell : Catalog.WellFormed service.catalog)
    (visit : Visit) :
    (service.step visit).after.catalog = service.catalog.run (service.operation? visit).toList := by
  rw [catalog_step_in_place]
  cases service.operation? visit with
  | none =>
      rfl
  | some operation =>
      exact hwell.left_work operation

/-- A request that takes no identifier in use keeps the catalogue well formed. -/
theorem wellFormed_step {service : Service} (hwell : Catalog.WellFormed service.catalog)
    {visit : Visit}
    (hids : Catalog.NeverRepeats service.catalog (service.operation? visit).toList) :
    Catalog.WellFormed (service.step visit).after.catalog := by
  rw [service.catalog_step hwell]
  exact hwell.run hids

/-! ## Runs -/

/-- The catalogue of a run is the one after its operations, and it is well formed at every step. -/
theorem wellFormed_steps {service : Service} {visits : List Visit}
    (hwell : Catalog.WellFormed service.catalog)
    (hids : Catalog.NeverRepeats service.catalog (service.history visits)) :
    (service.after visits).catalog = service.catalog.run (service.history visits) ∧
      ∀ step ∈ service.steps visits, Catalog.WellFormed step.before.catalog := by
  induction visits generalizing service with
  | nil =>
      exact ⟨rfl, fun step hstep => absurd hstep List.not_mem_nil⟩
  | cons visit rest ih =>
      have hcatalog := service.catalog_step hwell visit
      have hnext := wellFormed_step hwell hids.left
      obtain ⟨hend, hsteps⟩ := ih hnext (hcatalog ▸ hids.right)
      refine ⟨?_, ?_⟩
      · rw [history, Catalog.run_append, ← hcatalog, ← hend]
        rfl
      · rw [steps, List.forall_mem_cons]
        exact ⟨hwell, hsteps⟩

end Service

end MapCatalog
