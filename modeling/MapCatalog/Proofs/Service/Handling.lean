import Mathlib.Data.List.Forall2
import MapCatalog.Proofs.Auth.Acceptance
import MapCatalog.Service.Basic

/-! # How a request is handled

The path of a request is no route, its route is open to everybody, the guard refuses it, or the guard accepts its
subject.  Only the last can leave another catalogue or another guard.
-/

namespace MapCatalog

/-! ## Routes and methods -/

namespace Route

theorem requiresAuth_of_atAddress {method : Method} {address : Address} {route : Route}
    (h : atAddress method address = .ok (some route)) : route.requiresAuth = method.isMutation := by
  cases address with
  | collection tier =>
      cases method <;> cases tier <;> cases h
      all_goals rfl
  | record tier id =>
      rw [atAddress] at h
      cases hid : Id.parse tier id with
      | error e =>
          rw [hid] at h
          cases h
      | ok id =>
          rw [hid] at h
          cases method <;> cases h
          all_goals rfl
  | rearrange direction id =>
      rw [atAddress] at h
      split at h
      next hput =>
        subst hput
        unfold move at h
        split at h
        next =>
          cases h
        next direction _ =>
          split at h
          next =>
            cases h
          next id _ =>
            cases h
            rfl
      next =>
        cases h
  | logout =>
      cases method <;> cases h
      rfl

/-- A token is needed exactly where the method may change something. -/
theorem requiresAuth_of_parse {method : Method} {path : String} {route : Route}
    (h : parse method path = .ok route) : route.requiresAuth = method.isMutation := by
  unfold parse at h
  split at h
  next =>
    cases h
  next address _ =>
    split at h
    next =>
      cases h
    next =>
      cases h
    next found hfound =>
      cases h
      exact requiresAuth_of_atAddress hfound

end Route

/-! ## Actions -/

namespace Service

def respond : Except ServiceError Response → Response
  | .error e => .failure e
  | .ok response => response

/-- A route that is open to everybody reads, and what it reads is in the catalogue. -/
theorem act_of_open {route : Route} (h : route.requiresAuth = false) (c : Catalog) :
    ∃ response, ∀ request fresh, act c request fresh route = (.ok response, c) := by
  cases route with
  | list =>
      exact ⟨_, fun request fresh => rfl⟩
  | read tier id =>
      cases tier <;> exact ⟨_, fun request fresh => rfl⟩
  | create tier | replace tier id | delete tier id | rearrange direction id | logout =>
      cases h

/-- What a route does never depends on the authorization value. -/
theorem act_authorization (c : Catalog) (request : Request) (authorization : Option String)
    (fresh : BitVec 128) (route : Route) :
    act c { request with authorization := authorization } fresh route =
      act c request fresh route := by
  cases route with
  | list | delete tier id | rearrange direction id | logout =>
      rfl
  | read tier id | create tier | replace tier id =>
      cases tier <;> rfl

/-- Every route but the one to log out leaves the guard as it is. -/
theorem settle_of_ne (guard : Guard) {route : Route} (h : route ≠ .logout) (subject : Option String)
    (now : Instant) : settle guard route subject now = guard := by
  cases route with
  | logout =>
      exact absurd rfl h
  | list | read tier id | create tier | replace tier id | delete tier id | rearrange direction id =>
      rfl

/-! ## The four ways -/

variable (service : Service) (request : Request) (now : Instant) (fresh : BitVec 128) {route : Route}

theorem handle_of_unparsed {e : ServiceError}
    (h : Route.parse request.method request.path = .error e) :
    service.handle request now fresh = (.failure e, service) := by
  rw [handle, h]

theorem handle_of_open (h : Route.parse request.method request.path = .ok route)
    (hopen : route.requiresAuth = false) :
    service.handle request now fresh =
      (respond (act service.catalog request fresh route).1, service) := by
  obtain ⟨response, hact⟩ := act_of_open hopen service.catalog
  have hother : route ≠ .logout := by
    rintro rfl
    cases hopen
  have hsettle := settle_of_ne service.guard hother none now
  simp only [handle, h, follow, authorize, hopen, Bool.false_eq_true, if_false, hact, respond,
    hsettle]

theorem handle_of_refused (h : Route.parse request.method request.path = .ok route)
    (hauth : route.requiresAuth = true) {e : AuthError}
    (hrefused : (service.guard.check request.authorization now).1 = .error e) :
    service.handle request now fresh = (.failure (.auth e), service) := by
  have hcheck := Guard.check_of_refuses (Guard.check_eq_error_iff.1 hrefused)
  simp only [handle, h, follow, authorize, hauth, hcheck]
  rfl

theorem handle_of_accepted (h : Route.parse request.method request.path = .ok route)
    (hauth : route.requiresAuth = true) {subject : String}
    (haccepted : (service.guard.check request.authorization now).1 = .ok subject) :
    service.handle request now fresh =
      (respond (act service.catalog request fresh route).1,
       ⟨(act service.catalog request fresh route).2,
        settle (service.guard.check request.authorization now).2 route (some subject) now⟩) := by
  obtain ⟨guard, hcheck⟩ : ∃ guard,
      service.guard.check request.authorization now = (.ok subject, guard) :=
    ⟨_, Prod.ext haccepted rfl⟩
  simp only [handle, h, follow, authorize, hauth, hcheck, if_true]
  by_cases hlogout : route = .logout
  · subst hlogout
    rfl
  · rw [settle_of_ne guard hlogout]
    obtain ⟨result, catalog⟩ := act service.catalog request fresh route
    cases result with
    | error e =>
        rfl
    | ok response =>
        simp [Except.map, respond, settle_of_ne guard hlogout]

end Service

/-! ## Runs -/

/-- A request that arrives at a moment, with the identifier that is at hand for a new record. -/
structure Visit where
  request : Request
  now : Instant
  fresh : BitVec 128
deriving DecidableEq

/-- A request that was handled, between the service before it and the service after it. -/
structure Step where
  before : Service
  visit : Visit
  response : Response
  after : Service

namespace Service

def step (service : Service) (visit : Visit) : Step :=
  let outcome := service.handle visit.request visit.now visit.fresh
  ⟨service, visit, outcome.1, outcome.2⟩

def steps (service : Service) : List Visit → List Step
  | [] => []
  | visit :: rest => service.step visit :: (service.step visit).after.steps rest

def after (service : Service) (visits : List Visit) : Service :=
  visits.foldl (fun service visit => (service.step visit).after) service

theorem after_single (service : Service) (visit : Visit) :
    service.after [visit] = (service.step visit).after :=
  rfl

theorem after_append (service : Service) (first second : List Visit) :
    service.after (first ++ second) = (service.after first).after second :=
  List.foldl_append

theorem steps_append (service : Service) (first second : List Visit) :
    service.steps (first ++ second) = service.steps first ++ (service.after first).steps second := by
  induction first generalizing service with
  | nil =>
      rfl
  | cons visit first ih =>
      rw [List.cons_append, steps, steps, ih, List.cons_append]
      rfl

theorem mem_steps {service : Service} {visits : List Visit} {step : Step}
    (h : step ∈ service.steps visits) :
    step.visit ∈ visits ∧ step = step.before.step step.visit := by
  induction visits generalizing service with
  | nil =>
      cases h
  | cons visit rest ih =>
      rw [steps, List.mem_cons] at h
      rcases h with rfl | hrest
      · exact ⟨List.mem_cons_self, rfl⟩
      · obtain ⟨hmem, hstep⟩ := ih hrest
        exact ⟨List.mem_cons_of_mem visit hmem, hstep⟩

/-! ## Runs in order of time -/

/-- What steps in order of time keep holds at every step of a run. -/
theorem holds_at_steps {P : Service → Instant → Prop}
    (hstep : ∀ service start (visit : Visit), P service start → start ≤ visit.now →
      P service visit.now ∧ P (service.step visit).after visit.now)
    {visits : List Visit} {service : Service} {start : Instant} (h : P service start)
    (hstart : ∀ visit ∈ visits, start ≤ visit.now)
    (htimes : (visits.map Visit.now).Pairwise (· ≤ ·)) :
    ∀ step ∈ service.steps visits, P step.before step.visit.now := by
  induction visits generalizing service start with
  | nil =>
      intro step hmem
      cases hmem
  | cons visit rest ih =>
      obtain ⟨hfirst, hrest⟩ := List.pairwise_cons.1 htimes
      obtain ⟨hnow, hafter⟩ := hstep service start visit h (hstart visit List.mem_cons_self)
      have hlater : ∀ other ∈ rest, visit.now ≤ other.now := fun other hother =>
        hfirst other.now (List.mem_map_of_mem hother)
      intro step hmem
      rw [steps, List.mem_cons] at hmem
      rcases hmem with rfl | hmem
      · exact hnow
      · exact ih hafter hlater hrest step hmem

/-- What a step in order of time keeps for two services holds along their runs of one list. -/
theorem forall₂_steps {R : Service → Service → Instant → Prop} {P : Step → Prop}
    {Q : Step → Step → Prop}
    (hstep : ∀ left right start (visit : Visit), R left right start → start ≤ visit.now →
      P (right.step visit) → Q (left.step visit) (right.step visit) ∧
        R (left.step visit).after (right.step visit).after visit.now)
    {visits : List Visit} {left right : Service} {start : Instant} (h : R left right start)
    (hstart : ∀ visit ∈ visits, start ≤ visit.now)
    (htimes : (visits.map Visit.now).Pairwise (· ≤ ·))
    (hright : ∀ step ∈ right.steps visits, P step) :
    List.Forall₂ Q (left.steps visits) (right.steps visits) := by
  -- By induction on the requests: the relation moves on to the moment of the one just handled.
  induction visits generalizing left right start with
  | nil =>
      exact .nil
  | cons visit rest ih =>
      obtain ⟨hfirst, hrest⟩ := List.pairwise_cons.1 htimes
      have hlater : ∀ other ∈ rest, visit.now ≤ other.now := fun other hother =>
        hfirst other.now (List.mem_map_of_mem hother)
      rw [steps, List.forall_mem_cons] at hright
      obtain ⟨hq, hafter⟩ := hstep left right start visit h (hstart visit List.mem_cons_self)
        hright.1
      exact .cons hq (ih hafter hlater hrest hright.2)

end Service

end MapCatalog
