import MapCatalog.Proofs.Auth.Agreement
import MapCatalog.Proofs.Auth.Issued
import MapCatalog.Proofs.Service.Handling

/-! # Requests without authorization -/

namespace MapCatalog

/-- What a guard says about the authorization value of a request when it arrives. -/
def Guard.verdict (guard : Guard) (visit : Visit) : Except AuthError String :=
  (guard.check visit.request.authorization visit.now).1

/-- A request asks for a route that needs a token, and the guard refuses its authorization value. -/
def Guard.TurnsAway (guard : Guard) (request : Request) (now : Instant) : Prop :=
  ∃ route e, Route.parse request.method request.path = .ok route ∧ route.requiresAuth = true ∧
    (guard.check request.authorization now).1 = .error e

def Guard.LetsIn (guard : Guard) (request : Request) (now : Instant) (subject : String) : Prop :=
  ∃ route, Route.parse request.method request.path = .ok route ∧ route.requiresAuth = true ∧
    (guard.check request.authorization now).1 = .ok subject

/-- A step changed the catalogue, entered a revocation that was not there, or ended a session. -/
inductive Step.Changed (step : Step) : Prop where
  | catalog (h : step.after.catalog ≠ step.before.catalog)
  | revoked {subject : String} {revokedAt : Instant}
      (h : step.after.guard.revocations.entries.get? subject = some revokedAt)
      (new : step.before.guard.revocations.entries.get? subject ≠ some revokedAt)
  | ended (h : Route.parse step.visit.request.method step.visit.request.path = .ok .logout)
      (success : step.response.isSuccess = true)

namespace Service

/-- A request that is turned away is answered alike by all services with one guard, for any body. -/
theorem handle_of_turnsAway {guard : Guard} {request : Request} {now : Instant}
    (h : guard.TurnsAway request now) :
    ∃ response : Response, response.status = 401 ∧
      ∀ (catalog : Catalog) (body : Option Json) (fresh : BitVec 128),
        handle ⟨catalog, guard⟩ { request with body := body } now fresh =
          (response, ⟨catalog, guard⟩) := by
  obtain ⟨route, e, hroute, hauth, hrefused⟩ := h
  have hstatus : e.isUnauthorized = true := (Guard.check_eq_error_iff.1 hrefused).isUnauthorized
  refine ⟨.failure (.auth e), ?_, fun catalog body fresh => ?_⟩
  · simp [Response.failure, Response.member, ServiceError.status, ServiceError.authStatus, hstatus]
  · exact handle_of_refused ⟨catalog, guard⟩ { request with body } now fresh hroute hauth hrefused

theorem handle_keeps (service : Service) (request : Request) (now : Instant) (fresh : BitVec 128) :
    (∃ subject, service.guard.LetsIn request now subject) ∨
      (service.handle request now fresh).2 = service := by
  cases hroute : Route.parse request.method request.path with
  | error e =>
      right
      rw [handle_of_unparsed service request now fresh hroute]
  | ok route =>
      cases hauth : route.requiresAuth with
      | false =>
          right
          rw [handle_of_open service request now fresh hroute hauth]
      | true =>
          cases hcheck : (service.guard.check request.authorization now).1 with
          | error e =>
              right
              rw [handle_of_refused service request now fresh hroute hauth hcheck]
          | ok subject =>
              exact .inl ⟨subject, route, hroute, hauth, hcheck⟩

/-- Where a token is needed, a request that succeeds was let in. -/
theorem letsIn_of_success (service : Service) (request : Request) (now : Instant)
    (fresh : BitVec 128) {route : Route}
    (hroute : Route.parse request.method request.path = .ok route)
    (hauth : route.requiresAuth = true)
    (hsuccess : (service.handle request now fresh).1.isSuccess = true) :
    ∃ subject, service.guard.LetsIn request now subject := by
  cases hcheck : (service.guard.check request.authorization now).1 with
  | ok subject =>
      exact ⟨subject, route, hroute, hauth, hcheck⟩
  | error e =>
      have haway : service.guard.TurnsAway request now := ⟨route, e, hroute, hauth, hcheck⟩
      obtain ⟨response, hstatus, hresponse⟩ := handle_of_turnsAway haway
      have hhandle : service.handle request now fresh = (response, service) :=
        hresponse service.catalog request.body fresh
      rw [hhandle, Response.isSuccess, hstatus] at hsuccess
      cases hsuccess

/-- A request that is let in has a method that may change something. -/
theorem ne_get_of_letsIn {guard : Guard} {request : Request} {now : Instant} {subject : String}
    (h : guard.LetsIn request now subject) : request.method ≠ .get := by
  obtain ⟨route, hroute, hauth, -⟩ := h
  rw [Route.requiresAuth_of_parse hroute] at hauth
  intro hget
  rw [hget] at hauth
  cases hauth

theorem letsIn_of_changed {step : Step} (htaken : step = step.before.step step.visit)
    (hchanged : step.Changed) :
    ∃ subject, step.before.guard.LetsIn step.visit.request step.visit.now subject := by
  rcases step.before.handle_keeps step.visit.request step.visit.now step.visit.fresh with
    hin | hkept
  · exact hin
  have hsame : step.after = step.before := by
    rw [htaken]
    exact hkept
  cases hchanged with
  | catalog hcatalog =>
      exact absurd (congrArg Service.catalog hsame) hcatalog
  | revoked hentry hnew =>
      exact absurd (hsame ▸ hentry) hnew
  | ended hroute hsuccess =>
      rw [htaken] at hsuccess
      exact letsIn_of_success step.before step.visit.request step.visit.now step.visit.fresh hroute
        rfl hsuccess

/-- Reading keeps the service and does not look at the authorization value. -/
theorem handle_get (service : Service) {request : Request} (hget : request.method = .get)
    (authorization : Option String) (now : Instant) (fresh : BitVec 128) :
    (service.handle request now fresh).2 = service ∧
    service.handle { request with authorization := authorization } now fresh =
      service.handle request now fresh := by
  cases hroute : Route.parse request.method request.path with
  | error e =>
      rw [handle_of_unparsed service request now fresh hroute,
        handle_of_unparsed service { request with authorization } now fresh hroute]
      exact ⟨rfl, rfl⟩
  | ok route =>
      have hopen : route.requiresAuth = false := by
        rw [Route.requiresAuth_of_parse hroute, hget]
        rfl
      rw [handle_of_open service request now fresh hroute hopen,
        handle_of_open service { request with authorization } now fresh hroute hopen,
        act_authorization]
      exact ⟨rfl, rfl⟩

/--
Services with one guard answer a request that is turned away alike, with status 401, and stay as they
are; a step of a run that changes the catalogue or revokes somebody was let in and is no reading; and
reading changes nothing and does not depend on the authorization value.
-/
theorem changes_need_authorization :
    (∀ (guard : Guard) (first second : Catalog) (request : Request) (body : Option Json)
        (now : Instant) (fresh other : BitVec 128), guard.TurnsAway request now →
      ∃ response : Response, response.status = 401 ∧
        handle ⟨first, guard⟩ request now fresh = (response, ⟨first, guard⟩) ∧
        handle ⟨second, guard⟩ { request with body := body } now other =
          (response, ⟨second, guard⟩)) ∧
    (∀ (service : Service) (visits : List Visit), ∀ step ∈ service.steps visits, step.Changed →
      step.visit.request.method ≠ .get ∧
      ∃ subject, (step.before.guard.check step.visit.request.authorization step.visit.now).1 =
        .ok subject) ∧
    ∀ (service : Service) (request : Request) (authorization : Option String) (now : Instant)
        (fresh : BitVec 128), request.method = .get →
      (service.handle request now fresh).2 = service ∧
      service.handle { request with authorization := authorization } now fresh =
        service.handle request now fresh := by
  refine ⟨?_, ?_, ?_⟩
  · intro guard first second request body now fresh other haway
    obtain ⟨response, hstatus, hresponse⟩ := handle_of_turnsAway haway
    exact ⟨response, hstatus, hresponse first request.body fresh, hresponse second body other⟩
  · intro service visits step hstep hchanged
    obtain ⟨-, htaken⟩ := mem_steps hstep
    obtain ⟨subject, hin⟩ := letsIn_of_changed htaken hchanged
    obtain ⟨route, -, -, haccepted⟩ := id hin
    exact ⟨ne_get_of_letsIn hin, subject, haccepted⟩
  · intro service request authorization now fresh hget
    exact handle_get service hget authorization now fresh

/-! ## A sample -/

def sampleKey : TokenKey :=
  ⟨[107], by decide⟩

def sample : Service :=
  ⟨Catalog.empty.run [.createSection ⟨1⟩ ⟨"Base"⟩], ⟨sampleKey, .new 60⟩⟩

def sampleClaims (subject : String) : Claims :=
  ⟨subject, 0, 253402300799⟩

def sampleVisit (subject : String) (method : Method) (path : String) (second : Int) : Visit :=
  ⟨⟨method, path, some ("Bearer " ++ sampleKey.tokenOf (sampleClaims subject)), none⟩,
    .ofSeconds second, 0⟩

def sampleDeletion (subject : String) (second : Int) : Visit :=
  sampleVisit subject .delete "/LayerSection/00000000000000000000000000000001" second

/-- The subjects of the sample are those whose claims can be read back. -/
def Legible (subject : String) : Prop :=
  Text.allBlank subject = false ∧
    TokenKey.readSegment Claims.decode (TokenKey.segment (sampleClaims subject).toJson) =
      some (sampleClaims subject)

theorem legible_ann : Legible "ann" :=
  ⟨by decide, by decide +kernel⟩

theorem legible_bob : Legible "bob" :=
  ⟨by decide, by decide +kernel⟩

theorem Legible.shows {subject : String} (h : Legible subject) (method : Method) (path : String)
    (second : Int) :
    Guard.Shows sampleKey (sampleVisit subject method path second).request.authorization
      (sampleClaims subject) :=
  Guard.shows_tokenOf sampleKey (Token.readSegment_eq_some_iff.1 h.2)

/-- As long as a subject of the sample is not revoked, its token is accepted. -/
theorem Legible.accepted {subject : String} (h : Legible subject) {guard : Guard}
    (hkey : guard.key = sampleKey) (method : Method) (path : String) (second : Int)
    (hsecond : second < 253402300799)
    (hunrevoked : ¬ guard.revocations.Revoked subject (.ofSeconds second)) :
    guard.verdict (sampleVisit subject method path second) = .ok subject := by
  have hlive : (sampleClaims subject).Live (.ofSeconds second) := by
    refine ⟨(Claims.named_iff _).2 h.1, ?_⟩
    rw [Instant.seconds_ofSeconds]
    exact hsecond
  have hshows := h.shows method path second
  exact Guard.check_of_accepts (Guard.accepts_of_shows (hkey ▸ hshows) hlive hunrevoked)

theorem unrevoked_sample (subject : String) (now : Instant) :
    ¬ sample.guard.revocations.Revoked subject now := by
  rintro ⟨revokedAt, hentry, -⟩
  cases hentry

/-- A deletion of the sample by somebody who is not revoked does what its route says. -/
theorem Legible.deletes {subject : String} (h : Legible subject) (service : Service)
    (hkey : service.guard.key = sampleKey) (second : Int)
    (hsecond : second < 253402300799)
    (hunrevoked : ¬ service.guard.revocations.Revoked subject (.ofSeconds second)) :
    (service.step (sampleDeletion subject second)).response =
      respond (act service.catalog (sampleDeletion subject second).request 0
        (.delete .sections ⟨1⟩)).1 ∧
    (service.step (sampleDeletion subject second)).after.catalog =
      (act service.catalog (sampleDeletion subject second).request 0
        (.delete .sections ⟨1⟩)).2 := by
  have hroute : Route.parse .delete "/LayerSection/00000000000000000000000000000001" =
      .ok (.delete .sections ⟨1⟩) := by
    decide +kernel
  have haccepted := h.accepted hkey .delete "/LayerSection/00000000000000000000000000000001" second
    hsecond hunrevoked
  have hhandle := handle_of_accepted service (sampleDeletion subject second).request
    (.ofSeconds second) 0 hroute rfl haccepted
  exact ⟨congrArg Prod.fst hhandle, congrArg (fun outcome => outcome.2.catalog) hhandle⟩

def sampleUnsigned : Visit :=
  { sampleDeletion "ann" 2 with
      request := { (sampleDeletion "ann" 2).request with authorization := none } }

theorem turnsAway_sampleUnsigned :
    sample.guard.TurnsAway sampleUnsigned.request sampleUnsigned.now :=
  ⟨.delete .sections ⟨1⟩, .missingToken, by decide +kernel, rfl, rfl⟩

theorem changed_sampleDeletion : (sample.step (sampleDeletion "ann" 2)).Changed := by
  have hann := legible_ann.deletes sample rfl 2 (by decide) (unrevoked_sample "ann" _)
  refine .catalog fun hsame => ?_
  have hsections := congrArg (fun catalog => catalog.sections.size) (hann.2.symm.trans hsame)
  revert hsections
  decide +kernel

/-- Without a token the section stays, and with one it goes. -/
theorem sample_changes_need_authorization :
    (sample.guard.TurnsAway sampleUnsigned.request sampleUnsigned.now ∧
      ∃ response : Response, response.status = 401 ∧
        sample.handle sampleUnsigned.request sampleUnsigned.now 0 = (response, sample)) ∧
    (sample.step (sampleDeletion "ann" 2)).Changed ∧
    ∃ subject, sample.guard.verdict (sampleDeletion "ann" 2) = .ok subject := by
  obtain ⟨haway, hchanged, -⟩ := changes_need_authorization
  obtain ⟨response, hstatus, hresponse, -⟩ := haway sample.guard sample.catalog sample.catalog
    sampleUnsigned.request none sampleUnsigned.now 0 0 turnsAway_sampleUnsigned
  have hmem : sample.step (sampleDeletion "ann" 2) ∈ sample.steps [sampleDeletion "ann" 2] :=
    List.mem_singleton_self _
  obtain ⟨-, subject, haccepted⟩ := hchanged _ _ _ hmem changed_sampleDeletion
  refine ⟨⟨turnsAway_sampleUnsigned, response, hstatus, hresponse⟩, changed_sampleDeletion, subject, ?_⟩
  rw [Guard.verdict]
  exact haccepted

end Service

end MapCatalog
