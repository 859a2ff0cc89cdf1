import MapCatalog.Proofs.Service.Bodies
import MapCatalog.Proofs.Service.Failures

/-! # Statuses of responses -/

namespace MapCatalog

namespace Service

variable {service : Service} {visit : Visit} {route : Route}

def successStatus : Route → Nat
  | .create _ => 201
  | .list | .read _ _ | .replace _ _ | .delete _ _ | .rearrange _ _ | .logout => 200

/-- A response is the one of the first stage that fails, or that of a success when all are passed. -/
inductive Concluded (service : Service) (visit : Visit) (route : Route) :
    Except ServiceError Response → Prop where
  | fails {stage : Stage} {e : ServiceError} (h : FailsFirst service visit stage e.status) :
      Concluded service visit route (.error e)
  | passes {found : Response} (h : Passes service visit)
      (hstatus : found.status = successStatus route) : Concluded service visit route (.ok found)

/-! ## The catalogue -/

theorem SentTo.reaches_record (h : SentTo visit route) {operation : Operation}
    (hasks : Asks visit.request visit.fresh route operation) (hreaches : Reaches service visit .name)
    (hnamed : operation.IsNamed) : Reaches service visit .record := by
  refine hreaches.next rfl fun status hfails => ?_
  cases hfails with
  | unnamed hsame hother hblank =>
      cases h.unique hsame
      exact hblank (hasks.unique hother ▸ hnamed)

theorem SentTo.reaches_revision (h : SentTo visit route) {operation : Operation}
    (hasks : Asks visit.request visit.fresh route operation)
    (hreaches : Reaches service visit .record)
    (hheld : ∀ id ∈ operation.needed, service.catalog.holds id = true) :
    Reaches service visit .revision := by
  refine hreaches.next rfl fun status hfails => ?_
  cases hfails with
  | absent hsame hother hneeded habsent =>
      cases h.unique hsame
      rw [hasks.unique hother] at hneeded
      rw [hheld _ hneeded] at habsent
      cases habsent

theorem SentTo.passes (h : SentTo visit route) {operation : Operation}
    (hasks : Asks visit.request visit.fresh route operation)
    (hreaches : Reaches service visit .revision) (hcurrent : ¬ service.catalog.Outdates operation) :
    Passes service visit := by
  refine hreaches.passes fun status hfails => ?_
  cases hfails with
  | outdated hsame hother houtdated =>
      cases h.unique hsame
      exact hcurrent (hasks.unique hother ▸ houtdated)

theorem status_response {c next : Catalog} {request : Request} {fresh : BitVec 128}
    {operation : Operation} {answer : Answer} (hasks : Asks request fresh route operation)
    (hok : c.perform operation = .ok (answer, next)) :
    (response operation answer).status = successStatus route := by
  cases hasks with
  | delete tier id =>
      cases tier <;> obtain ⟨counts, -, rfl⟩ := Catalog.Edit.as_eq_ok hok <;> rfl
  | createSection | createGroup | createLayer | replaceSection | replaceGroup | replaceLayer | move =>
      obtain ⟨record, -, rfl⟩ := Catalog.Edit.as_eq_ok hok
      rfl

/-- An operation is decided by its name, by the records that it needs, and by the revision that it
expects. -/
theorem concluded_change (hwell : Catalog.WellFormed service.catalog) (h : SentTo visit route)
    {operation : Operation} (hasks : Asks visit.request visit.fresh route operation)
    (hreaches : Reaches service visit .name) :
    Concluded service visit route (perform service.catalog (.change operation)).1 := by
  rw [perform_change hwell]
  have hdecided := hwell.decided_perform operation
  have hfaulted := service.catalog.faulted operation
  generalize service.catalog.fault? operation = fault at hdecided hfaulted
  cases hfaulted with
  | @unnamed cause hblank =>
      have herror : service.catalog.perform operation = .error (.invalid cause) := hdecided
      rw [herror]
      exact .fails (e := .catalog (.invalid cause)) ⟨.unnamed h hasks hblank, hreaches⟩
  | @absent id missing hnamed hneeded habsent =>
      have herror : service.catalog.perform operation = .error (.notFound missing.1 missing.2) :=
        hdecided
      have hrecord := h.reaches_record hasks hreaches hnamed
      rw [herror]
      exact .fails (e := .catalog (.notFound missing.1 missing.2))
        ⟨.absent h hasks hneeded habsent, hrecord⟩
  | @outdated group expected actual hnamed hheld houtdated =>
      have herror : service.catalog.perform operation = .error (.conflict group expected actual) :=
        hdecided
      have hrecord := h.reaches_record hasks hreaches hnamed
      rw [herror]
      exact .fails (e := .catalog (.conflict group expected actual))
        ⟨.outdated h hasks houtdated, h.reaches_revision hasks hrecord hheld⟩
  | faultless hnamed hheld hcurrent =>
      obtain ⟨⟨answer, next⟩, hok⟩ := hdecided
      have hrecord := h.reaches_record hasks hreaches hnamed
      have hrevision := h.reaches_revision hasks hrecord hheld
      rw [hok]
      exact .passes (h.passes hasks hrevision hcurrent) (status_response hasks hok)

/-! ## Routes without an operation -/

/-- A route that asks for no operation has no name, no record and no revision to be looked at. -/
theorem SentTo.passes_of_quiet (h : SentTo visit route)
    (hasks : ∀ operation, ¬ Asks visit.request visit.fresh route operation)
    (hreaches : Reaches service visit .name) : Passes service visit := by
  have hrecord : Reaches service visit .record := hreaches.next rfl fun status hfails => by
    cases hfails with
    | unnamed hsame hother _ => exact hasks _ (h.unique hsame ▸ hother)
  have hrevision : Reaches service visit .revision := hrecord.next rfl fun status hfails => by
    cases hfails with
    | absent hsame hother _ _ => exact hasks _ (h.unique hsame ▸ hother)
  refine hrevision.passes fun status hfails => ?_
  cases hfails with
  | outdated hsame hother _ => exact hasks _ (h.unique hsame ▸ hother)

/-- What a route does without an operation answers with the usual status. -/
theorem successStatus_of_quiet {c : Catalog} {request : Request} {fresh : BitVec 128}
    {found : Action} (haction : action c request fresh route = .ok found)
    (hquiet : ∀ operation, found ≠ .change operation) : successStatus route = 200 := by
  cases route with
  | create tier =>
      obtain ⟨operation, -, rfl⟩ := Decode.map_eq_ok haction
      exact absurd rfl (hquiet operation)
  | list | read | replace | delete | rearrange | logout =>
      rfl

theorem concluded_quiet (h : SentTo visit route) (hreaches : Reaches service visit .name)
    {found : Action} (haction : action service.catalog visit.request visit.fresh route = .ok found)
    (hquiet : ∀ operation, found ≠ .change operation) :
    Concluded service visit route (perform service.catalog found).1 := by
  have hstatus := successStatus_of_quiet haction hquiet
  have hasks : ∀ operation, ¬ Asks visit.request visit.fresh route operation := by
    intro operation hasks
    rw [action_of_asks hasks] at haction
    exact hquiet operation (Except.ok.inj haction).symm
  have hpasses := h.passes_of_quiet hasks hreaches
  cases found with
  | read key value | endSession => exact .passes hpasses hstatus.symm
  | change operation => exact absurd rfl (hquiet operation)

/-! ## Responses -/

/-- Behind the guard, a route is answered by the first of the later stages that fails. -/
theorem concluded_act (hwell : Catalog.WellFormed service.catalog) (h : SentTo visit route)
    (hreaches : Reaches service visit .body) :
    Concluded service visit route (act service.catalog visit.request visit.fresh route).1 := by
  have hdecided := decided_action service.catalog h hreaches
  unfold act
  cases haction : action service.catalog visit.request visit.fresh route with
  | error e =>
      rw [haction] at hdecided
      cases hdecided with
      | fails hfails => exact .fails hfails
  | ok found =>
      rw [haction] at hdecided
      cases hdecided with
      | reaches hname =>
          dsimp only
          cases found with
          | read key value => exact concluded_quiet h hname haction (by simp)
          | endSession => exact concluded_quiet h hname haction (by simp)
          | change operation => exact concluded_change hwell h (asks_of_action haction) hname

/-- The status of a response is decided by the first stage that fails, or else by the route. -/
inductive Judged (service : Service) (visit : Visit) (response : Response) : Prop where
  | fails {stage : Stage} (h : FailsFirst service visit stage response.status)
  | passes {route : Route} (hsent : SentTo visit route) (h : Passes service visit)
      (hstatus : response.status = successStatus route)

theorem Concluded.judged {outcome : Except ServiceError Response}
    (h : Concluded service visit route outcome) (hsent : SentTo visit route) :
    Judged service visit (respond outcome) := by
  cases h with
  | fails hfails => exact .fails hfails
  | passes hpasses hstatus => exact .passes hsent hpasses hstatus

theorem judged_step (hwell : Catalog.WellFormed service.catalog) (visit : Visit) :
    Judged service visit (service.step visit).response := by
  cases hroute : Route.parse visit.request.method visit.request.path with
  | error e =>
      rw [step, handle_of_unparsed service _ _ _ hroute]
      exact .fails (fails_of_unparsed hroute)
  | ok route =>
      have hsent := sentTo_of_parse hroute
      have hrequires := Route.requiresAuth_of_parse hroute
      by_cases hget : visit.request.method = .get
      · rw [hget] at hrequires
        rw [step, handle_of_open service _ _ _ hroute hrequires]
        exact (concluded_act hwell hsent (hsent.reaches_of_get hget)).judged hsent
      · have hauth : route.requiresAuth = true := by
          rw [hrequires]
          simpa [Method.isMutation] using hget
        cases hverdict : service.guard.verdict visit with
        | error e =>
            rw [step, handle_of_refused service _ _ _ hroute hauth hverdict]
            exact .fails (failsFirst_authorization hsent hget (Guard.check_eq_error_iff.1 hverdict))
        | ok subject =>
            rw [response_of_accepted hroute hauth hverdict]
            exact (concluded_act hwell hsent (hsent.reaches_of_accepted hverdict)).judged hsent

theorem Fails.status_lt {stage : Stage} {status : Nat} (h : Fails service visit stage status) :
    status < 500 := by
  cases h <;> decide

theorem successStatus_lt (route : Route) : successStatus route < 500 := by
  cases route <;> simp [successStatus]

theorem Judged.status_lt {response : Response} (h : Judged service visit response) :
    response.status < 500 := by
  cases h with
  | fails h => exact h.fails.status_lt
  | passes _ _ hstatus => exact hstatus ▸ successStatus_lt _

/-! ## Reading -/

/-- The key under which a record of a tier is answered when it is read. -/
def readKey : Tier → String
  | .sections => "layerSection"
  | .groups => "layerGroup"
  | .layers => "layerData"

theorem readTier_of_not_held {c : Catalog} {tier : Tier} {id : Id tier}
    (h : c.holds ⟨tier, id⟩ = false) : readTier c tier id = .read (readKey tier) .null := by
  have hunread := Catalog.unread_of_not_held h
  cases tier with
  | sections =>
      rw [readTier, hunread Catalog.fullDepth]
      rfl
  | groups =>
      rw [readTier, hunread.1 Catalog.fullDepth]
      rfl
  | layers =>
      have hnone : c.layer? id = none := hunread
      rw [readTier, hnone]
      rfl

/-- To read a record that is not there is a success without the record. -/
theorem response_of_absent_read {tier : Tier} {id : Id tier} (h : SentTo visit (.read tier id))
    (habsent : service.catalog.holds ⟨tier, id⟩ = false) :
    (service.step visit).response = ⟨200, .object [(readKey tier, .null)]⟩ := by
  rw [step, handle_of_open service _ _ _ (parse_of_sentTo h) rfl, act, action,
    readTier_of_not_held habsent]
  cases tier <;> rfl

/-! ## Runs -/

/-- The response of a step has the status of the first stage that fails.  Where none fails, it has the
status of a success, and a record that is read and is not there is answered as null. -/
structure DecidedByStages (step : Step) : Prop where
  first_failure : ∀ stage status, FailsFirst step.before step.visit stage status →
    step.response.status = status
  success : Passes step.before step.visit →
    ∃ route, SentTo step.visit route ∧ step.response.status = successStatus route
  no_other_case : Passes step.before step.visit ∨
    ∃ stage, FailsFirst step.before step.visit stage step.response.status
  absent_read : ∀ tier id, SentTo step.visit (.read tier id) →
    step.before.catalog.holds ⟨tier, id⟩ = false →
    step.response = ⟨200, .object [(readKey tier, .null)]⟩
  no_internal_error : step.response.status < 500

theorem decidedByStages (hwell : Catalog.WellFormed service.catalog) (visit : Visit) :
    DecidedByStages (service.step visit) := by
  have hjudged := judged_step hwell visit
  refine ⟨?_, ?_, ?_, fun tier id hsent habsent => response_of_absent_read hsent habsent,
    hjudged.status_lt⟩
  · intro stage status hfirst
    cases hjudged with
    | fails h => exact h.unique hfirst
    | passes _ h _ => exact absurd hfirst.fails (h stage status)
  · intro hpasses
    cases hjudged with
    | fails h => exact absurd h.fails (hpasses _ _)
    | passes hsent _ hstatus => exact ⟨_, hsent, hstatus⟩
  · cases hjudged with
    | fails h => exact .inr ⟨_, h⟩
    | passes _ h _ => exact .inl h

/-- At every step of a run of a service that starts with the catalogue of a new store, the response is
decided by the first stage that fails.  The identifiers at hand for new records never repeat. -/
theorem status_of_first_failure (hstart : Catalog.Initial service.catalog) {visits : List Visit}
    (hids : Catalog.NeverRepeats service.catalog (service.history visits)) :
    ∀ step ∈ service.steps visits, DecidedByStages step := by
  intro step hstep
  have hwell := (wellFormed_steps hstart.wellFormed hids).2 step hstep
  obtain ⟨-, htaken⟩ := mem_steps hstep
  rw [htaken]
  exact decidedByStages hwell step.visit

theorem sample_status_of_first_failure :
    Catalog.Initial sampleNew.catalog ∧
    Catalog.NeverRepeats sampleNew.catalog (sampleNew.history sampleFailing) ∧
    ∀ step ∈ sampleNew.steps sampleFailing, DecidedByStages step :=
  ⟨.inl rfl, neverRepeats_sampleFailing,
    status_of_first_failure (.inl rfl) neverRepeats_sampleFailing⟩

end Service

end MapCatalog
