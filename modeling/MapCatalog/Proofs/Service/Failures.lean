import MapCatalog.Proofs.Service.History
import MapCatalog.Proofs.Service.Logout

/-! # Requests that do not succeed -/

namespace MapCatalog

/-- Two services tell the same about every subject from a moment on. -/
def Service.TellAlike (left right : Service) (start : Instant) : Prop :=
  ∀ subject later, start ≤ later →
    (left.guard.revocations.check subject later).1 = (right.guard.revocations.check subject later).1

/-- A step left everything as it was, and what comes after it is as if it had not been made. -/
structure Step.Idle (step : Step) : Prop where
  catalog : step.after.catalog = step.before.catalog
  revoked : step.after.TellAlike step.before step.visit.now
  unnoticed : ∀ later : List Visit,
    ((step.visit :: later).map Visit.now).Pairwise (· ≤ ·) →
    List.Forall₂
      (fun left right => left.response = right.response ∧
        left.after.catalog = right.after.catalog ∧ left.after.TellAlike right.after left.visit.now)
      (step.after.steps later) (step.before.steps later)

namespace Service

/-! ## Success -/

theorem isSuccess_response (operation : Operation) (answer : Answer) :
    (response operation answer).isSuccess = true := by
  cases operation <;> cases answer <;> rfl

theorem isSuccess_of_perform {c : Catalog} {action : Action} {found : Response}
    (h : (perform c action).1 = .ok found) : found.isSuccess = true := by
  cases action with
  | read key value | endSession =>
      cases h
      rfl
  | change operation =>
      rw [perform] at h
      cases hrun : operation.work.run c with
      | error e next =>
          rw [hrun] at h
          cases h
      | ok answer next =>
          rw [hrun] at h
          cases h
          exact isSuccess_response operation answer

theorem isSuccess_of_act {c : Catalog} {request : Request} {fresh : BitVec 128} {route : Route}
    {found : Response} (h : (act c request fresh route).1 = .ok found) :
    found.isSuccess = true := by
  unfold act at h
  cases haction : action c request fresh route with
  | error e =>
      rw [haction] at h
      cases h
  | ok action =>
      rw [haction] at h
      exact isSuccess_of_perform h

/-! ## Failure -/

theorem snd_act_of_error {c : Catalog} (hwell : Catalog.WellFormed c) {request : Request}
    {fresh : BitVec 128} {route : Route} {e : ServiceError}
    (h : (act c request fresh route).1 = .error e) : (act c request fresh route).2 = c := by
  cases hasked : asked? c request fresh route with
  | none =>
      exact act_of_not_asked hasked
  | some operation =>
      rw [act_of_asked hwell hasked] at h ⊢
      cases hperform : c.perform operation with
      | error error =>
          rfl
      | ok result =>
          rw [hperform] at h
          cases h

/-- A request that does not succeed keeps the catalogue and ends no session. -/
theorem step_of_failure {service : Service} (hwell : Catalog.WellFormed service.catalog)
    {visit : Visit} (hfails : (service.step visit).response.isSuccess = false) :
    (service.step visit).after.catalog = service.catalog ∧
      ∀ subject, ¬ service.LogsOut visit subject := by
  refine ⟨?_, fun subject hlogout => ?_⟩
  · cases hroute : Route.parse visit.request.method visit.request.path with
    | error e =>
        rw [step, handle_of_unparsed service _ _ _ hroute]
    | ok route =>
        cases hauth : route.requiresAuth with
        | false =>
            rw [step, handle_of_open service _ _ _ hroute hauth]
        | true =>
            cases hverdict : service.guard.verdict visit with
            | error e =>
                rw [step, handle_of_refused service _ _ _ hroute hauth hverdict]
            | ok subject =>
                rw [step, handle_of_accepted service _ _ _ hroute hauth hverdict] at hfails ⊢
                cases hact : (act service.catalog visit.request visit.fresh route).1 with
                | error e =>
                    exact snd_act_of_error hwell hact
                | ok found =>
                    have hsuccess : found.isSuccess = true := isSuccess_of_act hact
                    rw [hact, respond, hsuccess] at hfails
                    cases hfails
  · rw [step_of_logsOut hlogout] at hfails
    cases hfails

/-- A request that reads or does not succeed keeps the catalogue. -/
theorem catalog_step_of_unchanging {service : Service}
    (hwell : Catalog.WellFormed service.catalog) {visit : Visit}
    (h : ((service.step visit).response.isSuccess && visit.request.method.isMutation) = false) :
    (service.step visit).after.catalog = service.catalog := by
  rw [Bool.and_eq_false_iff] at h
  rcases h with hfails | hreads
  · exact (step_of_failure hwell hfails).1
  · have hget : visit.request.method = .get := by
      simpa [Method.isMutation] using hreads
    have hkeeps := service.handle_get hget visit.request.authorization visit.now visit.fresh
    exact congrArg Service.catalog hkeeps.1

/-! ## What comes after it -/

/-- Services that tell the same from a moment on, as their guards agree about everybody. -/
theorem tellAlike_of_agree {left right : Service} {start : Instant}
    (h : Guard.Agree (fun _ _ => True) start left.guard right.guard) :
    left.TellAlike right start := by
  intro subject later hle
  rw [Bool.eq_iff_iff, Revocations.fst_check_iff, Revocations.fst_check_iff]
  exact h.revoked subject later hle trivial

theorem idle_of_failure {service : Service} (hwell : Catalog.WellFormed service.catalog)
    {visit : Visit} (hfails : (service.step visit).response.isSuccess = false) :
    (service.step visit).Idle := by
  obtain ⟨hcatalog, hstays⟩ := step_of_failure hwell hfails
  have hagree : Guard.Agree (fun _ _ => True) visit.now (service.step visit).after.guard
      service.guard := by
    obtain ⟨hkey, httl⟩ := service.guard_step visit
    exact ⟨hkey, httl, fun subject moment hmoment _ =>
      revoked_step_of_not_logsOut (hstays subject) hmoment⟩
  refine ⟨hcatalog, tellAlike_of_agree hagree, fun later htimes => ?_⟩
  obtain ⟨hfirst, hrest⟩ := List.pairwise_cons.1 htimes
  have hlater : ∀ other ∈ later, visit.now ≤ other.now := fun other hother =>
    hfirst other.now (List.mem_map_of_mem hother)
  -- Both runs hold one catalogue and agree about everybody, which every request keeps.
  refine forall₂_steps (R := fun left right start => left.catalog = right.catalog ∧
      Guard.Agree (fun _ _ => True) start left.guard right.guard)
    (P := fun _ => True) ?_ ⟨hcatalog, hagree⟩ hlater hrest fun _ _ => trivial
  rintro left right start other ⟨hcatalog, hagree⟩ hle -
  have hverdict : left.guard.verdict other = right.guard.verdict other :=
    hagree.check hle fun _ _ => trivial
  obtain ⟨hresponse, hnext⟩ := step_congr hcatalog fun _ => hverdict
  have hagree' := agree_step hagree hle fun subject _ _ _ => logsOut_congr hverdict subject
  exact ⟨⟨hresponse, hnext, tellAlike_of_agree hagree'⟩, hnext, hagree'⟩

/--
In every run of a service that starts with the catalogue of a new store, a request whose response is no
success is a step that leaves everything as it was.  The identifiers at hand for new records never
repeat.
-/
theorem failure_idle {service : Service} (hstart : Catalog.Initial service.catalog)
    {visits : List Visit}
    (hids : Catalog.NeverRepeats service.catalog (service.history visits)) :
    ∀ step ∈ service.steps visits, step.response.isSuccess = false → step.Idle := by
  intro step hstep hfails
  have hwell := (wellFormed_steps hstart.wellFormed hids).2 step hstep
  obtain ⟨-, htaken⟩ := mem_steps hstep
  rw [htaken] at hfails ⊢
  exact idle_of_failure hwell hfails

/-! ## A sample -/

def sampleNew : Service :=
  ⟨Catalog.empty, ⟨sampleKey, .new 60⟩⟩

def sampleCreation : Visit :=
  ⟨{ (sampleVisit "ann" .post "/LayerSection" 1).request with
      body := some (.object [("name", .text "Base")]) }, .ofSeconds 1, 7⟩

def sampleFailing : List Visit :=
  [sampleCreation, sampleDeletion "ann" 2]

theorem operation?_sampleCreation :
    sampleNew.operation? sampleCreation = some (.createSection ⟨7⟩ ⟨"Base"⟩) := by
  have hroute : Route.parse sampleCreation.request.method sampleCreation.request.path =
      .ok (.create .sections) := by
    decide +kernel
  have hverdict : sampleNew.guard.verdict sampleCreation = .ok "ann" :=
    legible_ann.accepted rfl .post "/LayerSection" 1 (by decide) (unrevoked_sample "ann" _)
  rw [operation?_of_accepted hroute hverdict]
  decide +kernel

theorem sampleCreation_keeps :
    (sampleNew.step sampleCreation).after.guard.key = sampleKey ∧
    ∀ now, sampleCreation.now ≤ now →
      ¬ (sampleNew.step sampleCreation).after.guard.revocations.Revoked "ann" now := by
  have hstays : ¬ sampleNew.LogsOut sampleCreation "ann" := fun hlogout =>
    absurd hlogout.1 (by decide +kernel)
  refine ⟨(sampleNew.guard_step sampleCreation).1, fun now hle hrevoked => ?_⟩
  exact unrevoked_sample "ann" now ((revoked_step_of_not_logsOut hstays hle).1 hrevoked)

theorem history_sampleFailing :
    sampleNew.history sampleFailing =
      [.createSection ⟨7⟩ ⟨"Base"⟩, .deleteSection ⟨1⟩] := by
  have hroute : Route.parse (sampleDeletion "ann" 2).request.method
      (sampleDeletion "ann" 2).request.path = .ok (.delete .sections ⟨1⟩) := by
    decide +kernel
  have hverdict : (sampleNew.step sampleCreation).after.guard.verdict (sampleDeletion "ann" 2) =
      .ok "ann" :=
    legible_ann.accepted sampleCreation_keeps.1 _ _ 2 (by decide)
      (sampleCreation_keeps.2 _ (by decide))
  have hdeletion : (sampleNew.step sampleCreation).after.operation? (sampleDeletion "ann" 2) =
      some (.deleteSection ⟨1⟩) :=
    operation?_of_accepted hroute hverdict
  simp only [sampleFailing, history, operation?_sampleCreation, hdeletion]
  rfl

theorem neverRepeats_sampleFailing :
    Catalog.NeverRepeats sampleNew.catalog (sampleNew.history sampleFailing) := by
  rw [history_sampleFailing]
  exact ⟨by decide, by decide⟩

theorem sample_failure_idle :
    Catalog.Initial sampleNew.catalog ∧
    Catalog.NeverRepeats sampleNew.catalog (sampleNew.history sampleFailing) ∧
    ∃ step ∈ sampleNew.steps sampleFailing, step.response.status = 404 ∧ step.Idle := by
  have hids := neverRepeats_sampleFailing
  have hdeletes := legible_ann.deletes (sampleNew.step sampleCreation).after sampleCreation_keeps.1
    2 (by decide) (sampleCreation_keeps.2 _ (by decide))
  have hcatalog : (sampleNew.step sampleCreation).after.catalog =
      Catalog.empty.run [.createSection ⟨7⟩ ⟨"Base"⟩] := by
    rw [catalog_step sampleNew Catalog.wellFormed_empty, operation?_sampleCreation]
    rfl
  have hstatus : ((sampleNew.step sampleCreation).after.step
      (sampleDeletion "ann" 2)).response.status = 404 := by
    rw [hdeletes.1, hcatalog]
    decide +kernel
  have hmem : (sampleNew.step sampleCreation).after.step (sampleDeletion "ann" 2) ∈
      sampleNew.steps sampleFailing := by
    simp [sampleFailing, steps]
  have hfails : ((sampleNew.step sampleCreation).after.step
      (sampleDeletion "ann" 2)).response.isSuccess = false := by
    rw [Response.isSuccess, hstatus]
    rfl
  exact ⟨.inl rfl, hids, _, hmem, hstatus, failure_idle (.inl rfl) hids _ hmem hfails⟩

end Service

end MapCatalog
