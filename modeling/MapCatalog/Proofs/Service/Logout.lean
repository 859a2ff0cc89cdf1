import MapCatalog.Proofs.Service.Sessions

/-! # Logging out -/

namespace MapCatalog

def Visit.Carries (visit : Visit) (key : TokenKey) (subject : String) : Prop :=
  ∃ claims, Guard.Shows key visit.request.authorization claims ∧ claims.subject = subject

def Visit.NeedsToken (visit : Visit) : Prop :=
  ∃ route, Route.parse visit.request.method visit.request.path = .ok route ∧
    route.requiresAuth = true

/--
A request asks for a route that needs a token with one of a subject that logged out less than the time
to live ago.
-/
structure Visit.Barred (visit : Visit) (guard : Guard) (subject : String) (logout : Instant) :
    Prop where
  needsToken : visit.NeedsToken
  carries : visit.Carries guard.key subject
  recent : visit.now.since logout < guard.revocations.ttl

namespace Service

theorem LogsOut.carries {service : Service} {visit : Visit} {subject : String}
    (h : service.LogsOut visit subject) : visit.Carries service.guard.key subject := by
  obtain ⟨claims, hshows, -, hsubject⟩ := (Guard.check_eq_ok_iff.1 h.2).shows
  exact ⟨claims, hshows, hsubject⟩

/-! ## The subject that logged out -/

/-- From a moment on, the subject of a logout is revoked for as long as the logout counts. -/
structure Bars (guard : Guard) (subject : String) (logout : Instant) (service : Service)
    (start : Instant) : Prop where
  key : service.guard.key = guard.key
  ttlNanos : service.guard.revocations.ttlNanos = guard.revocations.ttlNanos
  order : logout ≤ start
  revoked : ∀ moment, start ≤ moment → moment.since logout < guard.revocations.ttl →
    service.guard.revocations.Revoked subject moment

namespace Bars

variable {guard : Guard} {subject : String} {logout start : Instant} {service : Service}

theorem later (h : Bars guard subject logout service start) {now : Instant} (hle : start ≤ now) :
    Bars guard subject logout service now :=
  ⟨h.key, h.ttlNanos, Instant.le_trans h.order hle, fun moment hmoment =>
    h.revoked moment (Instant.le_trans hle hmoment)⟩

/-- A step keeps the subject revoked: another logout of it can only lengthen the time. -/
theorem step (h : Bars guard subject logout service start) {visit : Visit}
    (hle : start ≤ visit.now) :
    Bars guard subject logout (service.step visit).after visit.now := by
  obtain ⟨hkey, httl⟩ := service.guard_step visit
  have horder : logout ≤ visit.now := Instant.le_trans h.order hle
  refine ⟨hkey.trans h.key, httl.trans h.ttlNanos, horder, fun moment hmoment hrecent => ?_⟩
  by_cases hlogout : service.LogsOut visit subject
  · rw [revoked_step_of_logsOut hlogout, Revocations.ttl, h.ttlNanos]
    exact Int.lt_of_le_of_lt (Instant.since_le_since_right horder moment) hrecent
  · rw [revoked_step_of_not_logsOut hlogout hmoment]
    exact h.revoked moment (Instant.le_trans hle hmoment) hrecent

theorem of_logsOut {visit : Visit} (h : service.LogsOut visit subject) :
    Bars service.guard subject visit.now (service.step visit).after visit.now := by
  obtain ⟨hkey, httl⟩ := service.guard_step visit
  refine ⟨hkey, httl, Int.le_refl _, fun moment _ hrecent => ?_⟩
  exact (revoked_step_of_logsOut h moment).2 hrecent

/-- While the logout counts, the guard refuses every token of the subject. -/
theorem refuses {visit : Visit} (h : Bars guard subject logout service visit.now)
    (hcarries : visit.Carries guard.key subject)
    (hrecent : visit.now.since logout < guard.revocations.ttl) :
    ∃ e, service.guard.verdict visit = .error e := by
  cases hcheck : service.guard.verdict visit with
  | error e =>
      exact ⟨e, rfl⟩
  | ok accepted =>
      have haccepts := Guard.check_eq_ok_iff.1 hcheck
      obtain ⟨found, hfound, -, rfl⟩ := haccepts.shows
      obtain ⟨claims, hshows, rfl⟩ := hcarries
      have hclaims : found = claims := hfound.unique (h.key ▸ hshows)
      subst hclaims
      exact absurd (h.revoked visit.now (Int.le_refl _) hrecent) haccepts.unrevoked

theorem turnsAway {visit : Visit} (h : Bars guard subject logout service visit.now)
    (hbarred : visit.Barred guard subject logout) :
    service.guard.TurnsAway visit.request visit.now := by
  obtain ⟨route, hroute, hauth⟩ := hbarred.needsToken
  obtain ⟨e, he⟩ := h.refuses hbarred.carries hbarred.recent
  exact ⟨route, e, hroute, hauth, he⟩

/-- A token that expires before the logout stops counting is not accepted any more. -/
theorem refuses_lapsed {visit : Visit} (h : Bars guard subject logout service visit.now)
    {claims : Claims} (hshows : Guard.Shows guard.key visit.request.authorization claims)
    (hsubject : claims.subject = subject)
    (hends : claims.expiresAt * nanosPerSecond ≤ logout.nanos + guard.revocations.ttlNanos) :
    ∃ e, service.guard.verdict visit = .error e := by
  cases hcheck : service.guard.verdict visit with
  | error e =>
      exact ⟨e, rfl⟩
  | ok accepted =>
      obtain ⟨found, hfound, hlive, -⟩ := (Guard.check_eq_ok_iff.1 hcheck).shows
      have hclaims : found = claims := hfound.unique (h.key ▸ hshows)
      subst hclaims
      have hrecent : visit.now.since logout < guard.revocations.ttl := by
        have hexpiry := hlive.expiry
        simp only [Instant.seconds, Instant.since, Revocations.ttl, nanosPerSecond]
          at hexpiry hends ⊢
        omega
      obtain ⟨e, he⟩ := h.refuses ⟨found, hshows, hsubject⟩ hrecent
      exact absurd (hcheck.symm.trans he) (by simp)

end Bars

theorem response_of_turnsAway {service : Service} {visit : Visit}
    (h : service.guard.TurnsAway visit.request visit.now) :
    (service.step visit).response.status = 401 ∧ (service.step visit).after = service := by
  obtain ⟨response, hstatus, hresponse⟩ := handle_of_turnsAway h
  have hhandle : service.handle visit.request visit.now visit.fresh = (response, service) :=
    hresponse service.catalog visit.request.body visit.fresh
  rw [step, hhandle]
  exact ⟨hstatus, rfl⟩

/-! ## Everybody else -/

theorem logsOut_congr {left right : Service} {visit : Visit}
    (h : left.guard.verdict visit = right.guard.verdict visit) (subject : String) :
    left.LogsOut visit subject ↔ right.LogsOut visit subject := by
  rw [LogsOut, LogsOut, h]

/-- Guards that agree do so after a request that ends the same sessions at both services. -/
theorem agree_step {left right : Service} {about : String → Instant → Prop} {start : Instant}
    (h : Guard.Agree about start left.guard right.guard) {visit : Visit} (hle : start ≤ visit.now)
    (hlogout : ∀ subject moment, visit.now ≤ moment → about subject moment →
      (left.LogsOut visit subject ↔ right.LogsOut visit subject)) :
    Guard.Agree about visit.now (left.step visit).after.guard (right.step visit).after.guard := by
  obtain ⟨hkey, httl⟩ := left.guard_step visit
  obtain ⟨hkey', httl'⟩ := right.guard_step visit
  refine ⟨?_, ?_, fun subject moment hmoment habout => ?_⟩
  · rw [hkey, hkey', h.key]
  · rw [httl, httl', h.ttlNanos]
  have hsame := hlogout subject moment hmoment habout
  by_cases hleft : left.LogsOut visit subject
  · have hright : right.LogsOut visit subject := hsame.1 hleft
    rw [revoked_step_of_logsOut hleft, revoked_step_of_logsOut hright, Revocations.ttl,
      Revocations.ttl, h.ttlNanos]
  · have hright : ¬ right.LogsOut visit subject := fun hlogs => hleft (hsame.2 hlogs)
    rw [revoked_step_of_not_logsOut hleft hmoment, revoked_step_of_not_logsOut hright hmoment]
    exact h.revoked subject moment (Instant.le_trans hle hmoment) habout

/-- Services with one catalogue do the same where their guards give one verdict. -/
theorem step_congr {left right : Service} {visit : Visit} (hcatalog : left.catalog = right.catalog)
    (hverdict : visit.NeedsToken → left.guard.verdict visit = right.guard.verdict visit) :
    (left.step visit).response = (right.step visit).response ∧
    (left.step visit).after.catalog = (right.step visit).after.catalog := by
  unfold step
  cases hroute : Route.parse visit.request.method visit.request.path with
  | error e =>
      rw [handle_of_unparsed left _ _ _ hroute, handle_of_unparsed right _ _ _ hroute]
      exact ⟨rfl, hcatalog⟩
  | ok route =>
      cases hauth : route.requiresAuth with
      | false =>
          rw [handle_of_open left _ _ _ hroute hauth, handle_of_open right _ _ _ hroute hauth,
            hcatalog]
          exact ⟨rfl, rfl⟩
      | true =>
          have hverdict := hverdict ⟨route, hroute, hauth⟩
          cases hright : right.guard.verdict visit with
          | error e =>
              rw [handle_of_refused left _ _ _ hroute hauth (hverdict.trans hright),
                handle_of_refused right _ _ _ hroute hauth hright]
              exact ⟨rfl, hcatalog⟩
          | ok subject =>
              rw [handle_of_accepted left _ _ _ hroute hauth (hverdict.trans hright),
                handle_of_accepted right _ _ _ hroute hauth hright, hcatalog]
              exact ⟨rfl, rfl⟩

/-- What two services keep that differ by a logout: they agree about everybody but its subject. -/
theorem verdicts_step {left right : Service} {subject : String} {start : Instant}
    (h : Guard.Agree (fun other _ => other ≠ subject) start left.guard right.guard) {visit : Visit}
    (hle : start ≤ visit.now) :
    (¬ visit.Carries left.guard.key subject →
      left.guard.verdict visit = right.guard.verdict visit) ∧
    Guard.Agree (fun other _ => other ≠ subject) visit.now (left.step visit).after.guard
      (right.step visit).after.guard := by
  have hverdict : ¬ visit.Carries left.guard.key subject →
      left.guard.verdict visit = right.guard.verdict visit := fun hcarries =>
    h.check hle fun claims hshows hsubject => hcarries ⟨claims, hshows, hsubject⟩
  refine ⟨hverdict, agree_step h hle fun other _ _ hother => ?_⟩
  -- A token of the subject ends nobody else's session, whatever the two verdicts about it are.
  by_cases hcarries : visit.Carries left.guard.key subject
  · obtain ⟨claims, hshows, hsubject⟩ := hcarries
    have hnobody : ∀ {service : Service}, service.guard.key = left.guard.key →
        ¬ service.LogsOut visit other := by
      intro service hkey hlogout
      obtain ⟨found, hfound, rfl⟩ := hlogout.carries
      have hclaims : found = claims := hfound.unique (hkey ▸ hshows)
      exact hother (hclaims ▸ hsubject)
    exact iff_of_false (hnobody rfl) (hnobody h.key.symm)
  · exact logsOut_congr (hverdict hcarries) other

/--
What two services keep that differ by a logout that still counts: one catalogue, and one opinion about
everybody, except about its subject until the logout counts no longer.
-/
structure Follows (guard : Guard) (subject : String) (logout : Instant) (left right : Service)
    (start : Instant) : Prop where
  catalog : left.catalog = right.catalog
  bars : Bars guard subject logout left start
  agree : Guard.Agree
    (fun other moment => other = subject → guard.revocations.ttl ≤ moment.since logout)
    start left.guard right.guard

namespace Follows

variable {guard : Guard} {subject : String} {logout start : Instant} {left right : Service}
  {visit : Visit}

theorem step_of_not_barred (h : Follows guard subject logout left right start)
    (hle : start ≤ visit.now) (hbarred : ¬ visit.Barred guard subject logout) :
    (left.step visit).response = (right.step visit).response ∧
    Follows guard subject logout (left.step visit).after (right.step visit).after visit.now := by
  have hverdict : visit.NeedsToken → left.guard.verdict visit = right.guard.verdict visit := by
    intro hneeds
    refine h.agree.check hle fun claims hshows hsubject => ?_
    have hcarries : visit.Carries guard.key subject := ⟨claims, h.bars.key ▸ hshows, hsubject⟩
    exact Int.not_lt.1 fun hrecent => hbarred ⟨hneeds, hcarries, hrecent⟩
  obtain ⟨hresponse, hcatalog⟩ := step_congr h.catalog hverdict
  refine ⟨hresponse, hcatalog, h.bars.step hle, agree_step h.agree hle fun other _ _ _ => ?_⟩
  by_cases hroute : Route.parse visit.request.method visit.request.path = .ok .logout
  · exact logsOut_congr (hverdict ⟨.logout, hroute, rfl⟩) other
  · exact iff_of_false (fun hlogout => hroute hlogout.1) (fun hlogout => hroute hlogout.1)

/-- A request that is barred does nothing where the logout counts. -/
theorem step_of_barred (h : Follows guard subject logout left right start)
    (hle : start ≤ visit.now) (hbarred : visit.Barred guard subject logout)
    (hidle : ¬ (right.step visit).Changed) :
    Follows guard subject logout (left.step visit).after (right.step visit).after visit.now := by
  have haway := (h.bars.later hle).turnsAway hbarred
  have hleft : (left.step visit).after = left := (response_of_turnsAway haway).2
  have hcatalog : (right.step visit).after.catalog = right.catalog := by
    by_contra hne
    exact hidle (.catalog hne)
  refine ⟨?_, h.bars.step hle, agree_step h.agree hle fun other _ _ _ => ?_⟩
  · rw [hleft, hcatalog, h.catalog]
  have hnot : ¬ left.LogsOut visit other := by
    intro hlogout
    obtain ⟨-, e, -, -, he⟩ := haway
    exact absurd (hlogout.2.symm.trans he) (by simp)
  have hnot' : ¬ right.LogsOut visit other := by
    intro hlogout
    refine hidle (.ended hlogout.1 ?_)
    rw [step_of_logsOut hlogout]
    rfl
  exact iff_of_false hnot hnot'

end Follows

/-! ## The logout in a run -/

/-- What a logout of a subject means for the requests after it. -/
structure EndsSession (start : Service) (out : Visit) (later : List Visit) (subject : String) :
    Prop where
  /-- The logout succeeds. -/
  answered : (start.step out).response.isSuccess = true
  /-- Until the time to live is over, the guard refuses every token of the subject. -/
  barred : ∀ step ∈ (start.step out).after.steps later,
    step.visit.Barred start.guard subject out.now → step.response.status = 401
  /-- A token that expires within the time to live is never accepted again. -/
  lapsed : ∀ step ∈ (start.step out).after.steps later, ∀ claims,
    Guard.Shows start.guard.key step.visit.request.authorization claims →
    claims.subject = subject →
    claims.expiresAt * nanosPerSecond ≤ out.now.nanos + start.guard.revocations.ttlNanos →
    ∃ e, step.before.guard.verdict step.visit = .error e
  /-- Such is every token that was issued until then, for the time to live at most. -/
  issued : ∀ step ∈ (start.step out).after.steps later, ∀ claims,
    Guard.Shows start.guard.key step.visit.request.authorization claims →
    claims.subject = subject → claims.issuedAt ≤ out.now.seconds →
    (claims.expiresAt - claims.issuedAt) * nanosPerSecond ≤ start.guard.revocations.ttlNanos →
    ∃ e, step.before.guard.verdict step.visit = .error e
  /-- Everybody else meets the verdicts of the run without the logout. -/
  verdicts : List.Forall₂
    (fun step other => ¬ step.visit.Carries start.guard.key subject →
      step.before.guard.verdict step.visit = other.before.guard.verdict step.visit)
    ((start.step out).after.steps later) (start.steps later)
  /-- And the responses of it, if nothing that the logout bars has an effect there. -/
  responses : (∀ step ∈ start.steps later, step.visit.Barred start.guard subject out.now →
      ¬ step.Changed) →
    List.Forall₂
      (fun step other => ¬ step.visit.Barred start.guard subject out.now →
        step.response = other.response)
      ((start.step out).after.steps later) (start.steps later)

/-- A service differs from the one before a logout in what it holds about its subject alone. -/
theorem agree_of_logsOut {start : Service} {out : Visit} {subject : String}
    (h : start.LogsOut out subject) {about : String → Instant → Prop}
    (habout : ∀ moment, out.now ≤ moment → about subject moment →
      start.guard.revocations.ttl ≤ moment.since out.now) :
    Guard.Agree about out.now (start.step out).after.guard start.guard := by
  obtain ⟨hkey, httl⟩ := start.guard_step out
  refine ⟨hkey, httl, fun other moment hmoment hother => ?_⟩
  by_cases hlogout : start.LogsOut out other
  · -- The subject was not revoked when it logged out, and is not any more when the logout is over.
    obtain rfl := hlogout.unique h
    rw [revoked_step_of_logsOut h]
    have hover := habout moment hmoment hother
    have hunrevoked : ¬ start.guard.revocations.Revoked other moment := fun hrevoked =>
      (Guard.check_eq_ok_iff.1 h.2).unrevoked (hrevoked.before hmoment)
    exact iff_of_false (Int.not_lt.2 hover) hunrevoked
  · exact revoked_step_of_not_logsOut hlogout hmoment

theorem endsSession (start : Service) (out : Visit) (later : List Visit) (subject : String)
    (htimes : ((out :: later).map Visit.now).Pairwise (· ≤ ·))
    (hlogout : start.LogsOut out subject) : EndsSession start out later subject := by
  obtain ⟨hfirst, hrest⟩ := List.pairwise_cons.1 htimes
  have hlater : ∀ visit ∈ later, out.now ≤ visit.now := fun visit hvisit =>
    hfirst visit.now (List.mem_map_of_mem hvisit)
  have hstart : Bars start.guard subject out.now (start.step out).after out.now :=
    Bars.of_logsOut hlogout
  have hbars : ∀ step ∈ (start.step out).after.steps later,
      Bars start.guard subject out.now step.before step.visit.now :=
    holds_at_steps (fun service since visit h hle => ⟨h.later hle, h.step hle⟩) hstart hlater hrest
  constructor
  case answered =>
    rw [step_of_logsOut hlogout]
    rfl
  case barred =>
    intro step hstep hbarred
    obtain ⟨-, htaken⟩ := mem_steps hstep
    rw [htaken]
    exact (response_of_turnsAway ((hbars step hstep).turnsAway hbarred)).1
  case lapsed =>
    intro step hstep claims hshows hsubject hends
    exact (hbars step hstep).refuses_lapsed hshows hsubject hends
  case issued =>
    intro step hstep claims hshows hsubject hissued hlifetime
    refine (hbars step hstep).refuses_lapsed hshows hsubject ?_
    simp only [Instant.seconds, nanosPerSecond] at hissued hlifetime ⊢
    omega
  case verdicts =>
    have hagree : Guard.Agree (fun other _ => other ≠ subject) out.now
        (start.step out).after.guard start.guard :=
      agree_of_logsOut hlogout fun moment _ hne => absurd rfl hne
    refine forall₂_steps (R := fun left right since => left.guard.key = start.guard.key ∧
      Guard.Agree (fun other _ => other ≠ subject) since left.guard right.guard)
      (P := fun _ => True) ?_ ⟨hstart.key, hagree⟩ hlater hrest fun _ _ => trivial
    rintro left right since visit ⟨hkey, hagree⟩ hle -
    obtain ⟨hverdict, hafter⟩ := verdicts_step hagree hle
    exact ⟨hkey ▸ hverdict, (left.guard_step visit).1.trans hkey, hafter⟩
  case responses =>
    intro hidle
    have hfollows : Follows start.guard subject out.now (start.step out).after start out.now := by
      refine ⟨?_, hstart, agree_of_logsOut hlogout fun moment _ habout => habout rfl⟩
      rw [step_of_logsOut hlogout]
    refine forall₂_steps (R := Follows start.guard subject out.now)
      (P := fun step => step.visit.Barred start.guard subject out.now → ¬ step.Changed) ?_
      hfollows hlater hrest hidle
    intro left right since visit h hle hidle
    by_cases hbarred : visit.Barred start.guard subject out.now
    · exact ⟨fun hnot => absurd hbarred hnot, h.step_of_barred hle hbarred (hidle hbarred)⟩
    · obtain ⟨hresponse, hafter⟩ := h.step_of_not_barred hle hbarred
      exact ⟨fun _ => hresponse, hafter⟩

/--
In a run whose requests come in order of time a logout ends the session of its subject: what it means
for the requests after it is told by the steps of the run, and by those of the run without it.
-/
theorem logout_endsSession (service : Service) (before : List Visit) (out : Visit)
    (later : List Visit) (subject : String)
    (htimes : ((before ++ out :: later).map Visit.now).Pairwise (· ≤ ·))
    (hlogout : (service.after before).LogsOut out subject) :
    service.steps (before ++ out :: later) = service.steps before ++
      (service.after before).step out :: ((service.after before).step out).after.steps later ∧
    service.steps (before ++ later) =
      service.steps before ++ (service.after before).steps later ∧
    EndsSession (service.after before) out later subject := by
  rw [List.map_append, List.pairwise_append] at htimes
  have hends := endsSession (service.after before) out later subject htimes.2.1 hlogout
  exact ⟨service.steps_append before (out :: later), service.steps_append before later, hends⟩

/-! ## A sample -/

def sampleLogout : Visit :=
  sampleVisit "ann" .post "/auth/logout" 1

def sampleLater : List Visit :=
  [sampleDeletion "ann" 2, sampleDeletion "bob" 3]

theorem logsOut_sample : sample.LogsOut sampleLogout "ann" :=
  ⟨by decide +kernel,
    legible_ann.accepted rfl .post "/auth/logout" 1 (by decide) (unrevoked_sample "ann" _)⟩

theorem sample_endsSession :
    ((sampleLogout :: sampleLater).map Visit.now).Pairwise (· ≤ ·) ∧
    sample.LogsOut sampleLogout "ann" ∧ EndsSession sample sampleLogout sampleLater "ann" := by
  have htimes : ((sampleLogout :: sampleLater).map Visit.now).Pairwise (· ≤ ·) := by decide
  have hends := logout_endsSession sample [] sampleLogout sampleLater "ann" htimes logsOut_sample
  exact ⟨htimes, logsOut_sample, hends.2.2⟩

/-- Everybody else gets the responses of the run without the logout, whatever the subject does. -/
def Unnoticed (start : Service) (out : Visit) (later : List Visit) (subject : String) : Prop :=
  List.Forall₂
    (fun step other => ¬ step.visit.Carries start.guard.key subject →
      step.response = other.response)
    ((start.step out).after.steps later) (start.steps later)

/--
A logout can be noticed: the subject is refused when it deletes the section, so the next one deletes it,
who would find it gone if the logout were left out.
-/
theorem logout_noticed :
    ((sampleLogout :: sampleLater).map Visit.now).Pairwise (· ≤ ·) ∧
    sample.LogsOut sampleLogout "ann" ∧ ¬ Unnoticed sample sampleLogout sampleLater "ann" := by
  refine ⟨by decide, logsOut_sample, fun hunnoticed => ?_⟩
  simp only [Unnoticed, sampleLater, steps, List.forall₂_cons] at hunnoticed
  -- Where the logout counts, the section is still there when the second request comes.
  have hbars : Bars sample.guard "ann" sampleLogout.now (sample.step sampleLogout).after
      (sampleDeletion "ann" 2).now := (Bars.of_logsOut logsOut_sample).later (by decide)
  have hbarred : (sampleDeletion "ann" 2).Barred sample.guard "ann" sampleLogout.now :=
    ⟨⟨.delete .sections ⟨1⟩, by decide +kernel, rfl⟩, ⟨_, legible_ann.shows _ _ _, rfl⟩, by decide⟩
  have hrefused : ((sample.step sampleLogout).after.step (sampleDeletion "ann" 2)).after =
      (sample.step sampleLogout).after := (response_of_turnsAway (hbars.turnsAway hbarred)).2
  have hbob : ¬ sample.LogsOut sampleLogout "bob" := fun hlogout =>
    absurd (hlogout.unique logsOut_sample) (by decide)
  have hleft := legible_bob.deletes (sample.step sampleLogout).after hbars.key 3
    (by decide) fun hrevoked =>
      unrevoked_sample "bob" _ ((revoked_step_of_not_logsOut hbob (by decide)).1 hrevoked)
  -- Where it is left out, the section is gone.
  have hdeletion : ¬ sample.LogsOut (sampleDeletion "ann" 2) "bob" := fun hlogout =>
    absurd hlogout.1 (by decide +kernel)
  have hann := legible_ann.deletes sample rfl 2 (by decide) (unrevoked_sample "ann" _)
  have hright := legible_bob.deletes (sample.step (sampleDeletion "ann" 2)).after
    (sample.guard_step _).1 3 (by decide) fun hrevoked =>
      unrevoked_sample "bob" _ ((revoked_step_of_not_logsOut hdeletion (by decide)).1 hrevoked)
  have hother : ¬ (sampleDeletion "bob" 3).Carries sample.guard.key "ann" := by
    rintro ⟨claims, hshows, hsubject⟩
    have hclaims : claims = sampleClaims "bob" := hshows.unique (legible_bob.shows _ _ _)
    rw [hclaims] at hsubject
    exact absurd hsubject (by decide)
  have hsame := hunnoticed.2.1 hother
  rw [hrefused, hleft.1, hright.1, hann.2, step_of_logsOut logsOut_sample] at hsame
  have hstatus := congrArg Response.status hsame
  revert hstatus
  decide +kernel

end Service

end MapCatalog
