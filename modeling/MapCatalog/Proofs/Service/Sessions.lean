import MapCatalog.Proofs.Service.Authorization

/-! # Sessions

Look-ups drop entries, but none that could still count; a logout revokes its subject.
-/

namespace MapCatalog

/-- A request ends the session of a subject: it asks to log out and the guard accepts its token. -/
def Service.LogsOut (service : Service) (visit : Visit) (subject : String) : Prop :=
  Route.parse visit.request.method visit.request.path = .ok .logout ∧
    service.guard.verdict visit = .ok subject

namespace Service

theorem LogsOut.unique {service : Service} {visit : Visit} {subject other : String}
    (h : service.LogsOut visit subject) (h' : service.LogsOut visit other) : subject = other := by
  have haccepted := h.2
  rw [h'.2, Except.ok.injEq] at haccepted
  exact haccepted.symm

/-- A logout answers, keeps the catalogue and revokes its subject. -/
theorem step_of_logsOut {service : Service} {visit : Visit} {subject : String}
    (h : service.LogsOut visit subject) :
    service.step visit = ⟨service, visit, .ok "message" (.text "logged out"), service.catalog,
      (service.guard.check visit.request.authorization visit.now).2.revoke subject visit.now⟩ := by
  rw [step, handle_of_accepted service visit.request visit.now visit.fresh h.1 rfl h.2]
  rfl

/-- A request that ends no session changes nothing about who is revoked. -/
theorem guard_of_not_logsOut {service : Service} {visit : Visit}
    (h : ∀ subject, ¬ service.LogsOut visit subject) :
    (service.step visit).after.guard = service.guard ∨
      (service.step visit).after.guard =
        (service.guard.check visit.request.authorization visit.now).2 := by
  rcases service.handle_keeps visit.request visit.now visit.fresh with ⟨subject, hin⟩ | hkept
  · obtain ⟨route, hroute, hauth, haccepted⟩ := hin
    have hother : route ≠ .logout := by
      rintro rfl
      exact h subject ⟨hroute, haccepted⟩
    right
    rw [step, handle_of_accepted service visit.request visit.now visit.fresh hroute hauth haccepted]
    exact settle_of_ne _ hother _ _
  · exact .inl (congrArg Service.guard hkept)

theorem guard_step (service : Service) (visit : Visit) :
    (service.step visit).after.guard.key = service.guard.key ∧
    (service.step visit).after.guard.revocations.ttlNanos =
      service.guard.revocations.ttlNanos := by
  have hkey := service.guard.key_check visit.request.authorization visit.now
  have httl := service.guard.ttlNanos_check visit.request.authorization visit.now
  by_cases hlogout : ∃ subject, service.LogsOut visit subject
  · obtain ⟨subject, hlogout⟩ := hlogout
    rw [step_of_logsOut hlogout]
    exact ⟨hkey, httl⟩
  · rcases guard_of_not_logsOut (not_exists.1 hlogout) with hsame | hchecked
    · rw [hsame]
      exact ⟨rfl, rfl⟩
    · rw [hchecked]
      exact ⟨hkey, httl⟩

theorem revoked_step_of_logsOut {service : Service} {visit : Visit} {subject : String}
    (h : service.LogsOut visit subject) (later : Instant) :
    (service.step visit).after.guard.revocations.Revoked subject later ↔
      later.since visit.now < service.guard.revocations.ttl := by
  have httl := service.guard.ttlNanos_check visit.request.authorization visit.now
  rw [step_of_logsOut h]
  have hrevoke := (service.guard.check visit.request.authorization visit.now).2.revocations
    |>.revoked_revoke_iff subject visit.now subject later
  rw [if_pos rfl, Revocations.ttl, httl] at hrevoke
  exact hrevoke

theorem revoked_step_of_not_logsOut {service : Service} {visit : Visit} {subject : String}
    (h : ¬ service.LogsOut visit subject) {later : Instant} (hle : visit.now ≤ later) :
    (service.step visit).after.guard.revocations.Revoked subject later ↔
      service.guard.revocations.Revoked subject later := by
  have hcheck := service.guard.revoked_check_iff visit.request.authorization hle subject
  by_cases hlogout : ∃ other, service.LogsOut visit other
  · obtain ⟨other, hlogout⟩ := hlogout
    have hother : other ≠ subject := by
      rintro rfl
      exact h hlogout
    have hrevoke := (service.guard.check visit.request.authorization visit.now).2.revocations
      |>.revoked_revoke_iff other visit.now subject later
    rw [if_neg hother] at hrevoke
    rw [step_of_logsOut hlogout]
    exact hrevoke.trans hcheck
  · rcases guard_of_not_logsOut (not_exists.1 hlogout) with hsame | hchecked
    · rw [hsame]
    · rw [hchecked]
      exact hcheck

end Service

end MapCatalog
