import MapCatalog.Auth.Revocation

/-! # Who is revoked -/

namespace MapCatalog

/-- The subject was revoked less than the time to live ago. -/
def Revocations.Revoked (revocations : Revocations) (subject : String) (now : Instant) : Prop :=
  ∃ revokedAt, revocations.entries.get? subject = some revokedAt ∧
    now.since revokedAt < revocations.ttl

namespace Revocations

variable (revocations : Revocations) (subject : String) (now : Instant)

theorem live_iff (revokedAt : Instant) :
    revocations.live now revokedAt = true ↔ now.since revokedAt < revocations.ttl := by
  simp [live]

theorem revoked_congr {left right : Revocations} {subject : String}
    (hentry : left.entries.get? subject = right.entries.get? subject)
    (httl : left.ttlNanos = right.ttlNanos) (now : Instant) :
    left.Revoked subject now ↔ right.Revoked subject now := by
  rw [Revoked, Revoked, hentry, ttl, ttl, httl]

/-- Somebody who is revoked at a moment was so before, since the same entry. -/
theorem Revoked.before {revocations : Revocations} {subject : String} {now earlier : Instant}
    (h : revocations.Revoked subject now) (hle : earlier ≤ now) :
    revocations.Revoked subject earlier := by
  obtain ⟨revokedAt, hentry, hlive⟩ := h
  have hshorter := Instant.since_le_since_left hle revokedAt
  exact ⟨revokedAt, hentry, Int.lt_of_le_of_lt hshorter hlive⟩

/-! ## Look-ups -/

theorem check_of_revoked (h : revocations.Revoked subject now) :
    revocations.check subject now = (true, revocations) := by
  obtain ⟨revokedAt, hentry, hlive⟩ := h
  have hlive : revocations.live now revokedAt = true := (revocations.live_iff now revokedAt).2 hlive
  simp only [check, hentry, hlive, if_true]

theorem check_of_unrevoked (h : ¬ revocations.Revoked subject now) :
    (revocations.check subject now).1 = false ∧
    (revocations.check subject now).2.ttlNanos = revocations.ttlNanos ∧
    ∀ other, (revocations.check subject now).2.entries.get? other =
      if subject = other then none else revocations.entries.get? other := by
  unfold check
  cases hentry : revocations.entries.get? subject with
  | none =>
      refine ⟨rfl, rfl, fun other => ?_⟩
      by_cases hother : subject = other
      · rw [if_pos hother, ← hother, hentry]
      · rw [if_neg hother]
  | some revokedAt =>
      have hdead : ¬ revocations.live now revokedAt = true := fun hlive =>
        h ⟨revokedAt, hentry, (revocations.live_iff now revokedAt).1 hlive⟩
      simp only [hdead]
      exact ⟨rfl, rfl, revocations.entries.get?_erase subject⟩

theorem fst_check_iff :
    (revocations.check subject now).1 = true ↔ revocations.Revoked subject now := by
  by_cases h : revocations.Revoked subject now
  · simp [check_of_revoked revocations subject now h, h]
  · simp [check_of_unrevoked revocations subject now h, h]

theorem ttlNanos_check :
    (revocations.check subject now).2.ttlNanos = revocations.ttlNanos := by
  by_cases h : revocations.Revoked subject now
  · rw [check_of_revoked revocations subject now h]
  · exact (check_of_unrevoked revocations subject now h).2.1

/-- A look-up changes nothing about who is revoked, at its moment or at a later one. -/
theorem revoked_check_iff {later : Instant} (hle : now ≤ later) (other : String) :
    (revocations.check subject now).2.Revoked other later ↔ revocations.Revoked other later := by
  by_cases h : revocations.Revoked subject now
  · rw [check_of_revoked revocations subject now h]
  obtain ⟨-, httl, hentries⟩ := check_of_unrevoked revocations subject now h
  by_cases hother : subject = other
  · subst hother
    have hgone : (revocations.check subject now).2.entries.get? subject = none := by
      rw [hentries, if_pos rfl]
    constructor
    · rintro ⟨revokedAt, hentry, -⟩
      rw [hgone] at hentry
      cases hentry
    · intro hlater
      exact absurd (hlater.before hle) h
  · have hentry := hentries other
    rw [if_neg hother] at hentry
    exact revoked_congr hentry httl later

/-! ## Revoking -/

/-- Whoever is revoked stays so for the time to live, and nothing changes for anybody else. -/
theorem revoked_revoke_iff (other : String) (later : Instant) :
    (revocations.revoke subject now).Revoked other later ↔
      if subject = other then later.since now < revocations.ttl
      else revocations.Revoked other later := by
  by_cases hother : subject = other
  · subst hother
    simp [Revoked, revoke, ttl]
  · rw [if_neg hother]
    have hentry : (revocations.revoke subject now).entries.get? other =
        revocations.entries.get? other := by
      rw [revoke, Table.get?_insert, if_neg hother]
    have httl : (revocations.revoke subject now).ttlNanos = revocations.ttlNanos := rfl
    exact revoked_congr hentry httl later

end Revocations

end MapCatalog
