import MapCatalog.Proofs.Auth.Acceptance

/-! # Guards that agree

The verdict of a guard depends on its key and on whether the subject of the token that it is shown is revoked at that
moment, and on nothing else.
-/

namespace MapCatalog

namespace Guard

/-- An authorization value holds a token of the key with these claims, whether or not they count. -/
def Shows (key : TokenKey) (authorization : Option String) (claims : Claims) : Prop :=
  ∃ token, Presents authorization token ∧ key.Bears token claims

theorem Presents.unique {authorization : Option String} {token other : String}
    (h : Presents authorization token) (h' : Presents authorization other) : token = other := by
  have htoken := token?_eq_some_iff.2 h
  rw [token?_eq_some_iff.2 h'] at htoken
  exact (Option.some.inj htoken).symm

theorem Shows.unique {key : TokenKey} {authorization : Option String} {claims other : Claims}
    (h : Shows key authorization claims) (h' : Shows key authorization other) : claims = other := by
  obtain ⟨token, hpresents, hbears⟩ := h
  obtain ⟨token', hpresents', hbears'⟩ := h'
  have htoken : token = token' := hpresents.unique hpresents'
  subst htoken
  exact hbears.unique hbears'

variable {authorization : Option String} {now : Instant}

theorem Accepts.shows {guard : Guard} {subject : String}
    (h : guard.Accepts authorization now subject) :
    ∃ claims, Shows guard.key authorization claims ∧ claims.Live now ∧ claims.subject = subject := by
  obtain ⟨token, claims, hpresents, hbears, hlive, hsubject⟩ := h.genuine
  exact ⟨claims, ⟨token, hpresents, hbears⟩, hlive, hsubject⟩

theorem accepts_of_shows {guard : Guard} {claims : Claims}
    (hshows : Shows guard.key authorization claims) (hlive : claims.Live now)
    (hunrevoked : ¬ guard.revocations.Revoked claims.subject now) :
    guard.Accepts authorization now claims.subject := by
  obtain ⟨token, hpresents, hbears⟩ := hshows
  exact ⟨⟨token, claims, hpresents, hbears, hlive, rfl⟩, hunrevoked⟩

/-- Guards with one key that agree about the subject of the token give one verdict. -/
theorem check_congr {left right : Guard} (hkey : left.key = right.key)
    (hrevoked : ∀ claims, Shows left.key authorization claims →
      (left.revocations.Revoked claims.subject now ↔
        right.revocations.Revoked claims.subject now)) :
    (left.check authorization now).1 = (right.check authorization now).1 := by
  rcases left.accepts_or_refuses authorization now with ⟨subject, haccepts⟩ | ⟨e, hrefuses⟩
  · obtain ⟨⟨token, claims, hpresents, hbears, hlive, rfl⟩, hunrevoked⟩ := id haccepts
    have hother : ¬ right.revocations.Revoked claims.subject now := fun h =>
      hunrevoked ((hrevoked claims ⟨token, hpresents, hbears⟩).2 h)
    rw [check_of_accepts haccepts, check_of_accepts
      ⟨⟨token, claims, hpresents, hkey ▸ hbears, hlive, rfl⟩, hother⟩]
  · have hother : right.Refuses authorization now e := by
      cases hrefuses with
      | missing hnone =>
          exact .missing hnone
      | token hpresents hrefuses =>
          exact .token hpresents (hkey ▸ hrefuses)
      | revoked hpresents hbears hlive hleft =>
          exact .revoked hpresents (hkey ▸ hbears) hlive
            ((hrevoked _ ⟨_, hpresents, hbears⟩).1 hleft)
    rw [check_of_refuses hrefuses, check_of_refuses hother]

/-- A check looks at one subject at most, and changes nothing else. -/
theorem snd_check (guard : Guard) (authorization : Option String) (now : Instant) :
    (guard.check authorization now).2 = guard ∨
      ∃ subject, (guard.check authorization now).2 =
        { guard with revocations := (guard.revocations.check subject now).2 } := by
  rcases guard.accepts_or_refuses authorization now with ⟨subject, haccepts⟩ | ⟨e, hrefuses⟩
  · obtain ⟨token, claims, hpresents, hbears, hlive, -⟩ := haccepts.genuine
    exact .inr ⟨claims.subject, by rw [check_of_live hpresents hbears hlive]⟩
  · exact .inl (by rw [check_of_refuses hrefuses])

theorem key_check (guard : Guard) (authorization : Option String) (now : Instant) :
    (guard.check authorization now).2.key = guard.key := by
  rcases guard.snd_check authorization now with hsame | ⟨subject, hlooked⟩
  · rw [hsame]
  · rw [hlooked]

theorem ttlNanos_check (guard : Guard) (authorization : Option String) (now : Instant) :
    (guard.check authorization now).2.revocations.ttlNanos = guard.revocations.ttlNanos := by
  rcases guard.snd_check authorization now with hsame | ⟨subject, hlooked⟩
  · rw [hsame]
  · rw [hlooked]
    exact guard.revocations.ttlNanos_check subject now

/-- A check changes nothing about who is revoked, at its moment or at a later one. -/
theorem revoked_check_iff (guard : Guard) (authorization : Option String) {later : Instant}
    (hle : now ≤ later) (subject : String) :
    (guard.check authorization now).2.revocations.Revoked subject later ↔
      guard.revocations.Revoked subject later := by
  rcases guard.snd_check authorization now with hsame | ⟨looked, hlooked⟩
  · rw [hsame]
  · rw [hlooked]
    exact guard.revocations.revoked_check_iff looked now hle subject

/-- Guards agree about some subjects, each at some moments, from one moment on. -/
structure Agree (about : String → Instant → Prop) (start : Instant) (left right : Guard) :
    Prop where
  key : left.key = right.key
  ttlNanos : left.revocations.ttlNanos = right.revocations.ttlNanos
  revoked : ∀ subject moment, start ≤ moment → about subject moment →
    (left.revocations.Revoked subject moment ↔ right.revocations.Revoked subject moment)

/-- Guards that agree about the subject of a token at a moment give one verdict about it. -/
theorem Agree.check {about : String → Instant → Prop} {start : Instant} {left right : Guard}
    (h : Agree about start left right) (hle : start ≤ now)
    (habout : ∀ claims, Shows left.key authorization claims → about claims.subject now) :
    (left.check authorization now).1 = (right.check authorization now).1 := by
  refine check_congr h.key fun claims hshows => ?_
  exact h.revoked claims.subject now hle (habout claims hshows)

end Guard

end MapCatalog
