import MapCatalog.Console.Command
import MapCatalog.Proofs.Auth.Minted
import MapCatalog.Proofs.Service.Paths

/-! # Lifetimes of issued tokens -/

namespace MapCatalog

namespace Instant

variable {moment : Instant} {seconds : Nat}

def later (moment : Instant) (seconds : Nat) : Instant :=
  ⟨moment.nanos + seconds * nanosPerSecond⟩

theorem seconds_later (moment : Instant) (seconds : Nat) :
    (moment.later seconds).seconds = moment.seconds + seconds := by
  simp only [later, Instant.seconds, nanosPerSecond]
  omega

/-- The calendar is shorter than the longest span, so from no moment does it reach that far. -/
theorem not_representable_later (hmoment : moment.representable = true)
    (hlong : Span.maxSeconds < seconds) : (moment.later seconds).representable = false := by
  have hlow := (representable_iff.1 hmoment).1
  rw [Bool.eq_false_iff, ne_eq, representable_iff, seconds_later]
  simp only [firstSecond, lastSecond, Span.maxSeconds] at hlow hlong ⊢
  omega

theorem add?_longest (hmoment : moment.representable = true) : moment.add? .longest = none := by
  have hlow := (representable_iff.1 hmoment).1
  refine if_neg ?_
  rw [representable_iff]
  simp only [firstSecond, lastSecond, Instant.seconds, nanosPerSecond, Span.longest] at hlow ⊢
  omega

theorem add?_ofSeconds (moment : Instant) (seconds : Nat) :
    moment.add? ⟨seconds * nanosPerSecond⟩ =
      if (moment.later seconds).representable then some (moment.later seconds) else none :=
  rfl

end Instant

theorem Span.ofSeconds?_of_le {seconds : Nat} (h : (seconds : Int) ≤ maxSeconds) :
    ofSeconds? seconds = some ⟨seconds * nanosPerSecond⟩ := by
  have hlow : -maxSeconds ≤ (seconds : Int) := by
    simp only [maxSeconds]
    omega
  exact if_pos ⟨hlow, h⟩

theorem Span.ofSeconds?_of_lt {seconds : Nat} (h : maxSeconds < (seconds : Int)) :
    ofSeconds? seconds = none :=
  if_neg fun hrange => absurd hrange.2 (Int.not_le.2 h)

theorem TokenKey.issue_eq (key : TokenKey) (subject : String) (moment : Instant) (seconds : Nat) :
    key.issue subject moment ⟨seconds * nanosPerSecond⟩ =
      if (moment.later seconds).representable then
        .ok (key.tokenOf ⟨subject, moment.seconds, moment.seconds + seconds⟩)
      else
        .error .endlessLifetime := by
  rw [issue, Instant.add?_ofSeconds]
  by_cases hend : (moment.later seconds).representable = true
  · simp only [if_pos hend, Instant.seconds_later]
  · simp only [if_neg hend]

namespace Command

variable {settings : Settings} {subject token : String} {seconds : Option UInt64} {now : Instant}

def askedSeconds (settings : Settings) (seconds : Option UInt64) : Nat :=
  (seconds.getD settings.auth.tokenSeconds).toNat

/-- What is short enough for a span is taken as it is, and what is not is refused on the command line and
cut to the longest span in the settings. -/
theorem lifetime_eq (settings : Settings) (seconds : Option UInt64) :
    lifetime settings seconds =
      match Span.ofSeconds? (askedSeconds settings seconds) with
      | some span => .ok span
      | none => if seconds.isSome then .error .lifetime else .ok .longest := by
  cases seconds with
  | none =>
      simp only [lifetime, Settings.tokenSpan, askedSeconds, Option.getD_none]
      cases Span.ofSeconds? (settings.auth.tokenSeconds.toNat : Int) <;> rfl
  | some seconds =>
      simp only [lifetime, askedSeconds, Option.getD_some]
      cases Span.ofSeconds? (seconds.toNat : Int) <;> rfl

theorem lifetime_of_le (h : (askedSeconds settings seconds : Int) ≤ Span.maxSeconds) :
    lifetime settings seconds = .ok ⟨askedSeconds settings seconds * nanosPerSecond⟩ := by
  rw [lifetime_eq, Span.ofSeconds?_of_le h]

theorem lifetime_of_lt (h : Span.maxSeconds < (askedSeconds settings seconds : Int)) :
    lifetime settings seconds = if seconds.isSome then .error .lifetime else .ok .longest := by
  rw [lifetime_eq, Span.ofSeconds?_of_lt h]

/-! ## What the command comes to -/

section Issuing

variable {key : TokenKey} (hsubject : Text.allBlank subject = false)
  (hnow : now.representable = true) (hkey : settings.tokenKey = .ok key)

include hsubject hkey

theorem issue_of_lifetime {span : Span} (hspan : lifetime settings seconds = .ok span) :
    issue settings subject seconds now = (key.issue subject now span).mapError .issue := by
  simp only [issue, hsubject, hkey, hspan, Bool.false_eq_true, if_false]

theorem issue_of_no_lifetime {failure : CommandError}
    (hspan : lifetime settings seconds = .error failure) :
    issue settings subject seconds now = .error failure := by
  simp only [issue, hsubject, hkey, hspan, Bool.false_eq_true, if_false]

include hnow

/-- A lifetime that ends at a moment with a date is short enough, and so it is the one of the token. -/
theorem issue_of_representable
    (hend : (now.later (askedSeconds settings seconds)).representable = true) :
    issue settings subject seconds now =
      .ok (key.tokenOf ⟨subject, now.seconds, now.seconds + askedSeconds settings seconds⟩) := by
  have hshort : (askedSeconds settings seconds : Int) ≤ Span.maxSeconds := by
    rw [← Int.not_lt]
    intro hlong
    rw [Instant.not_representable_later hnow hlong] at hend
    cases hend
  rw [issue_of_lifetime hsubject hkey (lifetime_of_le hshort), TokenKey.issue_eq, if_pos hend]
  rfl

theorem exists_error_of_not_representable
    (hend : (now.later (askedSeconds settings seconds)).representable = false) :
    ∃ failure, issue settings subject seconds now = .error failure := by
  by_cases hlong : Span.maxSeconds < (askedSeconds settings seconds : Int)
  · have hspan := lifetime_of_lt hlong
    cases hseconds : seconds.isSome with
    | true =>
        rw [hseconds, if_pos rfl] at hspan
        exact ⟨.lifetime, issue_of_no_lifetime hsubject hkey hspan⟩
    | false =>
        -- The settings ask for more than the longest span, and even that is too much for the calendar.
        rw [hseconds, if_neg Bool.false_ne_true] at hspan
        refine ⟨.issue .endlessLifetime, ?_⟩
        rw [issue_of_lifetime hsubject hkey hspan, TokenKey.issue, Instant.add?_longest hnow]
        rfl
  · refine ⟨.issue .endlessLifetime, ?_⟩
    rw [issue_of_lifetime hsubject hkey (lifetime_of_le (Int.not_lt.1 hlong)), TokenKey.issue_eq, hend]
    rfl

end Issuing

/-- Without a key no token is issued, whatever the subject. -/
theorem exists_key_of_issue (h : issue settings subject seconds now = .ok token) :
    ∃ key, settings.tokenKey = .ok key := by
  rw [issue] at h
  split at h
  case isTrue => cases h
  case isFalse =>
    cases hkey : settings.tokenKey with
    | error e =>
        rw [hkey] at h
        cases h
    | ok key => exact ⟨key, rfl⟩

/--
A token lives for some seconds from a moment on: the claims under its signature say so, and it is accepted
in just these seconds.
-/
structure Lives (settings : Settings) (token subject : String) (start : Instant) (seconds : Nat) :
    Prop where
  bears : ∃ key, settings.tokenKey = .ok key ∧
    key.Bears token ⟨subject, start.seconds, start.seconds + seconds⟩
  span : ∀ key claims, settings.tokenKey = .ok key → key.Bears token claims →
    claims.expiresAt - claims.issuedAt = seconds
  counts : ∀ now, (∃ claims, verify settings token now = .ok claims) ↔
    now.seconds < start.seconds + seconds

theorem verify_eq_ok_iff {key : TokenKey} {claims : Claims} (hkey : settings.tokenKey = .ok key)
    (hsolid : ∀ c ∈ token.toList, Text.isBlank c = false) :
    verify settings token now = .ok claims ↔ key.verify token now = .ok claims := by
  simp only [verify, hkey, Text.trim_of_solid hsolid]
  cases key.verify token now <;> simp [Except.mapError]

theorem lives_tokenOf {key : TokenKey} {start : Instant} {lifetime : Nat}
    (hsubject : Text.allBlank subject = false) (hkey : settings.tokenKey = .ok key)
    (hstart : start.representable = true) (hend : (start.later lifetime).representable = true) :
    Lives settings (key.tokenOf ⟨subject, start.seconds, start.seconds + lifetime⟩) subject start
      lifetime := by
  have hlast := Instant.seconds_range hend
  rw [Instant.seconds_later] at hlast
  have hsized : Claims.Sized ⟨subject, start.seconds, start.seconds + lifetime⟩ :=
    ⟨(Instant.seconds_range hstart).1, (Instant.seconds_range hstart).2, hlast.1, hlast.2⟩
  have hbears := key.bears_tokenOf (Claims.holds_segment hsized)
  refine ⟨⟨key, hkey, hbears⟩, ?_, fun now => ?_⟩
  · intro other claims hother hclaims
    rw [hkey, Except.ok.injEq] at hother
    subst hother
    rw [hclaims.unique hbears]
    simp only
    omega
  · simp only [verify_eq_ok_iff hkey (key.solid_tokenOf _), TokenKey.verify_eq_ok_iff]
    constructor
    · rintro ⟨claims, hclaims, hlive⟩
      obtain rfl := hclaims.unique hbears
      exact hlive.expiry
    · intro hnow
      exact ⟨_, hbears, (Claims.named_iff _).2 hsubject, hnow⟩

/--
Whatever lifetime is asked for, and at whatever moment, a token that is issued lives for exactly as many
seconds.  One is issued exactly when there is a key and the moment at which they are over has a date.
-/
theorem issued_lives_as_asked (settings : Settings) {subject : String} (seconds : Option UInt64)
    {now : Instant} (hsubject : Text.allBlank subject = false) (hnow : now.representable = true) :
    let asked := askedSeconds settings seconds
    (∀ token, issue settings subject seconds now = .ok token →
      Lives settings token subject now asked) ∧
    ((∃ token, issue settings subject seconds now = .ok token) ↔
      (∃ key, settings.tokenKey = .ok key) ∧ (now.later asked).representable = true) ∧
    ((now.later asked).representable = false →
      ∃ failure, issue settings subject seconds now = .error failure) := by
  intro asked
  have hissue : ∀ key, settings.tokenKey = .ok key → (now.later asked).representable = true →
      issue settings subject seconds now =
        .ok (key.tokenOf ⟨subject, now.seconds, now.seconds + asked⟩) :=
    fun key hkey hend => issue_of_representable hsubject hnow hkey hend
  have hdated : ∀ token, issue settings subject seconds now = .ok token →
      (∃ key, settings.tokenKey = .ok key) ∧ (now.later asked).representable = true := by
    intro token h
    obtain ⟨key, hkey⟩ := exists_key_of_issue h
    refine ⟨⟨key, hkey⟩, ?_⟩
    rw [← Bool.not_eq_false]
    intro hend
    obtain ⟨failure, hfails⟩ := exists_error_of_not_representable hsubject hnow hkey hend
    rw [hfails] at h
    cases h
  refine ⟨?_, ⟨fun ⟨token, h⟩ => hdated token h, ?_⟩, ?_⟩
  · intro token h
    obtain ⟨⟨key, hkey⟩, hend⟩ := hdated token h
    rw [hissue key hkey hend, Except.ok.injEq] at h
    exact h ▸ lives_tokenOf hsubject hkey hnow hend
  · rintro ⟨⟨key, hkey⟩, hend⟩
    exact ⟨_, hissue key hkey hend⟩
  · intro hend
    cases h : issue settings subject seconds now with
    | error failure => exact ⟨failure, rfl⟩
    | ok token => exact absurd (hend.symm.trans (hdated token h).2) Bool.false_ne_true

def sampleLasting : Settings :=
  { Settings.standard with auth := ⟨some "k", 18446744073709551615, 86400⟩ }

/-- Ten minutes on the command line, from half a second past the start of 1970, and no end in the settings. -/
theorem sample_lives_as_asked :
    Text.allBlank "ann" = false ∧ (⟨500000000⟩ : Instant).representable = true ∧
    (∃ token, issue sampleLasting "ann" (some 600) ⟨500000000⟩ = .ok token ∧
      Lives sampleLasting token "ann" ⟨500000000⟩ 600) ∧
    ∃ failure, issue sampleLasting "ann" none ⟨500000000⟩ = .error failure := by
  have hsubject : Text.allBlank "ann" = false := by decide
  have hnow : (⟨500000000⟩ : Instant).representable = true := by decide
  have hkey : ∃ key, sampleLasting.tokenKey = .ok key := ⟨_, rfl⟩
  obtain ⟨hlives, hissued, -⟩ := issued_lives_as_asked sampleLasting (some 600) hsubject hnow
  obtain ⟨-, -, hfails⟩ := issued_lives_as_asked sampleLasting none hsubject hnow
  obtain ⟨token, htoken⟩ := hissued.2 ⟨hkey, by decide⟩
  exact ⟨hsubject, hnow, ⟨token, htoken, hlives token htoken⟩, hfails (by decide)⟩

end Command

end MapCatalog
