import MapCatalog.Auth.Guard
import MapCatalog.Proofs.Auth.Genuine
import MapCatalog.Proofs.Auth.Revoked

/-! # What the guard accepts -/

namespace MapCatalog

/-! ## The token in an authorization value -/

namespace Guard

def Trims (value core : List Char) : Prop :=
  ∃ before after, value = before ++ (core ++ after) ∧
    (∀ c ∈ before, Text.isBlank c = true) ∧ (∀ c ∈ after, Text.isBlank c = true) ∧
    (∀ c ∈ core.head?, Text.isBlank c = false) ∧ ∀ c ∈ core.getLast?, Text.isBlank c = false

/-- A text begins with the scheme, in letters of any case; behind it the text ends or is blank. -/
structure Led (core word rest : List Char) : Prop where
  text : core = word ++ rest
  letters : word.map Char.toLower = "bearer".toList
  apart : ∀ c ∈ rest.head?, Text.isBlank c = true

/-- What is left of a value without the blanks around it and without the scheme. -/
inductive Carries (value : List Char) : List Char → Prop where
  | led {core word blanks token : List Char} (trims : Trims value core)
      (led : Led core word (blanks ++ token)) (blank : ∀ c ∈ blanks, Text.isBlank c = true)
      (start : ∀ c ∈ token.head?, Text.isBlank c = false) : Carries value token
  | bare {core : List Char} (trims : Trims value core) (bare : ¬ ∃ word rest, Led core word rest) :
      Carries value core

/-- A request presents a token: there is an authorization value, and the token in it is not empty. -/
def Presents (authorization : Option String) (token : String) : Prop :=
  ∃ value, authorization = some value ∧ Carries value.toList token.toList ∧ token ≠ ""

end Guard

/-- A request presents a genuine token that counts, of a subject that is not revoked. -/
structure Guard.Accepts (guard : Guard) (authorization : Option String) (now : Instant)
    (subject : String) : Prop where
  genuine : ∃ token claims, Guard.Presents authorization token ∧ guard.key.Bears token claims ∧
    claims.Live now ∧ claims.subject = subject
  unrevoked : ¬ guard.revocations.Revoked subject now

/-- The first thing that is wrong with the authorization of a request. -/
inductive Guard.Refuses (guard : Guard) (authorization : Option String) (now : Instant) :
    AuthError → Prop where
  | missing (h : ¬ ∃ token, Guard.Presents authorization token) :
      Refuses guard authorization now .missingToken
  | token {token : String} {e : AuthError} (h : Guard.Presents authorization token)
      (refuses : guard.key.Refuses now token e) : Refuses guard authorization now e
  | revoked {token : String} {claims : Claims} (h : Guard.Presents authorization token)
      (bears : guard.key.Bears token claims) (live : claims.Live now)
      (revoked : guard.revocations.Revoked claims.subject now) :
      Refuses guard authorization now (.revoked claims.subject)

namespace Guard

theorem trims_iff {value core : List Char} :
    Trims value core ↔ Text.trimEnd (Text.trimStart value) = core := by
  constructor
  · rintro ⟨before, after, rfl, hbefore, hafter, hhead, hlast⟩
    cases core with
    | nil =>
        -- Nothing is left, so all of the text is blank, in front or behind.
        rw [List.nil_append, Text.trimEnd_eq_nil_iff, List.all_eq_true]
        have hall : ∀ c ∈ before ++ after, Text.isBlank c = true := by
          simpa [or_imp, forall_and] using ⟨hbefore, hafter⟩
        intro c hc
        exact hall c ((List.dropWhile_suffix Text.isBlank).subset hc)
    | cons first core =>
        have hstart : Text.trimStart (before ++ (first :: core ++ after)) = first :: core ++ after :=
          Text.trimStart_eq_iff.2 ⟨before, rfl, hbefore, hhead⟩
        rw [hstart]
        exact Text.trimEnd_eq_iff.2 ⟨after, rfl, hafter, hlast⟩
  · intro h
    obtain ⟨before, hvalue, hbefore, hhead⟩ := Text.trimStart_eq_iff.1 (rfl : _ = Text.trimStart value)
    obtain ⟨after, hrest, hafter, hlast⟩ := Text.trimEnd_eq_iff.1 h
    refine ⟨before, after, by rw [← hrest]; exact hvalue, hbefore, hafter, ?_, hlast⟩
    intro c hc
    cases core with
    | nil =>
        cases hc
    | cons first core =>
        rw [hrest] at hhead
        exact hhead c hc

theorem length_of_letters {word : List Char} (h : word.map Char.toLower = scheme) :
    word.length = scheme.length := by
  rw [← h, List.length_map]

/-- A text is led by the scheme where its first characters are, and in no other way. -/
theorem led_iff {core word rest : List Char} :
    Led core word rest ↔
      (word = core.take scheme.length ∧ rest = core.drop scheme.length) ∧
      (core.take scheme.length).map Char.toLower = scheme ∧
      ((core.drop scheme.length).head?.map Text.isBlank).getD true = true := by
  have happart (rest : List Char) : (rest.head?.map Text.isBlank).getD true = true ↔
      ∀ c ∈ rest.head?, Text.isBlank c = true := by
    cases rest.head? <;> simp
  rw [happart]
  constructor
  · rintro ⟨rfl, hletters, hapart⟩
    have hlength : word.length = scheme.length := length_of_letters hletters
    have htake : (word ++ rest).take scheme.length = word := by
      rw [← hlength, List.take_left]
    have hdrop : (word ++ rest).drop scheme.length = rest := by
      rw [← hlength, List.drop_left]
    rw [htake, hdrop]
    exact ⟨⟨rfl, rfl⟩, hletters, hapart⟩
  · rintro ⟨⟨rfl, rfl⟩, hletters, hapart⟩
    exact ⟨(List.take_append_drop _ _).symm, hletters, hapart⟩

theorem tokenChars_eq_iff {value token : List Char} :
    tokenChars value = token ↔ Carries value token := by
  obtain ⟨core, hcore⟩ : ∃ core, Text.trimEnd (Text.trimStart value) = core := ⟨_, rfl⟩
  have htrims : Trims value core := trims_iff.2 hcore
  have hunique : ∀ {other}, Trims value other → core = other := fun h => by
    rw [← hcore, trims_iff.1 h]
  unfold tokenChars
  simp only [hcore]
  split
  next hled =>
    have hled : Led core (core.take scheme.length) (core.drop scheme.length) :=
      led_iff.2 ⟨⟨rfl, rfl⟩, hled⟩
    rw [Text.trimStart_eq_iff]
    constructor
    · rintro ⟨blanks, hrest, hblanks, hstart⟩
      exact .led htrims (hrest ▸ hled) hblanks hstart
    · rintro (⟨trims, led, blank, start⟩ | ⟨trims, bare⟩)
      · have hparts := (led_iff.1 (hunique trims ▸ led)).1
        exact ⟨_, hparts.2.symm, blank, start⟩
      · exact absurd ⟨_, _, hunique trims ▸ hled⟩ bare
  next hbare =>
    have hbare : ¬ ∃ word rest, Led core word rest := by
      rintro ⟨word, rest, hled⟩
      exact hbare (led_iff.1 hled).2
    constructor
    · rintro rfl
      exact .bare htrims hbare
    · rintro (⟨trims, led, blank, start⟩ | ⟨trims, bare⟩)
      · exact absurd ⟨_, _, hunique trims ▸ led⟩ hbare
      · exact hunique trims

theorem token?_eq_some_iff {authorization : Option String} {token : String} :
    token? authorization = some token ↔ Presents authorization token := by
  cases authorization with
  | none =>
      simp [token?, Presents]
  | some value =>
      simp only [Presents, Option.some.injEq, exists_eq_left', ← tokenChars_eq_iff, token?]
      constructor
      · intro h
        split at h
        next =>
          cases h
        next hne =>
          cases h
          exact ⟨by rw [String.toList_ofList], fun hempty => hne (by simpa using hempty)⟩
      · rintro ⟨htoken, hne⟩
        rw [htoken]
        split
        next hempty =>
          exact absurd (by simpa using hempty) hne
        next =>
          rw [String.ofList_toList]

theorem token?_eq_none_iff {authorization : Option String} :
    token? authorization = none ↔ ¬ ∃ token, Presents authorization token := by
  simp only [Option.eq_none_iff_forall_ne_some, ne_eq, token?_eq_some_iff, not_exists]

/-! ## The verdict -/

variable {guard : Guard} {authorization : Option String} {now : Instant} {token : String}

theorem check_of_missing (h : ¬ ∃ token, Presents authorization token) :
    guard.check authorization now = (.error .missingToken, guard) := by
  rw [check, token?_eq_none_iff.2 h]

theorem check_of_refused (h : Presents authorization token) {e : AuthError}
    (hrefuses : guard.key.Refuses now token e) :
    guard.check authorization now = (.error e, guard) := by
  rw [check, token?_eq_some_iff.2 h]
  simp only [TokenKey.verify_of_refuses hrefuses]

/-- Behind a genuine token that counts, the revocations decide. -/
theorem check_of_live (h : Presents authorization token) {claims : Claims}
    (hbears : guard.key.Bears token claims) (hlive : claims.Live now) :
    guard.check authorization now =
      (if (guard.revocations.check claims.subject now).1 then .error (.revoked claims.subject)
        else .ok claims.subject,
       { guard with revocations := (guard.revocations.check claims.subject now).2 }) := by
  rw [check, token?_eq_some_iff.2 h]
  simp only [TokenKey.verify_of_live hbears hlive]
  split <;> rfl

theorem check_of_accepts {subject : String} (h : guard.Accepts authorization now subject) :
    (guard.check authorization now).1 = .ok subject := by
  obtain ⟨⟨token, claims, hpresents, hbears, hlive, rfl⟩, hunrevoked⟩ := h
  have hverdict := (guard.revocations.check_of_unrevoked claims.subject now hunrevoked).1
  rw [check_of_live hpresents hbears hlive, hverdict, if_neg Bool.false_ne_true]

theorem check_of_refuses {e : AuthError} (h : guard.Refuses authorization now e) :
    guard.check authorization now = (.error e, guard) := by
  cases h with
  | missing hnone =>
      exact check_of_missing hnone
  | token hpresents hrefuses =>
      exact check_of_refused hpresents hrefuses
  | revoked hpresents hbears hlive hrevoked =>
      rw [check_of_live hpresents hbears hlive,
        guard.revocations.check_of_revoked _ now hrevoked, if_pos rfl]

/-- A request is either accepted or fails a first condition. -/
theorem accepts_or_refuses (guard : Guard) (authorization : Option String) (now : Instant) :
    (∃ subject, guard.Accepts authorization now subject) ∨
      ∃ e, guard.Refuses authorization now e := by
  rcases Classical.em (∃ token, Presents authorization token) with ⟨token, hpresents⟩ | hnone
  case inr => exact .inr ⟨_, .missing hnone⟩
  rcases guard.key.bears_or_refuses now token with ⟨claims, hbears, hlive⟩ | ⟨e, hrefuses⟩
  case inr => exact .inr ⟨e, .token hpresents hrefuses⟩
  by_cases hrevoked : guard.revocations.Revoked claims.subject now
  case pos => exact .inr ⟨_, .revoked hpresents hbears hlive hrevoked⟩
  exact .inl ⟨claims.subject, ⟨token, claims, hpresents, hbears, hlive, rfl⟩, hrevoked⟩

theorem check_eq_ok_iff {subject : String} :
    (guard.check authorization now).1 = .ok subject ↔ guard.Accepts authorization now subject := by
  constructor
  · intro h
    rcases guard.accepts_or_refuses authorization now with ⟨other, haccepts⟩ | ⟨e, hrefuses⟩
    · rw [check_of_accepts haccepts, Except.ok.injEq] at h
      exact h ▸ haccepts
    · rw [check_of_refuses hrefuses] at h
      cases h
  · exact check_of_accepts

theorem check_eq_error_iff {e : AuthError} :
    (guard.check authorization now).1 = .error e ↔ guard.Refuses authorization now e := by
  constructor
  · intro h
    rcases guard.accepts_or_refuses authorization now with ⟨subject, haccepts⟩ | ⟨other, hrefuses⟩
    · rw [check_of_accepts haccepts] at h
      cases h
    · rw [check_of_refuses hrefuses, Except.error.injEq] at h
      exact h ▸ hrefuses
  · intro h
    rw [check_of_refuses h]

theorem Refuses.isUnauthorized {e : AuthError} (h : guard.Refuses authorization now e) :
    e.isUnauthorized = true := by
  cases h with
  | missing =>
      rfl
  | token _ hrefuses =>
      cases hrefuses <;> rfl
  | revoked =>
      rfl

/--
The guard accepts exactly the subjects of genuine tokens that count and are not revoked; what it refuses
fails a first condition, which is the error; and such an error means that the bearer is not authorized.
-/
theorem check_decides (guard : Guard) (authorization : Option String) (now : Instant) :
    (∀ subject, (guard.check authorization now).1 = .ok subject ↔
      guard.Accepts authorization now subject) ∧
    (∀ e, (guard.check authorization now).1 = .error e ↔ guard.Refuses authorization now e) ∧
    ∀ e, (guard.check authorization now).1 = .error e → e.isUnauthorized = true := by
  refine ⟨fun subject => check_eq_ok_iff, fun e => check_eq_error_iff, fun e h => ?_⟩
  have hrefuses : guard.Refuses authorization now e := check_eq_error_iff.1 h
  exact hrefuses.isUnauthorized

end Guard

end MapCatalog
