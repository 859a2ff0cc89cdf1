import MapCatalog.Auth.Token
import MapCatalog.Proofs.Bytes.Base64Url

/-! # Genuine tokens

The conditions are said without the decoders and build on one another in the order in which they are checked, so a
text that is refused is refused for the first of them that it fails.
-/

namespace MapCatalog

/-- The characters are the base64 of a document which reads as a value. -/
def Token.Holds {α : Type} (decode : Decoder α) (chars : List Char) (value : α) : Prop :=
  ∃ bytes, chars = Base64Url.encode bytes ∧
    Decode.ofText decode (Utf8.documentChars bytes) = .ok value

/-- A text falls into three segments at its dots, of which there are two. -/
structure Token.Segments (token : String) (header claims code : List Char) : Prop where
  text : token.toList = header ++ '.' :: (claims ++ '.' :: code)
  dotless_header : '.' ∉ header
  dotless_claims : '.' ∉ claims
  dotless_code : '.' ∉ code

structure Token.Headed (token : String) (header claims code : List Char) : Prop
    extends Token.Segments token header claims code where
  algorithm : ∃ found, Token.Holds TokenHeader.decode header found ∧ found.algorithm = "HS256"

namespace TokenKey

/-- The last segment is the authentication code of the first two under the secret. -/
structure Signed (key : TokenKey) (token : String) (header claims code : List Char) : Prop
    extends Token.Headed token header claims code where
  signature :
    code = Base64Url.encode (Hmac.code key.secret (Utf8.encode (header ++ '.' :: claims)))

/-- A text is a token of the key with these claims, whether or not they still count. -/
def Bears (key : TokenKey) (token : String) (claims : Claims) : Prop :=
  ∃ header text code,
    key.Signed token header text code ∧ Token.Holds Claims.decode text claims

end TokenKey

namespace Claims

def Named (claims : Claims) : Prop :=
  ∃ c ∈ claims.subject.toList, Text.isBlank c = false

structure Live (claims : Claims) (now : Instant) : Prop where
  named : claims.Named
  expiry : now.seconds < claims.expiresAt

end Claims

/-- What is wrong with a text at a moment: the first condition that it fails. -/
inductive TokenKey.Refuses (key : TokenKey) (now : Instant) (token : String) : AuthError → Prop where
  | segments (h : ¬ ∃ header claims code, Token.Segments token header claims code) :
      Refuses key now token (.malformed .segments)
  | header {header claims code : List Char}
      (h : Token.Segments token header claims code)
      (unread : ¬ ∃ found, Token.Holds TokenHeader.decode header found) :
      Refuses key now token (.malformed .header)
  | algorithm {header claims code : List Char} {found : TokenHeader}
      (h : Token.Segments token header claims code)
      (read : Token.Holds TokenHeader.decode header found) (other : found.algorithm ≠ "HS256") :
      Refuses key now token (.unsupportedAlgorithm found.algorithm)
  | signature {header claims code : List Char}
      (h : Token.Headed token header claims code)
      (undecoded : ¬ ∃ bytes, code = Base64Url.encode bytes) :
      Refuses key now token (.malformed .signature)
  | mismatch {header claims code : List Char} {bytes : List UInt8}
      (h : Token.Headed token header claims code)
      (decoded : code = Base64Url.encode bytes)
      (other : bytes ≠ Hmac.code key.secret (Utf8.encode (header ++ '.' :: claims))) :
      Refuses key now token .badSignature
  | claims {header text code : List Char}
      (h : key.Signed token header text code)
      (unread : ¬ ∃ claims, Token.Holds Claims.decode text claims) :
      Refuses key now token (.malformed .claims)
  | subject {claims : Claims} (h : key.Bears token claims) (unnamed : ¬ claims.Named) :
      Refuses key now token (.malformed .subject)
  | expired {claims : Claims} (h : key.Bears token claims) (named : claims.Named)
      (past : claims.expiresAt ≤ now.seconds) :
      Refuses key now token (.expired claims.expiresAt)

/-! ## Segments and what they hold -/

namespace Token

theorem segments_iff {token : String} {header claims code : List Char} :
    Segments token header claims code ↔
      Text.pieces (· == '.') token.toList = [header, claims, code] := by
  have dotless (chars : List Char) : (∀ c ∈ chars, (c == '.') = false) ↔ '.' ∉ chars := by
    constructor
    · intro h hmem
      have hdot := h '.' hmem
      cases hdot
    · intro h c hc
      simpa using fun heq : c = '.' => h (heq ▸ hc)
  simp only [Text.pieces_eq_cons_cons_iff, Text.pieces_eq_singleton_iff, dotless, beq_iff_eq]
  constructor
  · intro h
    exact ⟨'.', _, h.text, h.dotless_header, rfl, '.', code, rfl, h.dotless_claims, rfl, rfl,
      h.dotless_code⟩
  · rintro ⟨_, _, htext, hheader, rfl, _, _, rfl, hclaims, rfl, rfl, hcode⟩
    exact ⟨htext, hheader, hclaims, hcode⟩

theorem Segments.unique {token : String} {header claims code header' claims' code' : List Char}
    (h : Segments token header claims code) (h' : Segments token header' claims' code') :
    header = header' ∧ claims = claims' ∧ code = code' := by
  have hpieces := segments_iff.1 h
  rw [segments_iff.1 h'] at hpieces
  simpa [eq_comm] using hpieces

theorem readSegment_eq_some_iff {α : Type} {decode : Decoder α} {chars : List Char} {value : α} :
    TokenKey.readSegment decode chars = some value ↔ Holds decode chars value := by
  unfold TokenKey.readSegment Holds
  constructor
  · intro h
    split at h
    next =>
      cases h
    next bytes hbytes =>
      split at h
      next =>
        cases h
      next found hfound =>
        cases h
        exact ⟨bytes, Base64Url.decode?_eq_some_iff.1 hbytes, hfound⟩
  · rintro ⟨bytes, rfl, hread⟩
    simp only [Base64Url.decode?_encode, hread]

theorem readSegment_eq_none_iff {α : Type} {decode : Decoder α} {chars : List Char} :
    TokenKey.readSegment decode chars = none ↔ ¬ ∃ value, Holds decode chars value := by
  simp only [Option.eq_none_iff_forall_ne_some, ne_eq, readSegment_eq_some_iff, not_exists]

theorem Holds.unique {α : Type} {decode : Decoder α} {chars : List Char} {value other : α}
    (h : Holds decode chars value) (h' : Holds decode chars other) : value = other := by
  have hread := readSegment_eq_some_iff.2 h
  rw [readSegment_eq_some_iff.2 h'] at hread
  exact (Option.some.inj hread).symm

end Token

theorem Claims.named_iff (claims : Claims) :
    claims.Named ↔ Text.allBlank claims.subject = false := by
  simp [Named, Text.allBlank]

/-! ## The check of a token -/

namespace TokenKey

variable {key : TokenKey} {now : Instant} {token : String}

theorem Bears.unique {claims other : Claims} (h : key.Bears token claims)
    (h' : key.Bears token other) : claims = other := by
  obtain ⟨header, text, code, hsigned, hholds⟩ := h
  obtain ⟨header', text', code', hsigned', hholds'⟩ := h'
  obtain ⟨-, rfl, -⟩ := hsigned.toSegments.unique hsigned'.toSegments
  exact hholds.unique hholds'

theorem verify_of_segments {header claims code : List Char}
    (h : Token.Segments token header claims code) :
    key.verify token now = key.verifySegments now header claims code := by
  rw [verify, Token.segments_iff.1 h]

theorem verify_of_headed {header text code : List Char}
    (h : Token.Headed token header text code) :
    key.verify token now =
      match Base64Url.decode? code with
      | none => .error (.malformed .signature)
      | some bytes =>
          if bytes ≠ key.sign (header ++ '.' :: text) then
            .error .badSignature
          else
            match readSegment Claims.decode text with
            | none => .error (.malformed .claims)
            | some claims => checkClaims now claims := by
  obtain ⟨found, hfound, halgorithm⟩ := h.algorithm
  have hname : ¬ found.algorithm ≠ TokenHeader.algorithmName := not_not.2 halgorithm
  rw [verify_of_segments h.toSegments, verifySegments, Token.readSegment_eq_some_iff.2 hfound]
  exact if_neg hname

theorem verify_of_signed {header text code : List Char}
    (h : key.Signed token header text code) :
    key.verify token now =
      match readSegment Claims.decode text with
      | none => .error (.malformed .claims)
      | some claims => checkClaims now claims := by
  rw [verify_of_headed h.toHeaded, h.signature, Base64Url.decode?_encode]
  exact if_neg (not_not.2 rfl)

theorem verify_of_bears {claims : Claims} (h : key.Bears token claims) :
    key.verify token now = checkClaims now claims := by
  obtain ⟨header, text, code, hsigned, hholds⟩ := h
  rw [verify_of_signed hsigned, Token.readSegment_eq_some_iff.2 hholds]

theorem verify_of_live {claims : Claims} (h : key.Bears token claims) (hlive : claims.Live now) :
    key.verify token now = .ok claims := by
  have hnamed := (Claims.named_iff claims).1 hlive.named
  have hexpiry : ¬ claims.expiresAt ≤ now.seconds := Int.not_le.2 hlive.expiry
  rw [verify_of_bears h, checkClaims, hnamed, if_neg Bool.false_ne_true, if_neg hexpiry]

theorem verify_of_refuses {e : AuthError} (h : key.Refuses now token e) :
    key.verify token now = .error e := by
  cases h with
  | segments hnone =>
      unfold verify
      split
      next header claims code hpieces =>
        exact absurd ⟨header, claims, code, Token.segments_iff.2 hpieces⟩ hnone
      next =>
        rfl
  | header hsegments hunread =>
      rw [verify_of_segments hsegments, verifySegments, Token.readSegment_eq_none_iff.2 hunread]
  | algorithm hsegments hread hother =>
      rw [verify_of_segments hsegments, verifySegments, Token.readSegment_eq_some_iff.2 hread]
      exact if_pos hother
  | signature hheaded hundecoded =>
      have hnone : Base64Url.decode? _ = none := Option.eq_none_iff_forall_ne_some.2
        fun bytes hbytes => hundecoded ⟨bytes, Base64Url.decode?_eq_some_iff.1 hbytes⟩
      rw [verify_of_headed hheaded, hnone]
  | mismatch hheaded hdecoded hother =>
      rw [verify_of_headed hheaded, hdecoded, Base64Url.decode?_encode]
      exact if_pos hother
  | claims hsigned hunread =>
      rw [verify_of_signed hsigned, Token.readSegment_eq_none_iff.2 hunread]
  | @subject claims hbears hunnamed =>
      have hblank : Text.allBlank claims.subject = true := by
        simpa [Claims.named_iff] using hunnamed
      rw [verify_of_bears hbears, checkClaims, if_pos hblank]
  | expired hbears hnamed hover =>
      rw [verify_of_bears hbears, checkClaims, (Claims.named_iff _).1 hnamed,
        if_neg Bool.false_ne_true, if_pos hover]

/-- A text bears claims that count, or there is a first condition that it fails. -/
theorem bears_or_refuses (key : TokenKey) (now : Instant) (token : String) :
    (∃ claims, key.Bears token claims ∧ claims.Live now) ∨ ∃ e, key.Refuses now token e := by
  -- One condition after the other: where it fails it is the first that does, else it serves the next.
  rcases Classical.em (∃ header text code, Token.Segments token header text code) with
    ⟨header, text, code, hsegments⟩ | hsegments
  case inr => exact .inr ⟨_, .segments hsegments⟩
  rcases Classical.em (∃ found, Token.Holds TokenHeader.decode header found) with
    ⟨found, hfound⟩ | hheader
  case inr => exact .inr ⟨_, .header hsegments hheader⟩
  by_cases halgorithm : found.algorithm = "HS256"
  case neg => exact .inr ⟨_, .algorithm hsegments hfound halgorithm⟩
  have hheaded : Token.Headed token header text code := ⟨hsegments, found, hfound, halgorithm⟩
  rcases Classical.em (∃ bytes, code = Base64Url.encode bytes) with ⟨bytes, hbytes⟩ | hcode
  case inr => exact .inr ⟨_, .signature hheaded hcode⟩
  by_cases hmac : bytes = Hmac.code key.secret (Utf8.encode (header ++ '.' :: text))
  case neg => exact .inr ⟨_, .mismatch hheaded hbytes hmac⟩
  have hsigned : key.Signed token header text code := ⟨hheaded, hmac ▸ hbytes⟩
  rcases Classical.em (∃ claims, Token.Holds Claims.decode text claims) with
    ⟨claims, hholds⟩ | hclaims
  case inr => exact .inr ⟨_, .claims hsigned hclaims⟩
  have hbears : key.Bears token claims := ⟨header, text, code, hsigned, hholds⟩
  by_cases hnamed : claims.Named
  case neg => exact .inr ⟨_, .subject hbears hnamed⟩
  by_cases hexpiry : now.seconds < claims.expiresAt
  case neg => exact .inr ⟨_, .expired hbears hnamed (Int.not_lt.1 hexpiry)⟩
  exact .inl ⟨claims, hbears, hnamed, hexpiry⟩

theorem verify_eq_ok_iff {claims : Claims} :
    key.verify token now = .ok claims ↔ key.Bears token claims ∧ claims.Live now := by
  constructor
  · intro h
    rcases bears_or_refuses key now token with ⟨found, hbears, hlive⟩ | ⟨e, hrefuses⟩
    · rw [verify_of_live hbears hlive, Except.ok.injEq] at h
      subst h
      exact ⟨hbears, hlive⟩
    · rw [verify_of_refuses hrefuses] at h
      cases h
  · rintro ⟨hbears, hlive⟩
    exact verify_of_live hbears hlive

end TokenKey

end MapCatalog
