import MapCatalog.Proofs.Auth.Issued
import MapCatalog.Proofs.Json.RoundTrip
import MapCatalog.Proofs.Bytes.Utf8

/-! # Issued tokens are checked as what they are -/

namespace MapCatalog

/-! ## What a segment holds -/

/-- A value is decoded from the compact text of a document as it is from the document. -/
theorem Decode.ofText_compactChars {α : Type} (decode : Decoder α) {doc : Json}
    (h : doc.Readable Json.maxDepth) :
    Decode.ofText decode doc.compactChars = decode .text (Reading.ofJson doc) := by
  rw [Decode.ofText]
  simp only [Json.read_compactChars h, if_true]
  cases decode .text (Reading.ofJson doc) <;> rfl

namespace Claims

structure Sized (claims : Claims) : Prop where
  issuedAt_low : -(2 ^ 63) ≤ claims.issuedAt
  issuedAt_high : claims.issuedAt < 2 ^ 63
  expiresAt_low : -(2 ^ 63) ≤ claims.expiresAt
  expiresAt_high : claims.expiresAt < 2 ^ 63

variable {claims : Claims}

theorem decode_toJson (h : claims.Sized) (origin : Decode.Origin) :
    decode origin (Reading.ofJson claims.toJson) = .ok claims := by
  have hissued : Decode.signed64 origin (.number (.whole claims.issuedAt)) =
      .ok claims.issuedAt := if_pos ⟨h.issuedAt_low, h.issuedAt_high⟩
  have hexpires : Decode.signed64 origin (.number (.whole claims.expiresAt)) =
      .ok claims.expiresAt := if_pos ⟨h.expiresAt_low, h.expiresAt_high⟩
  simp [toJson, Json.ofInt, Reading.ofJson, Reading.ofMembers, decode, Decode.record,
    Decode.members, Decode.visit, fields, Decode.field?, Decode.Field.needed, Decode.text, hissued,
    hexpires, Except.map, Decode.firstMissing?]

theorem readable_toJson (h : claims.Sized) (room : Nat) : claims.toJson.Readable (room + 1) := by
  have hissued := Json.readable_whole room h.issuedAt_low
    (Int.lt_trans h.issuedAt_high (by decide))
  have hexpires := Json.readable_whole room h.expiresAt_low
    (Int.lt_trans h.expiresAt_high (by decide))
  apply Json.readable_object
  simp only [List.forall_mem_cons]
  exact ⟨Json.readable_text room claims.subject, hissued, hexpires, by simp⟩

theorem holds_segment (h : claims.Sized) :
    Token.Holds decode (TokenKey.segment claims.toJson) claims := by
  refine ⟨_, rfl, ?_⟩
  rw [Utf8.documentChars_encode, Decode.ofText_compactChars decode (readable_toJson h 126)]
  exact decode_toJson h .text

end Claims

/-- The seconds of a moment with a calendar date fit 64 bits. -/
theorem Instant.seconds_range {moment : Instant} (h : moment.representable = true) :
    -(2 ^ 63) ≤ moment.seconds ∧ moment.seconds < 2 ^ 63 := by
  obtain ⟨hlow, hhigh⟩ := representable_iff.1 h
  simp only [firstSecond, lastSecond] at hlow hhigh
  omega

/-! ## Issue and check -/

namespace TokenKey

variable (key : TokenKey) (subject : String) {issuedAt : Instant} (lifetime : Span)

/--
What the check of a token says at every moment: it finds the claims as long as they count, from then on
the second at which the token expired, and no subject at all where there is none.
-/
structure ChecksAs (token : String) (claims : Claims) : Prop where
  segments : ∃ header text code, Token.Segments token header text code
  live (now : Instant) : claims.Named → now.seconds < claims.expiresAt →
    key.verify token now = .ok claims
  expired (now : Instant) : claims.Named → claims.expiresAt ≤ now.seconds →
    key.verify token now = .error (.expired claims.expiresAt)
  unnamed (now : Instant) : ¬ claims.Named → key.verify token now = .error (.malformed .subject)

variable {key} in
theorem Bears.checksAs {token : String} {claims : Claims} (h : key.Bears token claims) :
    key.ChecksAs token claims := by
  obtain ⟨header, text, code, hsigned, -⟩ := id h
  exact ⟨⟨header, text, code, hsigned.toSegments⟩,
    fun _ hnamed hexpiry => verify_of_live h ⟨hnamed, hexpiry⟩,
    fun _ hnamed hpast => verify_of_refuses (.expired h hnamed hpast),
    fun _ hunnamed => verify_of_refuses (.subject h hunnamed)⟩

/--
A token can be issued exactly for a lifetime that ends at a moment with a calendar date, and is then
checked as a token of its subject, issued in the second of issue and expiring in the second of this
moment.
-/
theorem issue_checks (hissued : issuedAt.representable = true) :
    let expiry : Instant := ⟨issuedAt.nanos + lifetime.nanos⟩
    (expiry.representable = true → ∃ token, key.issue subject issuedAt lifetime = .ok token ∧
      key.ChecksAs token ⟨subject, issuedAt.seconds, expiry.seconds⟩) ∧
    (expiry.representable = false →
      key.issue subject issuedAt lifetime = .error .endlessLifetime) := by
  intro expiry
  have hadd : issuedAt.add? lifetime = if expiry.representable then some expiry else none := rfl
  refine ⟨fun hend => ?_, fun hend => ?_⟩
  · have hsized : Claims.Sized ⟨subject, issuedAt.seconds, expiry.seconds⟩ :=
      ⟨(Instant.seconds_range hissued).1, (Instant.seconds_range hissued).2,
        (Instant.seconds_range hend).1, (Instant.seconds_range hend).2⟩
    refine ⟨key.tokenOf ⟨subject, issuedAt.seconds, expiry.seconds⟩, ?_,
      (key.bears_tokenOf (Claims.holds_segment hsized)).checksAs⟩
    rw [issue, hadd, if_pos hend]
  · rw [issue, hadd, hend]
    rfl

/-- A second and a half before 1970, for three seconds, and for a subject full of special characters. -/
theorem sample_issue_checks :
    (⟨-1500000000⟩ : Instant).representable = true ∧
    ∃ token, (⟨[107], by decide⟩ : TokenKey).issue "a.\"b\"\n" ⟨-1500000000⟩ ⟨3000000000⟩ =
        .ok token ∧
      ChecksAs ⟨[107], by decide⟩ token ⟨"a.\"b\"\n", -2, 1⟩ :=
  ⟨by decide, (issue_checks _ _ ⟨3000000000⟩ (by decide)).1 (by decide)⟩

end TokenKey

end MapCatalog
