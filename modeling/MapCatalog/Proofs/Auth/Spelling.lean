import MapCatalog.Proofs.Auth.Genuine

/-! # Accepted tokens have one spelling

The last segment is determined by the two before it, since the code that it encodes is, and since nothing but the
encoding of a code is decoded to it.
-/

namespace MapCatalog

namespace Token

def join (header claims code : List Char) : String :=
  String.ofList (header ++ '.' :: (claims ++ '.' :: code))

/-- Two texts of three segments each have the first two in common. -/
def SameStart (token other : String) : Prop :=
  ∃ header claims code changed,
    Segments token header claims code ∧ Segments other header claims changed

theorem Segments.eq_join {token : String} {header claims code : List Char}
    (h : Segments token header claims code) : token = join header claims code := by
  rw [join, ← h.text, String.ofList_toList]

theorem Segments.count_dots {token : String} {header claims code : List Char}
    (h : Segments token header claims code) : token.toList.count '.' = 2 := by
  rw [h.text]
  simp [List.count_append, List.count_eq_zero_of_not_mem h.dotless_header,
    List.count_eq_zero_of_not_mem h.dotless_claims, List.count_eq_zero_of_not_mem h.dotless_code]

/-- Without a dot in the text behind them, the first two segments are those of the whole text. -/
theorem Segments.change {token : String} {header claims code changed : List Char}
    (h : Segments token header claims code) (hdotless : '.' ∉ changed) :
    Segments (join header claims changed) header claims changed :=
  ⟨by simp [join], h.dotless_header, h.dotless_claims, hdotless⟩

theorem Segments.not_change {token : String} {header claims code changed : List Char}
    (h : Segments token header claims code) (hdot : '.' ∈ changed) :
    ¬ ∃ first second third, Segments (join header claims changed) first second third := by
  rintro ⟨first, second, third, hsegments⟩
  have hcount := hsegments.count_dots
  have hpos : 0 < changed.count '.' := List.count_pos_iff.2 hdot
  simp [join, List.count_append, List.count_eq_zero_of_not_mem h.dotless_header,
    List.count_eq_zero_of_not_mem h.dotless_claims] at hcount
  omega

end Token

namespace TokenKey

variable {key : TokenKey} {token : String} {header text code : List Char}

/-- Behind the first two segments of a signed token, everything but their code is refused. -/
theorem Signed.refuses_change (h : key.Signed token header text code) {changed : List Char}
    (hchanged : changed ≠ code) (now : Instant) :
    ∃ e ∈ [AuthError.malformed .segments, .malformed .signature, .badSignature],
      key.Refuses now (Token.join header text changed) e := by
  by_cases hdot : '.' ∈ changed
  · exact ⟨_, by simp, .segments (h.not_change hdot)⟩
  have hheaded : Token.Headed (Token.join header text changed) header text changed :=
    ⟨h.change hdot, h.algorithm⟩
  rcases Classical.em (∃ bytes, changed = Base64Url.encode bytes) with ⟨bytes, hbytes⟩ | hnone
  · refine ⟨_, by simp, .mismatch hheaded hbytes fun hmac => hchanged ?_⟩
    rw [hbytes, hmac, h.signature]
  · exact ⟨_, by simp, .signature hheaded hnone⟩

/--
A token that a key accepts ends with the encoded code of its first two segments; no other token with the
same first two segments is ever accepted; and with anything else in place of its last segment the text is
refused at every moment, for its segments or its signature.
-/
theorem accepted_spelling {now : Instant} {claims : Claims}
    (h : key.verify token now = .ok claims) :
    (∃ header text, Token.Segments token header text
      (Base64Url.encode (Hmac.code key.secret (Utf8.encode (header ++ '.' :: text))))) ∧
    (∀ other later found, key.verify other later = .ok found → Token.SameStart token other →
      other = token) ∧
    ∀ header text code, Token.Segments token header text code →
      ∀ changed, changed ≠ code → ∀ later,
        ∃ e ∈ [AuthError.malformed .segments, .malformed .signature, .badSignature],
          key.verify (Token.join header text changed) later = .error e := by
  obtain ⟨⟨header, text, code, hsigned, -⟩, -⟩ := verify_eq_ok_iff.1 h
  have hrefused : ∀ changed, changed ≠ code → ∀ later,
      ∃ e ∈ [AuthError.malformed .segments, .malformed .signature, .badSignature],
        key.verify (Token.join header text changed) later = .error e := by
    intro changed hchanged later
    obtain ⟨e, he, hrefuses⟩ := hsigned.refuses_change hchanged later
    exact ⟨e, he, verify_of_refuses hrefuses⟩
  refine ⟨⟨header, text, hsigned.signature ▸ hsigned.toSegments⟩, ?_, ?_⟩
  · rintro other later found haccepted ⟨header', text', code', changed, htoken, hother⟩
    obtain ⟨rfl, rfl, -⟩ := hsigned.toSegments.unique htoken
    by_cases hsame : changed = code
    · rw [hother.eq_join, hsame, ← hsigned.eq_join]
    · obtain ⟨e, -, hrefusal⟩ := hrefused changed hsame later
      rw [hother.eq_join, hrefusal] at haccepted
      cases haccepted
  · intro header' text' code' htoken
    obtain ⟨rfl, rfl, rfl⟩ := hsigned.toSegments.unique htoken
    exact hrefused

/-- A token of the secret `k` up to its code, whose last letter carries two left-over bits. -/
def sampleSpelled (code : String) : String :=
  Token.join "eyJhbGciOiJIUzI1NiIsInR5cCI6IkpXVCJ9".toList
    "eyJ1c2VySWQiOiJhbm4iLCJpYXQiOjAsImV4cCI6MzYwMH0".toList code.toList

theorem sample_spelling :
    (⟨[107], by decide⟩ : TokenKey).verify
      (sampleSpelled "ctm6ypfBbYOcM6NJk2kTqEQh3qbx_ZpXh0vswP7UP-k") ⟨0⟩ = .ok ⟨"ann", 0, 3600⟩ ∧
    ∃ e ∈ [AuthError.malformed .segments, .malformed .signature, .badSignature],
      (⟨[107], by decide⟩ : TokenKey).verify
        (sampleSpelled "ctm6ypfBbYOcM6NJk2kTqEQh3qbx_ZpXh0vswP7UP-l") ⟨0⟩ = .error e := by
  have haccepted : (⟨[107], by decide⟩ : TokenKey).verify
      (sampleSpelled "ctm6ypfBbYOcM6NJk2kTqEQh3qbx_ZpXh0vswP7UP-k") ⟨0⟩ =
        .ok ⟨"ann", 0, 3600⟩ := by
    decide +kernel
  exact ⟨haccepted, (accepted_spelling haccepted).2.2 _ _
    "ctm6ypfBbYOcM6NJk2kTqEQh3qbx_ZpXh0vswP7UP-k".toList
    ⟨by decide +kernel, by decide +kernel, by decide +kernel, by decide +kernel⟩ _
    (by decide +kernel) ⟨0⟩⟩

end TokenKey

end MapCatalog
