import MapCatalog.Proofs.Auth.Agreement

/-! # Tokens that a key makes -/

namespace MapCatalog

namespace TokenKey

theorem dot_not_mem_segment (doc : Json) : '.' ∉ segment doc := by
  intro hmem
  exact Base64Url.forall_mem_encode (P := fun c => c ≠ '.') (by decide) _ '.' hmem rfl

theorem standard_holds : Token.Holds TokenHeader.decode (segment TokenHeader.standard.toJson)
    TokenHeader.standard :=
  Token.readSegment_eq_some_iff.1 (by decide +kernel)

theorem bears_tokenOf (key : TokenKey) {claims : Claims}
    (hread : Token.Holds Claims.decode (segment claims.toJson) claims) :
    key.Bears (key.tokenOf claims) claims := by
  refine ⟨segment TokenHeader.standard.toJson, segment claims.toJson, _, ⟨⟨⟨?_, ?_, ?_, ?_⟩,
    TokenHeader.standard, standard_holds, rfl⟩, rfl⟩, hread⟩
  · simp [tokenOf, signed, sign]
  · exact dot_not_mem_segment _
  · exact dot_not_mem_segment _
  · intro hmem
    exact Base64Url.forall_mem_encode (P := fun c => c ≠ '.') (by decide) _ '.' hmem rfl

theorem solid_tokenOf (key : TokenKey) (claims : Claims) :
    ∀ c ∈ (key.tokenOf claims).toList, Text.isBlank c = false := by
  have hsegment (bytes : List UInt8) : ∀ c ∈ Base64Url.encode bytes, Text.isBlank c = false :=
    Base64Url.forall_mem_encode (by decide) bytes
  have hdot : Text.isBlank '.' = false := rfl
  intro c hc
  simp only [tokenOf, signed, String.toList_ofList, List.mem_append, List.mem_cons] at hc
  rcases hc with (hheader | rfl | hclaims) | rfl | hcode
  · exact hsegment _ c hheader
  · exact hdot
  · exact hsegment _ c hclaims
  · exact hdot
  · exact hsegment _ c hcode

end TokenKey

namespace Guard

/-- Behind the scheme and a blank, a text without blanks is presented as it is. -/
theorem presents_bearer {token : String} (hne : token ≠ "")
    (hsolid : ∀ c ∈ token.toList, Text.isBlank c = false) :
    Presents (some ("Bearer " ++ token)) token := by
  have htoken : token.toList ≠ [] := by simpa using hne
  have hvalue : ("Bearer " ++ token).toList = "Bearer".toList ++ ([' '] ++ token.toList) := by
    simp
  have hlast : ("Bearer".toList ++ ([' '] ++ token.toList)).getLast? = token.toList.getLast? := by
    rw [← List.append_assoc, List.getLast?_append_of_ne_nil _ htoken]
  have htrims : Trims ("Bearer " ++ token).toList ("Bearer".toList ++ ([' '] ++ token.toList)) := by
    refine ⟨[], [], by rw [hvalue]; simp, by simp, by simp, ?_, ?_⟩
    · intro c hc
      cases hc
      rfl
    · rw [hlast]
      exact fun c hc => hsolid c (List.mem_of_getLast? hc)
  have hled : Led ("Bearer".toList ++ ([' '] ++ token.toList)) "Bearer".toList
      ([' '] ++ token.toList) := ⟨rfl, by decide, fun c hc => by cases hc; rfl⟩
  have hblank : ∀ c ∈ [' '], Text.isBlank c = true := List.forall_mem_singleton.2 rfl
  have hstart : ∀ c ∈ token.toList.head?, Text.isBlank c = false := fun c hc =>
    hsolid c (List.mem_of_mem_head? hc)
  exact ⟨"Bearer " ++ token, rfl, .led htrims hled hblank hstart, hne⟩

/-- A request shows the claims of a token that the key made, as long as they can be read back. -/
theorem shows_tokenOf (key : TokenKey) {claims : Claims}
    (hread : Token.Holds Claims.decode (TokenKey.segment claims.toJson) claims) :
    Shows key (some ("Bearer " ++ key.tokenOf claims)) claims := by
  have hne : key.tokenOf claims ≠ "" := by
    intro hempty
    have hchars := congrArg String.toList hempty
    simp [TokenKey.tokenOf, TokenKey.signed] at hchars
  exact ⟨key.tokenOf claims, presents_bearer hne (key.solid_tokenOf claims), key.bears_tokenOf hread⟩

end Guard

end MapCatalog
