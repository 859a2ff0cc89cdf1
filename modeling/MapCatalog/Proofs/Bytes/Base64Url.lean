import Mathlib.Data.List.Basic
import MapCatalog.Bytes.Base64Url

/-! # What decodes as base64

The characters that decode to bytes are exactly those that encode them.  Both directions go through the numbers below
sixty-four that stand between characters and bytes.
-/

namespace MapCatalog

namespace Base64Url

/-! ## Characters and numbers -/

theorem sextetChar_of_value {c : Char} {n : Nat} (h : sextetValue? c = some n) :
    n < 64 ∧ sextetChar n = c := by
  have bounds (low high : Char) (hlow : low ≤ c) (hhigh : c ≤ high) :
      low.toNat ≤ c.toNat ∧ c.toNat ≤ high.toNat := ⟨hlow, hhigh⟩
  unfold sextetValue? at h
  split at h
  next hrange =>
    obtain ⟨hlow, hhigh⟩ := bounds 'A' 'Z' hrange.1 hrange.2
    have hn : c.toNat - 65 = n := Option.some.inj h
    have hlow : 65 ≤ c.toNat := hlow
    have hhigh : c.toNat ≤ 90 := hhigh
    have hback : n + 65 = c.toNat := by omega
    refine ⟨by omega, ?_⟩
    rw [sextetChar, if_pos (by omega), hback, Char.ofNat_toNat]
  next =>
    split at h
    next hrange =>
      obtain ⟨hlow, hhigh⟩ := bounds 'a' 'z' hrange.1 hrange.2
      have hn : c.toNat - 97 + 26 = n := Option.some.inj h
      have hlow : 97 ≤ c.toNat := hlow
      have hhigh : c.toNat ≤ 122 := hhigh
      have hback : n - 26 + 97 = c.toNat := by omega
      refine ⟨by omega, ?_⟩
      rw [sextetChar, if_neg (by omega), if_pos (by omega), hback, Char.ofNat_toNat]
    next =>
      split at h
      next hrange =>
        obtain ⟨hlow, hhigh⟩ := bounds '0' '9' hrange.1 hrange.2
        have hn : c.toNat - 48 + 52 = n := Option.some.inj h
        have hlow : 48 ≤ c.toNat := hlow
        have hhigh : c.toNat ≤ 57 := hhigh
        have hback : n - 52 + 48 = c.toNat := by omega
        refine ⟨by omega, ?_⟩
        rw [sextetChar, if_neg (by omega), if_neg (by omega), if_pos (by omega), hback,
          Char.ofNat_toNat]
      next =>
        split at h
        next hc =>
          cases h
          exact ⟨by decide, hc.symm⟩
        next =>
          split at h
          next hc =>
            cases h
            exact ⟨by decide, hc.symm⟩
          next =>
            cases h

theorem mapM_sextetValue?_eq_some_iff {chars : List Char} {sextets : List Nat} :
    chars.mapM sextetValue? = some sextets ↔
      (∀ n ∈ sextets, n < 64) ∧ chars = sextets.map sextetChar := by
  induction chars generalizing sextets with
  | nil =>
      cases sextets <;> simp
  | cons c rest ih =>
      rw [List.mapM_cons]
      constructor
      · intro h
        obtain ⟨n, hn, h⟩ := Option.bind_eq_some_iff.1 h
        obtain ⟨more, hmore, h⟩ := Option.bind_eq_some_iff.1 h
        cases h
        obtain ⟨hlt, hchar⟩ := sextetChar_of_value hn
        obtain ⟨hall, hrest⟩ := ih.1 hmore
        refine ⟨?_, by rw [List.map_cons, hchar, ← hrest]⟩
        simpa using ⟨hlt, hall⟩
      · rintro ⟨hall, hchars⟩
        cases sextets with
        | nil =>
            cases hchars
        | cons n more =>
            have hlt : n < 64 := hall n (by simp)
            have hmore : ∀ m ∈ more, m < 64 := fun m hm => hall m (by simp [hm])
            rw [List.map_cons, List.cons.injEq] at hchars
            rw [hchars.1, sextetValue?_sextetChar hlt, ih.2 ⟨hmore, hchars.2⟩]
            rfl

/-! ## Numbers and bytes -/

/-- The numbers below sixty-four that bytes make, before they are written as characters. -/
def sextets : List UInt8 → List Nat
  | a :: b :: c :: rest =>
      (a.toNat / 4) :: (a.toNat % 4 * 16 + b.toNat / 16) :: (b.toNat % 16 * 4 + c.toNat / 64) ::
        (c.toNat % 64) :: sextets rest
  | [a, b] => [a.toNat / 4, a.toNat % 4 * 16 + b.toNat / 16, b.toNat % 16 * 4]
  | [a] => [a.toNat / 4, a.toNat % 4 * 16]
  | [] => []

theorem encode_eq_map (bytes : List UInt8) :
    encode bytes = (sextets bytes).map sextetChar := by
  induction bytes using encode.induct with
  | case1 a b c rest ih =>
      simp [encode, sextets, ih]
  | case2 a b =>
      simp [encode, sextets]
  | case3 a =>
      simp [encode, sextets]
  | case4 =>
      simp [encode, sextets]

theorem lt_of_mem_sextets {bytes : List UInt8} :
    ∀ n ∈ sextets bytes, n < 64 := by
  induction bytes using encode.induct with
  | case1 a b c rest ih =>
      have ha := a.toNat_lt
      have hb := b.toNat_lt
      have hc := c.toNat_lt
      simp only [sextets, List.forall_mem_cons]
      exact ⟨by omega, by omega, by omega, by omega, ih⟩
  | case2 a b =>
      have ha := a.toNat_lt
      have hb := b.toNat_lt
      simp only [sextets, List.forall_mem_cons]
      exact ⟨by omega, by omega, by omega, by simp⟩
  | case3 a =>
      have ha := a.toNat_lt
      simp only [sextets, List.forall_mem_cons]
      exact ⟨by omega, by omega, by simp⟩
  | case4 =>
      simp [sextets]

theorem toNat_byte {n : Nat} (h : n < 256) :
    (UInt8.ofNat n).toNat = n :=
  UInt8.toNat_ofNat_of_lt' h

theorem byte_eq_iff {n : Nat} {byte : UInt8} (h : n < 256) :
    UInt8.ofNat n = byte ↔ n = byte.toNat := by
  rw [← UInt8.toNat_inj, toNat_byte h]

theorem join?_sextets (bytes : List UInt8) :
    join? (sextets bytes) = some bytes := by
  induction bytes using encode.induct with
  | case1 a b c rest ih =>
      have ha := a.toNat_lt
      have hb := b.toNat_lt
      have hc := c.toNat_lt
      simp only [sextets, join?, ih, Option.map_some, Option.some.injEq, List.cons.injEq, and_true]
      refine ⟨?_, ?_, ?_⟩
      · rw [byte_eq_iff (by omega)]
        omega
      · rw [byte_eq_iff (by omega)]
        omega
      · rw [byte_eq_iff (by omega)]
        omega
  | case2 a b =>
      have ha := a.toNat_lt
      have hb := b.toNat_lt
      have hzero : b.toNat % 16 * 4 % 4 = 0 := by omega
      simp only [sextets, join?, if_pos hzero, Option.some.injEq, List.cons.injEq, and_true]
      refine ⟨?_, ?_⟩
      · rw [byte_eq_iff (by omega)]
        omega
      · rw [byte_eq_iff (by omega)]
        omega
  | case3 a =>
      have ha := a.toNat_lt
      have hzero : a.toNat % 4 * 16 % 16 = 0 := by omega
      simp only [sextets, join?, if_pos hzero, Option.some.injEq, List.cons.injEq, and_true]
      rw [byte_eq_iff (by omega)]
      omega
  | case4 =>
      rfl

/-- Numbers that join to bytes are the ones that the bytes make: no bit is left over. -/
theorem eq_sextets_of_join? {numbers : List Nat} (hlt : ∀ n ∈ numbers, n < 64)
    {bytes : List UInt8} (h : join? numbers = some bytes) : numbers = sextets bytes := by
  induction numbers using join?.induct generalizing bytes with
  | case1 a b c d rest ih =>
      simp only [List.forall_mem_cons] at hlt
      obtain ⟨ha, hb, hc, hd, hrest⟩ := hlt
      obtain ⟨more, hmore, h⟩ := Option.map_eq_some_iff.1 h
      subst h
      rw [sextets, ← ih hrest hmore, toNat_byte (by omega),
        toNat_byte (by omega), toNat_byte (by omega)]
      simp only [List.cons.injEq, and_true]
      exact ⟨by omega, by omega, by omega, by omega⟩
  | case2 a b c hzero =>
      simp only [List.forall_mem_cons] at hlt
      obtain ⟨ha, hb, hc, -⟩ := hlt
      rw [join?, if_pos hzero] at h
      cases h
      rw [sextets, toNat_byte (by omega), toNat_byte (by omega)]
      simp only [List.cons.injEq, and_true]
      exact ⟨by omega, by omega, by omega⟩
  | case3 a b c hnot =>
      rw [join?, if_neg hnot] at h
      cases h
  | case4 a b hzero =>
      simp only [List.forall_mem_cons] at hlt
      obtain ⟨ha, hb, -⟩ := hlt
      rw [join?, if_pos hzero] at h
      cases h
      rw [sextets, toNat_byte (by omega)]
      simp only [List.cons.injEq, and_true]
      exact ⟨by omega, by omega⟩
  | case5 a b hnot =>
      rw [join?, if_neg hnot] at h
      cases h
  | case6 a =>
      cases h
  | case7 =>
      cases h
      rfl

/-! ## Characters and bytes -/

theorem decode?_encode (bytes : List UInt8) :
    decode? (encode bytes) = some bytes := by
  have hvalues := mapM_sextetValue?_eq_some_iff.2 ⟨lt_of_mem_sextets, encode_eq_map bytes⟩
  rw [decode?, hvalues, Option.bind_some, join?_sextets]

theorem decode?_eq_some_iff {chars : List Char} {bytes : List UInt8} :
    decode? chars = some bytes ↔ chars = encode bytes := by
  constructor
  · intro h
    obtain ⟨numbers, hvalues, hjoin⟩ := Option.bind_eq_some_iff.1 h
    obtain ⟨hlt, hchars⟩ := mapM_sextetValue?_eq_some_iff.1 hvalues
    rw [hchars, eq_sextets_of_join? hlt hjoin, ← encode_eq_map]
  · rintro rfl
    exact decode?_encode bytes

/-- What encodes bytes is written with the characters of the numbers below sixty-four. -/
theorem forall_mem_encode {P : Char → Prop} (h : ∀ n : Fin 64, P (sextetChar n)) (bytes : List UInt8) :
    ∀ c ∈ encode bytes, P c := by
  intro c hc
  rw [encode_eq_map] at hc
  obtain ⟨n, hn, rfl⟩ := List.mem_map.1 hc
  exact h ⟨n, lt_of_mem_sextets n hn⟩

end Base64Url

end MapCatalog
