import Mathlib.Data.List.TakeWhile
import MapCatalog.Proofs.Record.Identifier
import MapCatalog.Service.Route

/-! # The path of a record -/

namespace MapCatalog

theorem Text.trim_of_solid {text : String} (h : ∀ c ∈ text.toList, isBlank c = false) :
    trim text = text := by
  have hstart : trimStart text.toList = text.toList :=
    trimStart_eq_iff.2 ⟨[], rfl, fun _ hc => absurd hc List.not_mem_nil,
      fun c hc => h c (List.mem_of_mem_head? hc)⟩
  have hend : trimEnd text.toList = text.toList :=
    trimEnd_eq_iff.2 ⟨[], (List.append_nil _).symm, fun _ hc => absurd hc List.not_mem_nil,
      fun c hc => h c (List.mem_of_mem_getLast? hc)⟩
  rw [trim, hstart, hend, String.ofList_toList]

namespace Id

variable {tier : Tier}

theorem mem_hyphenate {chars : List Char} {c : Char} (h : c ∈ hyphenate chars) :
    c = '-' ∨ c ∈ chars := by
  simp only [hyphenate, List.mem_append, List.mem_cons] at h
  rcases h with h | rfl | h | rfl | h | rfl | h | rfl | h
  · exact .inr (List.mem_of_mem_take h)
  · exact .inl rfl
  · exact .inr (List.mem_of_mem_drop (List.mem_of_mem_take h))
  · exact .inl rfl
  · exact .inr (List.mem_of_mem_drop (List.mem_of_mem_take h))
  · exact .inl rfl
  · exact .inr (List.mem_of_mem_drop (List.mem_of_mem_take h))
  · exact .inl rfl
  · exact .inr (List.mem_of_mem_drop h)

/-- A character that is neither blank nor has a meaning in a path. -/
def isPlain (c : Char) : Bool :=
  !Text.isBlank c && c != '/' && c != '?' && c != '#'

theorem isPlain_hexDigit {n : Nat} (h : n < 16) : isPlain (Json.hexDigit n) = true := by
  have hall : ∀ n : Fin 16, isPlain (Json.hexDigit n) = true := by decide
  exact hall ⟨n, h⟩

theorem isPlain_of_mem_toChars (id : Id tier) : ∀ c ∈ id.toChars, isPlain c = true := by
  intro c hc
  rcases mem_hyphenate hc with rfl | hdigit
  · decide
  · obtain ⟨n, hn, rfl⟩ := List.mem_map.1 hdigit
    exact isPlain_hexDigit (lt_of_mem_hexDigits hn)

theorem toList_toString (id : Id tier) : id.toString.toList = id.toChars :=
  String.toList_ofList

theorem parse_toString (id : Id tier) : parse tier id.toString = .ok id := by
  have hsolid : ∀ c ∈ id.toString.toList, Text.isBlank c = false := by
    intro c hc
    have hplain := id.isPlain_of_mem_toChars c (id.toList_toString ▸ hc)
    simp only [isPlain, Bool.and_eq_true, Bool.not_eq_true'] at hplain
    exact hplain.1.1.1
  rw [parse, Text.trim_of_solid hsolid, toList_toString, ofChars?_toChars]

def path (id : Id tier) : String :=
  "/" ++ tier.collection ++ "/" ++ id.toString

theorem isPlain_of_mem_collection (tier : Tier) :
    ∀ c ∈ tier.collection.toList, isPlain c = true := by
  have hall : tier.collection.toList.all isPlain = true := by
    cases tier <;> decide
  exact List.all_eq_true.1 hall

theorem pieces_path (id : Id tier) : Address.pieces id.path = [tier.collection, id.toString] := by
  have hcollection := isPlain_of_mem_collection tier
  have hid := id.isPlain_of_mem_toChars
  have hchars : id.path.toList = '/' :: (tier.collection.toList ++ '/' :: id.toChars) := by
    simp [path, toList_toString]
  have hslash {c : Char} (hc : isPlain c = true) : (c == '/') = false := by
    simp only [isPlain, Bool.and_eq_true, bne_iff_ne] at hc
    simp [hc.1.1.2]
  have hend {c : Char} (hc : isPlain c = true) : (c != '?' && c != '#') = true := by
    simp only [isPlain, Bool.and_eq_true] at hc
    simp [hc.1.2, hc.2]
  -- Nothing in the path ends it, and its only slashes are those in front of the two pieces.
  have hkept : (id.path.toList.takeWhile fun c => c != '?' && c != '#') = id.path.toList := by
    rw [hchars, List.takeWhile_cons_of_pos (by decide), List.takeWhile_append_of_pos
      fun c hc => hend (hcollection c hc), List.takeWhile_cons_of_pos (by decide),
      List.takeWhile_eq_self_iff.2 fun c hc => hend (hid c hc)]
  have hcut : Text.pieces (· == '/') id.path.toList =
      [[], tier.collection.toList, id.toChars] := by
    rw [hchars, ← List.nil_append ('/' :: _), Text.pieces_append_sep (by simp) rfl,
      Text.pieces_append_sep (fun c hc => hslash (hcollection c hc)) rfl,
      Text.pieces_of_none fun c hc => hslash (hid c hc)]
  have hsome : id.toChars.isEmpty = false := by
    simp [toChars, hyphenate]
  have hnamed : tier.collection.toList.isEmpty = false ∧ tier.collection ≠ "api" := by
    cases tier <;> decide
  simp [Address.pieces, hkept, hcut, hsome, hnamed, Id.toString]

/-- The path of a record leads to it. -/
theorem parse_path (id : Id tier) {method : Method} {route : Route}
    (h : Route.atRecord? id method = some route) : Route.parse method id.path = .ok route := by
  have hauth : tier.collection ≠ "auth" := by
    cases tier <;> decide
  have htier : Address.tier? tier.collection = some tier := by
    cases tier <;> decide
  have haddress : Address.ofPieces? [tier.collection, id.toString] =
      some (.record tier id.toString) := by
    simp [Address.ofPieces?, hauth, htier]
  simp only [Route.parse, pieces_path, haddress, Route.atAddress, parse_toString, Except.map, h]

end Id

end MapCatalog
