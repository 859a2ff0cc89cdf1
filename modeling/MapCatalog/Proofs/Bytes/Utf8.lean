import MapCatalog.Bytes.Utf8

/-! # Texts that are read back from their bytes -/

namespace MapCatalog

namespace Utf8

theorem decode?_encode (chars : List Char) : decode? (encode chars) = some chars := by
  have hvalid : (encode chars).toByteArray.IsValidUTF8 := ⟨chars, rfl⟩
  have htext : String.fromUTF8 (encode chars).toByteArray hvalid = String.ofList chars := rfl
  rw [decode?, String.fromUTF8?, dif_pos hvalid, htext, Option.map_some, String.toList_ofList]

theorem documentChars_encode (chars : List Char) : documentChars (encode chars) = chars := by
  rw [documentChars, decode?_encode]

end Utf8

end MapCatalog
