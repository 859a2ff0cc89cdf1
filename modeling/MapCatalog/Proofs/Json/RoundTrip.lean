import MapCatalog.Proofs.Json.Normal
import MapCatalog.Proofs.Json.Numeral
import MapCatalog.Proofs.Json.Quotation

/-! # Documents that are read back

The compact and the indented form of a document differ in the blanks between its parts only.  Whatever these are, the
document is read back.
-/

namespace MapCatalog

namespace Json

/-! ## Blanks -/

def Blank (chars : List Char) : Prop :=
  ∀ c ∈ chars, isSpace c = true

theorem skipSpaces_append {blank : List Char} (h : Blank blank) (chars : List Char) :
    skipSpaces (blank ++ chars) = skipSpaces chars := by
  induction blank with
  | nil =>
      rfl
  | cons c blank ih =>
      have hc : isSpace c = true := h c List.mem_cons_self
      have hrest := ih fun other hother => h other (List.mem_cons_of_mem c hother)
      rw [List.cons_append, skipSpaces, List.dropWhile_cons_of_pos hc]
      exact hrest

theorem skipSpaces_of_solid {c : Char} (h : isSpace c = false) (chars : List Char) :
    skipSpaces (c :: chars) = c :: chars := by
  rw [skipSpaces, List.dropWhile_cons_of_neg (by simp [h])]

theorem readValue_append {blank : List Char} (h : Blank blank) (fuel room : Nat)
    (chars : List Char) : readValue fuel room (blank ++ chars) = readValue fuel room chars := by
  cases fuel with
  | zero =>
      rfl
  | succ fuel =>
      rw [readValue, readValue, skipSpaces_append h]

theorem readItems_append {blank : List Char} (h : Blank blank) (fuel room : Nat)
    (chars : List Char) : readItems fuel room (blank ++ chars) = readItems fuel room chars := by
  cases fuel with
  | zero =>
      rfl
  | succ fuel =>
      rw [readItems, readItems, readValue_append h]

theorem readMembers_append {blank : List Char} (h : Blank blank) (fuel room : Nat)
    (chars : List Char) : readMembers fuel room (blank ++ chars) = readMembers fuel room chars := by
  cases fuel with
  | zero =>
      rfl
  | succ fuel =>
      rw [readMembers, readMembers, skipSpaces_append h]

theorem endsNumeral_append {blank chars : List Char} (hblank : Blank blank)
    (h : EndsNumeral chars) : EndsNumeral (blank ++ chars) := by
  cases blank with
  | nil =>
      exact h
  | cons c blank =>
      have hc : isSpace c = true := hblank c List.mem_cons_self
      have hspace : c = ' ' ∨ c = '\n' ∨ c = '\t' ∨ c = '\r' := by
        simpa [isSpace, or_assoc] using hc
      apply endsNumeral_cons
      rcases hspace with rfl | rfl | rfl | rfl <;> decide

/-! ## Spaced texts -/

/-- The blanks of a written form: those before a part at a level, and those behind a colon. -/
structure Spacing where
  gap : Nat → List Char
  colon : List Char
  gap_blank : ∀ level, Blank (gap level)
  colon_blank : Blank colon

namespace Spacing

variable (spacing : Spacing)

mutual

/-- A document with blanks between its parts. -/
def chars (level : Nat) : Json → List Char
  | .null => "null".toList
  | .bool flag => boolChars flag
  | .number value => numberChars value
  | .text value => quoted value
  | .array [] => ['[', ']']
  | .array (item :: rest) =>
      '[' :: (spacing.gap (level + 1) ++ (chars (level + 1) item ++ laterItems level rest))
  | .object [] => ['\x7b', '\x7d']
  | .object ((key, value) :: rest) =>
      '\x7b' :: (spacing.gap (level + 1) ++ (quoted key ++ ':' :: (spacing.colon ++
        (chars (level + 1) value ++ laterMembers level rest))))

def laterItems (level : Nat) : List Json → List Char
  | [] => spacing.gap level ++ [']']
  | item :: rest =>
      ',' :: (spacing.gap (level + 1) ++ (chars (level + 1) item ++ laterItems level rest))

def laterMembers (level : Nat) : List (String × Json) → List Char
  | [] => spacing.gap level ++ ['\x7d']
  | (key, value) :: rest =>
      ',' :: (spacing.gap (level + 1) ++ (quoted key ++ ':' :: (spacing.colon ++
        (chars (level + 1) value ++ laterMembers level rest))))

end

def tight : Spacing :=
  ⟨fun _ => [], [], fun _ _ h => absurd h List.not_mem_nil, fun _ h => absurd h List.not_mem_nil⟩

def lines : Spacing where
  gap := lineBreak
  colon := [' ']
  gap_blank := by
    intro level c h
    rcases List.mem_cons.1 h with rfl | h
    · rfl
    · rw [List.eq_of_mem_replicate h]
      rfl
  colon_blank := by
    intro c h
    rw [List.mem_singleton.1 h]
    rfl

mutual

theorem chars_tight (level : Nat) (doc : Json) : tight.chars level doc = compactChars doc := by
  match doc with
  | .null | .bool flag | .number value | .text value | .array [] | .object [] =>
      rfl
  | .array (item :: rest) =>
      simp [chars, compactChars, tight, ← chars_tight (level + 1) item,
        ← laterItems_tight level rest]
  | .object ((key, value) :: rest) =>
      simp [chars, compactChars, tight, ← chars_tight (level + 1) value,
        ← laterMembers_tight level rest]

theorem laterItems_tight (level : Nat) (items : List Json) :
    tight.laterItems level items = compactItems items := by
  match items with
  | [] =>
      rfl
  | item :: rest =>
      simp [laterItems, compactItems, tight, ← chars_tight (level + 1) item,
        ← laterItems_tight level rest]

theorem laterMembers_tight (level : Nat) (members : Members) :
    tight.laterMembers level members = compactMembers members := by
  match members with
  | [] =>
      rfl
  | (key, value) :: rest =>
      simp [laterMembers, compactMembers, tight, ← chars_tight (level + 1) value,
        ← laterMembers_tight level rest]

end

mutual

theorem chars_lines (level : Nat) (doc : Json) : lines.chars level doc = prettyChars level doc := by
  match doc with
  | .null | .bool flag | .number value | .text value | .array [] | .object [] =>
      rfl
  | .array (item :: rest) =>
      simp [chars, prettyChars, lines, ← chars_lines (level + 1) item,
        ← laterItems_lines level rest]
  | .object ((key, value) :: rest) =>
      simp [chars, prettyChars, lines, ← chars_lines (level + 1) value,
        ← laterMembers_lines level rest]

theorem laterItems_lines (level : Nat) (items : List Json) :
    lines.laterItems level items = prettyItems level items := by
  match items with
  | [] =>
      rfl
  | item :: rest =>
      simp [laterItems, prettyItems, lines, ← chars_lines (level + 1) item,
        ← laterItems_lines level rest]

theorem laterMembers_lines (level : Nat) (members : Members) :
    lines.laterMembers level members = prettyMembers level members := by
  match members with
  | [] =>
      rfl
  | (key, value) :: rest =>
      simp [laterMembers, prettyMembers, lines, ← chars_lines (level + 1) value,
        ← laterMembers_lines level rest]

end

end Spacing

/-! ## Documents that can be read back -/

mutual

def Readable (room : Nat) : Json → Prop
  | .null | .bool _ | .text _ => True
  | .number value => value.ReadsBack
  | .array items => 0 < room ∧ ReadableItems (room - 1) items
  | .object members => 0 < room ∧ ReadableMembers (room - 1) members

def ReadableItems (room : Nat) : List Json → Prop
  | [] => True
  | item :: rest => Readable room item ∧ ReadableItems room rest

def ReadableMembers (room : Nat) : List (String × Json) → Prop
  | [] => True
  | (_, value) :: rest => Readable room value ∧ ReadableMembers room rest

end

theorem readableItems_iff (room : Nat) (items : List Json) :
    ReadableItems room items ↔ ∀ item ∈ items, item.Readable room := by
  induction items with
  | nil =>
      simp [ReadableItems]
  | cons item rest ih =>
      simp [ReadableItems, ih]

theorem readableMembers_iff (room : Nat) (members : Members) :
    ReadableMembers room members ↔ ∀ entry ∈ members, entry.2.Readable room := by
  induction members with
  | nil =>
      simp [ReadableMembers]
  | cons entry rest ih =>
      simp [ReadableMembers, ih]

theorem readable_array {room : Nat} {items : List Json}
    (h : ∀ item ∈ items, item.Readable room) : (Json.array items).Readable (room + 1) := by
  rw [Readable, readableItems_iff]
  exact ⟨Nat.succ_pos room, h⟩

theorem readable_object {room : Nat} {members : Members}
    (h : ∀ entry ∈ members, entry.2.Readable room) : (Json.object members).Readable (room + 1) := by
  rw [Readable, readableMembers_iff]
  exact ⟨Nat.succ_pos room, h⟩

theorem readable_text (room : Nat) (value : String) : (Json.text value).Readable room := by
  rw [Readable]
  trivial

theorem readable_bool (room : Nat) (flag : Bool) : (Json.bool flag).Readable room := by
  rw [Readable]
  trivial

theorem readable_whole (room : Nat) {n : Int} (hlow : -(2 ^ 63) ≤ n) (hhigh : n < 2 ^ 64) :
    (Json.number (.whole n)).Readable room := by
  rw [Readable]
  exact readsBack_whole hlow hhigh

mutual

def steps : Json → Nat
  | .array items => 1 + stepsItems items
  | .object members => 1 + stepsMembers members
  | _ => 1

def stepsItems : List Json → Nat
  | [] => 0
  | item :: rest => 1 + steps item + stepsItems rest

def stepsMembers : List (String × Json) → Nat
  | [] => 0
  | (_, value) :: rest => 1 + steps value + stepsMembers rest

end

theorem one_le_steps (doc : Json) : 1 ≤ doc.steps := by
  cases doc <;> simp [steps]

/-! ## Single characters -/

theorem not_space_of_digit {c : Char} (h : digit? c ≠ none) : isSpace c = false := by
  apply Bool.eq_false_iff.2
  intro hspace
  have hspace : c = ' ' ∨ c = '\n' ∨ c = '\t' ∨ c = '\r' := by
    simpa [isSpace, or_assoc] using hspace
  rcases hspace with rfl | rfl | rfl | rfl <;> exact h rfl

namespace Spacing

variable (spacing : Spacing)

/-- A document starts with neither a blank nor a closing bracket. -/
theorem head_chars {doc : Json} {room : Nat} (h : doc.Readable room) (level : Nat) :
    ∃ c rest, spacing.chars level doc = c :: rest ∧ isSpace c = false ∧ c ≠ ']' := by
  match doc, h with
  | .null, _ | .text value, _ | .array [], _ | .object [], _ | .array (item :: rest), _ |
    .object ((key, value) :: rest), _ =>
      exact ⟨_, _, rfl, by decide, by decide⟩
  | .bool flag, _ =>
      cases flag <;> exact ⟨_, _, rfl, by decide, by decide⟩
  | .number value, h =>
      rw [Readable] at h
      obtain ⟨c, rest, hchars, hhead⟩ := h.head
      refine ⟨c, rest, hchars, ?_, ?_⟩
      · rcases hhead with rfl | hdigit
        · decide
        · exact not_space_of_digit hdigit
      · rintro rfl
        rcases hhead with hminus | hdigit
        · exact absurd hminus (by decide)
        · exact hdigit rfl

theorem endsNumeral_laterItems (level : Nat) (items : List Json) (tail : List Char) :
    EndsNumeral (spacing.laterItems level items ++ tail) := by
  cases items with
  | nil =>
      rw [laterItems, List.append_assoc]
      exact endsNumeral_append (spacing.gap_blank level) (endsNumeral_cons (by decide))
  | cons item rest =>
      exact endsNumeral_cons (by decide)

theorem endsNumeral_laterMembers (level : Nat) (members : Members) (tail : List Char) :
    EndsNumeral (spacing.laterMembers level members ++ tail) := by
  cases members with
  | nil =>
      rw [laterMembers, List.append_assoc]
      exact endsNumeral_append (spacing.gap_blank level) (endsNumeral_cons (by decide))
  | cons entry rest =>
      exact endsNumeral_cons (by decide)

end Spacing

/-! ## Reading -/

/-- A document is read back from a text of it, whatever stands behind. -/
def ReadsBack (spacing : Spacing) (doc : Json) : Prop :=
  ∀ (level room fuel : Nat) (tail : List Char), doc.Readable room → doc.steps ≤ fuel →
    EndsNumeral tail →
    readValue fuel room (spacing.chars level doc ++ tail) = (Reading.ofJson doc, tail)

theorem exists_fuel {doc : Json} {fuel : Nat} (h : doc.steps ≤ fuel) : ∃ rest, fuel = rest + 1 :=
  Nat.exists_eq_add_of_le' (Nat.le_trans doc.one_le_steps h)

theorem readValue_numeral (fuel room : Nat) {c : Char} {rest tail : List Char}
    (hhead : c = '-' ∨ digit? c ≠ none) {numeral : Numeral} {value : Number}
    (hread : readNumeral (c :: rest) = some (numeral, tail)) (hvalue : numeral.value? = some value) :
    readValue (fuel + 1) room (c :: rest) = (.number value, tail) := by
  have hsolid : isSpace c = false := by
    rcases hhead with rfl | hdigit
    · rfl
    · exact not_space_of_digit hdigit
  rw [readValue, skipSpaces_of_solid hsolid]
  split
  case h_7 => simp only [hread, hvalue]
  all_goals
    next heq =>
      cases heq
      rcases hhead with hminus | hdigit
      · exact absurd hminus (by decide)
      · exact absurd rfl hdigit

section

variable (spacing : Spacing)

theorem readsBack_number (value : Number) : ReadsBack spacing (.number value) := by
  intro level room fuel tail hreadable hfuel htail
  rw [Readable] at hreadable
  obtain ⟨numeral, hread, hvalue⟩ := hreadable.readNumeral_append htail
  obtain ⟨c, rest, hchars, hhead⟩ := hreadable.head
  obtain ⟨fuel, rfl⟩ := exists_fuel hfuel
  rw [hchars, List.cons_append] at hread
  rw [Spacing.chars, hchars, List.cons_append, readValue_numeral fuel room hhead hread hvalue]
  rfl

theorem readsBack_text (value : String) : ReadsBack spacing (.text value) := by
  intro level room fuel tail hreadable hfuel htail
  obtain ⟨fuel, rfl⟩ := exists_fuel hfuel
  obtain ⟨chars, hchars, hread⟩ := readQuotation_quoted value tail
  rw [Spacing.chars, hchars, readValue, skipSpaces_of_solid (by decide)]
  simp only [hread, ofQuotation, String.ofList_toList]
  rfl

theorem readsBack_null : ReadsBack spacing .null := by
  intro level room fuel tail hreadable hfuel htail
  obtain ⟨fuel, rfl⟩ := exists_fuel hfuel
  rfl

theorem readsBack_bool (flag : Bool) : ReadsBack spacing (.bool flag) := by
  intro level room fuel tail hreadable hfuel htail
  obtain ⟨fuel, rfl⟩ := exists_fuel hfuel
  cases flag <;> rfl

/-- The items of an array are read back one after the other. -/
theorem readItems_chars (level room : Nat) (tail : List Char) {item : Json} {rest : List Json}
    (hitems : ∀ doc ∈ item :: rest, ReadsBack spacing doc)
    (hreadable : ∀ doc ∈ item :: rest, doc.Readable room) (fuel : Nat)
    (hfuel : stepsItems (item :: rest) ≤ fuel) :
    readItems fuel room
        (spacing.chars (level + 1) item ++ (spacing.laterItems level rest ++ tail)) =
      (Reading.ofItems (item :: rest), tail) := by
  induction rest generalizing item fuel with
  | nil =>
      rw [stepsItems] at hfuel
      obtain ⟨fuel, rfl⟩ : ∃ rest, fuel = rest + 1 := Nat.exists_eq_add_of_le' (by omega)
      have hitem := hitems item List.mem_cons_self (level + 1) room fuel
        (spacing.laterItems level [] ++ tail) (hreadable item List.mem_cons_self) (by omega)
        (spacing.endsNumeral_laterItems level [] tail)
      have hclose : skipSpaces (spacing.laterItems level [] ++ tail) = ']' :: tail := by
        rw [Spacing.laterItems, List.append_assoc, skipSpaces_append (spacing.gap_blank level)]
        exact skipSpaces_of_solid (by decide) tail
      rw [readItems]
      simp only [hitem, hclose]
      rfl
  | cons next rest ih =>
      rw [stepsItems] at hfuel
      obtain ⟨fuel, rfl⟩ : ∃ rest, fuel = rest + 1 := Nat.exists_eq_add_of_le' (by omega)
      have hitem := hitems item List.mem_cons_self (level + 1) room fuel
        (spacing.laterItems level (next :: rest) ++ tail) (hreadable item List.mem_cons_self)
        (by omega) (spacing.endsNumeral_laterItems level (next :: rest) tail)
      have hmore := ih (fun doc hdoc => hitems doc (List.mem_cons_of_mem item hdoc))
        (fun doc hdoc => hreadable doc (List.mem_cons_of_mem item hdoc)) fuel (by omega)
      have hcomma : skipSpaces (spacing.laterItems level (next :: rest) ++ tail) =
          ',' :: (spacing.gap (level + 1) ++
            (spacing.chars (level + 1) next ++ (spacing.laterItems level rest ++ tail))) := by
        rw [Spacing.laterItems, List.cons_append, skipSpaces_of_solid (by decide)]
        simp only [List.append_assoc]
      rw [readItems]
      simp only [hitem, hcomma, readItems_append (spacing.gap_blank (level + 1)), hmore]
      rfl

/-- The members of an object are read back one after the other. -/
theorem readMembers_chars (level room : Nat) (tail : List Char) {key : String} {value : Json}
    {rest : Members} (hmembers : ∀ entry ∈ (key, value) :: rest, ReadsBack spacing entry.2)
    (hreadable : ∀ entry ∈ (key, value) :: rest, entry.2.Readable room) (fuel : Nat)
    (hfuel : stepsMembers ((key, value) :: rest) ≤ fuel) :
    readMembers fuel room (quoted key ++ ':' :: (spacing.colon ++
        (spacing.chars (level + 1) value ++ (spacing.laterMembers level rest ++ tail)))) =
      (Reading.ofMembers ((key, value) :: rest), tail) := by
  induction rest generalizing key value fuel with
  | nil =>
      rw [stepsMembers] at hfuel
      obtain ⟨fuel, rfl⟩ : ∃ rest, fuel = rest + 1 := Nat.exists_eq_add_of_le' (by omega)
      have hvalue := hmembers _ List.mem_cons_self (level + 1) room fuel
        (spacing.laterMembers level [] ++ tail) (hreadable _ List.mem_cons_self)
        (show value.steps ≤ fuel by omega)
        (spacing.endsNumeral_laterMembers level [] tail)
      have hclose : skipSpaces (spacing.laterMembers level [] ++ tail) = '\x7d' :: tail := by
        rw [Spacing.laterMembers, List.append_assoc, skipSpaces_append (spacing.gap_blank level)]
        exact skipSpaces_of_solid (by decide) tail
      obtain ⟨chars, hkey, hread⟩ := readQuotation_quoted key (':' :: (spacing.colon ++
        (spacing.chars (level + 1) value ++ (spacing.laterMembers level [] ++ tail))))
      rw [hkey, readMembers, skipSpaces_of_solid (by decide)]
      simp only [hread, skipSpaces_of_solid (show isSpace ':' = false by decide),
        readValue_append spacing.colon_blank, hvalue, hclose, Option.map_some,
        String.ofList_toList]
      rfl
  | cons next rest ih =>
      obtain ⟨nextKey, nextValue⟩ := next
      rw [stepsMembers] at hfuel
      obtain ⟨fuel, rfl⟩ : ∃ rest, fuel = rest + 1 := Nat.exists_eq_add_of_le' (by omega)
      have hvalue := hmembers _ List.mem_cons_self (level + 1) room fuel
        (spacing.laterMembers level ((nextKey, nextValue) :: rest) ++ tail)
        (hreadable _ List.mem_cons_self) (show value.steps ≤ fuel by omega)
        (spacing.endsNumeral_laterMembers level ((nextKey, nextValue) :: rest) tail)
      have hmore := ih (fun entry hentry => hmembers entry (List.mem_cons_of_mem _ hentry))
        (fun entry hentry => hreadable entry (List.mem_cons_of_mem _ hentry)) fuel
        (by omega)
      have hcomma :
          skipSpaces (spacing.laterMembers level ((nextKey, nextValue) :: rest) ++ tail) =
          ',' :: (spacing.gap (level + 1) ++ (quoted nextKey ++ ':' :: (spacing.colon ++
            (spacing.chars (level + 1) nextValue ++
              (spacing.laterMembers level rest ++ tail))))) := by
        rw [Spacing.laterMembers, List.cons_append, skipSpaces_of_solid (by decide)]
        simp only [List.append_assoc, List.cons_append]
      obtain ⟨chars, hkey, hread⟩ := readQuotation_quoted key (':' :: (spacing.colon ++
        (spacing.chars (level + 1) value ++
          (spacing.laterMembers level ((nextKey, nextValue) :: rest) ++ tail))))
      rw [hkey, readMembers, skipSpaces_of_solid (by decide)]
      simp only [hread, skipSpaces_of_solid (show isSpace ':' = false by decide),
        readValue_append spacing.colon_blank, hvalue, hcomma,
        readMembers_append (spacing.gap_blank (level + 1)), hmore, Option.map_some,
        String.ofList_toList]
      rfl

theorem readsBack_array {items : List Json} (hitems : ∀ doc ∈ items, ReadsBack spacing doc) :
    ReadsBack spacing (.array items) := by
  intro level room fuel tail hreadable hfuel htail
  rw [Readable, readableItems_iff] at hreadable
  obtain ⟨fuel, rfl⟩ := exists_fuel hfuel
  cases items with
  | nil =>
      rw [Spacing.chars, List.cons_append, readValue, skipSpaces_of_solid (by decide)]
      simp only [List.cons_append, List.nil_append,
        skipSpaces_of_solid (show isSpace ']' = false by decide), enclose, hreadable.1, if_true]
      rfl
  | cons item rest =>
      rw [steps] at hfuel
      have hread := readItems_chars spacing level (room - 1) tail hitems hreadable.2
        fuel (by omega)
      obtain ⟨c, more, hchars, hsolid, hopen⟩ :=
        spacing.head_chars (hreadable.2 item List.mem_cons_self) (level + 1)
      have hskip : skipSpaces (spacing.gap (level + 1) ++ (spacing.chars (level + 1) item ++
          (spacing.laterItems level rest ++ tail))) =
          c :: (more ++ (spacing.laterItems level rest ++ tail)) := by
        rw [skipSpaces_append (spacing.gap_blank (level + 1)), hchars, List.cons_append]
        exact skipSpaces_of_solid hsolid _
      rw [hchars, List.cons_append] at hread
      rw [Spacing.chars, List.cons_append, readValue, skipSpaces_of_solid (by decide)]
      simp only [List.append_assoc, hskip, enclose, hreadable.1, if_true]
      simp [hopen, hread, Reading.ofJson]

theorem readsBack_object {members : Members}
    (hmembers : ∀ entry ∈ members, ReadsBack spacing entry.2) :
    ReadsBack spacing (.object members) := by
  intro level room fuel tail hreadable hfuel htail
  rw [Readable, readableMembers_iff] at hreadable
  obtain ⟨fuel, rfl⟩ := exists_fuel hfuel
  match members with
  | [] =>
      rw [Spacing.chars, List.cons_append, readValue, skipSpaces_of_solid (by decide)]
      simp only [List.cons_append, List.nil_append,
        skipSpaces_of_solid (show isSpace '\x7d' = false by decide), enclose, hreadable.1, if_true]
      rfl
  | (key, value) :: rest =>
      rw [steps] at hfuel
      have hread := readMembers_chars spacing level (room - 1) tail hmembers hreadable.2
        fuel (by omega)
      obtain ⟨chars, hkey, -⟩ := readQuotation_quoted key (':' :: (spacing.colon ++
        (spacing.chars (level + 1) value ++ (spacing.laterMembers level rest ++ tail))))
      have hskip : skipSpaces (spacing.gap (level + 1) ++ (quoted key ++ ':' :: (spacing.colon ++
          (spacing.chars (level + 1) value ++ (spacing.laterMembers level rest ++ tail))))) =
          '"' :: chars := by
        rw [skipSpaces_append (spacing.gap_blank (level + 1)), hkey]
        exact skipSpaces_of_solid (by decide) _
      rw [hkey] at hread
      rw [Spacing.chars, List.cons_append, readValue, skipSpaces_of_solid (by decide)]
      simp only [List.append_assoc, List.cons_append, hskip, enclose, hreadable.1, if_true]
      simp [hread, Reading.ofJson]

/-- Every document is read back from each of its texts. -/
theorem readsBack (doc : Json) : ReadsBack spacing doc := by
  induction doc using Json.induction with
  | null => exact readsBack_null spacing
  | bool flag => exact readsBack_bool spacing flag
  | number value => exact readsBack_number spacing value
  | text value => exact readsBack_text spacing value
  | array items ih => exact readsBack_array spacing ih
  | object members ih => exact readsBack_object spacing ih

end

/-! ## Whole texts -/

namespace Spacing

variable (spacing : Spacing)

theorem stepsItems_le (level : Nat) {items : List Json}
    (h : ∀ item ∈ items, item.steps + 1 ≤ 2 * (spacing.chars (level + 1) item).length) :
    stepsItems items + 2 ≤ 2 * (spacing.laterItems level items).length := by
  induction items with
  | nil =>
      simp only [stepsItems, laterItems, List.length_append, List.length_singleton]
      omega
  | cons item rest ih =>
      have hitem := h item List.mem_cons_self
      have hrest := ih fun other hother => h other (List.mem_cons_of_mem item hother)
      simp only [stepsItems, laterItems, List.length_cons, List.length_append]
      omega

theorem stepsMembers_le (level : Nat) {members : Members}
    (h : ∀ entry ∈ members, entry.2.steps + 1 ≤ 2 * (spacing.chars (level + 1) entry.2).length) :
    stepsMembers members + 2 ≤ 2 * (spacing.laterMembers level members).length := by
  induction members with
  | nil =>
      simp only [stepsMembers, laterMembers, List.length_append, List.length_singleton]
      omega
  | cons entry rest ih =>
      have hentry := h entry List.mem_cons_self
      have hrest := ih fun other hother => h other (List.mem_cons_of_mem entry hother)
      simp only [stepsMembers, laterMembers, List.length_cons, List.length_append]
      omega

/-- The reader takes fewer than two steps for each character. -/
theorem steps_le (doc : Json) {room : Nat} (hreadable : doc.Readable room) (level : Nat) :
    doc.steps + 1 ≤ 2 * (spacing.chars level doc).length := by
  induction doc using Json.induction generalizing room level with
  | null => simp [steps, chars]
  | bool flag => cases flag <;> simp [steps, chars, boolChars]
  | text value =>
      simp only [steps, chars, quoted, List.length_cons]
      omega
  | number value =>
      rw [Readable] at hreadable
      obtain ⟨c, rest, hchars, -⟩ := hreadable.head
      simp only [steps, chars, hchars, List.length_cons]
      omega
  | array items ih =>
      rw [Readable, readableItems_iff] at hreadable
      cases items with
      | nil =>
          simp [steps, stepsItems, chars]
      | cons item rest =>
          have hitem := ih item List.mem_cons_self (hreadable.2 item List.mem_cons_self) (level + 1)
          have hrest := spacing.stepsItems_le level fun other hother =>
            ih other (List.mem_cons_of_mem item hother)
              (hreadable.2 other (List.mem_cons_of_mem item hother)) (level + 1)
          simp only [steps, stepsItems, chars, List.length_cons, List.length_append]
          omega
  | object members ih =>
      rw [Readable, readableMembers_iff] at hreadable
      cases members with
      | nil =>
          simp [steps, stepsMembers, chars]
      | cons entry rest =>
          obtain ⟨key, value⟩ := entry
          have hvalue : value.steps + 1 ≤ 2 * (spacing.chars (level + 1) value).length :=
            ih _ List.mem_cons_self (hreadable.2 _ List.mem_cons_self) (level + 1)
          have hrest := spacing.stepsMembers_le level fun other hother =>
            ih other (List.mem_cons_of_mem _ hother)
              (hreadable.2 other (List.mem_cons_of_mem _ hother)) (level + 1)
          simp only [steps, stepsMembers, chars, List.length_cons, List.length_append]
          omega

/-- A text of a document is read as that document and nothing else. -/
theorem read_chars {doc : Json} (h : doc.Readable maxDepth) (level : Nat) :
    read (spacing.chars level doc) = ⟨Reading.ofJson doc, true⟩ := by
  have hsteps := spacing.steps_le doc h level
  have hread := readsBack spacing doc level maxDepth (2 * (spacing.chars level doc).length + 2) []
    h (by omega) endsNumeral_nil
  rw [List.append_nil] at hread
  rw [read]
  simp only [hread]
  rfl

end Spacing

/-- The indented text of a document is read as that document. -/
theorem read_prettyChars {doc : Json} (h : doc.Readable maxDepth) :
    read (prettyChars 0 doc) = ⟨Reading.ofJson doc, true⟩ := by
  rw [← Spacing.chars_lines]
  exact Spacing.lines.read_chars h 0

/-- The compact text of a document is read as that document. -/
theorem read_compactChars {doc : Json} (h : doc.Readable maxDepth) :
    read (compactChars doc) = ⟨Reading.ofJson doc, true⟩ := by
  rw [← Spacing.chars_tight 0]
  exact Spacing.tight.read_chars h 0

end Json

end MapCatalog
