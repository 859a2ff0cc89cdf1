import MapCatalog.Proofs.Record.Members

/-!
# What decoding keeps

Where every field of a record keeps a property of the record, whatever it reads, the decoded record has
the property if the blank one has it.  Something may be known of all that is read; it is then known of
the members that are set aside as well.
-/

namespace MapCatalog

namespace Decode

variable {α ρ : Type} {R : Reading → Prop}

/-- Whatever is decoded from a reading of which something is known has a property. -/
def YieldsFrom (R : Reading → Prop) (decode : Decoder α) (P : α → Prop) : Prop :=
  ∀ origin reading value, R reading → decode origin reading = .ok value → P value

/-- Whatever change a field makes to a record by such a reading, the record keeps a property. -/
def Field.KeepsFrom (R : Reading → Prop) (field : Field ρ) (P : ρ → Prop) : Prop :=
  ∀ origin reading change record, R reading →
    field.read origin reading = .ok change → P record → P (change record)

/-- A field that decodes a value keeps what setting such a value keeps. -/
theorem keeps_of_map {field : Field ρ} {decode : Decoder α} {set : α → ρ → ρ}
    (hfield : ∀ origin reading, field.read origin reading = (decode origin reading).map set)
    {Q : α → Prop} {P : ρ → Prop} (hdecode : YieldsFrom R decode Q)
    (hset : ∀ value record, Q value → P record → P (set value record)) : field.KeepsFrom R P := by
  intro origin reading change record hreading hread hrecord
  rw [hfield] at hread
  obtain ⟨value, hvalue, rfl⟩ := map_eq_ok hread
  exact hset value record (hdecode origin reading value hreading hvalue) hrecord

theorem keeps_needed {key : String} {decode : Decoder α} {set : α → ρ → ρ} {Q : α → Prop}
    {P : ρ → Prop} (hdecode : YieldsFrom R decode Q)
    (hset : ∀ value record, Q value → P record → P (set value record)) :
    (Field.needed key decode set).KeepsFrom R P :=
  keeps_of_map (fun _ _ => rfl) hdecode hset

theorem keeps_given {key : String} {decode : Decoder α} {set : α → ρ → ρ} {Q : α → Prop}
    {P : ρ → Prop} (hdecode : YieldsFrom R decode Q)
    (hset : ∀ value record, Q value → P record → P (set value record)) :
    (Field.given key decode set).KeepsFrom R P :=
  keeps_of_map (fun _ _ => rfl) hdecode hset

theorem keeps_nullable [Inhabited α] {key : String} {decode : Decoder α} {set : α → ρ → ρ}
    {Q : α → Prop} {P : ρ → Prop} (hdecode : YieldsFrom R decode Q) (hdefault : Q default)
    (hset : ∀ value record, Q value → P record → P (set value record)) :
    (Field.nullable key decode set).KeepsFrom R P := by
  intro origin reading change record hreading hread hrecord
  unfold Field.nullable at hread
  simp only at hread
  split at hread
  case h_1 =>
    cases hread
    exact hset default record hdefault hrecord
  case h_2 =>
    obtain ⟨value, hvalue, rfl⟩ := map_eq_ok hread
    exact hset value record (hdecode origin _ value hreading hvalue) hrecord

variable {fields : List (Field ρ)} {P : ρ → Prop}

/-- Going through members keeps what every field keeps, and sets nothing aside but members. -/
theorem visit_keeps (hfields : ∀ field ∈ fields, field.KeepsFrom R P) {others : Others}
    {origin : Origin} {seen : List String} {record : ρ} {entries : Reading.Members}
    {visited : Visited ρ} (hentries : ∀ entry ∈ entries, R entry.2) (hrecord : P record)
    (h : visit fields others origin seen record entries = .ok visited) :
    P visited.record ∧ ∀ entry ∈ visited.aside, R entry.2 := by
  induction entries generalizing seen record visited with
  | nil =>
      cases h
      exact ⟨hrecord, by simp⟩
  | cons entry rest ih =>
      obtain ⟨key, value⟩ := entry
      obtain ⟨hvalue, hrest⟩ := List.forall_mem_cons.1 hentries
      cases key with
      | none => cases h
      | some key =>
          rw [visit] at h
          split at h
          case h_1 field hfield =>
            split at h
            case isTrue => cases h
            case isFalse =>
              split at h
              case h_1 => cases h
              case h_2 change hread =>
                have hmem : field ∈ fields := List.mem_of_find?_eq_some hfield
                exact ih hrest (hfields field hmem origin value change record hvalue hread hrecord) h
          case h_2 =>
            split at h
            case isFalse => cases h
            case isTrue =>
              split at h
              case h_1 => cases h
              case h_2 found hfound =>
                cases h
                obtain ⟨hkept, haside⟩ := ih hrest hrecord hfound
                refine ⟨hkept, ?_⟩
                cases others with
                | skipped => exact haside
                | kept => exact List.forall_mem_cons.2 ⟨hvalue, haside⟩

theorem members_keeps (hfields : ∀ field ∈ fields, field.KeepsFrom R P) {blank : ρ}
    (hblank : P blank) {others : Others} {origin : Origin} {entries aside : Reading.Members}
    {record : ρ} (hentries : ∀ entry ∈ entries, R entry.2)
    (h : members fields blank others origin entries = .ok (record, aside)) :
    P record ∧ ∀ entry ∈ aside, R entry.2 := by
  unfold members at h
  split at h
  case h_1 => cases h
  case h_2 visited hvisited =>
    split at h
    case h_1 => cases h
    case h_2 =>
      cases h
      exact visit_keeps hfields hentries hblank hvisited

theorem part_keeps (hfields : ∀ field ∈ fields, field.KeepsFrom R P) {blank : ρ}
    (hblank : P blank) {aside : Reading.Members} {result : ρ}
    (haside : ∀ entry ∈ aside, R entry.2) (h : part fields blank aside = .ok result) :
    P result := by
  obtain ⟨⟨found, rest⟩, hfound, rfl⟩ := map_eq_ok h
  exact (members_keeps hfields hblank haside hfound).1

theorem yields_any (decode : Decoder α) : YieldsFrom R decode fun _ => True :=
  fun _ _ _ _ _ => trivial

theorem keeps_true (fields : List (Field ρ)) :
    ∀ field ∈ fields, field.KeepsFrom R fun _ => True :=
  fun _ _ _ _ _ _ _ _ _ => trivial

end Decode

end MapCatalog
