import MapCatalog.Proofs.Editor.Storing
import MapCatalog.Proofs.Record.Optional

/-! # Property maps of a form -/

namespace MapCatalog

/-! ## Blank texts -/

namespace Json

theorem not_blank_of_digit {c : Char} (h : digit? c ≠ none) : Text.isBlank c = false := by
  unfold digit? at h
  split at h
  case isFalse => exact absurd rfl h
  case isTrue hrange =>
    have hlow : 48 ≤ c.toNat := hrange.1
    have hhigh : c.toNat ≤ 57 := hrange.2
    simp only [Text.isBlank]
    simp
    omega

/-- Neither a value nor a numeral starts with a blank character. -/
theorem readValue_of_blank {chars : List Char} (h : chars.all Text.isBlank = true)
    (fuel room : Nat) : (readValue (fuel + 1) room chars).1 = .fault .malformed := by
  have hblank : ∀ c ∈ skipSpaces chars, Text.isBlank c = true := fun c hc =>
    List.all_eq_true.1 h c ((List.dropWhile_suffix _).subset hc)
  rw [readValue]
  generalize skipSpaces chars = rest at hblank
  split
  case h_7 =>
    cases hnumeral : readNumeral rest with
    | none => rfl
    | some found =>
        obtain ⟨c, more, rfl, hc⟩ := head_of_readNumeral hnumeral
        have hfirst := hblank c List.mem_cons_self
        rcases hc with rfl | hdigit
        · cases hfirst
        · rw [not_blank_of_digit hdigit] at hfirst
          cases hfirst
  all_goals exact absurd (hblank _ List.mem_cons_self) (by decide)

theorem solid_of_parse? {text : String} {doc : Json} (h : parse? text = some doc) :
    Text.allBlank text = false := by
  rw [Bool.eq_false_iff]
  intro hblank
  obtain ⟨raw, hraw, -⟩ := Option.map_eq_some_iff.1 h
  obtain ⟨-, hroot⟩ := read_of_parseRaw? hraw
  have hfault : (read text.toList).root = .fault .malformed :=
    readValue_of_blank hblank (2 * text.toList.length + 1) maxDepth
  rw [hfault] at hroot
  cases raw <;> cases hroot

end Json

/-! ## Spellings of a map -/

namespace StyleForm

def map (s : StyleForm) : StyleMap → Json.Members
  | .paint => s.paint
  | .layout => s.layout

def withMap (which : StyleMap) (members : Json.Members) (s : StyleForm) : StyleForm :=
  match which with
  | .paint => { s with paint := members }
  | .layout => { s with layout := members }

theorem map_withMap (which : StyleMap) (members : Json.Members) (s : StyleForm) :
    (s.withMap which members).map which = members := by
  cases which <;> rfl

theorem withMap_map (which : StyleMap) (s : StyleForm) : s.withMap which (s.map which) = s := by
  cases which <;> rfl

inductive Writes : Json.Members → Json → Prop
  | object {members found : Json.Members} (h : Json.normalizeMembers found = members) :
      Writes members (.object found)
  | text {members : Json.Members} {text : String} (h : Json.parse? text = some (.object members)) :
      Writes members (.text text)
  | null : Writes [] .null
  | blank {text : String} (h : Text.allBlank text = true) : Writes [] (.text text)

inductive Unfit : Json → Prop
  | bool (flag : Bool) : Unfit (.bool flag)
  | number (value : Json.Number) : Unfit (.number value)
  | array (items : List Json) : Unfit (.array items)
  | text {text : String} (hsolid : Text.allBlank text = false)
      (hparse : ∀ members, Json.parse? text ≠ some (.object members)) : Unfit (.text text)

theorem propertyMap_eq_ok_iff {origin : Decode.Origin} {doc : Json} {members : Json.Members} :
    propertyMap origin (Reading.ofJson doc) = .ok members ↔ Writes members doc := by
  simp only [propertyMap, Reading.toJson?_ofJson]
  constructor
  · intro h
    cases doc with
    | null =>
        cases h
        exact .null
    | object found => exact .object (Except.ok.inj h)
    | bool flag | number value | array items => cases h
    | text text =>
        simp only at h
        split at h
        case isTrue hblank =>
          cases h
          exact .blank hblank
        case isFalse =>
          split at h
          case h_1 hparse =>
            cases h
            exact .text hparse
          case h_2 => cases h
          case h_3 => cases h
  · rintro (⟨rfl⟩ | hparse | _ | hblank)
    · rfl
    · simp [Json.solid_of_parse? hparse, hparse]
    · rfl
    · simp [hblank]

theorem Unfit.not_writes {doc : Json} (h : Unfit doc) (members : Json.Members) :
    ¬ Writes members doc := by
  cases h with
  | bool flag | number value | array items => rintro ⟨⟩
  | text hsolid hparse =>
      rintro (_ | hfound | _ | hblank)
      · exact hparse members hfound
      · rw [hsolid] at hblank
        cases hblank

theorem exists_writes_or_unfit (doc : Json) : (∃ members, Writes members doc) ∨ Unfit doc := by
  cases doc with
  | null => exact .inl ⟨[], .null⟩
  | bool flag => exact .inr (.bool flag)
  | number value => exact .inr (.number value)
  | array items => exact .inr (.array items)
  | object found => exact .inl ⟨_, .object rfl⟩
  | text text =>
      cases hblank : Text.allBlank text with
      | true => exact .inl ⟨[], .blank hblank⟩
      | false =>
          by_cases hparse : ∃ members, Json.parse? text = some (.object members)
          · obtain ⟨members, hparse⟩ := hparse
            exact .inl ⟨members, .text hparse⟩
          · exact .inr (.text hblank (not_exists.1 hparse))

theorem Writes.normalize {members : Json.Members} {doc : Json} (h : Writes members doc) :
    Writes members doc.normalize := by
  cases h with
  | object h => exact .object (by rw [Json.normalizeMembers_normalizeMembers, h])
  | text h => exact .text h
  | null => exact .null
  | blank h => exact .blank h

theorem Unfit.normalize {doc : Json} (h : Unfit doc) : Unfit doc.normalize := by
  cases h with
  | bool flag => exact .bool flag
  | number value => exact .number value
  | array items => exact .array _
  | text hsolid hparse => exact .text hsolid hparse

theorem accepts_map {which : StyleMap} {members : Json.Members} {doc : Json}
    (h : Writes members doc) :
    Decode.Accepts fields .tree which.name doc (withMap which members) := by
  have hread : propertyMap .tree (Reading.ofJson doc) = .ok members :=
    propertyMap_eq_ok_iff.2 h
  cases which with
  | paint => exact ⟨⟨_, rfl, congrArg (Except.map _) hread⟩, by decide⟩
  | layout => exact ⟨⟨_, rfl, congrArg (Except.map _) hread⟩, by decide⟩

end StyleForm

/-! ## Forms with a map -/

namespace LayerForm

open StyleForm (Unfit Writes)

def withMap (which : StyleMap) (members : Json.Members) (l : LayerForm) : LayerForm :=
  { l with style := l.style.withMap which members }

def carrying (which : StyleMap) (doc : Json) (before after : Json.Members) : Json.Members :=
  before ++ (which.name, doc) :: after

theorem absorbs_map {which : StyleMap} {members : Json.Members} {doc : Json}
    (h : Writes members doc) (origin : Decode.Origin) :
    Decode.Absorbs (decodeMembers origin) which.name doc (withMap which members) := by
  have hown : Decode.field? ownFields which.name = none := by cases which <;> rfl
  have hcamera : Decode.field? Camera.fields which.name = none := by cases which <;> rfl
  rw [decodeMembers_eq]
  exact .behind hown (((Decode.Ignores.only hcamera).absorbs doc).both
    (.only StyleForm.fields_apart (StyleForm.accepts_map h))) fun _ _ => rfl

theorem refuses_unfit {which : StyleMap} {doc : Json} (h : Unfit doc) (before after : Json.Members)
    (origin : Decode.Origin) (form : LayerForm) :
    decodeMembers origin (Reading.ofMembers (carrying which doc before after)) ≠ .ok form := by
  intro hform
  have hown : Decode.field? ownFields which.name = none := by cases which <;> rfl
  obtain ⟨-, hparts⟩ := Decode.members_bind_eq_ok_iff.1 hform
  obtain ⟨camera, -, hstyle⟩ := Decode.bind_eq_ok hparts
  obtain ⟨style, hstyle, -⟩ := Decode.bind_eq_ok hstyle
  obtain ⟨hfits, -⟩ := Decode.members_fst_eq_ok_iff.1 hstyle
  have haside : (which.name, doc) ∈ Decode.foreign ownFields (carrying which doc before after) :=
    List.mem_filter.2 ⟨by simp [carrying], by simp [Decode.knows, hown]⟩
  obtain ⟨field, hfield, hread⟩ : ∃ field, Decode.field? StyleForm.fields which.name = some field ∧
      ∀ made, field.read .tree (Reading.ofJson doc) = .ok made →
        ∃ members, StyleForm.propertyMap .tree (Reading.ofJson doc) = .ok members := by
    cases which with
    | paint => exact ⟨_, rfl, fun made hmade => (Decode.map_eq_ok hmade).imp fun _ => And.left⟩
    | layout => exact ⟨_, rfl, fun made hmade => (Decode.map_eq_ok hmade).imp fun _ => And.left⟩
  have hknown : (which.name, doc) ∈ Decode.known StyleForm.fields
      (Decode.foreign ownFields (carrying which doc before after)) :=
    List.mem_filter.2 ⟨haside, by simp [Decode.knows, hfield]⟩
  obtain ⟨made, hmade⟩ := hfits.reads _ hknown field hfield
  obtain ⟨members, hmembers⟩ := hread made hmade
  exact h.not_writes members (StyleForm.propertyMap_eq_ok_iff.1 hmembers)

/-- A map of a type that is not compiled is stored as its compact text, and read back from it. -/
theorem exists_stored {form : LayerForm} {which : StyleMap} {members : Json.Members}
    (hmap : Json.IsMap members) (hlegible : Json.Legible members)
    (hform : form.style.map which = members) (hkind : form.visualType.isCompiled = false) :
    ∃ fields, form.toFields = .ok fields ∧ fields.Prints which members := by
  have hcompile := StyleForm.compile_of_not_compiled form.style hkind
  obtain ⟨fields, hfields, hpaint, hlayout⟩ : ∃ fields, form.toFields = .ok fields ∧
      fields.paint = (Json.object form.style.paint).compact ∧
      fields.layout = (Json.object form.style.layout).compact := by
    rw [toFields, hcompile]
    exact ⟨_, rfl, rfl, rfl⟩
  refine ⟨fields, hfields, LayerFields.prints_of_compact hmap hlegible ?_⟩
  subst hform
  cases which with
  | paint => exact hpaint
  | layout => exact hlayout

/-- What a form makes of a property map beside other members, however the map is written. -/
structure TakesMap (which : StyleMap) (before after : Json.Members) : Prop where
  /-- The form is the one without the map, with the map put in. -/
  reading : ∀ members doc, Writes members doc → ∀ origin,
    decode origin (Reading.ofJson (.object (carrying which doc before after))) =
      (decode origin (Reading.ofJson (.object (before ++ after)))).map (withMap which members)
  document : ∀ members doc, Writes members doc →
    Decode.ofJson decode (.object (carrying which doc before after)) =
      (Decode.ofJson decode (.object (before ++ after))).map (withMap which members)
  text : ∀ members doc, Writes members doc → ∀ chars,
    Json.parseRaw? chars = some (.object (carrying which doc before after)) →
    Decode.ofText decode chars =
      (decode .text (Reading.ofJson (.object (before ++ after)))).map (withMap which members)
  /-- Without a member for it the map is empty, so null and a blank text are as good as none. -/
  absent : ∀ form, Decode.DecodesTo decode (before ++ after) form → form.style.map which = []
  empty : ∀ doc, Writes [] doc → ∀ origin,
    decode origin (Reading.ofJson (.object (carrying which doc before after))) =
      decode origin (Reading.ofJson (.object (before ++ after)))
  /-- Whatever writes no map is refused. -/
  writes_or_unfit : ∀ doc, (∃ members, Writes members doc) ∨ Unfit doc
  refused : ∀ doc, Unfit doc → ∀ form,
    ¬ Decode.DecodesTo decode (carrying which doc before after) form
  /-- A type that is not compiled stores the map as its compact text, from which it is read back. -/
  stored : ∀ members doc, Json.IsMap members → Json.Legible members → Writes members doc →
    ∀ form, Decode.DecodesTo decode (carrying which doc before after) form →
    form.visualType.isCompiled = false →
    ∃ fields, form.toFields = .ok fields ∧
      fields.mapText which = (Json.object members).compact ∧ fields.map which = .ok members

/-- A map that is left out is one of the optional parts of a form. -/
theorem exists_optional_map (which : StyleMap) : ∃ key ∈ optional, key.key = which.name ∧
    ∀ form, key.Blank form → form.style.map which = [] := by
  cases which with
  | paint =>
      exact ⟨_, List.mem_append_right _ (List.mem_map_of_mem (List.mem_append_right _
        (List.mem_map_of_mem List.mem_cons_self))), rfl, fun _ h => h⟩
  | layout =>
      exact ⟨_, List.mem_append_right _ (List.mem_map_of_mem (List.mem_append_right _
        (List.mem_map_of_mem (List.mem_cons_of_mem _ List.mem_cons_self)))), rfl, fun _ h => h⟩

section Carrying

variable {which : StyleMap} {before after : Json.Members}
  (hkey : which.name ∉ Json.keys (before ++ after))

include hkey

theorem absent_of_decodesTo {form : LayerForm}
    (h : Decode.DecodesTo decode (before ++ after) form) : form.style.map which = [] := by
  obtain ⟨key, hoptional, hname, hblank⟩ := exists_optional_map which
  rw [← hname] at hkey
  refine hblank form ?_
  cases h with
  | reading origin h => exact (tolerates origin key hoptional).blank_of_absent hkey h
  | text chars hparse h =>
      rw [Decode.ofText_of_parseRaw? decode hparse] at h
      exact (tolerates .text key hoptional).blank_of_absent hkey h
  | document h =>
      refine (tolerates .tree key hoptional).blank_of_absent ?_ h
      rwa [Json.mem_keys_normalizeMembers]

variable {members : Json.Members} {doc : Json} (h : Writes members doc)

include h

theorem reading_carrying (origin : Decode.Origin) :
    decode origin (Reading.ofJson (.object (carrying which doc before after))) =
      (decode origin (Reading.ofJson (.object (before ++ after)))).map (withMap which members) :=
  absorbs_map h origin hkey

/-- In the normal form the map is carried among the other members in their order. -/
theorem document_carrying :
    Decode.ofJson decode (.object (carrying which doc before after)) =
      (Decode.ofJson decode (.object (before ++ after))).map (withMap which members) := by
  obtain ⟨first, rest, hwith, hwithout⟩ := Json.exists_normalizeMembers_insert doc hkey
  have hnormal : which.name ∉ Json.keys (first ++ rest) := by
    rwa [← hwithout, Json.mem_keys_normalizeMembers]
  rw [Decode.ofJson, Decode.ofJson, Json.normalize, Json.normalize, carrying, hwith, hwithout]
  exact absorbs_map h.normalize .tree hnormal

theorem text_carrying {chars : List Char}
    (hparse : Json.parseRaw? chars = some (.object (carrying which doc before after))) :
    Decode.ofText decode chars =
      (decode .text (Reading.ofJson (.object (before ++ after)))).map (withMap which members) := by
  rw [Decode.ofText_of_parseRaw? decode hparse]
  exact reading_carrying hkey h .text

theorem map_of_decodesTo {form : LayerForm}
    (hform : Decode.DecodesTo decode (carrying which doc before after) form) :
    form.style.map which = members := by
  obtain ⟨found, rfl⟩ : ∃ found, form = withMap which members found := by
    cases hform with
    | reading origin hform =>
        rw [reading_carrying hkey h] at hform
        exact (Decode.map_eq_ok hform).imp fun _ => And.right
    | document hform =>
        rw [document_carrying hkey h] at hform
        exact (Decode.map_eq_ok hform).imp fun _ => And.right
    | text chars hparse hform =>
        rw [text_carrying hkey h hparse] at hform
        exact (Decode.map_eq_ok hform).imp fun _ => And.right
  exact found.style.map_withMap which members

omit h

theorem empty_carrying {doc : Json} (h : Writes [] doc) (origin : Decode.Origin) :
    decode origin (Reading.ofJson (.object (carrying which doc before after))) =
      decode origin (Reading.ofJson (.object (before ++ after))) := by
  rw [reading_carrying hkey h]
  cases hform : decode origin (Reading.ofJson (.object (before ++ after))) with
  | error e => rfl
  | ok form =>
      have habsent := absent_of_decodesTo hkey (.reading origin hform)
      have hsame := form.style.withMap_map which
      rw [habsent] at hsame
      rw [Except.map, withMap, hsame]

theorem not_decodesTo_of_unfit {doc : Json} (h : Unfit doc) (form : LayerForm) :
    ¬ Decode.DecodesTo decode (carrying which doc before after) form := by
  intro hform
  cases hform with
  | reading origin hform => exact refuses_unfit h before after origin form hform
  | document hform =>
      obtain ⟨first, rest, hwith, -⟩ := Json.exists_normalizeMembers_insert doc hkey
      rw [Decode.ofJson, Json.normalize, carrying, hwith] at hform
      exact refuses_unfit h.normalize first rest .tree form hform
  | text chars hparse hform =>
      rw [Decode.ofText_of_parseRaw? decode hparse] at hform
      exact refuses_unfit h before after .text form hform

end Carrying

/-- A property map means the same however it is submitted, and is found again in what is stored. -/
theorem takes_map (which : StyleMap) (before after : Json.Members)
    (hkey : which.name ∉ Json.keys (before ++ after)) : TakesMap which before after where
  reading _ _ hwrites := reading_carrying hkey hwrites
  document _ _ hwrites := document_carrying hkey hwrites
  text _ _ hwrites _ hparse := text_carrying hkey hwrites hparse
  absent _ hform := absent_of_decodesTo hkey hform
  empty _ hwrites := empty_carrying hkey hwrites
  writes_or_unfit := StyleForm.exists_writes_or_unfit
  refused _ hunfit := not_decodesTo_of_unfit hkey hunfit
  stored := by
    intro members doc hmap hlegible hwrites form hform hkind
    have hheld : form.style.map which = members := map_of_decodesTo hkey hwrites hform
    obtain ⟨fields, hfields, hprints⟩ := exists_stored hmap hlegible hheld hkind
    exact ⟨fields, hfields, hprints.text.symm, hprints.map⟩

def sampleBefore : Json.Members :=
  [("type", .text "heatmap")]

def sampleAfter : Json.Members :=
  [("name", .text "Heat")]

def sampleMap : Json.Members :=
  [("heatmap-weight", .number (.whole 1))]

theorem exists_sample_plain : ∃ plain,
    Decode.ofJson decode (.object (sampleBefore ++ sampleAfter)) = .ok plain ∧
      .heatmap = plain.visualType := by
  have hkind : (Decode.ofJson decode (.object (sampleBefore ++ sampleAfter))).map visualType =
      .ok .heatmap := by decide +kernel
  exact Decode.map_eq_ok hkind

/-- The heatmap with its paint properties as a text is stored with the compact text. -/
theorem sample_takes_map :
    StyleMap.paint.name ∉ Json.keys (sampleBefore ++ sampleAfter) ∧
    ∃ form fields, Decode.ofJson decode (.object (carrying .paint
        (.text "\x7b \"heatmap-weight\" : 1\x7d") sampleBefore sampleAfter)) = .ok form ∧
      form.toFields = .ok fields ∧ fields.paint = "\x7b\"heatmap-weight\":1\x7d" ∧
      fields.map .paint = .ok sampleMap := by
  have hkey : StyleMap.paint.name ∉ Json.keys (sampleBefore ++ sampleAfter) := by decide
  refine ⟨hkey, ?_⟩
  have htakes := takes_map .paint sampleBefore sampleAfter hkey
  have hwrites : Writes sampleMap (.text "\x7b \"heatmap-weight\" : 1\x7d") :=
    .text (by decide +kernel)
  have hmap : Json.IsMap sampleMap :=
    ⟨by decide +kernel, by simp [sampleMap, Json.every_object_iff, Json.Number.InRange]⟩
  have hlegible : Json.Legible sampleMap :=
    ⟨by decide +kernel, by simp [sampleMap, Json.every_object_iff, Json.Number.FloatReadsBack]⟩
  obtain ⟨plain, hplain, hkind⟩ := exists_sample_plain
  have hdocument := htakes.document _ _ hwrites
  rw [hplain] at hdocument
  obtain ⟨fields, hfields, htext, hread⟩ := htakes.stored _ _ hmap hlegible hwrites _
    (.document hdocument) (congrArg VisualType.isCompiled hkind.symm)
  exact ⟨_, fields, hdocument, hfields, htext.trans (by decide +kernel), hread⟩

end LayerForm

end MapCatalog
