import MapCatalog.Proofs.Json.Numbers
import MapCatalog.Proofs.Record.Keeping
import MapCatalog.Proofs.Style.Compilation

/-! # Property maps -/

namespace MapCatalog

/-! ## Settled documents -/

namespace Json

/-- A document in normal form, with numbers in range and no more than `room` levels. -/
structure Settled (room : Nat) (doc : Json) : Prop where
  normal : doc.normalize = doc
  inRange : doc.Every Number.InRange
  shallow : doc.nesting ≤ room

theorem settled_text (room : Nat) (value : String) : (Json.text value).Settled room :=
  ⟨rfl, trivial, Nat.zero_le room⟩

theorem settled_ofFloat (room : Nat) (x : Binary64) : (ofFloat x).Settled room := by
  unfold ofFloat
  split
  case isTrue hfinite => exact ⟨rfl, hfinite, Nat.zero_le room⟩
  case isFalse => exact ⟨rfl, trivial, Nat.zero_le room⟩

theorem settled_array {room : Nat} {items : List Json} (h : ∀ item ∈ items, item.Settled room) :
    (Json.array items).Settled (room + 1) where
  normal := by
    rw [Json.normalize, normalizeItems_eq_map, List.map_congr_left fun item hitem =>
      (h item hitem).normal, List.map_id']
  inRange := (every_array_iff items).2 fun item hitem => (h item hitem).inRange
  shallow := Nat.succ_le_succ (nestingItems_le_iff.2 fun item hitem => (h item hitem).shallow)

section

variable {room : Nat} {members : Members} (h : ∀ entry ∈ members, entry.2.Settled room)
include h

theorem isMap_of_settled (hkeys : (members.map Prod.fst).Pairwise (· < ·)) : IsMap members where
  normal :=
    normalizeMembers_of_sorted (List.pairwise_map.1 hkeys) fun entry hentry => (h entry hentry).normal
  inRange := (every_object_iff members).2 fun entry hentry => (h entry hentry).inRange

theorem nesting_of_settled : (Json.object members).nesting ≤ room + 1 :=
  Nat.succ_le_succ (nestingMembers_le_iff.2 fun entry hentry => (h entry hentry).shallow)

end

end Json

/-! ## Compiled values -/

theorem Interpolation.settled_toJson (interpolation : Interpolation) :
    interpolation.toJson.Settled 2 := by
  have hword (word : String) : (Json.array [.text word]).Settled 1 :=
    Json.settled_array (List.forall_mem_singleton.2 (Json.settled_text 0 word))
  apply Json.settled_array
  rw [List.forall_mem_cons, List.forall_mem_cons, List.forall_mem_cons]
  refine ⟨Json.settled_text 1 _, hword _, hword _, fun item hitem => ?_⟩
  obtain ⟨stop, -, hitem⟩ := List.mem_flatMap.1 hitem
  rcases List.mem_pair.1 hitem with rfl | rfl
  · exact Json.settled_ofFloat 1 stop.zoom
  · exact Json.settled_ofFloat 1 stop.value

theorem ZoomValue.settled_toJson (value : ZoomValue) : value.toJson.Settled 2 := by
  cases value with
  | scalar number => exact Json.settled_ofFloat 2 number
  | byZoom stops fallback =>
      rw [toJson]
      split
      case h_1 interpolation _ => exact interpolation.settled_toJson
      case h_2 => exact Json.settled_ofFloat 2 fallback

theorem VisualType.sorted_keys (kind : VisualType) :
    kind.paintKeys.Pairwise (· < ·) ∧ kind.layoutKeys.Pairwise (· < ·) := by
  cases kind <;> decide +kernel

namespace VisualStyle

variable {style : VisualStyle} (h : style.isNarrow = true)
include h

theorem settled_compile :
    (∀ entry ∈ style.compile.paint, entry.2.Settled 2) ∧
      ∀ entry ∈ style.compile.layout, entry.2.Settled 2 := by
  have hfont : (Json.array [.text StyleForm.textFont]).Settled 2 :=
    Json.settled_array (List.forall_mem_singleton.2 (Json.settled_text 1 _))
  cases style with
  | raw kind paint layout => cases h
  | fill style | symbol style | circle style | line style =>
      simp [compile, Json.settled_text, Json.settled_ofFloat, ZoomValue.settled_toJson, hfont]

theorem isMap_compile : Json.IsMap style.compile.paint ∧ Json.IsMap style.compile.layout := by
  obtain ⟨hpaint, hlayout⟩ := settled_compile h
  obtain ⟨hpaintKeys, hlayoutKeys⟩ := keys_compile h
  obtain ⟨hpaintSorted, hlayoutSorted⟩ := style.visualType.sorted_keys
  exact ⟨Json.isMap_of_settled hpaint (hpaintKeys ▸ hpaintSorted),
    Json.isMap_of_settled hlayout (hlayoutKeys ▸ hlayoutSorted)⟩

theorem nesting_compile :
    (Json.object style.compile.paint).nesting ≤ 3 ∧
      (Json.object style.compile.layout).nesting ≤ 3 :=
  ⟨Json.nesting_of_settled (settled_compile h).1, Json.nesting_of_settled (settled_compile h).2⟩

end VisualStyle

/-! ## Forms -/

namespace StyleForm

variable {form : StyleForm} {kind : VisualType} {style : CompiledStyle}

structure HoldsMaps (form : StyleForm) : Prop where
  paint : Json.IsMap form.paint
  layout : Json.IsMap form.layout

theorem isMap_of_propertyMap :
    Decode.YieldsFrom (Reading.Every Json.Number.InRange) propertyMap Json.IsMap := by
  intro origin reading members hreading h
  unfold propertyMap at h
  simp only at h
  split at h
  case h_1 => cases h
  case h_2 =>
    cases h
    exact Json.isMap_nil
  case h_3 entries hdoc =>
    cases h
    have hentries : (Json.object entries).Every Json.Number.InRange := by
      rw [Json.Every, Reading.ofJson_of_toJson? hdoc]
      exact hreading
    exact Json.isMap_of_normalize hentries rfl
  case h_4 text hdoc =>
    split at h
    case isTrue =>
      cases h
      exact Json.isMap_nil
    case isFalse =>
      split at h
      case h_1 found hparse =>
        cases h
        obtain ⟨doc, hraw, hnormal⟩ := Option.map_eq_some_iff.1 hparse
        exact Json.isMap_of_normalize
          (Json.every_of_parseRaw? (fun _ _ => Json.Numeral.inRange_of_value?) hraw) hnormal
      case h_2 => cases h
      case h_3 => cases h
  case h_5 => cases h

theorem solid_compact (members : Json.Members) :
    Text.allBlank (Json.object members).compact = false := by
  obtain ⟨rest, hchars⟩ : ∃ rest, (Json.object members).compactChars = '\x7b' :: rest := by
    cases members <;> exact ⟨_, rfl⟩
  have hbrace : Text.isBlank '\x7b' = false := by decide
  simp [Text.allBlank, Json.compact, hchars, hbrace]

/-- A map is found in the compact text in which it is stored. -/
theorem propertyMap_of_compact {members : Json.Members} (h : Json.IsMap members)
    (hlegible : Json.Legible members) (origin : Decode.Origin) :
    propertyMap origin (.text (Json.object members).compact) = .ok members := by
  simp [propertyMap, Reading.toJson?, solid_compact, h.parse?_compact hlegible]

theorem keeps_holdsMaps :
    ∀ field ∈ fields, field.KeepsFrom (Reading.Every Json.Number.InRange) HoldsMaps := by
  have hother {α : Type} {key : String} {decode : Decoder α} {set : α → StyleForm → StyleForm}
      (hset : ∀ value form, (set value form).paint = form.paint ∧
        (set value form).layout = form.layout) :
      (Decode.Field.given key decode set).KeepsFrom (Reading.Every Json.Number.InRange)
        HoldsMaps := by
    refine Decode.keeps_given (Decode.yields_any decode) fun value form _ hform => ?_
    obtain ⟨hpaint, hlayout⟩ := hset value form
    exact ⟨hpaint ▸ hform.paint, hlayout ▸ hform.layout⟩
  have hpaint : (Decode.Field.given "paint" propertyMap
      fun v s => { s with paint := v }).KeepsFrom (Reading.Every Json.Number.InRange) HoldsMaps :=
    Decode.keeps_given isMap_of_propertyMap fun _ _ hmap hform => ⟨hmap, hform.layout⟩
  have hlayout : (Decode.Field.given "layout" propertyMap
      fun v s => { s with layout := v }).KeepsFrom (Reading.Every Json.Number.InRange) HoldsMaps :=
    Decode.keeps_given isMap_of_propertyMap fun _ _ hmap hform => ⟨hform.paint, hmap⟩
  simp only [fields, List.forall_mem_cons]
  and_intros
  all_goals first
    | exact hpaint
    | exact hlayout
    | exact hother fun _ _ => ⟨rfl, rfl⟩
    | exact fun _ h => absurd h List.not_mem_nil

theorem holdsMaps_standard : standard.HoldsMaps :=
  ⟨Json.isMap_nil, Json.isMap_nil⟩

theorem holdsMaps_of_part {aside : Reading.Members}
    (haside : ∀ entry ∈ aside, entry.2.Every Json.Number.InRange)
    (h : Decode.part fields standard aside = .ok form) : form.HoldsMaps :=
  Decode.part_keeps keeps_holdsMaps holdsMaps_standard haside h

theorem narrow_of_not_compiled (form : StyleForm) (h : kind.isCompiled = false) :
    form.narrow kind = .raw kind form.paint form.layout := by
  cases kind with
  | symbol | fill | line | circle => cases h
  | heatmap | fillExtrusion | raster | rasterParticle | hillshade | model | background | sky | slot |
    clip => rfl

theorem compile_of_not_compiled (form : StyleForm) (h : kind.isCompiled = false) :
    form.compile kind = .ok ⟨form.paint, form.layout⟩ := by
  rw [compile, narrow_of_not_compiled form h]
  rfl

theorem isMap_of_compile (hform : form.HoldsMaps) (h : form.compile kind = .ok style) :
    Json.IsMap style.paint ∧ Json.IsMap style.layout := by
  cases hkind : kind.isCompiled with
  | false =>
      rw [compile_of_not_compiled form hkind] at h
      cases h
      exact ⟨hform.paint, hform.layout⟩
  | true =>
      obtain ⟨-, rfl⟩ := (form.compile_eq_ok_iff kind style).1 h
      exact VisualStyle.isMap_compile ((form.isNarrow_narrow kind).1.trans hkind)

theorem nesting_of_compile (hkind : kind.isCompiled = true) (h : form.compile kind = .ok style) :
    (Json.object style.paint).nesting ≤ 3 ∧ (Json.object style.layout).nesting ≤ 3 := by
  obtain ⟨-, rfl⟩ := (form.compile_eq_ok_iff kind style).1 h
  exact VisualStyle.nesting_compile ((form.isNarrow_narrow kind).1.trans hkind)

end StyleForm

end MapCatalog
