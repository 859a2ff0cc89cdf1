import MapCatalog.Proofs.Record.Omission
import MapCatalog.Proofs.Record.Readers

/-! # Optional keys of the records -/

namespace MapCatalog

open Decode (Defaults Ignores Lenient OptionalKey Part Tolerates)

/-! ## Records without parts -/

namespace SectionFields

def knownKeys : List String :=
  fields.map Decode.Field.key

def optional : List (OptionalKey SectionFields) :=
  [⟨"name", fun s => s.name = ""⟩]

theorem defaults : ∀ key ∈ optional, ∃ made, Defaults fields default key made := by
  simp only [optional, List.forall_mem_cons, List.not_mem_nil, IsEmpty.forall_iff, implies_true,
    and_true]
  exact ⟨_, fun _ => ⟨⟨_, rfl, rfl⟩, by decide⟩, rfl, fun _ => rfl⟩

theorem lenient : Lenient decode knownKeys optional :=
  .record fields_apart defaults

end SectionFields

namespace HoverRow

def knownKeys : List String :=
  fields.map Decode.Field.key

def optional : List (OptionalKey HoverRow) :=
  [⟨"label", fun r => r.label = ""⟩, ⟨"type", fun r => r.field = .unset⟩]

theorem defaults : ∀ key ∈ optional, ∃ made, Defaults fields default key made := by
  simp only [optional, List.forall_mem_cons, List.not_mem_nil, IsEmpty.forall_iff, implies_true,
    and_true]
  and_intros <;> exact ⟨_, fun _ => ⟨⟨_, rfl, rfl⟩, by decide⟩, rfl, fun _ => rfl⟩

theorem lenient : Lenient decode knownKeys optional :=
  .record fields_apart defaults

end HoverRow

namespace Camera

def knownKeys : List String :=
  fields.map Decode.Field.key

def optional : List (OptionalKey Camera) :=
  [⟨"longitude", fun c => c.longitude = .zero⟩,
   ⟨"latitude", fun c => c.latitude = .zero⟩,
   ⟨"zoom", fun c => c.zoom = .zero⟩,
   ⟨"bearing", fun c => c.bearing = .zero⟩]

theorem defaults : ∀ key ∈ optional, ∃ made, Defaults fields default key made := by
  simp only [optional, List.forall_mem_cons, List.not_mem_nil, IsEmpty.forall_iff, implies_true,
    and_true]
  and_intros <;> exact ⟨_, fun _ => ⟨⟨_, rfl, rfl⟩, by decide⟩, rfl, fun _ => rfl⟩

theorem lenient : Lenient decode knownKeys optional :=
  .record fields_apart defaults

theorem tolerates : ∀ key ∈ optional, Tolerates (Decode.part fields default) key :=
  .only fields_apart defaults

theorem ignores (key : String) (hkey : key ∉ knownKeys) :
    Ignores (Decode.part fields default) key :=
  .only (Decode.field?_eq_none hkey)

theorem mem_knownKeys : ∀ key ∈ optional, key.key ∈ knownKeys :=
  fun key hkey => (defaults key hkey).elim fun _ h => h.mem_keys

end Camera

/-! ## Records with a camera -/

namespace GroupFields

def knownKeys : List String :=
  ownFields.map Decode.Field.key ++ Camera.knownKeys

def ownOptional : List (OptionalKey GroupFields) :=
  [⟨"name", fun g => g.name = ""⟩, ⟨"infoId", fun g => g.infoId = ""⟩]

def optional : List (OptionalKey GroupFields) :=
  ownOptional ++ Camera.optional.map fun key => key.inside GroupFields.camera

def cameraPart : Part GroupFields Camera where
  get g := g.camera
  put camera g := { g with camera := camera }
  get_put _ _ := rfl
  put_put _ _ _ := rfl

theorem defaults : ∀ key ∈ ownOptional, ∃ made, Defaults ownFields default key made ∧
    ∀ camera g, cameraPart.put camera (made g) = made (cameraPart.put camera g) := by
  simp only [ownOptional, List.forall_mem_cons, List.not_mem_nil, IsEmpty.forall_iff, implies_true,
    and_true]
  and_intros <;>
    exact ⟨_, ⟨fun _ => ⟨⟨_, rfl, rfl⟩, by decide⟩, rfl, fun _ => rfl⟩, fun _ _ => rfl⟩

theorem camera_aside : ∀ key ∈ Camera.optional, Decode.field? ownFields key.key = none := by
  simp only [Camera.optional, List.forall_mem_cons, List.not_mem_nil, IsEmpty.forall_iff,
    implies_true, and_true]
  exact ⟨rfl, rfl, rfl, rfl⟩

theorem lenient : Lenient decode knownKeys optional :=
  .withPart (fun _ _ => rfl) ownFields_apart defaults
    (fun key hkey => ⟨Camera.tolerates key hkey, camera_aside key hkey⟩) Camera.mem_knownKeys
    Camera.ignores

end GroupFields

namespace LayerFields

def knownKeys : List String :=
  ownFields.map Decode.Field.key ++ Camera.knownKeys

def ownOptional : List (OptionalKey LayerFields) :=
  [⟨"name", fun l => l.name = ""⟩,
   ⟨"label", fun l => l.label = ""⟩,
   ⟨"iconColor", fun l => l.iconColor = ""⟩,
   ⟨"iconType", fun l => l.iconType = ""⟩,
   ⟨"groupName", fun l => l.groupName = ""⟩,
   ⟨"topLayerClass", fun l => l.topLayerClass = ""⟩,
   ⟨"infoId", fun l => l.infoId = ""⟩,
   ⟨"sourceType", fun l => l.sourceType = ""⟩,
   ⟨"sourceUrl", fun l => l.sourceUrl = ""⟩,
   ⟨"sourceId", fun l => l.sourceId = ""⟩,
   ⟨"sourceLayer", fun l => l.sourceLayer = ""⟩,
   ⟨"hover", fun l => l.hover = false⟩,
   ⟨"click", fun l => l.click = false⟩,
   ⟨"time", fun l => l.time = false⟩,
   ⟨"hoverStyle", fun l => l.hoverStyle = ""⟩,
   ⟨"clickStyle", fun l => l.clickStyle = ""⟩,
   ⟨"clickHeader", fun l => l.clickHeader = ""⟩,
   ⟨"hoverContent", fun l => l.hoverContent = []⟩]

/-- The texts of the property maps may be left out as well, but not be null. -/
def optional : List (OptionalKey LayerFields) :=
  ownOptional ++ Camera.optional.map fun key => key.inside LayerFields.camera

def cameraPart : Part LayerFields Camera where
  get l := l.camera
  put camera l := { l with camera := camera }
  get_put _ _ := rfl
  put_put _ _ _ := rfl

theorem defaults : ∀ key ∈ ownOptional, ∃ made, Defaults ownFields blank key made ∧
    ∀ camera l, cameraPart.put camera (made l) = made (cameraPart.put camera l) := by
  simp only [ownOptional, List.forall_mem_cons, List.not_mem_nil, IsEmpty.forall_iff, implies_true,
    and_true]
  and_intros <;>
    exact ⟨_, ⟨fun _ => ⟨⟨_, rfl, rfl⟩, by decide⟩, rfl, fun _ => rfl⟩, fun _ _ => rfl⟩

theorem camera_aside : ∀ key ∈ Camera.optional, Decode.field? ownFields key.key = none := by
  simp only [Camera.optional, List.forall_mem_cons, List.not_mem_nil, IsEmpty.forall_iff,
    implies_true, and_true]
  exact ⟨rfl, rfl, rfl, rfl⟩

theorem lenient : Lenient decode knownKeys optional :=
  .withPart (fun _ _ => rfl) ownFields_apart defaults
    (fun key hkey => ⟨Camera.tolerates key hkey, camera_aside key hkey⟩) Camera.mem_knownKeys
    Camera.ignores

end LayerFields

/-! ## Layer forms -/

namespace StyleForm

def knownKeys : List String :=
  fields.map Decode.Field.key

def optional : List (OptionalKey StyleForm) :=
  [⟨"paint", fun s => s.paint = []⟩, ⟨"layout", fun s => s.layout = []⟩]

theorem defaults : ∀ key ∈ optional, ∃ made, Defaults fields standard key made := by
  simp only [optional, List.forall_mem_cons, List.not_mem_nil, IsEmpty.forall_iff, implies_true,
    and_true]
  and_intros <;> exact ⟨_, fun _ => ⟨⟨_, rfl, rfl⟩, by decide⟩, rfl, fun _ => rfl⟩

theorem tolerates : ∀ key ∈ optional, Tolerates (Decode.part fields standard) key :=
  .only fields_apart defaults

theorem ignores (key : String) (hkey : key ∉ knownKeys) :
    Ignores (Decode.part fields standard) key :=
  .only (Decode.field?_eq_none hkey)

theorem mem_knownKeys : ∀ key ∈ optional, key.key ∈ knownKeys :=
  fun key hkey => (defaults key hkey).elim fun _ h => h.mem_keys

end StyleForm

namespace LayerForm

def knownKeys : List String :=
  ownFields.map Decode.Field.key ++ (Camera.knownKeys ++ StyleForm.knownKeys)

def ownOptional : List (OptionalKey LayerForm) :=
  [⟨"layerGroupId", fun l => l.groupId = none⟩,
   ⟨"name", fun l => l.name = ""⟩,
   ⟨"label", fun l => l.label = ""⟩,
   ⟨"iconColor", fun l => l.iconColor = ""⟩,
   ⟨"iconType", fun l => l.iconType = ""⟩,
   ⟨"groupName", fun l => l.groupName = ""⟩,
   ⟨"topLayerClass", fun l => l.topLayerClass = ""⟩,
   ⟨"infoId", fun l => l.infoId = ""⟩,
   ⟨"sourceType", fun l => l.sourceType = ""⟩,
   ⟨"sourceUrl", fun l => l.sourceUrl = ""⟩,
   ⟨"sourceId", fun l => l.sourceId = ""⟩,
   ⟨"sourceLayer", fun l => l.sourceLayer = ""⟩,
   ⟨"hover", fun l => l.hover = false⟩,
   ⟨"click", fun l => l.click = false⟩,
   ⟨"time", fun l => l.time = false⟩,
   ⟨"hoverStyle", fun l => l.hoverStyle = ""⟩,
   ⟨"clickStyle", fun l => l.clickStyle = ""⟩,
   ⟨"clickHeader", fun l => l.clickHeader = ""⟩,
   ⟨"hoverContent", fun l => l.hoverContent = []⟩]

def partOptional : List (OptionalKey (Camera × StyleForm)) :=
  Camera.optional.map (fun key => key.inside Prod.fst) ++
    StyleForm.optional.map fun key => key.inside Prod.snd

def parts : Part LayerForm (Camera × StyleForm) where
  get l := (l.camera, l.style)
  put found l := { l with camera := found.1, style := found.2 }
  get_put _ _ := rfl
  put_put _ _ _ := rfl

def optional : List (OptionalKey LayerForm) :=
  ownOptional ++ partOptional.map fun key => key.inside parts.get

theorem defaults : ∀ key ∈ ownOptional, ∃ made, Defaults ownFields default key made ∧
    ∀ found l, parts.put found (made l) = made (parts.put found l) := by
  simp only [ownOptional, List.forall_mem_cons, List.not_mem_nil, IsEmpty.forall_iff, implies_true,
    and_true]
  and_intros <;>
    exact ⟨_, ⟨fun _ => ⟨⟨_, rfl, rfl⟩, by decide⟩, rfl, fun _ => rfl⟩, fun _ _ => rfl⟩

def decodeParts : Reading.Members → Except DecodeError (Camera × StyleForm) :=
  Decode.both (Decode.part Camera.fields default)
    (Decode.part StyleForm.fields StyleForm.standard)

theorem decodeMembers_eq (origin : Decode.Origin) :
    decodeMembers origin = Decode.withPart ownFields default origin decodeParts parts := by
  funext entries
  rw [decodeMembers, Decode.withPart]
  refine congrArg (_ >>= ·) (funext fun result => ?_)
  cases hcamera : Decode.part Camera.fields default result.2 with
  | error e => simp [decodeParts, Decode.both, hcamera, bind, Except.bind, Except.map]
  | ok camera =>
      cases hstyle : Decode.part StyleForm.fields StyleForm.standard result.2 with
      | error e => simp [decodeParts, Decode.both, hcamera, hstyle, bind, Except.bind, Except.map]
      | ok style => simp [decodeParts, Decode.both, hcamera, hstyle, bind, Except.bind, Except.map,
          pure, Except.pure, parts]

theorem camera_aside : ∀ key ∈ Camera.optional, Decode.field? ownFields key.key = none ∧
    Decode.field? StyleForm.fields key.key = none := by
  simp only [Camera.optional, List.forall_mem_cons, List.not_mem_nil, IsEmpty.forall_iff,
    implies_true, and_true]
  and_intros <;> rfl

theorem style_aside : ∀ key ∈ StyleForm.optional, Decode.field? ownFields key.key = none ∧
    Decode.field? Camera.fields key.key = none := by
  simp only [StyleForm.optional, List.forall_mem_cons, List.not_mem_nil, IsEmpty.forall_iff,
    implies_true, and_true]
  and_intros <;> rfl

theorem tolerates_parts : ∀ key ∈ partOptional,
    Tolerates decodeParts key ∧ Decode.field? ownFields key.key = none := by
  intro key hkey
  rcases List.mem_append.1 hkey with hkey | hkey
  · obtain ⟨key, hcamera, rfl⟩ := List.mem_map.1 hkey
    obtain ⟨hown, hstyle⟩ := camera_aside key hcamera
    exact ⟨(Camera.tolerates key hcamera).left ((Ignores.only hstyle).absorbs .null), hown⟩
  · obtain ⟨key, hstyle, rfl⟩ := List.mem_map.1 hkey
    obtain ⟨hown, hcamera⟩ := style_aside key hstyle
    exact ⟨(StyleForm.tolerates key hstyle).right ((Ignores.only hcamera).absorbs .null), hown⟩

theorem mem_known_parts : ∀ key ∈ partOptional, key.key ∈ Camera.knownKeys ++ StyleForm.knownKeys := by
  intro key hkey
  rcases List.mem_append.1 hkey with hkey | hkey
  · obtain ⟨key, hcamera, rfl⟩ := List.mem_map.1 hkey
    exact List.mem_append_left _ (Camera.mem_knownKeys key hcamera)
  · obtain ⟨key, hstyle, rfl⟩ := List.mem_map.1 hkey
    exact List.mem_append_right _ (StyleForm.mem_knownKeys key hstyle)

theorem ignores_parts (key : String) (hkey : key ∉ Camera.knownKeys ++ StyleForm.knownKeys) :
    Ignores decodeParts key := by
  rw [List.mem_append, not_or] at hkey
  exact (Camera.ignores key hkey.1).both (StyleForm.ignores key hkey.2)

theorem tolerates (origin : Decode.Origin) : ∀ key ∈ optional, Tolerates (decodeMembers origin) key := by
  rw [decodeMembers_eq]
  exact .withPart ownFields_apart defaults tolerates_parts

theorem lenient : Lenient decode knownKeys optional :=
  .withPart (fun origin => congrFun (decodeMembers_eq origin)) ownFields_apart defaults
    tolerates_parts mem_known_parts ignores_parts

end LayerForm

/-! ## All records -/

/--
To every record that an editor submits null, an absent key and an unknown key are one: under the optional
keys null may be put or left out, and members that the record does not know may come and go, without any
effect on what is decoded or on why it is refused.  What stands for such a key is blank.
-/
theorem records_lenient :
    Lenient SectionFields.decode SectionFields.knownKeys SectionFields.optional ∧
    Lenient GroupFields.decode GroupFields.knownKeys GroupFields.optional ∧
    Lenient LayerFields.decode LayerFields.knownKeys LayerFields.optional ∧
    Lenient HoverRow.decode HoverRow.knownKeys HoverRow.optional ∧
    Lenient Camera.decode Camera.knownKeys Camera.optional ∧
    Lenient LayerForm.decode LayerForm.knownKeys LayerForm.optional :=
  ⟨SectionFields.lenient, GroupFields.lenient, LayerFields.lenient, HoverRow.lenient, Camera.lenient,
    LayerForm.lenient⟩

def sampleSparse : Json.Members :=
  [("type", .text "fill"), ("name", .text "Parcels")]

/-- The same form as an editor sends it that writes null for what was not filled in. -/
def sampleNulls : Json.Members :=
  [("type", .text "fill"), ("label", .null), ("zoom", .null), ("name", .text "Parcels"),
   ("colour", .text "red"), ("paint", .null)]

/-- Both are decoded, to one form, in which what was not filled in is blank. -/
theorem sample_records_lenient : ∃ form,
    Decode.ofJson LayerForm.decode (.object sampleSparse) = .ok form ∧
    Decode.ofJson LayerForm.decode (.object sampleNulls) = .ok form ∧ form.label = "" := by
  obtain ⟨-, -, -, -, -, hlenient⟩ := records_lenient
  have hsingle : Decode.Single LayerForm.knownKeys sampleSparse ∧
      Decode.Single LayerForm.knownKeys sampleNulls := by decide
  have hname : (Decode.ofJson LayerForm.decode (.object sampleSparse)).map LayerForm.name =
      .ok "Parcels" := by decide +kernel
  obtain ⟨form, hsparse, -⟩ := Decode.map_eq_ok hname
  have hnulls := hlenient.document sampleSparse sampleNulls hsingle.1 hsingle.2
    (.of_eq (by decide))
  have hlabel : ⟨"label", fun l => l.label = ""⟩ ∈ LayerForm.optional :=
    List.mem_append_left _ (.tail _ (.tail _ (.head _)))
  exact ⟨form, hsparse, hnulls.trans hsparse, hlenient.blank sampleSparse hsingle.1 _ hlabel
    (.inl (by decide)) form (.document hsparse)⟩

end MapCatalog
