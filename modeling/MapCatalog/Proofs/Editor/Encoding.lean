import MapCatalog.Proofs.Record.Widening
import MapCatalog.Proofs.Style.Compilation

/-! # Records without loss

Keys are distinct although parts are written among the members of a record, and members that no record knows make no
difference, with one exception: a text under `data` makes a source an inline one.
-/

namespace MapCatalog

open Decode (Lossless Reader ReadsOnly fieldReaders)

/-! ## Records without records below -/

theorem Camera.lossless {camera : Camera} (h : camera.Finite) :
    Lossless decode toJson .flat camera := by
  refine .record (fun _ _ => rfl) rfl (fun _ => ReadsOnly.members_only fields_apart default)
    ?_ (inverts h) ?_ ?_
  · simp [fieldReaders, fields, toMembers, Json.keys]
  · simp [toMembers, Json.keys]
  · simp [toMembers, Shape.sound_ofFloat]

theorem HoverRow.lossless (row : HoverRow) : Lossless decode toJson .flat row := by
  refine .record (fun _ _ => rfl) rfl (fun _ => ReadsOnly.members_only fields_apart default)
    ?_ row.inverts ?_ ?_
  · simp [fieldReaders, fields, toMembers, Json.keys]
  · simp [toMembers, Json.keys]
  · simp [toMembers, Shape.sound_text]

theorem SectionFields.lossless (s : SectionFields) : Lossless decode toJson .flat s := by
  refine .record (fun _ _ => rfl) rfl (fun _ => ReadsOnly.members_only fields_apart default)
    ?_ (fun _ => rfl) ?_ ?_
  · simp [fieldReaders, fields, toMembers, Json.keys]
  · simp [toMembers, Json.keys]
  · simp [toMembers, Shape.sound_text]

theorem GroupFields.lossless {g : GroupFields} (h : g.camera.Finite) :
    Lossless decode toJson .flat g := by
  refine .record (fun _ _ => rfl) rfl readsOnly ?_ (decodeMembers_toMembers h) ?_ ?_
  · simp [readers, fieldReaders, ownFields, Camera.fields, toMembers, Camera.toMembers, Json.keys]
  · simp [toMembers, Camera.toMembers, Json.keys]
  · simp [toMembers, Camera.toMembers, Id.toJson, Shape.sound_text, Shape.sound_ofFloat]

/-! ## Sources -/

namespace Source

/-- Whoever adds a text under `data` to a source makes it an inline one. -/
def shape : Shape :=
  .record ["data"] fun _ => .value

def textOf : Json → Option String
  | .text value => some value
  | _ => none

theorem textOf_of_normalize_eq {doc other : Json} (h : other.normalize = doc.normalize) :
    textOf other = textOf doc := by
  cases doc <;> cases other <;> simp_all [Json.normalize, textOf]

theorem filter_key_eq_nil {entries : Json.Members} {key : String} (h : key ∉ Json.keys entries) :
    (entries.filter fun entry => entry.1 == key) = [] := by
  refine List.filter_eq_nil_iff.2 fun entry hentry hkey => h ?_
  rw [← beq_iff_eq.1 hkey]
  exact Json.mem_keys hentry

theorem soleText?_of_not_mem {entries : Json.Members} {key : String}
    (h : key ∉ Json.keys entries) : soleText? entries key = none := by
  rw [soleText?, filter_key_eq_nil h]

theorem soleText?_of_perm {entries rest : Json.Members} {key : String} {doc : Json}
    (hentries : entries.Perm ((key, doc) :: rest)) (hrest : key ∉ Json.keys rest) :
    soleText? entries key = textOf doc := by
  have hfilter := hentries.filter fun entry => entry.1 == key
  rw [List.filter_cons_of_pos (by simp), filter_key_eq_nil hrest, List.perm_singleton] at hfilter
  rw [soleText?, hfilter]
  cases doc <;> rfl

variable {members entries : Json.Members} {key : String}

theorem soleText?_of_widens (hkeys : (Json.keys members).Nodup)
    (h : shape.Widens (.object members) (.object entries)) {doc : Json}
    (hmember : (key, doc) ∈ members) : soleText? entries key = textOf doc := by
  obtain ⟨_, kept, added, _, heq, heq', hkept, hentries, hadded⟩ := h
  cases heq
  cases heq'
  obtain ⟨other, hother, hwidens⟩ := Shape.exists_of_widens (fun _ => .value) hkept hmember
  rw [← Shape.keys_of_widens (fun _ => .value) hkept] at hkeys
  obtain ⟨before, after, rfl⟩ := List.append_of_mem hother
  have hperm : entries.Perm ((key, other) :: (before ++ after ++ added)) :=
    hentries.trans (List.perm_middle.append_right added)
  have hfresh : key ∉ Json.keys (before ++ after) := by
    have hperm : (Json.keys (before ++ (key, other) :: after)).Perm
        (key :: Json.keys (before ++ after)) := List.perm_middle.map Prod.fst
    exact (List.nodup_cons.1 (hperm.nodup_iff.1 hkeys)).1
  have hrest : key ∉ Json.keys (before ++ after ++ added) := by
    intro hkey
    rw [Json.keys, List.map_append, List.mem_append] at hkey
    rcases hkey with hkey | hkey
    · exact hfresh hkey
    · obtain ⟨value, hvalue⟩ := Json.exists_of_mem_keys hkey
      exact (hadded _ hvalue).1 (Json.mem_keys hmember)
  rw [soleText?_of_perm hperm hrest, textOf_of_normalize_eq hwidens]

theorem soleText?_of_widens_of_not_mem (h : shape.Widens (.object members) (.object entries))
    (hmember : key ∉ Json.keys members) (hreserved : key = "data") :
    soleText? entries key = none := by
  obtain ⟨_, kept, added, _, heq, heq', hkept, hentries, hadded⟩ := h
  cases heq
  cases heq'
  refine soleText?_of_not_mem fun hkey => ?_
  obtain ⟨value, hvalue⟩ := Json.exists_of_mem_keys hkey
  rcases List.mem_append.1 (hentries.mem_iff.1 hvalue) with hvalue | hvalue
  · exact hmember (Shape.keys_of_widens (fun _ => .value) hkept ▸ Json.mem_keys hvalue)
  · exact (hadded _ hvalue).2 (by simp [hreserved])

/-- A source is decoded from whatever is wider than a document, when it is the source of such texts. -/
theorem lossless_of_members {source : Source} {toJson : Source → Json}
    (hencode : toJson source = .object members) (hdistinct : (toJson source).Distinct)
    (hmembers : ∀ entries, shape.Widens (.object members) (.object entries) →
      ofMembers? entries = some source) : Lossless decode toJson shape source := by
  refine .of_read hdistinct ?_ fun wider hwider origin => ?_
  · rw [hencode]
    exact Shape.widens_record_self fun entry _ => Shape.widens_value_self entry.2
  · rw [hencode] at hwider
    obtain ⟨_, _, _, entries, -, rfl, -⟩ := id hwider
    rw [decode, Reading.toJson?_ofJson]
    simp only [hmembers entries hwider]

/--
What the members of a remote source and a further one under `data` are decoded to: the inline source of
that text, if it is one.
-/
def withData (kind url : String) : Json → Source
  | .text data => .inline kind data
  | _ => .remote kind url

theorem lossless (source : Source) : Lossless decode toJson shape source := by
  cases source with
  | inline kind data =>
      refine lossless_of_members rfl ?_ fun entries hentries => ?_
      · simp [toJson, Json.distinct_object_iff, Json.keys, Json.Distinct]
      · have hkeys : (Json.keys [("type", .text kind), ("data", .text data)]).Nodup := by
          simp [Json.keys]
        rw [ofMembers?, soleText?_of_widens hkeys hentries (by simp : ("type", Json.text kind) ∈ _),
          soleText?_of_widens hkeys hentries (by simp : ("data", Json.text data) ∈ _)]
        rfl
  | remote kind url =>
      refine lossless_of_members rfl ?_ fun entries hentries => ?_
      · simp [toJson, Json.distinct_object_iff, Json.keys, Json.Distinct]
      · have hkeys : (Json.keys [("type", .text kind), ("url", .text url)]).Nodup := by
          simp [Json.keys]
        rw [ofMembers?, soleText?_of_widens hkeys hentries (by simp : ("type", Json.text kind) ∈ _),
          soleText?_of_widens hkeys hentries (by simp : ("url", Json.text url) ∈ _),
          soleText?_of_widens_of_not_mem hentries (by simp [Json.keys]) rfl]
        rfl

/-- A text under `data` selects the inline form, and nothing else there does. -/
theorem lossless_withData (kind url : String) {data : Json} (h : data.Distinct) :
    Lossless decode
      (fun _ => .object [("type", .text kind), ("url", .text url), ("data", data)]) shape
      (withData kind url data) := by
  have hkeys : (Json.keys [("type", .text kind), ("url", .text url), ("data", data)]).Nodup := by
    simp [Json.keys]
  refine lossless_of_members rfl ?_ fun entries hentries => ?_
  · rw [Json.distinct_object_iff]
    exact ⟨hkeys, by simp [h, Json.Distinct]⟩
  · rw [ofMembers?, soleText?_of_widens hkeys hentries (by simp : ("type", Json.text kind) ∈ _),
      soleText?_of_widens hkeys hentries (by simp : ("url", Json.text url) ∈ _),
      soleText?_of_widens hkeys hentries (by simp : ("data", data) ∈ _)]
    cases data <;> rfl

end Source

/-! ## Layers -/

namespace LayerFields

def below (key : String) : Shape :=
  if key = "source" then Source.shape
  else if key = "hoverContent" then .list .flat
  else .value

def shape : Shape :=
  .record [] below

theorem sound_source (l : LayerFields) : Source.shape.Sound readers ("source", l.source.toJson) := by
  refine .of_lossless l.source.lossless fun wider hdoc hwider origin => ?_
  simp [readers, fieldReaders, ownFields, Camera.fields, or_imp, forall_and,
    Decode.Field.alike_needed hdoc hwider]

theorem sound_hoverContent (l : LayerFields) :
    (Shape.list .flat).Sound readers ("hoverContent", .array (l.hoverContent.map HoverRow.toJson)) := by
  refine Lossless.sound_list (fun row _ => row.lossless) fun wider hdoc hwider origin => ?_
  simp [readers, fieldReaders, ownFields, Camera.fields, or_imp, forall_and,
    Decode.Field.alike_nullable hdoc hwider fun _ hnull => by cases hnull]

theorem sound_members (l : LayerFields) :
    ∀ entry ∈ l.toMembers, (below entry.1).Sound readers entry := by
  simp [toMembers, Camera.toMembers, below, VisualType.toJson, Shape.sound_text, Shape.sound_bool,
    Shape.sound_ofFloat, l.sound_source, l.sound_hoverContent]

theorem lossless {l : LayerFields} (h : l.camera.Finite) : Lossless decode toJson shape l := by
  refine .record (fun _ _ => rfl) rfl readsOnly ?_ (decodeMembers_toMembers h) ?_ l.sound_members
  · simp [readers, fieldReaders, ownFields, Camera.fields, toMembers, Camera.toMembers, Json.keys]
  · simp [toMembers, Camera.toMembers, Json.keys]

end LayerFields

namespace LayerRecord

def shape : Shape :=
  .record [] LayerFields.below

theorem sound_members (l : LayerRecord) :
    ∀ entry ∈ l.toMembers, (LayerFields.below entry.1).Sound readers entry := by
  have hforeign : ∀ entry ∈ l.fields.toMembers, ∀ origin, ∀ reader ∈ fieldReaders ownFields origin,
      reader.key ≠ entry.1 := by
    simp [LayerFields.toMembers, Camera.toMembers, fieldReaders, ownFields]
  have hfields : ∀ entry ∈ l.fields.toMembers, (LayerFields.below entry.1).Sound readers entry :=
    fun entry hentry => (l.fields.sound_members entry hentry).behind (hforeign entry hentry)
  rw [toMembers, List.forall_mem_append]
  refine ⟨?_, hfields⟩
  simp [LayerFields.below, Id.toJson, Shape.sound_text, Shape.sound_ofNat]

theorem lossless {l : LayerRecord} (h : l.fields.camera.Finite) : Lossless decode toJson shape l := by
  refine .record (fun _ _ => rfl) rfl readsOnly ?_ (inverts h) ?_ l.sound_members
  · simp [readers, LayerFields.readers, fieldReaders, ownFields, LayerFields.ownFields, Camera.fields,
      toMembers, LayerFields.toMembers, Camera.toMembers, Json.keys]
  · simp [toMembers, LayerFields.toMembers, Camera.toMembers, Json.keys]

end LayerRecord

/-! ## Trees -/

namespace GroupTree

def shape : Shape :=
  .record [] fun key => if key = "layers" then .list LayerRecord.shape else .value

theorem lossless {tree : GroupTree} (h : ∀ camera ∈ tree.cameras, camera.Finite) :
    Lossless decode toJson shape tree := by
  have hlayers : (Shape.list LayerRecord.shape).Sound readers
      ("layers", .array (tree.layers.map LayerRecord.toJson)) := by
    have hfinite : ∀ layer ∈ tree.layers, layer.fields.camera.Finite := fun layer hlayer =>
      h _ (List.mem_cons_of_mem _ (List.mem_map_of_mem hlayer))
    refine Lossless.sound_list (fun layer hlayer => LayerRecord.lossless (hfinite layer hlayer))
      fun wider hdoc hwider origin => ?_
    simp [readers, GroupRecord.readers, GroupFields.readers, fieldReaders, ownFields,
      GroupRecord.ownFields, GroupFields.ownFields, Camera.fields, or_imp, forall_and,
      Decode.Field.alike_needed hdoc hwider]
  refine .record (fun _ _ => rfl) rfl readsOnly ?_ (inverts h) ?_ ?_
  · simp [readers, GroupRecord.readers, GroupFields.readers, fieldReaders, ownFields,
      GroupRecord.ownFields, GroupFields.ownFields, Camera.fields, toMembers, GroupRecord.toMembers,
      GroupFields.toMembers, Camera.toMembers, Json.keys]
  · simp [toMembers, GroupRecord.toMembers, GroupFields.toMembers, Camera.toMembers, Json.keys]
  · simp [toMembers, GroupRecord.toMembers, GroupFields.toMembers, Camera.toMembers, Id.toJson,
      Shape.sound_text, Shape.sound_ofFloat, hlayers]

end GroupTree

namespace SectionTree

def shape : Shape :=
  .record [] fun key => if key = "layerGroups" then .list GroupTree.shape else .value

theorem lossless {tree : SectionTree} (h : ∀ camera ∈ tree.cameras, camera.Finite) :
    Lossless decode toJson shape tree := by
  have hgroups : (Shape.list GroupTree.shape).Sound readers
      ("layerGroups", .array (tree.groups.map GroupTree.toJson)) := by
    have hfinite : ∀ group ∈ tree.groups, ∀ camera ∈ group.cameras, camera.Finite :=
      fun group hgroup camera hcamera => h camera (List.mem_flatMap.2 ⟨group, hgroup, hcamera⟩)
    refine Lossless.sound_list (fun group hgroup => GroupTree.lossless (hfinite group hgroup))
      fun wider hdoc hwider origin => ?_
    simp [readers, SectionRecord.readers, fieldReaders, ownFields, SectionRecord.ownFields,
      SectionFields.fields, or_imp, forall_and, Decode.Field.alike_needed hdoc hwider]
  refine .record (fun _ _ => rfl) rfl readsOnly ?_ (inverts h) ?_ ?_
  · simp [readers, SectionRecord.readers, fieldReaders, ownFields, SectionRecord.ownFields,
      SectionFields.fields, toMembers, SectionRecord.toMembers, SectionFields.toMembers, Json.keys]
  · simp [toMembers, SectionRecord.toMembers, SectionFields.toMembers, Json.keys]
  · simp [toMembers, SectionRecord.toMembers, SectionFields.toMembers, Id.toJson, Shape.sound_text,
      hgroups]

end SectionTree

namespace Snapshot

def shape : Shape :=
  .record [] fun key => if key = "layerSections" then .list SectionTree.shape else .value

theorem lossless {snapshot : Snapshot} (h : ∀ camera ∈ snapshot.cameras, camera.Finite) :
    Lossless decode toJson shape snapshot := by
  have hsections : (Shape.list SectionTree.shape).Sound (fieldReaders fields)
      ("layerSections", .array (snapshot.sections.map SectionTree.toJson)) := by
    have hfinite : ∀ tree ∈ snapshot.sections, ∀ camera ∈ tree.cameras, camera.Finite :=
      fun tree htree camera hcamera => h camera (List.mem_flatMap.2 ⟨tree, htree, hcamera⟩)
    refine Lossless.sound_list (fun tree htree => SectionTree.lossless (hfinite tree htree))
      fun wider hdoc hwider origin => ?_
    simp [fieldReaders, fields, or_imp, forall_and, Decode.Field.alike_needed hdoc hwider]
  refine .record (fun _ _ => rfl) rfl (fun _ => ReadsOnly.members_only fields_apart default)
    ?_ (inverts h) ?_ ?_
  · simp [fieldReaders, fields, toMembers, Json.keys]
  · simp [toMembers, Json.keys]
  · simp [toMembers, Shape.sound_ofNat, hsections]

end Snapshot

/-! ## Forms -/

namespace Breakpoint

def Finite (point : Breakpoint) : Prop :=
  point.zoom.isFinite = true ∧ point.value.isFinite = true

theorem inverts {point : Breakpoint} (h : point.Finite) : Decode.Inverts decode toJson point := by
  intro origin
  simp only [toJson, Json.ofFloat, h.1, h.2, if_true]
  rfl

theorem lossless {point : Breakpoint} (h : point.Finite) : Lossless decode toJson .flat point := by
  refine .record (fun _ _ => rfl) rfl (fun _ => ReadsOnly.members_only fields_apart default)
    ?_ (inverts h) ?_ ?_
  · simp [fieldReaders, fields, Json.keys]
  · simp [Json.keys]
  · simp [Shape.sound_ofFloat]

end Breakpoint

namespace StyleForm

def pointLists (form : StyleForm) : List (List Breakpoint) :=
  [form.zoomLevels, form.textZoomLevels, form.circleRadiusZoomLevels, form.lineWidthZoomLevels]

/-- All numbers of a form are finite, and its property maps are sorted, as maps are. -/
structure Encodable (form : StyleForm) : Prop where
  numbers : form.Finite
  points : ∀ points ∈ form.pointLists, ∀ point ∈ points, point.Finite
  paint : Json.normalizeMembers form.paint = form.paint
  layout : Json.normalizeMembers form.layout = form.layout

def pointKeys : List String :=
  ["zoomLevels", "textZoomLevels", "circleRadiusZoomLevels", "lineWidthZoomLevels"]

def below (key : String) : Shape :=
  if key ∈ pointKeys then .list .flat else .value

def shape : Shape :=
  .record [] below

variable {form : StyleForm}

theorem propertyMap_of_normalize_eq {members : Json.Members}
    (h : Json.normalizeMembers members = members) {doc : Json}
    (hdoc : doc.normalize = (Json.object members).normalize) (origin : Decode.Origin) :
    propertyMap origin (Reading.ofJson doc) = .ok members := by
  cases doc with
  | object others =>
      simp only [Json.normalize, Json.object.injEq] at hdoc
      simp [propertyMap, Reading.toJson?_ofJson, hdoc, h]
  | null | bool flag | number value | text value | array items => cases hdoc

theorem inverts (h : form.Encodable) : Decode.Inverts decode toJson form := by
  intro origin
  have hpoints : ∀ list ∈ form.pointLists,
      points origin (.array (Reading.ofItems (list.map Breakpoint.toJson))) = .ok list :=
    fun list hlist => Decode.list_map
      (fun point hpoint => Breakpoint.inverts (h.points list hlist point hpoint)) origin
  simp only [pointLists, List.forall_mem_cons] at hpoints
  obtain ⟨hzoom, htext, hcircle, hline, -⟩ := hpoints
  have hpaint : propertyMap origin (.object (Reading.ofMembers form.paint)) = .ok form.paint :=
    propertyMap_of_normalize_eq h.paint rfl origin
  have hlayout : propertyMap origin (.object (Reading.ofMembers form.layout)) = .ok form.layout :=
    propertyMap_of_normalize_eq h.layout rfl origin
  have hfinite := h.numbers
  simp only [Finite, numbers, List.forall_mem_cons] at hfinite
  simp only [toJson, toMembers, Json.ofFloat, hfinite, if_true, pointsJson]
  simp [Reading.ofJson, Reading.ofMembers, decode, Decode.record, Decode.members, Decode.visit,
    fields, Decode.field?, Decode.Field.given, Decode.text, Decode.flag, Decode.float, Except.map,
    Decode.firstMissing?, hzoom, htext, hcircle, hline, hpaint, hlayout]

/-- The keys of lists of breakpoints and those of property maps have one decoder each. -/
theorem given_of_key : ∀ field ∈ fields,
    (field.key ∈ pointKeys → ∃ set, field = .given field.key points set) ∧
      (field.key ∈ ["paint", "layout"] → ∃ set, field = .given field.key propertyMap set) := by
  simp only [fields, List.forall_mem_cons]
  and_intros
  all_goals first
    | exact fun _ => ⟨_, rfl⟩
    | exact fun h => absurd h (by decide)
    | exact fun _ h => absurd h List.not_mem_nil

theorem sound_points (h : form.Encodable) {list : List Breakpoint} (hlist : list ∈ form.pointLists)
    {key : String} (hkey : key ∈ pointKeys) :
    (Shape.list .flat).Sound (fieldReaders fields) (key, pointsJson list) := by
  refine Lossless.sound_list
    (fun point hpoint => Breakpoint.lossless (h.points list hlist point hpoint))
    fun wider hdoc hwider origin reader hreader hsame => ?_
  exact Decode.alike_of_decoded (fun field hfield => (given_of_key field hfield).1) hdoc hwider
    origin reader hreader (hsame ▸ hkey)

theorem sound_map {members : Json.Members} (h : Json.normalizeMembers members = members)
    {key : String} (hkey : key ∈ ["paint", "layout"]) :
    Shape.value.Sound (fieldReaders fields) (key, .object members) where
  distinct := by
    have hdistinct := Json.distinct_normalize (.object members)
    rwa [Json.normalize, h] at hdistinct
  shaped := Shape.widens_value_self _
  safe origin wider hwider reader hreader hsame := by
    have hdoc := propertyMap_of_normalize_eq h (rfl : (Json.object members).normalize = _)
    have hread := propertyMap_of_normalize_eq h hwider
    exact Decode.alike_of_decoded (fun field hfield => (given_of_key field hfield).2) hdoc hread
      origin reader hreader (hsame ▸ hkey)

theorem sound_members (h : form.Encodable) :
    ∀ entry ∈ form.toMembers, (below entry.1).Sound (fieldReaders fields) entry := by
  have hpoints : ∀ list ∈ form.pointLists, ∀ key ∈ pointKeys,
      (Shape.list .flat).Sound (fieldReaders fields) (key, pointsJson list) :=
    fun _ hlist _ hkey => sound_points h hlist hkey
  have hpaint : Shape.value.Sound (fieldReaders fields) ("paint", .object form.paint) :=
    sound_map h.paint (by simp)
  have hlayout : Shape.value.Sound (fieldReaders fields) ("layout", .object form.layout) :=
    sound_map h.layout (by simp)
  simp only [pointLists, pointKeys, List.forall_mem_cons] at hpoints
  simp [toMembers, below, pointKeys, Shape.sound_text, Shape.sound_bool, Shape.sound_ofFloat,
    hpoints, hpaint, hlayout]

theorem lossless (h : form.Encodable) : Lossless decode toJson shape form := by
  refine .record (fun _ _ => rfl) rfl (fun _ => ReadsOnly.members_only fields_apart standard)
    ?_ (inverts h) ?_ (sound_members h)
  · simp [fieldReaders, fields, toMembers, Json.keys]
  · simp [toMembers, Json.keys]

end StyleForm

namespace LayerForm

def below (key : String) : Shape :=
  if key = "hoverContent" then .list .flat else StyleForm.below key

def shape : Shape :=
  .record [] below

variable {l : LayerForm}

theorem optional_group (group : Option GroupId) (origin : Decode.Origin) :
    Decode.optional Id.decode origin (Reading.ofJson ((group.map Id.toJson).getD .null)) =
      .ok group := by
  cases group with
  | none => rfl
  | some id =>
      have hid := id.decode_toJson origin
      simp only [Id.toJson, Reading.ofJson, Option.map, Option.getD] at hid ⊢
      simp [Decode.optional, hid, Except.map]

def ownMembers (l : LayerForm) : Json.Members :=
  [("layerGroupId", (l.groupId.map Id.toJson).getD .null),
   ("name", .text l.name),
   ("type", l.visualType.toJson),
   ("label", .text l.label),
   ("iconColor", .text l.iconColor),
   ("iconType", .text l.iconType)] ++
  l.camera.toMembers ++
  [("groupName", .text l.groupName),
   ("topLayerClass", .text l.topLayerClass),
   ("infoId", .text l.infoId),
   ("sourceType", .text l.sourceType),
   ("sourceUrl", .text l.sourceUrl),
   ("sourceId", .text l.sourceId),
   ("sourceLayer", .text l.sourceLayer),
   ("hover", .bool l.hover),
   ("click", .bool l.click),
   ("time", .bool l.time),
   ("hoverStyle", .text l.hoverStyle),
   ("clickStyle", .text l.clickStyle),
   ("clickHeader", .text l.clickHeader),
   ("hoverContent", .array (l.hoverContent.map HoverRow.toJson))]

theorem toMembers_eq (l : LayerForm) : l.toMembers = l.ownMembers ++ l.style.toMembers :=
  rfl

/-- Members that mean nothing to the parts of a form beside its style. -/
structure Aside (members : Json.Members) : Prop where
  own : ∀ entry ∈ members, Decode.field? ownFields entry.1 = none
  camera : ∀ entry ∈ members, ∀ reader ∈ fieldReaders Camera.fields .tree, reader.key ≠ entry.1

theorem aside_style (style : StyleForm) : Aside style.toMembers where
  own := by simp [StyleForm.toMembers, Decode.field?, ownFields]
  camera := by simp [StyleForm.toMembers, fieldReaders, Camera.fields]

/-- What the fields of a form make of its members, less those of its style. -/
theorem members_ownMembers (l : LayerForm) {members : Json.Members}
    (hforeign : ∀ entry ∈ members, Decode.field? ownFields entry.1 = none) (origin : Decode.Origin) :
    Decode.members ownFields default .kept origin (Reading.ofMembers (l.ownMembers ++ members)) =
      .ok ({ l with camera := default, style := default },
        Reading.ofMembers l.camera.toMembers ++ Reading.ofMembers members) := by
  have hgroup := optional_group l.groupId origin
  have htype := l.visualType.decode_name origin
  have hrows := Decode.list_map (fun row (_ : row ∈ l.hoverContent) => row.inverts) origin
  refine Decode.members_append_foreign hforeign ?_
  simp [ownMembers, Camera.toMembers, VisualType.toJson, Reading.ofMembers, Reading.ofJson,
    Decode.members, Decode.visit, ownFields, Decode.field?, Decode.Field.nullable,
    Decode.Field.given, Decode.Field.needed, Decode.text, Decode.flag, Except.map,
    Decode.Others.allows, Decode.Others.keep, Decode.firstMissing?, Reading.toJson?_ofJson, hgroup,
    htype, hrows]
  exact ⟨rfl, rfl⟩

theorem camera_foreign (l : LayerForm) :
    ∀ entry ∈ l.camera.toMembers, ∀ reader ∈ fieldReaders StyleForm.fields .tree,
      reader.key ≠ entry.1 := by
  simp [Camera.toMembers, fieldReaders, StyleForm.fields]

/-- Behind the own members of a form stand those from which its style is decoded. -/
theorem decodeMembers_eq_ok_iff (hcamera : l.camera.Finite) {members : Json.Members}
    (haside : Aside members) {form : LayerForm} (origin : Decode.Origin) :
    decodeMembers origin (Reading.ofMembers (l.ownMembers ++ members)) = .ok form ↔
      ∃ style, Decode.part StyleForm.fields StyleForm.standard (Reading.ofMembers members) =
        .ok style ∧ form = { l with style := style } := by
  have hcameraPart : Decode.part Camera.fields default
      (Reading.ofMembers (l.camera.toMembers ++ members)) = .ok l.camera :=
    (ReadsOnly.part Camera.fields_apart default
      (.of_perm (List.Perm.refl _) haside.camera) l.camera).2 (Camera.part_toMembers hcamera)
  have hstylePart (style : StyleForm) :
      Decode.part StyleForm.fields StyleForm.standard
          (Reading.ofMembers (l.camera.toMembers ++ members)) = .ok style ↔
        Decode.part StyleForm.fields StyleForm.standard (Reading.ofMembers members) = .ok style :=
    ReadsOnly.part StyleForm.fields_apart StyleForm.standard
      (.of_perm List.perm_append_comm l.camera_foreign) style
  rw [decodeMembers, members_ownMembers l haside.own origin, ← Reading.ofMembers_append]
  simp only [Decode.bind_eq_ok_iff, Except.ok.injEq, exists_eq_left', hcameraPart, hstylePart]
  simp only [pure, Except.pure, Except.ok.injEq]
  exact exists_congr fun style => and_congr_right fun _ => eq_comm

theorem sound_hoverContent (l : LayerForm) :
    (Shape.list .flat).Sound readers ("hoverContent", .array (l.hoverContent.map HoverRow.toJson)) := by
  refine Lossless.sound_list (fun row _ => row.lossless) fun wider hdoc hwider origin => ?_
  simp [readers, fieldReaders, ownFields, Camera.fields, StyleForm.fields, or_imp, forall_and,
    Decode.Field.alike_nullable hdoc hwider fun _ hnull => by cases hnull]

theorem sound_group (l : LayerForm) :
    Shape.value.Sound readers ("layerGroupId", (l.groupId.map Id.toJson).getD .null) := by
  cases l.groupId <;> exact Shape.sound_of_isPlain rfl

theorem sound_ownMembers (l : LayerForm) :
    ∀ entry ∈ l.ownMembers, (below entry.1).Sound readers entry := by
  simp [ownMembers, Camera.toMembers, below, StyleForm.below, StyleForm.pointKeys,
    VisualType.toJson, Shape.sound_text, Shape.sound_bool, Shape.sound_ofFloat, l.sound_group,
    l.sound_hoverContent]

theorem sound_members (h : l.style.Encodable) :
    ∀ entry ∈ l.toMembers, (below entry.1).Sound readers entry := by
  have hown : ∀ entry ∈ l.style.toMembers, ∀ origin, ∀ reader ∈ fieldReaders ownFields origin,
      reader.key ≠ entry.1 := by
    simp [StyleForm.toMembers, fieldReaders, ownFields]
  have hkeys : ∀ entry ∈ l.style.toMembers, entry.1 ≠ "hoverContent" := by
    simp [StyleForm.toMembers]
  have hstyle : ∀ entry ∈ l.style.toMembers, (below entry.1).Sound readers entry := by
    intro entry hentry
    have hbelow : below entry.1 = StyleForm.below entry.1 := if_neg (hkeys entry hentry)
    have hbehind := (StyleForm.sound_members h entry hentry).behind fun _ =>
      (aside_style l.style).camera entry hentry
    rw [hbelow]
    exact hbehind.behind (hown entry hentry)
  rw [toMembers_eq, List.forall_mem_append]
  exact ⟨l.sound_ownMembers, hstyle⟩

theorem lossless (hcamera : l.camera.Finite) (hstyle : l.style.Encodable) :
    Lossless decode toJson shape l := by
  have hdecoded : ∀ origin, decodeMembers origin (Reading.ofMembers l.toMembers) = .ok l :=
    fun origin => (decodeMembers_eq_ok_iff hcamera (aside_style l.style) origin).2
      ⟨l.style, StyleForm.inverts hstyle .tree, rfl⟩
  refine .record (fun _ _ => rfl) rfl readsOnly ?_ hdecoded ?_ (sound_members hstyle)
  · simp [readers, fieldReaders, ownFields, Camera.fields, StyleForm.fields, toMembers,
      Camera.toMembers, StyleForm.toMembers, Json.keys]
  · simp [toMembers, Camera.toMembers, StyleForm.toMembers, Json.keys]

end LayerForm

/-! ## All records -/

/--
Every record whose numbers are finite is encoded without repeating a key in any object, and is decoded
from its encoding, also where members that the records in it do not know were added to it.  Only a text
under `data` counts, which makes a remote source an inline one.
-/
theorem records_lossless :
    (∀ camera : Camera, camera.Finite →
      Lossless Camera.decode Camera.toJson .flat camera) ∧
    (∀ row : HoverRow, Lossless HoverRow.decode HoverRow.toJson .flat row) ∧
    ((∀ source : Source, Lossless Source.decode Source.toJson Source.shape source) ∧
      ∀ kind url data, data.Distinct →
        Lossless Source.decode
          (fun _ => .object [("type", .text kind), ("url", .text url), ("data", data)]) Source.shape
          (Source.withData kind url data)) ∧
    (∀ s : SectionFields, Lossless SectionFields.decode SectionFields.toJson .flat s) ∧
    (∀ g : GroupFields, g.camera.Finite →
      Lossless GroupFields.decode GroupFields.toJson .flat g) ∧
    (∀ l : LayerFields, l.camera.Finite →
      Lossless LayerFields.decode LayerFields.toJson LayerFields.shape l) ∧
    (∀ l : LayerRecord, l.fields.camera.Finite →
      Lossless LayerRecord.decode LayerRecord.toJson LayerRecord.shape l) ∧
    (∀ tree : GroupTree, (∀ camera ∈ tree.cameras, camera.Finite) →
      Lossless GroupTree.decode GroupTree.toJson GroupTree.shape tree) ∧
    (∀ tree : SectionTree, (∀ camera ∈ tree.cameras, camera.Finite) →
      Lossless SectionTree.decode SectionTree.toJson SectionTree.shape tree) ∧
    (∀ snapshot : Snapshot, (∀ camera ∈ snapshot.cameras, camera.Finite) →
      Lossless Snapshot.decode Snapshot.toJson Snapshot.shape snapshot) ∧
    (∀ form : StyleForm, form.Encodable →
      Lossless StyleForm.decode StyleForm.toJson StyleForm.shape form) ∧
    (∀ form : LayerForm, form.camera.Finite → form.style.Encodable →
      Lossless LayerForm.decode LayerForm.toJson LayerForm.shape form) :=
  ⟨fun _ => Camera.lossless, HoverRow.lossless,
    ⟨Source.lossless, fun kind url _ => Source.lossless_withData kind url⟩, SectionFields.lossless,
    fun _ => GroupFields.lossless, fun _ => LayerFields.lossless, fun _ => LayerRecord.lossless,
    fun _ => GroupTree.lossless, fun _ => SectionTree.lossless, fun _ => Snapshot.lossless,
    fun _ => StyleForm.lossless, fun _ => LayerForm.lossless⟩

/-- The form of a layer whose icon grows with the zoom and whose paint holds a list. -/
def LayerForm.sampleEncoded : LayerForm :=
  { (default : LayerForm) with
    name := "Stops"
    groupId := some default
    hoverContent := [⟨"Lot", .lot⟩]
    style := { StyleForm.sampleIcon with
      paint := [("raster-opacity", .array [.null, .ofNat 1])] } }

/-- The form, and a camera with a note among its members. -/
theorem sample_records_lossless :
    Lossless LayerForm.decode LayerForm.toJson LayerForm.shape LayerForm.sampleEncoded ∧
    Decode.ofJson Camera.decode (.object (("note", .text "") :: (default : Camera).toMembers)) =
      .ok default := by
  obtain ⟨hcamera, -, -, -, -, -, -, -, -, -, -, hform⟩ := records_lossless
  have hfinite : (default : Camera).Finite := by
    unfold Camera.Finite
    decide +kernel
  have hstyle : LayerForm.sampleEncoded.style.Encodable :=
    { numbers := by decide +kernel
      points := by unfold Breakpoint.Finite; decide +kernel
      paint := by decide +kernel
      layout := rfl }
  have hadded : Shape.flat.Widens (default : Camera).toJson
      (.object (("note", .text "") :: (default : Camera).toMembers)) := by
    refine Shape.widens_record_added (fun entry _ => rfl)
      (List.perm_append_singleton _ _).symm ?_
    simp [Camera.toMembers, Json.keys]
  exact ⟨hform _ hfinite hstyle, (hcamera _ hfinite).widened _ hadded⟩

end MapCatalog
