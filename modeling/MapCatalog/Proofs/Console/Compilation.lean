import MapCatalog.Console.Command
import MapCatalog.Proofs.Bytes.Utf8
import MapCatalog.Proofs.Editor.Submitted
import MapCatalog.Proofs.Record.Steady
import MapCatalog.Proofs.Service.Requests

/-! # Compiled as stored -/

namespace MapCatalog

namespace Command

/-- What is printed for a form is what is stored for it, but for the property maps, which are stored as
their compact texts. -/
structure Compilation.Prints (compilation : Compilation) (fields : LayerFields) : Prop where
  type : compilation.type = fields.visualType
  source : compilation.source = fields.source
  document : ∃ paint layout,
    compilation.toJson.normalize = .object [("layout", .object layout), ("paint", .object paint),
      ("source", fields.source.toJson.normalize), ("type", fields.visualType.toJson)] ∧
    fields.paint = (Json.object paint).compact ∧ fields.layout = (Json.object layout).compact

theorem Compilation.normalize_toJson {compilation : Compilation}
    (hpaint : Json.IsMap compilation.style.paint) (hlayout : Json.IsMap compilation.style.layout) :
    compilation.toJson.normalize =
      .object [("layout", .object compilation.style.layout),
        ("paint", .object compilation.style.paint),
        ("source", compilation.source.toJson.normalize), ("type", compilation.type.toJson)] := by
  have hkind : compilation.type.toJson.normalize = compilation.type.toJson := rfl
  simp +decide [toJson, Json.normalize, Json.normalizeMembers, Json.insertIfAbsent, hpaint.normal,
    hlayout.normal, hkind]

theorem compileForm_eq_error_iff {form : LayerForm} {failure : CommandError} :
    compileForm form = .error failure ↔
      ∃ e, form.toFields = .error e ∧ failure = .compile form.visualType e := by
  unfold compileForm LayerForm.toFields
  cases form.style.compile form.visualType with
  | error e =>
      simp [eq_comm]
  | ok style =>
      simp

/-- A form that can be stored is compiled to what is stored for it. -/
theorem exists_compileForm {form : LayerForm} {fields : LayerFields} (hmaps : form.style.HoldsMaps)
    (h : form.toFields = .ok fields) :
    ∃ compilation, compileForm form = .ok compilation ∧ compilation.Prints fields := by
  unfold LayerForm.toFields at h
  split at h
  case h_1 => cases h
  case h_2 style hstyle =>
    cases h
    obtain ⟨hpaint, hlayout⟩ := StyleForm.isMap_of_compile hmaps hstyle
    refine ⟨⟨form.visualType, style, .resolve form.sourceType form.sourceUrl⟩, ?_, ?_⟩
    · simp only [compileForm, hstyle]
    · exact
        { type := rfl
          source := rfl
          document := ⟨style.paint, style.layout, Compilation.normalize_toJson hpaint hlayout, rfl,
            rfl⟩ }

/-! ## One text on both ways -/

/-- The command that compiles the form in a file agrees with a request that brings the form. -/
structure AgreesWith (disk : Disk) (path : String) (chars : List Char) (request : Request) : Prop where
  /-- Both find the same form. -/
  decodes : ∀ form, Decode.ofText LayerForm.decode chars = .ok form ↔
    Service.needBody LayerForm.decode request = .ok form
  /-- The command stops at a text that is no form when the request is refused for its body. -/
  refuses : (∃ e, compile disk path = .error (.decodeForm path e)) ↔
    ∃ e, Service.needBody LayerForm.decode request = .error (.badBody (.undecodable e))
  /-- The command fails when the form cannot be stored, and for the same reason. -/
  fails : ∀ form, Service.needBody LayerForm.decode request = .ok form → ∀ failure,
    compile disk path = .error failure ↔
      ∃ e, form.toFields = .error e ∧ failure = .compile form.visualType e
  /-- The command prints what is stored. -/
  stores : ∀ form fields, Service.needBody LayerForm.decode request = .ok form →
    form.toFields = .ok fields →
      ∃ compilation, compile disk path = .ok compilation ∧ compilation.Prints fields
  /-- Whatever layer the request asks to be stored, the command prints it. -/
  asked : ∀ fresh route operation, Service.Asks request fresh route operation →
    operation.Brings (fun _ => True) (fun _ => True) fun fields =>
      ∃ compilation, compile disk path = .ok compilation ∧ compilation.Prints fields

section Texts

variable {disk : Disk} {path : String} {chars : List Char} {doc : Json} {request : Request}
  {form : LayerForm}

theorem compile_of_decoded (hfile : textFile? disk path = some chars)
    (hform : Decode.ofText LayerForm.decode chars = .ok form) :
    compile disk path = compileForm form := by
  simp only [compile, hfile, hform]

/-- The command stops before it compiles where the text is no form. -/
theorem compile_undecoded_iff (hfile : textFile? disk path = some chars) :
    (∃ e, compile disk path = .error (.decodeForm path e)) ↔
      ∃ e, Decode.ofText LayerForm.decode chars = .error e := by
  cases hdecoded : Decode.ofText LayerForm.decode chars with
  | error e =>
      simp only [compile, hfile, hdecoded, Except.error.injEq, CommandError.decodeForm.injEq,
        true_and]
  | ok form =>
      rw [compile_of_decoded hfile hdecoded]
      constructor
      · rintro ⟨e, hfailed⟩
        obtain ⟨_, -, hsame⟩ := compileForm_eq_error_iff.1 hfailed
        cases hsame
      · rintro ⟨e, herror⟩
        cases herror

theorem holdsMaps_of_text (hparse : Json.parseRaw? chars = some doc)
    (hform : Decode.ofText LayerForm.decode chars = .ok form) : form.style.HoldsMaps := by
  have hrange : doc.Every Json.Number.InRange :=
    Json.every_of_parseRaw? (fun _ _ => Json.Numeral.inRange_of_value?) hparse
  rw [Decode.ofText_of_parseRaw? LayerForm.decode hparse] at hform
  exact LayerForm.yields_holdsMaps _ _ _ hrange hform

/-- A body is the form that is in the text which it was parsed from. -/
theorem ofText_iff_needBody (hparse : Json.parseRaw? chars = some doc) (hdoc : doc.Distinct)
    (hbody : request.body = some doc.normalize) :
    Decode.ofText LayerForm.decode chars = .ok form ↔
      Service.needBody LayerForm.decode request = .ok form := by
  rw [LayerForm.steady_decode.ofText_iff hparse hdoc, Service.needBody_eq_ok_iff, hbody]
  simp [Decode.ofJson_normalize]

/--
A form in a file is compiled to what a request stores that brings the same form as a document, whatever
the order of its keys, as long as no object has a key twice.
-/
theorem compile_agrees_with (hfile : textFile? disk path = some chars)
    (hparse : Json.parseRaw? chars = some doc) (hdoc : doc.Distinct)
    (hbody : request.body = some doc.normalize) : AgreesWith disk path chars request := by
  have hdecodes : ∀ form, Decode.ofText LayerForm.decode chars = .ok form ↔
      Service.needBody LayerForm.decode request = .ok form :=
    fun _ => ofText_iff_needBody hparse hdoc hbody
  have hstores : ∀ form fields, Service.needBody LayerForm.decode request = .ok form →
      form.toFields = .ok fields →
        ∃ compilation, compile disk path = .ok compilation ∧ compilation.Prints fields := by
    intro form fields hform hfields
    have hdecoded := (hdecodes form).2 hform
    rw [compile_of_decoded hfile hdecoded]
    exact exists_compileForm (holdsMaps_of_text hparse hdecoded) hfields
  refine
    { decodes := hdecodes
      refuses := ?_
      fails := fun form hform failure => ?_
      stores := hstores
      asked := fun fresh route operation hasks => ?_ }
  · rw [compile_undecoded_iff hfile, Service.needBody_undecodable_iff hbody, Decode.exists_error_iff,
      Decode.exists_error_iff, Decode.ofJson_normalize]
    exact forall_congr' fun form => not_congr (LayerForm.steady_decode.ofText_iff hparse hdoc)
  · rw [compile_of_decoded hfile ((hdecodes form).2 hform)]
    exact compileForm_eq_error_iff
  · refine hasks.brings_body.mono (fun _ _ => trivial) (fun _ _ => trivial) ?_
    rintro fields ⟨form, hform, hfields⟩
    exact hstores form fields hform hfields

end Texts

/-- A form whose keys are in no order, neither its own nor those of its map. -/
def sampleHills : Json :=
  .object [("type", .text "raster"), ("sourceUrl", .text "hills"),
    ("paint", .object [("tint", .number (.whole 1)), ("fade", .array [])])]

def sampleHillsDisk : Disk :=
  (default : Disk).put "hills.json" (Utf8.encode sampleHills.compactChars)

def sampleHillsRequest : Request :=
  ⟨.post, "/LayerData", none, some sampleHills.normalize⟩

theorem sample_compile_agrees_with :
    textFile? sampleHillsDisk "hills.json" = some sampleHills.compactChars ∧
      Json.parseRaw? sampleHills.compactChars = some sampleHills ∧ sampleHills.Distinct ∧
      sampleHillsRequest.body = some sampleHills.normalize ∧
      AgreesWith sampleHillsDisk "hills.json" sampleHills.compactChars sampleHillsRequest ∧
      compile sampleHillsDisk "hills.json" =
        .ok ⟨.raster, ⟨[("fade", .array []), ("tint", .number (.whole 1))], []⟩,
          .remote "" "hills"⟩ := by
  have hread : sampleHillsDisk.read "hills.json" = .ok (Utf8.encode sampleHills.compactChars) :=
    rfl
  have hfile : textFile? sampleHillsDisk "hills.json" = some sampleHills.compactChars := by
    rw [textFile?, hread]
    exact Utf8.decode?_encode _
  have hparse : Json.parseRaw? sampleHills.compactChars = some sampleHills := by decide +kernel
  have hdoc : sampleHills.Distinct := by
    simp [sampleHills, Json.Distinct, Json.DistinctItems, Json.DistinctMembers, Json.keys]
  refine ⟨hfile, hparse, hdoc, rfl, compile_agrees_with hfile hparse hdoc rfl, ?_⟩
  decide +kernel

end Command

end MapCatalog
