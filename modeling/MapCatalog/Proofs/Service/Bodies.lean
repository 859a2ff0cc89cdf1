import MapCatalog.Proofs.Service.Stages

/-! # What the body of a request decides -/

namespace MapCatalog

namespace Service

variable {service : Service} {visit : Visit} {route : Route}

/-! ## Bodies -/

theorem status_of_decodeBody {α : Type} {decode : Decoder α} {body : Json} {e : ServiceError}
    (h : decodeBody decode body = .error e) : e.status = 400 := by
  unfold decodeBody at h
  cases hdecoded : Decode.ofJson decode body with
  | error cause =>
      rw [hdecoded] at h
      cases h
      rfl
  | ok value =>
      rw [hdecoded] at h
      cases h

theorem status_of_needBody {α : Type} {decode : Decoder α} {request : Request} {e : ServiceError}
    (h : needBody decode request = .error e) : e.status = 400 := by
  unfold needBody at h
  split at h
  · cases h
    rfl
  · exact status_of_decodeBody h

theorem expectedRevision_of_body {request : Request} {body : Json}
    (hbody : request.body = some body) (hpresent : body ≠ .null) :
    expectedRevision request =
      (decodeBody MoveBody.decode body).map fun found => found.revision.map UInt64.toNat := by
  unfold expectedRevision
  rw [hbody]
  cases body with
  | null => exact absurd rfl hpresent
  | bool | number | text | array | object => rfl

/-- A revision that cannot be read is in a body that is there. -/
theorem exists_body_of_expectedRevision {request : Request} {e : ServiceError}
    (h : expectedRevision request = .error e) :
    ∃ body, request.body = some body ∧ body ≠ .null ∧ decodeBody MoveBody.decode body = .error e := by
  cases hbody : request.body with
  | none =>
      rw [expectedRevision, hbody] at h
      cases h
  | some body =>
      have hpresent : body ≠ .null := by
        rintro rfl
        rw [expectedRevision, hbody] at h
        cases h
      rw [expectedRevision_of_body hbody hpresent] at h
      cases hdecoded : decodeBody MoveBody.decode body with
      | error cause =>
          rw [hdecoded] at h
          cases h
          exact ⟨body, rfl, hpresent, hdecoded⟩
      | ok found =>
          rw [hdecoded] at h
          cases h

theorem undecodedMove_iff {request : Request} :
    UndecodedMove request ↔ ∃ e, expectedRevision request = .error e := by
  constructor
  · rintro ⟨body, hbody, hpresent, hundecoded⟩
    rw [expectedRevision_of_body hbody hpresent, decodeBody]
    cases hdecoded : Decode.ofJson MoveBody.decode body with
    | error e => exact ⟨_, rfl⟩
    | ok found => exact absurd hdecoded (hundecoded found)
  · rintro ⟨e, herror⟩
    obtain ⟨body, hbody, hpresent, hdecoded⟩ := exists_body_of_expectedRevision herror
    refine ⟨body, hbody, hpresent, fun found hfound => ?_⟩
    rw [decodeBody, hfound] at hdecoded
    cases hdecoded

theorem toFields_iff (form : LayerForm) :
    (∃ fields, form.toFields = .ok fields) ↔ form.SoundPoints := by
  rw [LayerForm.SoundPoints, ← StyleForm.validate_narrow_iff, LayerForm.toFields, StyleForm.compile]
  cases (form.style.narrow form.visualType).validate with
  | error e => simp
  | ok valid => simp

/-! ## Stages without anything to fail -/

/-- Where no layer is in the body, there is neither a group nor a style to be looked at. -/
theorem SentTo.reaches_name (h : SentTo visit route) (hbrings : ¬ route.Brings .layers)
    (hreaches : Reaches service visit .parent) : Reaches service visit .name := by
  have hpoints : Reaches service visit .breakpoints := by
    refine hreaches.next rfl fun status hfails => ?_
    cases hfails with
    | orphan hsame _ _ => exact hbrings (h.unique hsame ▸ Route.Brings.create .layers)
  refine hpoints.next rfl fun status hfails => ?_
  cases hfails with
  | unsound hsame hother _ _ => exact hbrings (h.unique hsame ▸ hother)

/-- Where neither a record nor a move is in the body, nothing can be wrong with it. -/
theorem SentTo.reaches_of_bodiless (h : SentTo visit route) (hbrings : ∀ tier, ¬ route.Brings tier)
    (hmove : ∀ direction id, route ≠ .rearrange direction id)
    (hreaches : Reaches service visit .body) : Reaches service visit .name := by
  refine h.reaches_name (hbrings .layers) (hreaches.next rfl fun status hfails => ?_)
  cases hfails with
  | undecoded hsame hother _ => exact hbrings _ (h.unique hsame ▸ hother)
  | undecodedMove hsame _ => exact hmove _ _ (h.unique hsame).symm

/-! ## Records in the body -/

/-- A route that brings a record along reads it in the body. -/
theorem decided_needBody {α : Type} (decode : Decoder α) {tier : Tier} (h : SentTo visit route)
    (hbrings : route.Brings tier)
    (htier : Undecoded visit.request tier ↔ ∀ value, needBody decode visit.request ≠ .ok value)
    (hreaches : Reaches service visit .body) :
    Decided service visit .parent (needBody decode visit.request) := by
  cases hbody : needBody decode visit.request with
  | error e =>
      have hundecoded : Undecoded visit.request tier := htier.2 fun value hvalue => by
        rw [hbody] at hvalue
        cases hvalue
      have hfails : Fails service visit .body 400 := .undecoded h hbrings hundecoded
      rw [← status_of_needBody hbody] at hfails
      exact .fails ⟨hfails, hreaches⟩
  | ok value =>
      refine .reaches (hreaches.next rfl fun status hfails => ?_)
      cases hfails with
      | undecoded hsame hother hundecoded =>
          obtain rfl := hbrings.unique (h.unique hsame ▸ hother)
          exact htier.1 hundecoded value hbody
      | undecodedMove hsame _ =>
          cases h.unique hsame
          cases hbrings

theorem decided_plainBody {α : Type} (decode : Decoder α) {tier : Tier} (h : SentTo visit route)
    (hbrings : route.Brings tier) (hplain : ¬ route.Brings .layers)
    (htier : Undecoded visit.request tier ↔ ∀ value, needBody decode visit.request ≠ .ok value)
    (hreaches : Reaches service visit .body) :
    Decided service visit .name (needBody decode visit.request) :=
  (decided_needBody decode h hbrings htier hreaches).later (h.reaches_name hplain)

theorem decided_group (h : SentTo visit (.create .layers)) {form : LayerForm}
    (hform : needBody LayerForm.decode visit.request = .ok form)
    (hreaches : Reaches service visit .parent) :
    Decided service visit .breakpoints (form.group.mapError .record) := by
  cases hgroup : form.groupId with
  | none =>
      rw [LayerForm.group, hgroup]
      exact .fails (e := .record (.missing .layers "layerGroupId")) ⟨.orphan h hform hgroup, hreaches⟩
  | some group =>
      rw [LayerForm.group, hgroup]
      refine .reaches (hreaches.next rfl fun status hfails => ?_)
      cases hfails with
      | orphan _ hsame hnone =>
          obtain rfl := Except.ok.inj (hform.symm.trans hsame)
          rw [hgroup] at hnone
          cases hnone

theorem decided_formFields (h : SentTo visit route) (hbrings : route.Brings .layers)
    {form : LayerForm} (hform : needBody LayerForm.decode visit.request = .ok form)
    (hreaches : Reaches service visit .breakpoints) :
    Decided service visit .name (formFields form) := by
  cases hfields : form.toFields with
  | error e =>
      have hunsound : ¬ form.SoundPoints := by
        rw [← toFields_iff, hfields]
        rintro ⟨fields, ⟨⟩⟩
      rw [formFields, hfields]
      exact .fails (e := .style e) ⟨.unsound h hbrings hform hunsound, hreaches⟩
  | ok fields =>
      rw [formFields, hfields]
      refine .reaches (hreaches.next rfl fun status hfails => ?_)
      cases hfails with
      | unsound _ _ hsame hunsound =>
          obtain rfl := Except.ok.inj (hform.symm.trans hsame)
          exact hunsound ((toFields_iff form).1 ⟨fields, hfields⟩)

theorem creation_layers (request : Request) (fresh : BitVec 128) :
    creation request fresh .layers =
      (needBody LayerForm.decode request).bind fun form =>
        (form.group.mapError .record).bind fun group =>
          (formFields form).map (.createLayer ⟨fresh⟩ group) := by
  rw [creation]
  cases needBody LayerForm.decode request with
  | error e => rfl
  | ok form =>
      dsimp only [Except.bind]
      cases form.group <;> rfl

theorem decided_creation {tier : Tier} (h : SentTo visit (.create tier))
    (hreaches : Reaches service visit .body) :
    Decided service visit .name (creation visit.request visit.fresh tier) := by
  cases tier with
  | sections =>
      exact (decided_plainBody _ h (.create .sections) nofun Iff.rfl hreaches).map _
  | groups =>
      exact (decided_plainBody _ h (.create .groups) nofun Iff.rfl hreaches).map _
  | layers =>
      have hbody := decided_needBody LayerForm.decode h (.create .layers) Iff.rfl hreaches
      rw [creation_layers]
      refine hbody.bind fun form hform hparent => ?_
      refine (decided_group h hform hparent).bind fun group _ hpoints => ?_
      exact (decided_formFields h (.create .layers) hform hpoints).map _

theorem replacement_layers (request : Request) (id : LayerId) :
    replacement request .layers id =
      (needBody LayerForm.decode request).bind fun form =>
        (formFields form).map (.replaceLayer id) := by
  rw [replacement]
  cases needBody LayerForm.decode request <;> rfl

theorem decided_replacement {tier : Tier} {id : Id tier} (h : SentTo visit (.replace tier id))
    (hreaches : Reaches service visit .body) :
    Decided service visit .name (replacement visit.request tier id) := by
  cases tier with
  | sections =>
      exact (decided_plainBody _ h (.replace .sections id) nofun Iff.rfl hreaches).map _
  | groups =>
      exact (decided_plainBody _ h (.replace .groups id) nofun Iff.rfl hreaches).map _
  | layers =>
      have hbody := decided_needBody LayerForm.decode h (.replace .layers id) Iff.rfl hreaches
      rw [replacement_layers]
      refine hbody.bind fun form hform hparent => ?_
      have hpoints : Reaches service visit .breakpoints := by
        refine hparent.next rfl fun status hfails => ?_
        cases hfails with
        | orphan hsame _ _ => cases h.unique hsame
      exact (decided_formFields h (.replace .layers id) hform hpoints).map _

/-! ## Routes -/

theorem decided_expectedRevision {direction : Direction} {id : LayerId}
    (h : SentTo visit (.rearrange direction id)) (hreaches : Reaches service visit .body) :
    Decided service visit .name (expectedRevision visit.request) := by
  cases hrevision : expectedRevision visit.request with
  | error e =>
      obtain ⟨body, -, -, hdecoded⟩ := exists_body_of_expectedRevision hrevision
      have hfails : Fails service visit .body 400 :=
        .undecodedMove h (undecodedMove_iff.2 ⟨e, hrevision⟩)
      rw [← status_of_decodeBody hdecoded] at hfails
      exact .fails ⟨hfails, hreaches⟩
  | ok expected =>
      refine .reaches (h.reaches_name nofun (hreaches.next rfl fun status hfails => ?_))
      cases hfails with
      | undecoded hsame hother _ =>
          cases h.unique hsame
          cases hother
      | undecodedMove _ hundecoded =>
          obtain ⟨e, herror⟩ := undecodedMove_iff.1 hundecoded
          rw [hrevision] at herror
          cases herror

theorem decided_action (c : Catalog) (h : SentTo visit route)
    (hreaches : Reaches service visit .body) :
    Decided service visit .name (action c visit.request visit.fresh route) := by
  cases route with
  | create tier => exact (decided_creation h hreaches).map _
  | replace tier id => exact (decided_replacement h hreaches).map _
  | rearrange direction id => exact (decided_expectedRevision h hreaches).map _
  | list | read tier id | delete tier id | logout =>
      exact .reaches (h.reaches_of_bodiless nofun nofun hreaches)

theorem action_of_asks {request : Request} {fresh : BitVec 128} {operation : Operation}
    (h : Asks request fresh route operation) (c : Catalog) :
    action c request fresh route = .ok (.change operation) := by
  cases h with
  | createSection hbody | createGroup hbody | replaceSection id hbody | replaceGroup id hbody =>
      simp [action, creation, replacement, hbody, Except.map]
  | createLayer hbody hgroup hfields =>
      simp [action, creation, hbody, hgroup, formFields, hfields, Except.map, Except.mapError]
  | replaceLayer id hbody hfields =>
      simp [action, replacement, hbody, formFields, hfields, Except.map, Except.mapError]
  | delete tier id =>
      rfl
  | move direction id hbody =>
      simp [action, hbody, Except.map]

/-- A route asks for one operation, whatever the catalogue. -/
theorem Asks.unique {request : Request} {fresh : BitVec 128} {operation other : Operation}
    (h : Asks request fresh route operation) (hother : Asks request fresh route other) :
    other = operation := by
  have hsame := (action_of_asks hother .empty).symm.trans (action_of_asks h .empty)
  cases hsame
  rfl

end Service

end MapCatalog
