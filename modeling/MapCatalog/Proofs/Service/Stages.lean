import MapCatalog.Proofs.Catalog.Faults
import MapCatalog.Proofs.Service.Addresses
import MapCatalog.Proofs.Service.Requests
import MapCatalog.Proofs.Style.Compilation

/-! # The stages of a request -/

namespace MapCatalog

/-! ## Stages -/

/-- What a request passes. -/
inductive Stage where
  | path
  | authorization
  | body
  | parent
  | breakpoints
  | name
  | record
  | revision
deriving DecidableEq

namespace Stage

def rank : Stage → Nat
  | .path => 0
  | .authorization => 1
  | .body => 2
  | .parent => 3
  | .breakpoints => 4
  | .name => 5
  | .record => 6
  | .revision => 7

theorem eq_of_rank_eq {stage other : Stage} (h : stage.rank = other.rank) : stage = other := by
  cases stage <;> cases other <;> first | rfl | cases h

end Stage

/-! ## Conditions -/

/-- A route brings along the fields of a record of a tier. -/
inductive Route.Brings : Route → Tier → Prop where
  | create (tier : Tier) : Brings (.create tier) tier
  | replace (tier : Tier) (id : Id tier) : Brings (.replace tier id) tier

theorem Route.Brings.unique {route : Route} {tier other : Tier} (h : route.Brings tier)
    (hother : route.Brings other) : other = tier := by
  cases h <;> cases hother <;> rfl

def LayerForm.SoundPoints (form : LayerForm) : Prop :=
  ∀ property ∈ form.visualType.zoomProperties, property.enabled form.style = true →
    ∀ point ∈ property.points form.style, point.Sound

namespace Service

/-- The body of a request is missing, or no record of a tier can be read in it. -/
def Undecoded (request : Request) : Tier → Prop
  | .sections => ∀ fields, needBody SectionFields.decode request ≠ .ok fields
  | .groups => ∀ fields, needBody GroupFields.decode request ≠ .ok fields
  | .layers => ∀ form, needBody LayerForm.decode request ≠ .ok form

/-- The body of a request to move a layer is there, and no revision can be read in it. -/
def UndecodedMove (request : Request) : Prop :=
  ∃ body, request.body = some body ∧ body ≠ .null ∧
    ∀ found, Decode.ofJson MoveBody.decode body ≠ .ok found

def SentTo (visit : Visit) (route : Route) : Prop :=
  Route.Leads visit.request.method visit.request.path route

/-- A stage fails for a request, and the status that it is answered with. -/
inductive Fails (service : Service) (visit : Visit) : Stage → Nat → Prop where
  /-- There is nothing at the path. -/
  | nowhere
      (h : ∀ address, ¬ Address.Named (Address.pieces visit.request.path) address) :
      Fails service visit .path 404
  /-- An identifier or a direction in the path cannot be read. -/
  | illegible {address : Address}
      (hnamed : Address.Named (Address.pieces visit.request.path) address)
      (h : Address.Illegible visit.request.method address) : Fails service visit .path 400
  /-- The path is known, but not for the method. -/
  | notAllowed {address : Address}
      (hnamed : Address.Named (Address.pieces visit.request.path) address)
      (hlegible : ¬ Address.Illegible visit.request.method address)
      (h : visit.request.method ∉ address.methods) : Fails service visit .path 405
  /-- Every method but reading needs a token that the guard accepts. -/
  | refused {e : AuthError} (hmethod : visit.request.method ≠ .get)
      (h : service.guard.Refuses visit.request.authorization visit.now e) :
      Fails service visit .authorization 401
  | undecoded {route : Route} {tier : Tier} (hsent : SentTo visit route)
      (hbrings : route.Brings tier) (h : Undecoded visit.request tier) : Fails service visit .body 400
  /-- The body of a move may be left out or null. -/
  | undecodedMove {direction : Direction} {id : LayerId}
      (hsent : SentTo visit (.rearrange direction id)) (h : UndecodedMove visit.request) :
      Fails service visit .body 400
  /-- A new layer needs a group. -/
  | orphan {form : LayerForm} (hsent : SentTo visit (.create .layers))
      (hform : needBody LayerForm.decode visit.request = .ok form) (h : form.groupId = none) :
      Fails service visit .parent 400
  | unsound {route : Route} {form : LayerForm} (hsent : SentTo visit route)
      (hbrings : route.Brings .layers)
      (hform : needBody LayerForm.decode visit.request = .ok form) (h : ¬ form.SoundPoints) :
      Fails service visit .breakpoints 400
  | unnamed {route : Route} {operation : Operation} (hsent : SentTo visit route)
      (hasks : Asks visit.request visit.fresh route operation) (h : ¬ operation.IsNamed) :
      Fails service visit .name 400
  /-- A record that the operation is about, or that it puts a record into, is not there. -/
  | absent {route : Route} {operation : Operation} {id : RecordId} (hsent : SentTo visit route)
      (hasks : Asks visit.request visit.fresh route operation) (hneeded : id ∈ operation.needed)
      (h : service.catalog.holds id = false) : Fails service visit .record 404
  | outdated {route : Route} {operation : Operation} (hsent : SentTo visit route)
      (hasks : Asks visit.request visit.fresh route operation)
      (h : service.catalog.Outdates operation) : Fails service visit .revision 409

def Reaches (service : Service) (visit : Visit) (stage : Stage) : Prop :=
  ∀ earlier status, earlier.rank < stage.rank → ¬ Fails service visit earlier status

def Passes (service : Service) (visit : Visit) : Prop :=
  ∀ stage status, ¬ Fails service visit stage status

structure FailsFirst (service : Service) (visit : Visit) (stage : Stage) (status : Nat) : Prop where
  fails : Fails service visit stage status
  reaches : Reaches service visit stage

variable {service : Service} {visit : Visit} {route : Route}

/-! ## The first failure -/

theorem Fails.unique {stage : Stage} {status other : Nat} (h : Fails service visit stage status)
    (hother : Fails service visit stage other) : status = other := by
  cases h with
  | nowhere hnone =>
      cases hother with
      | nowhere => rfl
      | illegible hnamed _ | notAllowed hnamed _ _ => exact absurd hnamed (hnone _)
  | illegible hnamed hillegible =>
      cases hother with
      | nowhere hnone => exact absurd hnamed (hnone _)
      | illegible => rfl
      | notAllowed hsame hlegible _ => exact absurd (hnamed.unique hsame ▸ hillegible) hlegible
  | notAllowed hnamed hlegible _ =>
      cases hother with
      | nowhere hnone => exact absurd hnamed (hnone _)
      | illegible hsame hillegible => exact absurd (hsame.unique hnamed ▸ hillegible) hlegible
      | notAllowed => rfl
  | refused | undecoded | undecodedMove | orphan | unsound | unnamed | absent | outdated =>
      cases hother <;> rfl

theorem FailsFirst.unique {stage other : Stage} {status otherStatus : Nat}
    (h : FailsFirst service visit stage status)
    (hother : FailsFirst service visit other otherStatus) : status = otherStatus := by
  have hge : ¬ stage.rank < other.rank := fun hlt => hother.reaches stage status hlt h.fails
  have hle : ¬ other.rank < stage.rank := fun hlt => h.reaches other otherStatus hlt hother.fails
  obtain rfl := Stage.eq_of_rank_eq (Nat.le_antisymm (Nat.not_lt.1 hle) (Nat.not_lt.1 hge))
  exact h.fails.unique hother.fails

theorem reaches_path : Reaches service visit .path :=
  fun _ _ hlt => absurd hlt (Nat.not_lt_zero _)

theorem Reaches.next {stage next : Stage} (h : Reaches service visit stage)
    (hnext : next.rank = stage.rank + 1) (hpassed : ∀ status, ¬ Fails service visit stage status) :
    Reaches service visit next := by
  intro earlier status hlt hfails
  rw [hnext] at hlt
  rcases Nat.lt_succ_iff_lt_or_eq.1 hlt with hbefore | hsame
  · exact h earlier status hbefore hfails
  · exact hpassed status (Stage.eq_of_rank_eq hsame ▸ hfails)

/-- The revision is looked at last. -/
theorem Reaches.passes (h : Reaches service visit .revision)
    (hpassed : ∀ status, ¬ Fails service visit .revision status) : Passes service visit := by
  intro stage status hfails
  cases stage with
  | revision => exact hpassed status hfails
  | path | authorization | body | parent | breakpoints | name | record =>
      exact h _ status (by decide) hfails

/-! ## The path and the guard -/

theorem parse_of_sentTo (h : SentTo visit route) :
    Route.parse visit.request.method visit.request.path = .ok route :=
  Route.parse_of_leads h

theorem sentTo_of_parse (h : Route.parse visit.request.method visit.request.path = .ok route) :
    SentTo visit route := by
  have hfound := Route.found visit.request.method visit.request.path
  rw [h] at hfound
  cases hfound with
  | leads hleads => exact hleads

theorem SentTo.unique {other : Route} (h : SentTo visit route) (hother : SentTo visit other) :
    other = route :=
  Except.ok.inj ((parse_of_sentTo hother).symm.trans (parse_of_sentTo h))

theorem fails_of_unparsed {e : ServiceError}
    (h : Route.parse visit.request.method visit.request.path = .error e) :
    FailsFirst service visit .path e.status := by
  have hfound := Route.found visit.request.method visit.request.path
  rw [h] at hfound
  refine ⟨?_, reaches_path⟩
  cases hfound with
  | nowhere hnone => exact .nowhere hnone
  | illegible hnamed hillegible => exact .illegible hnamed hillegible
  | notAllowed hnamed hlegible hmethod => exact .notAllowed hnamed hlegible hmethod

theorem SentTo.reaches (h : SentTo visit route) : Reaches service visit .authorization := by
  refine reaches_path.next rfl fun status hfails => ?_
  obtain ⟨address, hnamed, hleads⟩ := h
  cases hfails with
  | nowhere hnone => exact hnone address hnamed
  | illegible hsame hillegible => exact hleads.legible (hsame.unique hnamed ▸ hillegible)
  | notAllowed hsame _ hmethod => exact hmethod (hsame.unique hnamed ▸ hleads.mem_methods)

theorem SentTo.reaches_of_get (h : SentTo visit route) (hget : visit.request.method = .get) :
    Reaches service visit .body := by
  refine h.reaches.next rfl fun status hfails => ?_
  cases hfails with
  | refused hmethod _ => exact hmethod hget

theorem SentTo.reaches_of_accepted (h : SentTo visit route) {subject : String}
    (haccepted : service.guard.verdict visit = .ok subject) : Reaches service visit .body := by
  refine h.reaches.next rfl fun status hfails => ?_
  cases hfails with
  | refused _ hrefuses =>
      have herror := Guard.check_eq_error_iff.2 hrefuses
      rw [Guard.verdict] at haccepted
      rw [haccepted] at herror
      cases herror

theorem failsFirst_authorization (h : SentTo visit route) (hmethod : visit.request.method ≠ .get)
    {e : AuthError} (hrefuses : service.guard.Refuses visit.request.authorization visit.now e) :
    FailsFirst service visit .authorization (ServiceError.auth e).status := by
  have hstatus : (ServiceError.auth e).status = 401 := if_pos hrefuses.isUnauthorized
  rw [hstatus]
  exact ⟨.refused hmethod hrefuses, h.reaches⟩

/-! ## Outcomes -/

/-- An outcome is the error of the first stage that fails, or everything up to a stage is passed. -/
inductive Decided {α : Type} (service : Service) (visit : Visit) (stage : Stage) :
    Except ServiceError α → Prop where
  | fails {first : Stage} {e : ServiceError} (h : FailsFirst service visit first e.status) :
      Decided service visit stage (.error e)
  | reaches {value : α} (h : Reaches service visit stage) : Decided service visit stage (.ok value)

theorem Decided.map {α β : Type} {stage : Stage} {outcome : Except ServiceError α}
    (h : Decided service visit stage outcome) (f : α → β) :
    Decided service visit stage (outcome.map f) := by
  cases h with
  | fails hfails => exact .fails hfails
  | reaches hreaches => exact .reaches hreaches

theorem Decided.later {α : Type} {stage later : Stage} {outcome : Except ServiceError α}
    (h : Decided service visit stage outcome)
    (hlater : Reaches service visit stage → Reaches service visit later) :
    Decided service visit later outcome := by
  cases h with
  | fails hfails => exact .fails hfails
  | reaches hreaches => exact .reaches (hlater hreaches)

/-- Stages after one another are decided by the first of them that fails. -/
theorem Decided.bind {α β : Type} {stage later : Stage} {outcome : Except ServiceError α}
    {next : α → Except ServiceError β} (h : Decided service visit stage outcome)
    (hnext : ∀ value, outcome = .ok value → Reaches service visit stage →
      Decided service visit later (next value)) :
    Decided service visit later (outcome.bind next) := by
  cases h with
  | fails hfails => exact .fails hfails
  | reaches hreaches => exact hnext _ rfl hreaches

end Service

end MapCatalog
