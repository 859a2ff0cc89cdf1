import MapCatalog.Auth.Guard
import MapCatalog.Catalog.InPlace
import MapCatalog.Editor.LayerForm
import MapCatalog.Service.Message
import MapCatalog.Service.Route

/-! # The service

A request passes its route, the guard, and the action on the catalogue.  The action sees neither the guard nor the
authorization of the request, and works on the catalogue in place.
-/

namespace MapCatalog

/-- A catalogue and what guards it. -/
structure Service where
  catalog : Catalog
  guard : Guard
deriving DecidableEq

namespace Service

/-! ## Bodies -/

def decodeBody {α : Type} (decode : Decoder α) (body : Json) : Except ServiceError α :=
  (Decode.ofJson decode body).mapError fun e => .badBody (.undecodable e)

/-- The record in the body of a request, which has to have one. -/
def needBody {α : Type} (decode : Decoder α) (request : Request) : Except ServiceError α :=
  match request.body with
  | none => .error (.badBody (.absent request.method))
  | some body => decodeBody decode body

structure MoveBody where
  /-- The revision that the caller has seen. -/
  revision : Option UInt64
deriving DecidableEq, Inhabited

namespace MoveBody

def fields : List (Decode.Field MoveBody) :=
  [.given "revision" (Decode.optional Decode.word64) fun v b => { b with revision := v }]

def decode : Decoder MoveBody :=
  Decode.record fields default

end MoveBody

/-- The revision in the body of a request to move a layer, which may do without. -/
def expectedRevision (request : Request) : Except ServiceError (Option Nat) :=
  match request.body with
  | none | some .null => .ok none
  | some body =>
      (decodeBody MoveBody.decode body).map fun found => found.revision.map UInt64.toNat

/-! ## Actions -/

/-- What a route does: read from the catalogue, do an operation, or end a session. -/
inductive Action where
  | read (key : String) (value : Json)
  | change (operation : Operation)
  | endSession
deriving DecidableEq

def orNull {α : Type} (toJson : α → Json) (found : Option α) : Json :=
  (found.map toJson).getD .null

def readTier (c : Catalog) : (tier : Tier) → Id tier → Action
  | .sections, id =>
      .read "layerSection" (orNull SectionTree.toJson (c.sectionTree? Catalog.fullDepth id))
  | .groups, id => .read "layerGroup" (orNull GroupTree.toJson (c.groupTree? Catalog.fullDepth id))
  | .layers, id => .read "layerData" (orNull LayerRecord.toJson (c.layer? id))

def formFields (form : LayerForm) : Except ServiceError LayerFields :=
  form.toFields.mapError .style

def creation (request : Request) (fresh : BitVec 128) : Tier → Except ServiceError Operation
  | .sections => (needBody SectionFields.decode request).map (.createSection ⟨fresh⟩)
  | .groups => (needBody GroupFields.decode request).map (.createGroup ⟨fresh⟩)
  | .layers =>
      match needBody LayerForm.decode request with
      | .error e => .error e
      | .ok form =>
          match form.group with
          | .error e => .error (.record e)
          | .ok group => (formFields form).map (.createLayer ⟨fresh⟩ group)

def replacement (request : Request) : (tier : Tier) → Id tier → Except ServiceError Operation
  | .sections, id => (needBody SectionFields.decode request).map (.replaceSection id)
  | .groups, id => (needBody GroupFields.decode request).map (.replaceGroup id)
  | .layers, id =>
      match needBody LayerForm.decode request with
      | .error e => .error e
      | .ok form => (formFields form).map (.replaceLayer id)

def deletion : (tier : Tier) → Id tier → Operation
  | .sections, id => .deleteSection id
  | .groups, id => .deleteGroup id
  | .layers, id => .deleteLayer id

def action (c : Catalog) (request : Request) (fresh : BitVec 128) :
    Route → Except ServiceError Action
  | .list => .ok (.read "layerSections" (.array (c.trees.map SectionTree.toJson)))
  | .read tier id => .ok (readTier c tier id)
  | .create tier => (creation request fresh tier).map .change
  | .replace tier id => (replacement request tier id).map .change
  | .delete tier id => .ok (.change (deletion tier id))
  | .rearrange direction id =>
      (expectedRevision request).map fun expected => .change (.moveLayer id direction expected)
  | .logout => .ok .endSession

/-! ## Responses -/

def response : Operation → Answer → Response
  | .createSection _ _, .aSection record => .created "layerSection" record.toJson
  | .createGroup _ _, .aGroup record => .created "layerGroup" record.toJson
  | .createLayer _ _ _, .aLayer record => .created "layerData" record.toJson
  | _, .aSection record => .ok "layer" record.toJson
  | _, .aGroup record => .ok "layer" record.toJson
  | _, .aLayer record => .ok "layer" record.toJson
  | _, .removed _ => .ok "message" (.text "deleted")
  | _, .moved outcome =>
      ⟨200, .object [("moved", .bool outcome.changed), ("order", .ofNat outcome.target.toNat),
        ("revision", .ofNat outcome.revision)]⟩

/-- Do an action.  It answers or fails, and leaves a catalogue either way. -/
def perform (c : Catalog) : Action → Except ServiceError Response × Catalog
  | .read key value => (.ok (.ok key value), c)
  | .change operation =>
      match operation.work.run c with
      | .error e c => (.error (.catalog e), c)
      | .ok answer c => (.ok (response operation answer), c)
  | .endSession => (.ok (.ok "message" (.text "logged out")), c)

/-- What a route does to the catalogue.  An identifier is at hand for a new record. -/
def act (c : Catalog) (request : Request) (fresh : BitVec 128) (route : Route) :
    Except ServiceError Response × Catalog :=
  match action c request fresh route with
  | .error e => (.error e, c)
  | .ok action => perform c action

/-! ## Handling -/

/-- Ask the guard about a route, and find out whose token it is where one is needed. -/
def authorize (guard : Guard) (route : Route) (request : Request) (now : Instant) :
    Except AuthError (Option String) × Guard :=
  if route.requiresAuth then
    let (verdict, guard) := guard.check request.authorization now
    (verdict.map some, guard)
  else
    (.ok none, guard)

/-- The guard after a route that succeeded: the subject that logs out is revoked. -/
def settle (guard : Guard) (route : Route) (subject : Option String) (now : Instant) : Guard :=
  match route, subject with
  | .logout, some subject => guard.revoke subject now
  | _, _ => guard

def follow (service : Service) (request : Request) (now : Instant) (fresh : BitVec 128)
    (route : Route) : Response × Service :=
  match authorize service.guard route request now with
  | (.error e, guard) => (.failure (.auth e), { service with guard := guard })
  | (.ok subject, guard) =>
      match act service.catalog request fresh route with
      | (.error e, catalog) => (.failure e, ⟨catalog, guard⟩)
      | (.ok response, catalog) => (response, ⟨catalog, settle guard route subject now⟩)

/-- The response to a request at a moment, and the service after it. -/
def handle (service : Service) (request : Request) (now : Instant) (fresh : BitVec 128) :
    Response × Service :=
  match Route.parse request.method request.path with
  | .error e => (.failure e, service)
  | .ok route => service.follow request now fresh route

end Service

end MapCatalog
