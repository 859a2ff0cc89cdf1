import MapCatalog.Service.Route

/-! # Addresses and routes -/

namespace MapCatalog

namespace Address

inductive Named : List String → Address → Prop where
  | collection (tier : Tier) : Named [tier.collection] (.collection tier)
  | record (tier : Tier) (id : String) : Named [tier.collection, id] (.record tier id)
  | rearrange (direction id : String) :
      Named ["LayerData", "Rearrange", direction, id] (.rearrange direction id)
  | logout : Named ["auth", "logout"] .logout

def methods : Address → List Method
  | .collection .sections => [.get, .post]
  | .collection .groups | .collection .layers => [.post]
  | .record _ _ => [.get, .put, .delete]
  | .rearrange _ _ => [.put]
  | .logout => [.post]

inductive Illegible : Method → Address → Prop where
  | record {method : Method} {tier : Tier} {text : String} {e : RecordError}
      (h : Id.parse tier text = .error e) : Illegible method (.record tier text)
  | direction {direction text : String} {e : RecordError}
      (h : Direction.parse direction = .error e) : Illegible .put (.rearrange direction text)
  | layer {direction text : String} {e : RecordError}
      (h : Id.parse .layers text = .error e) : Illegible .put (.rearrange direction text)

inductive Leads : Method → Address → Route → Prop where
  | list : Leads .get (.collection .sections) .list
  | create (tier : Tier) : Leads .post (.collection tier) (.create tier)
  | read {tier : Tier} {text : String} {id : Id tier} (h : Id.parse tier text = .ok id) :
      Leads .get (.record tier text) (.read tier id)
  | replace {tier : Tier} {text : String} {id : Id tier} (h : Id.parse tier text = .ok id) :
      Leads .put (.record tier text) (.replace tier id)
  | delete {tier : Tier} {text : String} {id : Id tier} (h : Id.parse tier text = .ok id) :
      Leads .delete (.record tier text) (.delete tier id)
  | rearrange {way text : String} {direction : Direction} {id : LayerId}
      (hway : Direction.parse way = .ok direction) (hid : Id.parse .layers text = .ok id) :
      Leads .put (.rearrange way text) (.rearrange direction id)
  | logout : Leads .post .logout .logout

/-! ## Pieces -/

theorem tier?_eq_some_iff {piece : String} {tier : Tier} :
    tier? piece = some tier ↔ piece = tier.collection := by
  constructor
  · intro h
    have hfound : (tier.collection == piece) = true :=
      List.find?_some (p := fun tier => Tier.collection tier == piece) h
    exact (beq_iff_eq.1 hfound).symm
  · rintro rfl
    cases tier <;> decide

theorem named_iff {pieces : List String} {address : Address} :
    Named pieces address ↔ ofPieces? pieces = some address := by
  constructor
  · intro h
    cases h with
    | collection tier =>
        cases tier <;> decide
    | record tier id =>
        have hauth : tier.collection ≠ "auth" := by
          cases tier <;> decide
        simp [ofPieces?, hauth, tier?_eq_some_iff.2 rfl]
    | rearrange direction id =>
        simp [ofPieces?, Tier.collection]
    | logout =>
        decide
  · intro h
    unfold ofPieces? at h
    split at h
    · obtain ⟨tier, htier, rfl⟩ := Option.map_eq_some_iff.1 h
      rw [tier?_eq_some_iff.1 htier]
      exact .collection tier
    · split at h
      · next hlogout =>
        cases h
        rw [hlogout.1, hlogout.2]
        exact .logout
      · obtain ⟨tier, htier, rfl⟩ := Option.map_eq_some_iff.1 h
        rw [tier?_eq_some_iff.1 htier]
        exact .record tier _
    · split at h
      · next hverb =>
        cases h
        rw [hverb.1, hverb.2]
        exact .rearrange _ _
      · cases h
    · cases h

theorem Named.unique {pieces : List String} {address other : Address} (h : Named pieces address)
    (hother : Named pieces other) : address = other :=
  Option.some.inj ((named_iff.1 h).symm.trans (named_iff.1 hother))

/-! ## Methods -/

namespace Leads

variable {method : Method} {address : Address} {route : Route}

theorem mem_methods (h : Leads method address route) : method ∈ address.methods := by
  cases h with
  | create tier =>
      cases tier <;> simp [methods]
  | list | read | replace | delete | rearrange | logout =>
      simp [methods]

theorem legible (h : Leads method address route) : ¬ Illegible method address := by
  intro hillegible
  cases hillegible with
  | record herror =>
      cases h with
      | read hid | replace hid | delete hid =>
          rw [herror] at hid
          cases hid
  | direction herror =>
      cases h with
      | rearrange hway _ =>
          rw [herror] at hway
          cases hway
  | layer herror =>
      cases h with
      | rearrange _ hid =>
          rw [herror] at hid
          cases hid

theorem atAddress (h : Leads method address route) :
    Route.atAddress method address = .ok (some route) := by
  cases h with
  | list | logout =>
      rfl
  | create tier =>
      cases tier <;> rfl
  | read hid | replace hid | delete hid =>
      rw [Route.atAddress, hid]
      rfl
  | rearrange hway hid =>
      simp [Route.atAddress, Route.move, hway, hid, Except.map]

end Leads

/-- A method cannot read an address, or is not allowed there, or leads to a route. -/
inductive Answered (method : Method) (address : Address) : Except RecordError (Option Route) → Prop where
  | illegible {e : RecordError} (h : Illegible method address) : Answered method address (.error e)
  | notAllowed (hlegible : ¬ Illegible method address) (h : method ∉ address.methods) :
      Answered method address (.ok none)
  | leads {route : Route} (h : Leads method address route) : Answered method address (.ok (some route))

theorem answered_collection (method : Method) (tier : Tier) :
    Answered method (.collection tier) (Route.atAddress method (.collection tier)) := by
  have hlegible : ¬ Illegible method (.collection tier) := nofun
  cases method with
  | get =>
      cases tier with
      | sections => exact .leads .list
      | groups | layers => exact .notAllowed hlegible (by decide)
  | post =>
      cases tier <;> exact .leads (.create _)
  | put | delete =>
      cases tier <;> exact .notAllowed hlegible (by decide)

theorem answered_record (method : Method) (tier : Tier) (text : String) :
    Answered method (.record tier text) (Route.atAddress method (.record tier text)) := by
  rw [Route.atAddress]
  cases hid : Id.parse tier text with
  | error e =>
      exact .illegible (.record hid)
  | ok id =>
      cases method with
      | get => exact .leads (.read hid)
      | put => exact .leads (.replace hid)
      | delete => exact .leads (.delete hid)
      | post =>
          refine .notAllowed ?_ (by simp [methods])
          rintro ⟨herror⟩
          rw [hid] at herror
          cases herror

theorem answered_rearrange (method : Method) (way text : String) :
    Answered method (.rearrange way text) (Route.atAddress method (.rearrange way text)) := by
  by_cases hput : method = .put
  · subst hput
    rw [Route.atAddress, if_pos rfl, Route.move]
    cases hway : Direction.parse way with
    | error e =>
        exact .illegible (.direction hway)
    | ok direction =>
        cases hid : Id.parse .layers text with
        | error e =>
            exact .illegible (.layer hid)
        | ok id =>
            exact .leads (.rearrange hway hid)
  · rw [Route.atAddress, if_neg hput]
    refine .notAllowed ?_ (by simp [methods, hput])
    rintro (_ | _ | _) <;> exact hput rfl

theorem answered_logout (method : Method) :
    Answered method .logout (Route.atAddress method .logout) := by
  cases method with
  | post => exact .leads .logout
  | get | put | delete => exact .notAllowed nofun (by decide)

theorem answered (method : Method) (address : Address) :
    Answered method address (Route.atAddress method address) := by
  cases address with
  | collection tier => exact answered_collection method tier
  | record tier text => exact answered_record method tier text
  | rearrange way text => exact answered_rearrange method way text
  | logout => exact answered_logout method

end Address

/-! ## Paths -/

namespace Route

def Leads (method : Method) (path : String) (route : Route) : Prop :=
  ∃ address, Address.Named (Address.pieces path) address ∧ Address.Leads method address route

theorem parse_of_leads {method : Method} {path : String} {route : Route}
    (h : Leads method path route) : parse method path = .ok route := by
  obtain ⟨address, hnamed, hleads⟩ := h
  rw [parse, Address.named_iff.1 hnamed]
  simp only [hleads.atAddress]

/-- A path leads to a route, or is answered for the one reason that it does not. -/
inductive Found (method : Method) (path : String) : Except ServiceError Route → Prop where
  | nowhere (h : ∀ address, ¬ Address.Named (Address.pieces path) address) :
      Found method path (.error (.noRoute method path))
  | illegible {address : Address} {e : RecordError}
      (hnamed : Address.Named (Address.pieces path) address)
      (h : Address.Illegible method address) : Found method path (.error (.record e))
  | notAllowed {address : Address} (hnamed : Address.Named (Address.pieces path) address)
      (hlegible : ¬ Address.Illegible method address) (h : method ∉ address.methods) :
      Found method path (.error (.methodNotAllowed method path))
  | leads {route : Route} (h : Leads method path route) : Found method path (.ok route)

theorem found (method : Method) (path : String) : Found method path (parse method path) := by
  unfold parse
  cases haddress : Address.ofPieces? (Address.pieces path) with
  | none =>
      refine .nowhere fun address hnamed => ?_
      rw [Address.named_iff.1 hnamed] at haddress
      cases haddress
  | some address =>
      have hnamed := Address.named_iff.2 haddress
      have hanswered := Address.answered method address
      dsimp only
      cases hanswer : atAddress method address with
      | error e =>
          rw [hanswer] at hanswered
          cases hanswered with
          | illegible h => exact .illegible hnamed h
      | ok found =>
          rw [hanswer] at hanswered
          cases hanswered with
          | notAllowed hlegible h => exact .notAllowed hnamed hlegible h
          | leads h => exact .leads ⟨address, hnamed, h⟩

end Route

end MapCatalog
