import MapCatalog.Proofs.Service.Addresses
import MapCatalog.Proofs.Service.Handling
import MapCatalog.Proofs.Service.Pieces
import MapCatalog.Proofs.Service.Spelling

/-! # The table of routes -/

namespace MapCatalog

namespace Route

/-! ## The table -/

/-- The rows of the table: the list, four routes for each of the three tiers, a move and the logout. -/
inductive Row : Method → List String → Route → Prop where
  | list : Row .get ["LayerSection"] .list
  | create (tier : Tier) : Row .post [tier.collection] (.create tier)
  | read {tier : Tier} {text : String} {id : Id tier} (h : Id.Spells text id) :
      Row .get [tier.collection, text] (.read tier id)
  | replace {tier : Tier} {text : String} {id : Id tier} (h : Id.Spells text id) :
      Row .put [tier.collection, text] (.replace tier id)
  | delete {tier : Tier} {text : String} {id : Id tier} (h : Id.Spells text id) :
      Row .delete [tier.collection, text] (.delete tier id)
  | rearrange {way text : String} {direction : Direction} {id : LayerId}
      (hway : Direction.Spells way direction) (hid : Id.Spells text id) :
      Row .put ["LayerData", "Rearrange", way, text] (.rearrange direction id)
  | logout : Row .post ["auth", "logout"] .logout

/-- Pieces have the shape of an address, and a part of it cannot be read.  The identifier of a record is
read whatever the method, the parts of a move for its own method only, the direction first. -/
inductive Malformed : Method → List String → RecordError → Prop where
  | record (method : Method) {tier : Tier} {text : String} (h : ¬ ∃ id : Id tier, Id.Spells text id) :
      Malformed method [tier.collection, text] (.invalidId tier text)
  | direction {way : String} (text : String) (h : ¬ ∃ direction, Direction.Spells way direction) :
      Malformed .put ["LayerData", "Rearrange", way, text] (.unknownDirection way)
  | layer {way text : String} {direction : Direction} (hway : Direction.Spells way direction)
      (h : ¬ ∃ id : LayerId, Id.Spells text id) :
      Malformed .put ["LayerData", "Rearrange", way, text] (.invalidId .layers text)

/-- Pieces name an address of the table, though not with the method. -/
inductive Disallowed : Method → List String → Prop where
  | collection {method : Method} {tier : Tier} (hlist : ¬ (method = .get ∧ tier = .sections))
      (hcreate : method ≠ .post) : Disallowed method [tier.collection]
  | record {tier : Tier} {text : String} {id : Id tier} (h : Id.Spells text id) :
      Disallowed .post [tier.collection, text]
  | rearrange {method : Method} (way text : String) (h : method ≠ .put) :
      Disallowed method ["LayerData", "Rearrange", way, text]
  | logout {method : Method} (h : method ≠ .post) : Disallowed method ["auth", "logout"]

/-- What the table says about the pieces of a path. -/
inductive Tabled (method : Method) (path : String) (pieces : List String) :
    Except ServiceError Route → Prop where
  | row {route : Route} (h : Row method pieces route) : Tabled method path pieces (.ok route)
  | malformed {e : RecordError} (h : Malformed method pieces e) :
      Tabled method path pieces (.error (.record e))
  | disallowed (h : Disallowed method pieces) :
      Tabled method path pieces (.error (.methodNotAllowed method path))
  | nowhere (h : ∀ address, ¬ Address.Named pieces address) :
      Tabled method path pieces (.error (.noRoute method path))

/-! ## Looking up -/

section Lookup

variable {method : Method} {path : String} {address : Address} {pieces : List String} {route : Route}

theorem row_of_leads (hnamed : Address.Named pieces address)
    (h : Address.Leads method address route) : Row method pieces route := by
  cases hnamed with
  | collection tier =>
      cases h with
      | list => exact .list
      | create => exact .create tier
  | record tier text =>
      cases h with
      | read hid => exact .read (Id.parse_eq_ok_iff.1 hid)
      | replace hid => exact .replace (Id.parse_eq_ok_iff.1 hid)
      | delete hid => exact .delete (Id.parse_eq_ok_iff.1 hid)
  | rearrange way text =>
      cases h with
      | rearrange hway hid =>
          exact .rearrange (Direction.parse_eq_ok_iff.1 hway) (Id.parse_eq_ok_iff.1 hid)
  | logout =>
      cases h with
      | logout => exact .logout

theorem malformed_of_atAddress (hnamed : Address.Named pieces address) {e : RecordError}
    (h : atAddress method address = .error e) : Malformed method pieces e := by
  cases hnamed with
  | collection tier => cases h
  | logout => cases h
  | record tier text =>
      rw [atAddress] at h
      cases hid : Id.parse tier text with
      | ok id =>
          rw [hid] at h
          cases h
      | error e =>
          rw [hid] at h
          cases h
          obtain ⟨rfl, hnone⟩ := Id.parse_eq_error_iff.1 hid
          exact .record method hnone
  | rearrange way text =>
      rw [atAddress] at h
      split at h
      case isFalse => cases h
      case isTrue hput =>
        subst hput
        rw [move] at h
        cases hway : Direction.parse way with
        | error e =>
            rw [hway] at h
            cases h
            obtain ⟨rfl, hnone⟩ := Direction.parse_eq_error_iff.1 hway
            exact .direction text hnone
        | ok direction =>
            cases hid : Id.parse .layers text with
            | ok id =>
                rw [hway, hid] at h
                cases h
            | error e =>
                rw [hway, hid] at h
                cases h
                obtain ⟨rfl, hnone⟩ := Id.parse_eq_error_iff.1 hid
                exact .layer (Direction.parse_eq_ok_iff.1 hway) hnone

theorem disallowed_of_legible (hnamed : Address.Named pieces address)
    (hlegible : ¬ Address.Illegible method address) (h : method ∉ address.methods) :
    Disallowed method pieces := by
  cases hnamed with
  | collection tier =>
      refine .collection ?_ ?_
      · rintro ⟨rfl, rfl⟩
        exact h (by decide)
      · rintro rfl
        exact h (by cases tier <;> decide)
  | record tier text =>
      cases hid : Id.parse tier text with
      | error e => exact absurd (.record hid) hlegible
      | ok id =>
          cases method with
          | post => exact .record (Id.parse_eq_ok_iff.1 hid)
          | get | put | delete => exact absurd (by simp [Address.methods]) h
  | rearrange way text => exact .rearrange way text fun hput => h (by simp [Address.methods, hput])
  | logout => exact .logout fun hpost => h (by simp [Address.methods, hpost])

theorem tabled (method : Method) (path : String) :
    Tabled method path (Address.pieces path) (parse method path) := by
  unfold parse
  cases haddress : Address.ofPieces? (Address.pieces path) with
  | none =>
      refine .nowhere fun address hnamed => ?_
      rw [Address.named_iff.1 hnamed] at haddress
      cases haddress
  | some address =>
      have hnamed := Address.named_iff.2 haddress
      have hanswered := Address.answered method address
      dsimp only
      cases hanswer : atAddress method address with
      | error e => exact .malformed (malformed_of_atAddress hnamed hanswer)
      | ok found =>
          rw [hanswer] at hanswered
          cases hanswered with
          | notAllowed hlegible h => exact .disallowed (disallowed_of_legible hnamed hlegible h)
          | leads h => exact .row (row_of_leads hnamed h)

/-! ## The outcome of each entry -/

theorem parse_of_answer (method : Method) (hpieces : Address.pieces path = pieces)
    (hnamed : Address.Named pieces address) :
    (∀ e, atAddress method address = .error e → parse method path = .error (.record e)) ∧
      (atAddress method address = .ok none →
        parse method path = .error (.methodNotAllowed method path)) ∧
      ∀ route, atAddress method address = .ok (some route) → parse method path = .ok route := by
  refine ⟨fun e h => ?_, fun h => ?_, fun route h => ?_⟩ <;>
    simp only [parse, hpieces, Address.named_iff.1 hnamed, h]

/-- At the address of a record the identifier decides, however it is spelled. -/
theorem atAddress_of_spelled (method : Method) {tier : Tier} {text : String} {id : Id tier}
    (h : Id.Spells text id) : atAddress method (.record tier text) = .ok (atRecord? id method) := by
  rw [atAddress, Id.parse_eq_ok_iff.2 h]
  rfl

theorem parse_of_row (hpieces : Address.pieces path = pieces) (h : Row method pieces route) :
    parse method path = .ok route := by
  apply parse_of_leads
  rw [Leads, hpieces]
  cases h with
  | list => exact ⟨_, .collection .sections, .list⟩
  | create tier => exact ⟨_, .collection tier, .create tier⟩
  | @read tier text id h => exact ⟨_, .record tier text, .read (Id.parse_eq_ok_iff.2 h)⟩
  | @replace tier text id h => exact ⟨_, .record tier text, .replace (Id.parse_eq_ok_iff.2 h)⟩
  | @delete tier text id h => exact ⟨_, .record tier text, .delete (Id.parse_eq_ok_iff.2 h)⟩
  | @rearrange way text direction id hway hid =>
      exact ⟨_, .rearrange way text,
        .rearrange (Direction.parse_eq_ok_iff.2 hway) (Id.parse_eq_ok_iff.2 hid)⟩
  | logout => exact ⟨_, .logout, .logout⟩

theorem parse_of_malformed (hpieces : Address.pieces path = pieces) {e : RecordError}
    (h : Malformed method pieces e) : parse method path = .error (.record e) := by
  cases h with
  | @record _ tier text hnone =>
      have hid : Id.parse tier text = .error (.invalidId tier text) :=
        Id.parse_eq_error_iff.2 ⟨rfl, hnone⟩
      refine (parse_of_answer _ hpieces (.record tier text)).1 _ ?_
      rw [atAddress, hid]
      rfl
  | @direction way text hnone =>
      have hway : Direction.parse way = .error (.unknownDirection way) :=
        Direction.parse_eq_error_iff.2 ⟨rfl, hnone⟩
      refine (parse_of_answer _ hpieces (.rearrange way text)).1 _ ?_
      rw [atAddress, if_pos rfl, move, hway]
      rfl
  | @layer way text direction hway hnone =>
      have hid : Id.parse .layers text = .error (.invalidId .layers text) :=
        Id.parse_eq_error_iff.2 ⟨rfl, hnone⟩
      refine (parse_of_answer _ hpieces (.rearrange way text)).1 _ ?_
      rw [atAddress, if_pos rfl, move, Direction.parse_eq_ok_iff.2 hway, hid]
      rfl

theorem parse_of_disallowed (hpieces : Address.pieces path = pieces) (h : Disallowed method pieces) :
    parse method path = .error (.methodNotAllowed method path) := by
  cases h with
  | @collection _ tier hlist hcreate =>
      have hnone : atCollection? method tier = none := by
        cases method with
        | get =>
            cases tier with
            | sections => exact absurd ⟨rfl, rfl⟩ hlist
            | groups | layers => rfl
        | post => exact absurd rfl hcreate
        | put | delete => cases tier <;> rfl
      refine (parse_of_answer _ hpieces (.collection tier)).2.1 ?_
      rw [atAddress, hnone]
  | @record tier text id h =>
      exact (parse_of_answer _ hpieces (.record tier text)).2.1 (atAddress_of_spelled .post h)
  | rearrange way text h =>
      refine (parse_of_answer _ hpieces (.rearrange way text)).2.1 ?_
      rw [atAddress, if_neg h]
  | logout h =>
      refine (parse_of_answer _ hpieces .logout).2.1 ?_
      rw [atAddress, if_neg h]

theorem parse_of_nowhere (hpieces : Address.pieces path = pieces)
    (h : ∀ address, ¬ Address.Named pieces address) :
    parse method path = .error (.noRoute method path) := by
  have hnone : Address.ofPieces? pieces = none := by
    rw [Option.eq_none_iff_forall_ne_some]
    exact fun address haddress => h address (Address.named_iff.2 haddress)
  rw [parse, hpieces, hnone]

/-- A path is accepted exactly when its pieces are in a row of the table: it leads to that row's route. -/
theorem parse_eq_ok_iff : parse method path = .ok route ↔ Row method (Address.pieces path) route := by
  refine ⟨fun h => ?_, parse_of_row rfl⟩
  have htabled := tabled method path
  rw [h] at htabled
  cases htabled with
  | row hrow => exact hrow

theorem parse_eq_malformed_iff {e : RecordError} :
    parse method path = .error (.record e) ↔ Malformed method (Address.pieces path) e := by
  refine ⟨fun h => ?_, parse_of_malformed rfl⟩
  have htabled := tabled method path
  rw [h] at htabled
  cases htabled with
  | malformed hmalformed => exact hmalformed

theorem parse_eq_disallowed_iff :
    parse method path = .error (.methodNotAllowed method path) ↔
      Disallowed method (Address.pieces path) := by
  refine ⟨fun h => ?_, parse_of_disallowed rfl⟩
  have htabled := tabled method path
  rw [h] at htabled
  cases htabled with
  | disallowed hdisallowed => exact hdisallowed

theorem parse_eq_nowhere_iff :
    parse method path = .error (.noRoute method path) ↔
      ∀ address, ¬ Address.Named (Address.pieces path) address := by
  refine ⟨fun h => ?_, parse_of_nowhere rfl⟩
  have htabled := tabled method path
  rw [h] at htabled
  cases htabled with
  | nowhere hnowhere => exact hnowhere

/-- There are no other errors. -/
theorem fault_of_parse {e : ServiceError} (h : parse method path = .error e) :
    (∃ cause, e = .record cause) ∨ e = .methodNotAllowed method path ∨ e = .noRoute method path := by
  have htabled := tabled method path
  rw [h] at htabled
  cases htabled with
  | malformed => exact .inl ⟨_, rfl⟩
  | disallowed => exact .inr (.inl rfl)
  | nowhere => exact .inr (.inr rfl)

/-! ## Paths with one outcome -/

/-- Two paths have one outcome: they lead to one route, or the same is wrong with them.  An error tells
the path where no part of it is to blame. -/
inductive SameOutcome (method : Method) (path other : String) : Prop where
  | route {route : Route} (h : parse method path = .ok route) (h' : parse method other = .ok route)
  | malformed {e : RecordError} (h : parse method path = .error (.record e))
      (h' : parse method other = .error (.record e))
  | disallowed (h : parse method path = .error (.methodNotAllowed method path))
      (h' : parse method other = .error (.methodNotAllowed method other))
  | nowhere (h : parse method path = .error (.noRoute method path))
      (h' : parse method other = .error (.noRoute method other))

theorem sameOutcome_of_pieces (method : Method) {path other : String}
    (h : Address.pieces path = Address.pieces other) : SameOutcome method path other := by
  have htabled := tabled method path
  generalize hparse : parse method path = outcome at htabled
  cases htabled with
  | row hrow => exact .route hparse (parse_of_row h.symm hrow)
  | malformed hmalformed => exact .malformed hparse (parse_of_malformed h.symm hmalformed)
  | disallowed hdisallowed => exact .disallowed hparse (parse_of_disallowed h.symm hdisallowed)
  | nowhere hnowhere => exact .nowhere hparse (parse_of_nowhere h.symm hnowhere)

/-- Pieces that spell the same identifier, and the same direction, in two ways. -/
inductive Respelled : List String → List String → Prop where
  | record {tier : Tier} {text other : String} {id : Id tier} (h : Id.Spells text id)
      (h' : Id.Spells other id) : Respelled [tier.collection, text] [tier.collection, other]
  | rearrange {way otherWay text other : String} {direction : Direction} {id : LayerId}
      (hway : Direction.Spells way direction) (hway' : Direction.Spells otherWay direction)
      (h : Id.Spells text id) (h' : Id.Spells other id) :
      Respelled ["LayerData", "Rearrange", way, text] ["LayerData", "Rearrange", otherWay, other]

theorem sameOutcome_of_respelled {other : String} {pieces' : List String}
    (hpieces : Address.pieces path = pieces) (hother : Address.pieces other = pieces')
    (h : Respelled pieces pieces') : SameOutcome method path other := by
  cases h with
  | @record tier text text' id h h' =>
      obtain ⟨-, hnone, hroute⟩ := parse_of_answer method hpieces (.record tier text)
      obtain ⟨-, hnone', hroute'⟩ := parse_of_answer method hother (.record tier text')
      rw [atAddress_of_spelled method h] at hnone hroute
      rw [atAddress_of_spelled method h'] at hnone' hroute'
      cases hfound : atRecord? id method with
      | none =>
          rw [hfound] at hnone hnone'
          exact .disallowed (hnone rfl) (hnone' rfl)
      | some route =>
          rw [hfound] at hroute hroute'
          exact .route (hroute route rfl) (hroute' route rfl)
  | rearrange hway hway' h h' =>
      by_cases hput : method = .put
      · subst hput
        exact .route (parse_of_row hpieces (.rearrange hway h))
          (parse_of_row hother (.rearrange hway' h'))
      · exact .disallowed (parse_of_disallowed hpieces (.rearrange _ _ hput))
          (parse_of_disallowed hother (.rearrange _ _ hput))

end Lookup

/-- The pieces of the path of a record, in whatever spelling of its identifier. -/
theorem reads_spelled {tier : Tier} {id : Id tier} {text : String} (h : Id.Spells text id) :
    Address.Reads ("/" ++ tier.collection ++ "/" ++ text) [tier.collection, text] := by
  have hcollection : ∀ c ∈ tier.collection.toList, c ≠ '/' ∧ c ≠ '?' ∧ c ≠ '#' := fun c hc =>
    Id.inPiece_of_isPlain (Id.isPlain_of_mem_collection tier c hc)
  have hchars : ("/" ++ tier.collection ++ "/" ++ text).toList =
      '/' :: (tier.collection.toList ++ '/' :: text.toList) := by
    simp
  have hsplit : Address.Split ('/' :: (tier.collection.toList ++ '/' :: text.toList))
      [tier.collection, text] := by
    have htext := Address.Split.piece h.ne_nil (fun c hc => (h.inPiece c hc).1) (by simp) .done
    have hall := Address.Split.piece (by cases tier <;> decide)
      (fun c hc => (hcollection c hc).1) (by simp) (.slash htext)
    simpa using Address.Split.slash hall
  refine ⟨_, ⟨_, ⟨[], (List.append_nil _).symm, ?_, by simp⟩, hchars ▸ hsplit⟩, .all ?_⟩
  · intro c hc
    rw [hchars, List.mem_cons, List.mem_append, List.mem_cons] at hc
    rcases hc with rfl | hc | rfl | hc
    · decide
    · exact (hcollection c hc).2
    · decide
    · exact (h.inPiece c hc).2
  · cases tier <;> simp [Tier.collection]

/-! ## All of it -/

/-- What comes of a path with a method. -/
structure FollowsTable (method : Method) (path : String) : Prop where
  accepted : ∀ route, parse method path = .ok route ↔
    ∃ pieces, Address.Reads path pieces ∧ Row method pieces route
  /-- A token is needed exactly where something may be changed. -/
  guarded : ∀ route, parse method path = .ok route →
    (route.requiresAuth = true ↔ method ≠ .get) ∧ route.requiresAuth = method.isMutation
  malformed : ∀ e, parse method path = .error (.record e) ↔
    ∃ pieces, Address.Reads path pieces ∧ Malformed method pieces e
  disallowed : parse method path = .error (.methodNotAllowed method path) ↔
    ∃ pieces, Address.Reads path pieces ∧ Disallowed method pieces
  nowhere : parse method path = .error (.noRoute method path) ↔
    ∃ pieces, Address.Reads path pieces ∧ ∀ address, ¬ Address.Named pieces address
  /-- Nothing else is ever wrong. -/
  fault : ∀ e, parse method path = .error e →
    (∃ cause, e = .record cause) ∨ e = .methodNotAllowed method path ∨ e = .noRoute method path
  /-- A query or a fragment. -/
  marked : ∀ mark rest, mark = '?' ∨ mark = '#' →
    SameOutcome method path (String.ofList (path.toList ++ mark :: rest))
  /-- A slash in front, behind, or beside another one. -/
  slashed : ∀ before behind, path.toList = before ++ behind → Address.Edge before behind →
    SameOutcome method path (String.ofList (before ++ '/' :: behind))
  /-- A piece `api` in front of a path that has none of its own. -/
  prefixed : (∀ all, Address.Splits path all → all.head? ≠ some "api") →
    SameOutcome method path ("/api/" ++ path)
  /-- Only one such piece is passed over: behind it all pieces count. -/
  prefixed_once : ∀ all, Address.Splits path all → Address.Reads ("/api/" ++ path) all
  /-- Other spellings of the parts that are read. -/
  respelled : ∀ other pieces pieces', Address.Reads path pieces → Address.Reads other pieces' →
    Respelled pieces pieces' → SameOutcome method path other
  spelled : ∀ (tier : Tier) (id : Id tier) (text : String), Id.Spells text id → path = id.path →
    SameOutcome method path ("/" ++ tier.collection ++ "/" ++ text)

/-- The router accepts exactly its table, for every method and every path. -/
theorem parse_follows_table (method : Method) (path : String) : FollowsTable method path := by
  have hprefixed : ∀ all, Address.Splits path all → Address.Reads ("/api/" ++ path) all := by
    intro all hall
    refine ⟨"api" :: all, Address.splits_iff.2 ?_, .behind all⟩
    rw [String.toList_append, Address.split_front_api, Address.splits_iff.1 hall]
  constructor
  case accepted =>
    intro route
    rw [parse_eq_ok_iff, Address.exists_reads_iff]
  case malformed =>
    intro e
    rw [parse_eq_malformed_iff, Address.exists_reads_iff]
  case disallowed => rw [parse_eq_disallowed_iff, Address.exists_reads_iff]
  case nowhere => rw [parse_eq_nowhere_iff, Address.exists_reads_iff]
  case fault => exact fun e => fault_of_parse
  case guarded =>
    intro route h
    have hauth := requiresAuth_of_parse h
    refine ⟨?_, hauth⟩
    rw [hauth]
    cases method <;> decide
  case marked =>
    intro mark rest hmark
    refine sameOutcome_of_pieces method (Address.pieces_of_split_front ?_)
    rw [String.toList_ofList, Address.front_mark hmark]
  case slashed =>
    intro before behind hpath hedge
    refine sameOutcome_of_pieces method (Address.pieces_of_split_front ?_)
    rw [String.toList_ofList, Address.split_front_insert hedge, hpath]
  case prefixed =>
    intro hplain
    have hall : Address.Splits path (Address.split (Address.front path.toList)) :=
      Address.splits_iff.2 rfl
    have hown : Address.Reads path (Address.split (Address.front path.toList)) :=
      ⟨_, hall, .all (hplain _ hall)⟩
    refine sameOutcome_of_pieces method ?_
    rw [Address.reads_iff.1 hown, Address.reads_iff.1 (hprefixed _ hall)]
  case prefixed_once => exact hprefixed
  case respelled =>
    intro other pieces pieces' hpath hother
    exact sameOutcome_of_respelled (Address.reads_iff.1 hpath) (Address.reads_iff.1 hother)
  case spelled =>
    rintro tier id text h rfl
    have hown : Id.Spells id.toString id := Id.parse_eq_ok_iff.1 id.parse_toString
    exact sameOutcome_of_respelled (Address.reads_iff.1 (reads_spelled hown))
      (Address.reads_iff.1 (reads_spelled h)) (.record hown h)

end Route

end MapCatalog
