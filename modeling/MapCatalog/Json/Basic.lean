import MapCatalog.Binary64.Basic

/-! # Documents

In normal form the members of an object are sorted by key and no key occurs twice; of two members with one key the
later counts.
-/

namespace MapCatalog

inductive Json.Number where
  | whole (n : Int)
  | float (x : Binary64)
deriving DecidableEq

inductive Json where
  | null
  | bool (flag : Bool)
  | number (value : Json.Number)
  | text (value : String)
  | array (items : List Json)
  | object (members : List (String × Json))
deriving Inhabited

namespace Json

abbrev Members :=
  List (String × Json)

mutual

def decEq : (left right : Json) → Decidable (left = right)
  | .null, .null => isTrue rfl
  | .bool a, .bool b =>
      if h : a = b then isTrue (by rw [h]) else isFalse (fun e => h (by injection e))
  | .number a, .number b =>
      if h : a = b then isTrue (by rw [h]) else isFalse (fun e => h (by injection e))
  | .text a, .text b =>
      if h : a = b then isTrue (by rw [h]) else isFalse (fun e => h (by injection e))
  | .array a, .array b =>
      match decEqItems a b with
      | isTrue h => isTrue (by rw [h])
      | isFalse h => isFalse (fun e => h (by injection e))
  | .object a, .object b =>
      match decEqMembers a b with
      | isTrue h => isTrue (by rw [h])
      | isFalse h => isFalse (fun e => h (by injection e))
  | .null, .bool _ => isFalse nofun
  | .null, .number _ => isFalse nofun
  | .null, .text _ => isFalse nofun
  | .null, .array _ => isFalse nofun
  | .null, .object _ => isFalse nofun
  | .bool _, .null => isFalse nofun
  | .bool _, .number _ => isFalse nofun
  | .bool _, .text _ => isFalse nofun
  | .bool _, .array _ => isFalse nofun
  | .bool _, .object _ => isFalse nofun
  | .number _, .null => isFalse nofun
  | .number _, .bool _ => isFalse nofun
  | .number _, .text _ => isFalse nofun
  | .number _, .array _ => isFalse nofun
  | .number _, .object _ => isFalse nofun
  | .text _, .null => isFalse nofun
  | .text _, .bool _ => isFalse nofun
  | .text _, .number _ => isFalse nofun
  | .text _, .array _ => isFalse nofun
  | .text _, .object _ => isFalse nofun
  | .array _, .null => isFalse nofun
  | .array _, .bool _ => isFalse nofun
  | .array _, .number _ => isFalse nofun
  | .array _, .text _ => isFalse nofun
  | .array _, .object _ => isFalse nofun
  | .object _, .null => isFalse nofun
  | .object _, .bool _ => isFalse nofun
  | .object _, .number _ => isFalse nofun
  | .object _, .text _ => isFalse nofun
  | .object _, .array _ => isFalse nofun

def decEqItems : (left right : List Json) → Decidable (left = right)
  | [], [] => isTrue rfl
  | [], _ :: _ => isFalse nofun
  | _ :: _, [] => isFalse nofun
  | a :: as, b :: bs =>
      match decEq a b, decEqItems as bs with
      | isTrue h, isTrue hs => isTrue (by rw [h, hs])
      | isFalse h, _ => isFalse (fun e => h (by injection e))
      | _, isFalse hs => isFalse (fun e => hs (by injection e))

def decEqMembers : (left right : List (String × Json)) → Decidable (left = right)
  | [], [] => isTrue rfl
  | [], _ :: _ => isFalse nofun
  | _ :: _, [] => isFalse nofun
  | (k, a) :: as, (l, b) :: bs =>
      if hk : k = l then
        match decEq a b, decEqMembers as bs with
        | isTrue h, isTrue hs => isTrue (by rw [hk, h, hs])
        | isFalse h, _ => isFalse (fun e => h (by injection e with e _; injection e))
        | _, isFalse hs => isFalse (fun e => hs (by injection e))
      else
        isFalse (fun e => hk (by injection e with e _; injection e))

end

instance : DecidableEq Json :=
  decEq

/-! ## Normal form -/

/-- Put a member at its place among sorted ones, unless its key is there already. -/
def insertIfAbsent (key : String) (value : Json) : Members → Members
  | [] => [(key, value)]
  | (k, v) :: rest =>
      if key < k then (key, value) :: (k, v) :: rest
      else if key = k then (k, v) :: rest
      else (k, v) :: insertIfAbsent key value rest

mutual

/-- Sort the members of every object by key, keeping the last of those that share a key. -/
def normalize : Json → Json
  | .null => .null
  | .bool flag => .bool flag
  | .number value => .number value
  | .text value => .text value
  | .array items => .array (normalizeItems items)
  | .object members => .object (normalizeMembers members)

def normalizeItems : List Json → List Json
  | [] => []
  | item :: rest => normalize item :: normalizeItems rest

def normalizeMembers : List (String × Json) → List (String × Json)
  | [] => []
  | (key, value) :: rest => insertIfAbsent key (normalize value) (normalizeMembers rest)

end

theorem normalizeItems_eq_map (items : List Json) :
    normalizeItems items = items.map normalize := by
  induction items with
  | nil =>
      simp [normalizeItems]
  | cons item rest ih =>
      simp [normalizeItems, ih]

/-- The value of a key, the first one where several members have it. -/
def member? (members : Members) (key : String) : Option Json :=
  (members.find? fun entry => entry.1 == key).map Prod.snd

/-! ## Numbers -/

/-- Infinities and NaN have no written form and become null. -/
def ofFloat (x : Binary64) : Json :=
  if x.isFinite then .number (.float x) else .null

def ofNat (n : Nat) : Json :=
  .number (.whole n)

def ofInt (n : Int) : Json :=
  .number (.whole n)

end Json

end MapCatalog
