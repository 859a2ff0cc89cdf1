import MapCatalog.Catalog.Edit
import MapCatalog.Text.Case

/-! # Moving layers -/

namespace MapCatalog

inductive Direction where
  | up
  | down
deriving DecidableEq

namespace Direction

def name : Direction → String
  | .up => "Up"
  | .down => "Down"

def parse (text : String) : Except RecordError Direction :=
  if Text.sameLetters text "up" then .ok .up
  else if Text.sameLetters text "down" then .ok .down
  else .error (.unknownDirection text)

end Direction

inductive Moved where
  | moved (source target : UInt32) (revision : Nat)
  /-- The layer is at the edge already. -/
  | unchanged (place : UInt32) (revision : Nat)
deriving DecidableEq

namespace Moved

def changed : Moved → Bool
  | .moved _ _ _ => true
  | .unchanged _ _ => false

def source : Moved → UInt32
  | .moved source _ _ => source
  | .unchanged place _ => place

def target : Moved → UInt32
  | .moved _ target _ => target
  | .unchanged place _ => place

def revision : Moved → Nat
  | .moved _ _ revision => revision
  | .unchanged _ revision => revision

end Moved

namespace Catalog

/-- Exchange the elements at a position and behind it. -/
def exchange {α : Type} : Nat → List α → List α
  | 0, a :: b :: rest => b :: a :: rest
  | position + 1, a :: rest => a :: exchange position rest
  | _, other => other

theorem exchange_perm {α : Type} (position : Nat) (xs : List α) :
    (exchange position xs).Perm xs := by
  induction xs generalizing position with
  | nil =>
      cases position <;> simp [exchange]
  | cons x rest ih =>
      cases position with
      | zero =>
          cases rest with
          | nil =>
              simp [exchange]
          | cons y rest =>
              exact List.Perm.swap x y rest
      | succ position =>
          exact (ih position).cons x

/-- The position that a layer moves to, in a list of some length. -/
def neighbour? (direction : Direction) (position length : Nat) : Option Nat :=
  match direction with
  | .up => if 0 < position then some (position - 1) else none
  | .down => if position + 1 < length then some (position + 1) else none

/-- Move a layer, if the revision of its group is the expected one. -/
def moveLayer (c : Catalog) (id : LayerId) (direction : Direction) (expected : Option Nat) :
    Edit Moved :=
  match c.layers.get? id with
  | none => .error (.notFound .layers id)
  | some entry =>
      match c.groups.get? entry.group with
      | none => .error (.notFound .groups entry.group)
      | some group =>
          if expected.getD group.revision ≠ group.revision then
            .error (.conflict entry.group (expected.getD group.revision) group.revision)
          else
            match position? id group.layers with
            | none => .error (.notFound .layers id)
            | some position =>
                match neighbour? direction position group.layers.length with
                | none => .ok (.unchanged (place position) group.revision, c)
                | some neighbour =>
                    .ok (.moved (place position) (place neighbour) (group.revision + 1),
                      { c with
                        groups := c.groups.insert entry.group
                          { group with
                            layers := exchange (min position neighbour) group.layers
                            revision := group.revision + 1 } })

end Catalog

end MapCatalog
