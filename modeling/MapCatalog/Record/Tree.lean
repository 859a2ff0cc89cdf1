import MapCatalog.Record.Section
import MapCatalog.Record.Group
import MapCatalog.Record.Layer

/-! # Trees -/

namespace MapCatalog

structure GroupTree where
  group : GroupRecord
  layers : List LayerRecord
deriving DecidableEq, Inhabited

namespace GroupTree

def ownFields : List (Decode.Field (List LayerRecord)) :=
  [.needed "layers" (Decode.list LayerRecord.decode) fun v _ => v]

def decodeMembers (origin : Decode.Origin) (entries : Reading.Members) :
    Except DecodeError GroupTree := do
  let (layers, aside) ← Decode.members ownFields [] .kept origin entries
  let group ← GroupRecord.decodeMembers .tree aside
  return ⟨group, layers⟩

def decode : Decoder GroupTree
  | origin, .object entries => decodeMembers origin entries
  | _, _ => .error .invalidValue

def toMembers (tree : GroupTree) : Json.Members :=
  tree.group.toMembers ++ [("layers", .array (tree.layers.map LayerRecord.toJson))]

def toJson (tree : GroupTree) : Json :=
  .object tree.toMembers

end GroupTree

structure SectionTree where
  head : SectionRecord
  groups : List GroupTree
deriving DecidableEq, Inhabited

namespace SectionTree

def ownFields : List (Decode.Field (List GroupTree)) :=
  [.needed "layerGroups" (Decode.list GroupTree.decode) fun v _ => v]

def decodeMembers (origin : Decode.Origin) (entries : Reading.Members) :
    Except DecodeError SectionTree := do
  let (groups, aside) ← Decode.members ownFields [] .kept origin entries
  let head ← SectionRecord.decodeMembers .tree aside
  return ⟨head, groups⟩

def decode : Decoder SectionTree
  | origin, .object entries => decodeMembers origin entries
  | _, _ => .error .invalidValue

def toMembers (tree : SectionTree) : Json.Members :=
  tree.head.toMembers ++ [("layerGroups", .array (tree.groups.map GroupTree.toJson))]

def toJson (tree : SectionTree) : Json :=
  .object tree.toMembers

def layerCount (tree : SectionTree) : Nat :=
  (tree.groups.flatMap GroupTree.layers).length

end SectionTree

/-- The whole catalogue, with the version of its written form. -/
structure Snapshot where
  version : UInt32
  sections : List SectionTree
deriving DecidableEq, Inhabited

namespace Snapshot

def currentVersion : UInt32 :=
  1

def current (sections : List SectionTree) : Snapshot :=
  ⟨currentVersion, sections⟩

def fields : List (Decode.Field Snapshot) :=
  [.needed "version" Decode.word32 fun v s => { s with version := v },
   .needed "layerSections" (Decode.list SectionTree.decode) fun v s => { s with sections := v }]

def decode : Decoder Snapshot :=
  Decode.record fields default

def toMembers (snapshot : Snapshot) : Json.Members :=
  [("version", .ofNat snapshot.version.toNat),
   ("layerSections", .array (snapshot.sections.map SectionTree.toJson))]

def toJson (snapshot : Snapshot) : Json :=
  .object snapshot.toMembers

end Snapshot

end MapCatalog
