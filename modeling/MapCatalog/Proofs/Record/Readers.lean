import MapCatalog.Editor.LayerForm
import MapCatalog.Proofs.Record.Members
import MapCatalog.Record.Tree

/-! # What records read

The fields of a record change different parts of it, so the record is decoded from its members in any order.  The
members of parts are read from a tree in any case, since they were set aside.
-/

namespace MapCatalog

open Decode (Reader ReadsOnly)

/-! ## Records without parts -/

namespace Camera

theorem fields_apart : fields.Pairwise Decode.Field.Apart := by
  simp only [fields, List.pairwise_cons, List.forall_mem_cons, List.not_mem_nil,
    IsEmpty.forall_iff, implies_true, List.Pairwise.nil, and_true]
  and_intros <;> exact Decode.Field.apart (by intros; rfl)

end Camera

namespace StyleForm

theorem fields_apart : fields.Pairwise Decode.Field.Apart := by
  simp only [fields, List.pairwise_cons, List.forall_mem_cons, List.not_mem_nil,
    IsEmpty.forall_iff, implies_true, List.Pairwise.nil, and_true]
  and_intros <;> exact Decode.Field.apart (by intros; rfl)

end StyleForm

theorem HoverRow.fields_apart : fields.Pairwise Decode.Field.Apart :=
  List.pairwise_pair.2 (Decode.Field.apart (by intros; rfl))

theorem Breakpoint.fields_apart : fields.Pairwise Decode.Field.Apart :=
  List.pairwise_pair.2 (Decode.Field.apart (by intros; rfl))

theorem Snapshot.fields_apart : fields.Pairwise Decode.Field.Apart :=
  List.pairwise_pair.2 (Decode.Field.apart (by intros; rfl))

theorem SectionFields.fields_apart : fields.Pairwise Decode.Field.Apart :=
  List.pairwise_singleton _ _

/-! ## Layers -/

namespace LayerFields

theorem ownFields_apart : ownFields.Pairwise Decode.Field.Apart := by
  simp only [ownFields, List.pairwise_cons, List.forall_mem_cons, List.not_mem_nil,
    IsEmpty.forall_iff, implies_true, List.Pairwise.nil, and_true]
  and_intros <;> exact Decode.Field.apart (by intros; rfl)

def readers (origin : Decode.Origin) : List Reader :=
  Decode.fieldReaders ownFields origin ++ Decode.fieldReaders Camera.fields .tree

theorem readsOnly (origin : Decode.Origin) : ReadsOnly (readers origin) (decodeMembers origin) :=
  .members_bind ownFields_apart fun fields =>
    (ReadsOnly.part Camera.fields_apart default).bind_pure fun camera =>
      { fields with camera := camera }

end LayerFields

namespace LayerRecord

theorem ownFields_apart : ownFields.Pairwise Decode.Field.Apart := by
  simp only [ownFields, List.pairwise_cons, List.forall_mem_cons, List.not_mem_nil,
    IsEmpty.forall_iff, implies_true, List.Pairwise.nil, and_true]
  and_intros <;> exact Decode.Field.apart (by intros; rfl)

def readers (origin : Decode.Origin) : List Reader :=
  Decode.fieldReaders ownFields origin ++ LayerFields.readers .tree

theorem readsOnly (origin : Decode.Origin) : ReadsOnly (readers origin) (decodeMembers origin) :=
  .members_bind ownFields_apart fun layer =>
    (LayerFields.readsOnly .tree).bind_pure fun fields => { layer with fields := fields }

end LayerRecord

namespace LayerForm

theorem ownFields_apart : ownFields.Pairwise Decode.Field.Apart := by
  simp only [ownFields, List.pairwise_cons, List.forall_mem_cons, List.not_mem_nil,
    IsEmpty.forall_iff, implies_true, List.Pairwise.nil, and_true]
  and_intros <;> exact Decode.Field.apart (by intros; rfl)

def readers (origin : Decode.Origin) : List Reader :=
  Decode.fieldReaders ownFields origin ++
    (Decode.fieldReaders Camera.fields .tree ++ Decode.fieldReaders StyleForm.fields .tree)

theorem readsOnly (origin : Decode.Origin) : ReadsOnly (readers origin) (decodeMembers origin) :=
  .members_bind ownFields_apart fun form =>
    (ReadsOnly.part Camera.fields_apart default).bind fun camera =>
      (ReadsOnly.part StyleForm.fields_apart StyleForm.standard).bind_pure fun style =>
        { form with camera := camera, style := style }

end LayerForm

/-! ## Groups -/

namespace GroupFields

theorem ownFields_apart : ownFields.Pairwise Decode.Field.Apart := by
  simp only [ownFields, List.pairwise_cons, List.forall_mem_cons, List.not_mem_nil,
    IsEmpty.forall_iff, implies_true, List.Pairwise.nil, and_true]
  and_intros <;> exact Decode.Field.apart (by intros; rfl)

def readers (origin : Decode.Origin) : List Reader :=
  Decode.fieldReaders ownFields origin ++ Decode.fieldReaders Camera.fields .tree

theorem readsOnly (origin : Decode.Origin) : ReadsOnly (readers origin) (decodeMembers origin) :=
  .members_bind ownFields_apart fun fields =>
    (ReadsOnly.part Camera.fields_apart default).bind_pure fun camera =>
      { fields with camera := camera }

end GroupFields

namespace GroupRecord

theorem ownFields_apart : ownFields.Pairwise Decode.Field.Apart :=
  List.pairwise_singleton _ _

def readers (origin : Decode.Origin) : List Reader :=
  Decode.fieldReaders ownFields origin ++ GroupFields.readers .tree

theorem readsOnly (origin : Decode.Origin) : ReadsOnly (readers origin) (decodeMembers origin) :=
  .members_bind ownFields_apart fun id => (GroupFields.readsOnly .tree).bind_pure (GroupRecord.mk id)

end GroupRecord

namespace GroupTree

theorem ownFields_apart : ownFields.Pairwise Decode.Field.Apart :=
  List.pairwise_singleton _ _

def readers (origin : Decode.Origin) : List Reader :=
  Decode.fieldReaders ownFields origin ++ GroupRecord.readers .tree

theorem readsOnly (origin : Decode.Origin) : ReadsOnly (readers origin) (decodeMembers origin) :=
  .members_bind ownFields_apart fun layers =>
    (GroupRecord.readsOnly .tree).bind_pure fun group => GroupTree.mk group layers

end GroupTree

/-! ## Sections -/

namespace SectionRecord

theorem ownFields_apart : ownFields.Pairwise Decode.Field.Apart :=
  List.pairwise_singleton _ _

def readers (origin : Decode.Origin) : List Reader :=
  Decode.fieldReaders ownFields origin ++ Decode.fieldReaders SectionFields.fields .tree

theorem readsOnly (origin : Decode.Origin) : ReadsOnly (readers origin) (decodeMembers origin) :=
  .members_bind ownFields_apart fun id =>
    (ReadsOnly.part SectionFields.fields_apart default).bind_pure (SectionRecord.mk id)

end SectionRecord

namespace SectionTree

theorem ownFields_apart : ownFields.Pairwise Decode.Field.Apart :=
  List.pairwise_singleton _ _

def readers (origin : Decode.Origin) : List Reader :=
  Decode.fieldReaders ownFields origin ++ SectionRecord.readers .tree

theorem readsOnly (origin : Decode.Origin) : ReadsOnly (readers origin) (decodeMembers origin) :=
  .members_bind ownFields_apart fun groups =>
    (SectionRecord.readsOnly .tree).bind_pure fun head => SectionTree.mk head groups

end SectionTree

end MapCatalog
