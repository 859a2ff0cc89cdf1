import MapCatalog.Proofs.Catalog.Cameras
import MapCatalog.Proofs.Catalog.Reloading
import MapCatalog.Proofs.Disk.Saving
import MapCatalog.Proofs.Record.Finite
import MapCatalog.Proofs.Record.Legibility

/-! # Catalogues that are saved and opened again -/

namespace MapCatalog

namespace Catalog

variable {c : Catalog} {disk : Disk} {path : String}

/-- Every finite number of a stored camera is printed so that it reads back. -/
def PrintsExactly (c : Catalog) : Prop :=
  ∀ camera ∈ c.snapshot.cameras, ∀ x ∈ camera.numbers, x.isFinite = true →
    (Json.Number.float x).ReadsBack

theorem openFile_congr {other : Disk} (h : Disk.Alike path disk other) :
    openFile disk path = openFile other path := by
  rw [openFile, openFile, load, load, h.read, h.present]

/-- What is opened is the empty catalogue, or the one in the file. -/
theorem openFile_eq_ok (h : openFile disk path = .ok c) :
    c = empty ∨ ∃ bytes snapshot, disk.read path = .ok bytes ∧
      Snapshot.ofBytes bytes = .ok snapshot ∧ ofSnapshot snapshot = .ok c := by
  unfold openFile load at h
  split at h
  case isFalse =>
    cases h
    exact .inl rfl
  case isTrue =>
    split at h
    case h_1 => cases h
    case h_2 bytes hread =>
      split at h
      case h_1 => cases h
      case h_2 snapshot hbytes =>
        split at h
        case h_1 => cases h
        case h_2 found hload =>
          cases h
          exact .inr ⟨bytes, snapshot, hread, hbytes, hload⟩

theorem initial_of_openFile (h : openFile disk path = .ok c) : Initial c := by
  rcases openFile_eq_ok h with hempty | ⟨bytes, snapshot, -, -, hload⟩
  · exact .inl hempty
  · exact .inr ⟨snapshot, hload⟩

theorem finite_of_openFile (h : openFile disk path = .ok c) : AllCameras Camera.Finite c := by
  rcases openFile_eq_ok h with rfl | ⟨bytes, snapshot, -, hbytes, hload⟩
  · exact .of_empty
  · exact .of_ofSnapshot (Snapshot.finite_of_ofBytes hbytes) hload

theorem openFile_of_read {snapshot : Snapshot} {bytes : List UInt8}
    (hpresent : disk.present path = true) (hread : disk.read path = .ok bytes)
    (hbytes : Snapshot.ofBytes bytes = .ok snapshot) (hload : ofSnapshot snapshot = .ok c) :
    openFile disk path = .ok c := by
  simp only [openFile, hpresent, if_true, load, hread, hbytes, hload]

/-- Whatever is saved is a snapshot again, from which nothing but revisions is missing. -/
theorem exists_restored (hwell : WellFormed c) (hfinite : AllCameras Camera.Finite c)
    (hprints : c.PrintsExactly) (hsavable : Savable disk path) :
    ∃ after loaded, c.save path disk = (.ok (), after) ∧ after.read path = .ok c.snapshot.bytes ∧
      Snapshot.ofBytes c.snapshot.bytes = .ok c.snapshot ∧ ofSnapshot c.snapshot = .ok loaded ∧
      openFile after path = .ok loaded ∧ Alike c loaded := by
  have hlegible : ∀ camera ∈ c.snapshot.cameras, camera.Legible := by
    intro camera hcamera x hx
    exact hprints camera hcamera x hx (hfinite.snapshot camera hcamera x hx)
  have hbytes : Snapshot.ofBytes c.snapshot.bytes = .ok c.snapshot :=
    Snapshot.ofBytes_bytes UInt32.le_rfl hfinite.snapshot hlegible
  obtain ⟨loaded, hload, halike⟩ := hwell.exists_reloaded
  obtain ⟨after, hsave, hread, hpresent⟩ := exists_saved hsavable c.snapshot.bytes
  exact ⟨after, loaded, hsave, hread, hbytes, hload,
    openFile_of_read hpresent hread hbytes hload, halike⟩

/-- Whatever is saved can be opened again, and nothing but revisions is lost. -/
theorem exists_reopened (hwell : WellFormed c) (hfinite : AllCameras Camera.Finite c)
    (hprints : c.PrintsExactly) (hsavable : Savable disk path) :
    ∃ after loaded, c.save path disk = (.ok (), after) ∧ openFile after path = .ok loaded ∧
      Alike c loaded := by
  obtain ⟨after, loaded, hsave, -, -, -, hopen, halike⟩ :=
    exists_restored hwell hfinite hprints hsavable
  exact ⟨after, loaded, hsave, hopen, halike⟩

end Catalog

end MapCatalog
