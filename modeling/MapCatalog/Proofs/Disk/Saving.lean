import MapCatalog.Catalog.File

/-! # Files that are saved -/

namespace MapCatalog

namespace Disk

variable {disk after : Disk} {path : String}

theorem get?_of_create (h : disk.step (.create path) = some after) :
    after.files.get? (Path.place path) = some [] := by
  rw [step] at h
  split at h
  case isTrue =>
    cases h
    exact Table.get?_insert_self _ _ _
  case isFalse => cases h

theorem get?_of_append {bytes content : List UInt8}
    (hcontent : disk.files.get? (Path.place path) = some content)
    (h : disk.step (.append path bytes) = some after) :
    after.files.get? (Path.place path) = some (content ++ bytes) := by
  rw [step, hcontent] at h
  cases h
  exact Table.get?_insert_self _ _ _

theorem eq_of_sync (h : disk.step (.sync path) = some after) : after = disk := by
  rw [step] at h
  split at h <;> cases h
  rfl

/-- A file is moved as it is, to a path that names something. -/
theorem get?_of_rename {target : String} {content : List UInt8}
    (hcontent : disk.files.get? (Path.place path) = some content)
    (h : disk.step (.rename path target) = some after) :
    after.files.get? (Path.place target) = some content ∧ target ≠ "" := by
  rw [step, hcontent] at h
  cases hadmits : disk.admits target with
  | false => simp [hadmits] at h
  | true =>
      simp only [hadmits, if_true, Option.some.injEq] at h
      subst h
      refine ⟨Table.get?_insert_self _ _ _, ?_⟩
      rintro rfl
      have hnames : (Path.place "").names.isEmpty = true := rfl
      simp [admits, hnames] at hadmits

theorem read_of_get? {content : List UInt8} (hpath : path ≠ "")
    (h : disk.files.get? (Path.place path) = some content) : disk.read path = .ok content := by
  simp [read, hpath, h]

theorem present_of_get? {content : List UInt8} (hpath : path ≠ "")
    (h : disk.files.get? (Path.place path) = some content) : disk.present path = true := by
  simp [present, hpath, Table.contains, h]

structure Alike (path : String) (left right : Disk) : Prop where
  read : left.read path = right.read path
  present : left.present path = right.present path

end Disk

namespace Catalog

variable {disk after : Disk}

theorem runSteps_cons {action : FileAction} {name : String} {step : Disk.Step}
    {rest : List (FileAction × String × Disk.Step)}
    (h : runSteps disk ((action, name, step) :: rest) = (.ok (), after)) :
    ∃ next, disk.step step = some next ∧ runSteps next rest = (.ok (), after) := by
  rw [runSteps] at h
  split at h
  case h_1 => cases h
  case h_2 next hstep => exact ⟨next, hstep, h⟩

/-- After all steps of saving, the path holds what was to be saved. -/
theorem get?_of_saved {path : String} {bytes : List UInt8}
    (h : runSteps disk (saveSteps path bytes) = (.ok (), after)) :
    after.files.get? (Path.place path) = some bytes ∧ path ≠ "" := by
  obtain ⟨ready, hwrite⟩ : ∃ ready, runSteps ready
      [(.create, Path.temporary path, .create (Path.temporary path)),
        (.write, Path.temporary path, .append (Path.temporary path) bytes),
        (.sync, Path.temporary path, .sync (Path.temporary path)),
        (.replace, path, .rename (Path.temporary path) path)] = (.ok (), after) := by
    rw [saveSteps] at h
    cases hfolder : Path.folder? path with
    | none =>
        simp only [hfolder] at h
        exact ⟨disk, h⟩
    | some folder =>
        simp only [hfolder] at h
        obtain ⟨ready, -, hrest⟩ := runSteps_cons h
        exact ⟨ready, hrest⟩
  obtain ⟨created, hcreate, hwrite⟩ := runSteps_cons hwrite
  obtain ⟨written, happend, hwrite⟩ := runSteps_cons hwrite
  obtain ⟨synced, hsync, hwrite⟩ := runSteps_cons hwrite
  obtain ⟨renamed, hrename, hdone⟩ := runSteps_cons hwrite
  obtain rfl : renamed = after := congrArg Prod.snd hdone
  obtain rfl := Disk.eq_of_sync hsync
  exact Disk.get?_of_rename (Disk.get?_of_append (Disk.get?_of_create hcreate) happend) hrename

/-- Nothing on a disk stands in the way of saving a file at a path. -/
def Savable (disk : Disk) (path : String) : Prop :=
  ∀ bytes, (runSteps disk (saveSteps path bytes)).1 = .ok ()

theorem exists_saved {path : String} (h : Savable disk path) (bytes : List UInt8) :
    ∃ after, runSteps disk (saveSteps path bytes) = (.ok (), after) ∧
      after.read path = .ok bytes ∧ after.present path = true := by
  obtain ⟨after, hrun⟩ : ∃ after, runSteps disk (saveSteps path bytes) = (.ok (), after) :=
    ⟨_, Prod.ext (h bytes) rfl⟩
  obtain ⟨hget, hpath⟩ := get?_of_saved hrun
  exact ⟨after, hrun, Disk.read_of_get? hpath hget, Disk.present_of_get? hpath hget⟩

end Catalog

end MapCatalog
