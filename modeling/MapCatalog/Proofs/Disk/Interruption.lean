import MapCatalog.Proofs.Disk.Saving
import MapCatalog.Proofs.Disk.Temporary

/-! # Saving that stops on its way

A step can stop before its end: after some of the folders, or after some of the bytes.  No step in front of the last
touches the place of the snapshot, and the last is done in one piece.
-/

namespace MapCatalog

theorem Table.mem_keys_insert {κ α : Type} [DecidableEq κ] {table : Table κ α} {key other : κ}
    {value : α} : other ∈ (table.insert key value).keys ↔ key = other ∨ other ∈ table.keys := by
  by_cases h : key = other <;> simp [mem_keys_iff, get?_insert, h]

namespace Disk

/-! ## Places that have nothing to do with each other -/

theorem within_iff {folder place : Path.Place} :
    within folder place = true ↔
      folder.absolute = place.absolute ∧ folder.names <+: place.names := by
  simp [within]

/-- Neither of two places is the other or lies below it. -/
structure Apart (place other : Path.Place) : Prop where
  above : within place other = false
  below : within other place = false

theorem Apart.ne {place other : Path.Place} (h : Apart place other) : other ≠ place := by
  rintro rfl
  have hself : within other other = true := within_iff.2 ⟨rfl, List.prefix_refl _⟩
  exact Bool.false_ne_true (h.above.symm.trans hself)

theorem apart_of_names {absolute : Bool} {folder : List String} {name other : String}
    (h : name ≠ other) : Apart ⟨absolute, folder ++ [name]⟩ ⟨absolute, folder ++ [other]⟩ := by
  have hbeside {name other : String} (h : name ≠ other) :
      within ⟨absolute, folder ++ [name]⟩ ⟨absolute, folder ++ [other]⟩ = false := by
    rw [Bool.eq_false_iff, ne_eq, within_iff]
    rintro ⟨-, hnames⟩
    have heq := hnames.eq_of_length (by simp)
    exact h (List.singleton_inj.1 (List.append_cancel_left heq))
  exact ⟨hbeside h, hbeside h.symm⟩

theorem within_of_mem_ancestors {place other : Path.Place} (h : other ∈ ancestors place) :
    within other place = true := by
  obtain ⟨count, -, rfl⟩ := List.mem_map.1 h
  exact within_iff.2 ⟨rfl, List.take_prefix count place.names⟩

/-- Two disks agree about a place: about the file there, the folder there and the way to it. -/
structure SameAt (place : Path.Place) (disk other : Disk) : Prop where
  get? : other.files.get? place = disk.files.get? place
  isFolder : other.isFolder place = disk.isFolder place
  isBlocked : other.isBlocked place = disk.isBlocked place

variable {place : Path.Place} {disk after : Disk}

theorem SameAt.refl (place : Path.Place) (disk : Disk) : SameAt place disk disk :=
  ⟨rfl, rfl, rfl⟩

theorem SameAt.trans {next : Disk} (h : SameAt place disk next) (h' : SameAt place next after) :
    SameAt place disk after :=
  ⟨h'.get?.trans h.get?, h'.isFolder.trans h.isFolder, h'.isBlocked.trans h.isBlocked⟩

theorem SameAt.alike {path : String} (h : SameAt (Path.place path) disk after) :
    Alike path after disk := by
  constructor
  · simp only [read, h.get?, h.isFolder, h.isBlocked]
  · simp only [present, Table.contains, h.get?, h.isFolder]

/-- A file that is put somewhere else makes no difference at a place. -/
theorem sameAt_insert {other : Path.Place} (hapart : Apart place other) (content : List UInt8) :
    SameAt place disk { disk with files := disk.files.insert other content } := by
  have hget : (disk.files.insert other content).get? place = disk.files.get? place := by
    rw [Table.get?_insert, if_neg hapart.ne]
  refine ⟨hget, ?_, ?_⟩
  · have hbelow : ((disk.files.insert other content).keys ++ disk.folders).any (within place) =
        (disk.files.keys ++ disk.folders).any (within place) := by
      rw [Bool.eq_iff_iff]
      simp [Table.mem_keys_insert, or_and_right, exists_or, hapart.above]
    simp only [isFolder, Table.contains, hget, hbelow]
  · rw [isBlocked, isBlocked, Bool.eq_iff_iff, List.any_eq_true, List.any_eq_true]
    refine exists_congr fun passed => and_congr_right fun hpassed => ?_
    have hne : other ≠ passed := by
      rintro rfl
      exact Bool.false_ne_true (hapart.below.symm.trans (within_of_mem_ancestors hpassed))
    simp [Table.contains_insert, hne]

/-- So does a folder that is made and is not the place or below it. -/
theorem sameAt_makeFolder {folder : Path.Place} (h : within place folder = false) :
    SameAt place disk { disk with folders := folder :: disk.folders } := by
  refine ⟨rfl, ?_, rfl⟩
  simp [isFolder, h]

/-! ## Steps that stop -/

/-- The disks that a step may leave when it stops before its end. -/
inductive Leaves (disk : Disk) : Step → Disk → Prop where
  | nothing (step : Step) : Leaves disk step disk
  /-- Only some of the folders on the way were made. -/
  | folders (path : String) (count : Nat) :
      Leaves disk (.makeFolder path)
        { disk with folders :=
            ⟨(Path.place path).absolute, (Path.place path).names.take count⟩ :: disk.folders }
  /-- Only some of the bytes were appended. -/
  | bytes {path : String} {bytes content part : List UInt8}
      (file : disk.files.get? (Path.place path) = some content) (begins : part <+: bytes) :
      Leaves disk (.append path bytes)
        { disk with files := disk.files.insert (Path.place path) (content ++ part) }

/-- Whether a step writes neither at a place, nor below it, nor on the way to it. -/
def Step.KeepsOff (place : Path.Place) : Step → Prop
  | .makeFolder path => within place (Path.place path) = false
  | .create path | .append path _ => Apart place (Path.place path)
  | .sync _ => True
  | .rename _ _ => False

theorem sameAt_of_leaves {step : Step} (hoff : step.KeepsOff place) (h : disk.Leaves step after) :
    SameAt place disk after := by
  cases h with
  | nothing => exact .refl place disk
  | folders path count =>
      refine sameAt_makeFolder ?_
      rw [Bool.eq_false_iff, ne_eq, within_iff]
      rintro ⟨habsolute, hnames⟩
      have hwithin : within place (Path.place path) = true :=
        within_iff.2 ⟨habsolute, hnames.trans <| List.take_prefix count _⟩
      exact Bool.false_ne_true (Eq.trans (Eq.symm hoff) hwithin)
  | bytes file => exact sameAt_insert hoff _

theorem sameAt_of_step {step : Step} (hoff : step.KeepsOff place)
    (h : disk.step step = some after) : SameAt place disk after := by
  cases step with
  | makeFolder path =>
      simp only [Disk.step] at h
      split at h <;> cases h
      exact sameAt_makeFolder hoff
  | create path =>
      simp only [Disk.step] at h
      split at h <;> cases h
      exact sameAt_insert hoff _
  | append path bytes =>
      simp only [Disk.step] at h
      split at h <;> cases h
      exact sameAt_insert hoff _
  | sync path =>
      rw [eq_of_sync h]
      exact .refl place disk
  | rename source target => exact hoff.elim

/-- What is moved to another place is no longer where it was. -/
theorem contains_of_rename {source target : String} (hne : Path.place target ≠ Path.place source)
    (h : disk.step (.rename source target) = some after) :
    after.files.contains (Path.place source) = false := by
  simp only [step] at h
  split at h
  case h_1 => cases h
  case h_2 =>
    split at h <;> cases h
    simp [Table.contains_insert, Table.contains_erase, hne]

end Disk

namespace Path

theorem not_within_folder? {path made : String} {folder name : List Char}
    (h : splitName? path = some (folder, name)) (hmade : folder? path = some made) :
    Disk.within (place path) (place made) = false := by
  rw [Bool.eq_false_iff, ne_eq, Disk.within_iff, (endsIn_of_splitName? h).place]
  rintro ⟨-, hnames⟩
  have hlength : (namesOf folder ++ [String.ofList name]).length ≤ (namesOf folder).length :=
    names_of_folder? h hmade ▸ hnames.length_le
  rw [List.length_append, List.length_singleton] at hlength
  omega

theorem apart_temporary {path : String} {folder name : List Char}
    (h : splitName? path = some (folder, name)) :
    Disk.Apart (place path) (place (temporary path)) := by
  rw [(endsIn_of_splitName? h).place, (endsIn_temporary h).place]
  refine Disk.apart_of_names fun heq => ?_
  exact stem_append_ne name (String.ofList_injective heq).symm

end Path

namespace Catalog

variable {disk after : Disk} {path : String} {bytes : List UInt8}
  {steps first second : List (FileAction × String × Disk.Step)}

/-! ## Runs that stop -/

/-- The disks that steps may leave: all were done, or one of them stopped when those before it were done. -/
inductive StopsAt : Disk → List (FileAction × String × Disk.Step) → Disk → Prop where
  | done (disk : Disk) : StopsAt disk [] disk
  | during {disk after : Disk} {action : FileAction} {name : String} {step : Disk.Step}
      {rest : List (FileAction × String × Disk.Step)} (h : disk.Leaves step after) :
      StopsAt disk ((action, name, step) :: rest) after
  | behind {disk next after : Disk} {action : FileAction} {name : String} {step : Disk.Step}
      {rest : List (FileAction × String × Disk.Step)} (h : disk.step step = some next)
      (later : StopsAt next rest after) : StopsAt disk ((action, name, step) :: rest) after

theorem stopsAt_runSteps (disk : Disk) (steps : List (FileAction × String × Disk.Step)) :
    StopsAt disk steps (runSteps disk steps).2 := by
  induction steps generalizing disk with
  | nil => exact .done disk
  | cons entry rest ih =>
      obtain ⟨action, name, step⟩ := entry
      rw [runSteps]
      split
      next hfails => exact .during (.nothing step)
      next next hstep => exact .behind hstep (ih next)

/-- Steps that keep off a place make no difference there, wherever they stop. -/
theorem sameAt_of_stopsAt {place : Path.Place} (h : StopsAt disk steps after)
    (hoff : ∀ entry ∈ steps, entry.2.2.KeepsOff place) : Disk.SameAt place disk after := by
  induction h with
  | done => exact .refl place _
  | during hleaves => exact Disk.sameAt_of_leaves (hoff _ List.mem_cons_self) hleaves
  | behind hstep _ ih =>
      have hnext := Disk.sameAt_of_step (hoff _ List.mem_cons_self) hstep
      exact hnext.trans (ih fun entry hentry => hoff entry (List.mem_cons_of_mem _ hentry))

theorem runSteps_cons_iff {action : FileAction} {name : String} {step : Disk.Step} :
    runSteps disk ((action, name, step) :: steps) = (.ok (), after) ↔
      ∃ next, disk.step step = some next ∧ runSteps next steps = (.ok (), after) := by
  refine ⟨runSteps_cons, ?_⟩
  rintro ⟨next, hstep, hrest⟩
  rw [runSteps, hstep]
  exact hrest

/-- Steps are done in one run exactly when they are done in two. -/
theorem runSteps_append_iff :
    runSteps disk (first ++ second) = (.ok (), after) ↔
      ∃ next, runSteps disk first = (.ok (), next) ∧ runSteps next second = (.ok (), after) := by
  induction first generalizing disk with
  | nil => simp [runSteps]
  | cons entry first ih =>
      obtain ⟨action, name, step⟩ := entry
      simp only [List.cons_append, runSteps_cons_iff, ih]
      constructor
      · rintro ⟨middle, hstep, next, hfirst, hsecond⟩
        exact ⟨next, ⟨middle, hstep, hfirst⟩, hsecond⟩
      · rintro ⟨next, ⟨middle, hstep, hfirst⟩, hsecond⟩
        exact ⟨middle, hstep, next, hfirst, hsecond⟩

theorem stopsAt_append (h : StopsAt disk (first ++ second) after) :
    StopsAt disk first after ∨
      ∃ next, runSteps disk first = (.ok (), next) ∧ StopsAt next second after := by
  induction first generalizing disk with
  | nil => exact .inr ⟨disk, rfl, h⟩
  | cons entry first ih =>
      cases h with
      | during hleaves => exact .inl (.during hleaves)
      | behind hstep hlater =>
          rcases ih hlater with hfirst | ⟨next, hrun, hsecond⟩
          · exact .inl (.behind hstep hfirst)
          · exact .inr ⟨next, runSteps_cons_iff.2 ⟨_, hstep, hrun⟩, hsecond⟩

/-! ## Saving -/

def preparation (path : String) (bytes : List UInt8) : List (FileAction × String × Disk.Step) :=
  (saveSteps path bytes).dropLast

theorem saveSteps_eq (path : String) (bytes : List UInt8) :
    saveSteps path bytes =
      preparation path bytes ++ [(.replace, path, .rename (Path.temporary path) path)] := by
  rw [preparation, saveSteps]
  cases Path.folder? path <;> rfl

theorem keepsOff_preparation {folder name : List Char}
    (h : Path.splitName? path = some (folder, name)) :
    ∀ entry ∈ preparation path bytes, entry.2.2.KeepsOff (Path.place path) := by
  have hapart := Path.apart_temporary h
  rw [preparation, saveSteps]
  cases hfolder : Path.folder? path with
  | none => simpa [Disk.Step.KeepsOff] using hapart
  | some made =>
      have hmade := Path.not_within_folder? h hfolder
      simpa [Disk.Step.KeepsOff] using ⟨hmade, hapart⟩

theorem read_of_saved (h : runSteps disk (saveSteps path bytes) = (.ok (), after)) :
    after.read path = .ok bytes := by
  obtain ⟨hget, hpath⟩ := get?_of_saved h
  exact Disk.read_of_get? hpath hget

theorem contains_of_saved (hne : Path.place (Path.temporary path) ≠ Path.place path)
    (h : runSteps disk (saveSteps path bytes) = (.ok (), after)) :
    after.files.contains (Path.place (Path.temporary path)) = false := by
  rw [saveSteps_eq] at h
  obtain ⟨next, -, hlast⟩ := runSteps_append_iff.1 h
  obtain ⟨moved, hstep, hdone⟩ := runSteps_cons hlast
  cases hdone
  exact Disk.contains_of_rename hne.symm hstep

section Named

variable {folder name : List Char} (h : Path.splitName? path = some (folder, name))
include h

/-- What stops in front of the last step leaves the path as it was. -/
theorem alike_of_stopsAt_preparation (hstop : StopsAt disk (preparation path bytes) after) :
    Disk.Alike path after disk :=
  (sameAt_of_stopsAt hstop (keepsOff_preparation h)).alike

/-- Wherever saving stops, the path looks as before or holds what was to be saved. -/
theorem alike_or_saved (hstop : StopsAt disk (saveSteps path bytes) after) :
    Disk.Alike path after disk ∨ after.read path = .ok bytes := by
  rw [saveSteps_eq] at hstop
  rcases stopsAt_append hstop with hbefore | ⟨next, hrun, hlast⟩
  · exact .inl (alike_of_stopsAt_preparation h hbefore)
  · cases hlast with
    | during hleaves =>
        -- Moving a file is one step, so where it stops nothing has been moved.
        cases hleaves
        have hprepared := stopsAt_runSteps disk (preparation path bytes)
        rw [hrun] at hprepared
        exact .inl (alike_of_stopsAt_preparation h hprepared)
    | behind hstep hlater =>
        cases hlater
        have hall : runSteps disk (saveSteps path bytes) = (.ok (), after) := by
          rw [saveSteps_eq, runSteps_append_iff]
          exact ⟨next, hrun, runSteps_cons_iff.2 ⟨after, hstep, rfl⟩⟩
        exact .inr (read_of_saved hall)

end Named

/--
Saving at a path that ends in a name is all or nothing.  The temporary file is never the snapshot itself;
wherever the steps stop, and so where a run fails, the snapshot is what it was or all of the new one; and when
they are done it is the new one and there is no temporary file.
-/
theorem save_all_or_nothing (c : Catalog) {path : String} (disk : Disk)
    (hname : (Path.splitName? path).isSome = true) :
    let bytes := c.snapshot.bytes
    Path.place (Path.temporary path) ≠ Path.place path ∧
    (∀ after, StopsAt disk (saveSteps path bytes) after →
      Disk.Alike path after disk ∨ after.read path = .ok bytes) ∧
    StopsAt disk (saveSteps path bytes) (c.save path disk).2 ∧
    ((c.save path disk).1 = .ok () → (c.save path disk).2.read path = .ok bytes ∧
      (c.save path disk).2.files.contains (Path.place (Path.temporary path)) = false) := by
  intro bytes
  obtain ⟨⟨folder, name⟩, h⟩ := Option.isSome_iff_exists.1 hname
  have hne := Path.place_temporary_ne h
  refine ⟨hne, fun after => alike_or_saved h, stopsAt_runSteps disk _, fun hdone => ?_⟩
  have hrun : runSteps disk (saveSteps path bytes) = (.ok (), (c.save path disk).2) :=
    Prod.ext hdone rfl
  exact ⟨read_of_saved hrun, contains_of_saved hne hrun⟩

/-- An old snapshot, with what an earlier save has left beside it. -/
def sampleLeftOver : Disk :=
  (Disk.put ⟨.empty, []⟩ "maps/.layers.tmp" [1, 2]).put "maps/.layers.json.tmp" [3]

/-- A save that stops behind the first two bytes, and one that is done, in the place of a file `.layers.tmp`. -/
theorem sample_all_or_nothing :
    (Path.splitName? "maps/.layers.tmp").isSome = true ∧
    (∃ after, StopsAt sampleLeftOver (saveSteps "maps/.layers.tmp" empty.snapshot.bytes) after ∧
      after.read "maps/.layers.json.tmp" = .ok (empty.snapshot.bytes.take 2) ∧
      Disk.Alike "maps/.layers.tmp" after sampleLeftOver) ∧
    (empty.save "maps/.layers.tmp" sampleLeftOver).2.read "maps/.layers.tmp" =
      .ok empty.snapshot.bytes ∧
    (empty.save "maps/.layers.tmp" sampleLeftOver).2.files.contains
      (Path.place (Path.temporary "maps/.layers.tmp")) = false := by
  have hname : (Path.splitName? "maps/.layers.tmp").isSome = true := by decide
  obtain ⟨-, hstops, -, hsaved⟩ := save_all_or_nothing empty sampleLeftOver hname
  have hsteps (bytes : List UInt8) : saveSteps "maps/.layers.tmp" bytes =
      [(.createFolder, "maps", .makeFolder "maps"),
        (.create, "maps/.layers.json.tmp", .create "maps/.layers.json.tmp"),
        (.write, "maps/.layers.json.tmp", .append "maps/.layers.json.tmp" bytes),
        (.sync, "maps/.layers.json.tmp", .sync "maps/.layers.json.tmp"),
        (.replace, "maps/.layers.tmp", .rename "maps/.layers.json.tmp" "maps/.layers.tmp")] := rfl
  have hstop (bytes : List UInt8) : StopsAt sampleLeftOver (saveSteps "maps/.layers.tmp" bytes)
      ⟨(sampleLeftOver.files.insert (Path.place "maps/.layers.json.tmp") []).insert
        (Path.place "maps/.layers.json.tmp") (bytes.take 2), [Path.place "maps"]⟩ := by
    rw [hsteps]
    exact .behind rfl (.behind rfl (.during (@Disk.Leaves.bytes _ _ _ [] _ rfl <| List.take_prefix 2 _)))
  have hother : [1, 2] ≠ empty.snapshot.bytes := by decide +kernel
  refine ⟨hname, ⟨_, hstop _, rfl, ?_⟩, hsaved rfl⟩
  exact (hstops _ (hstop _)).resolve_right fun hread => hother (Except.ok.inj hread)

end Catalog

end MapCatalog
