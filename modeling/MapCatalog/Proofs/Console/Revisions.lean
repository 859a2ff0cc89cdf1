import MapCatalog.Proofs.Catalog.Revision
import MapCatalog.Proofs.Console.Invocations

/-! # Revisions between invocations

Every invocation finds all revisions at zero.  So a move that expects the revision of an earlier change is refused even
where nothing has changed since, and one that expects none is done even where something has.
-/

namespace MapCatalog

namespace Catalog

variable {c : Catalog} {id : LayerId} {direction : Direction} {group : GroupId}

theorem moveLayer_expected (hgroup : c.groupOf? id = some group) {now : List LayerId × Nat}
    (hnow : c.versioned? group = some now) (expected : Option Nat) :
    c.moveLayer id direction expected =
      c.moveLayer id direction (some (expected.getD now.2)) := by
  obtain ⟨entry, hentry, rfl⟩ := groupOf?_eq_some_iff.1 hgroup
  obtain ⟨found, hfound, rfl⟩ := Option.map_eq_some_iff.1 hnow
  simp only [moveLayer, hentry, hfound, Option.getD_some]

namespace Initial

theorem exists_versioned? (h : Initial c) (hgroup : c.groupOf? id = some group) :
    ∃ list, c.versioned? group = some (list, 0) := by
  obtain ⟨⟨list, revision⟩, hnow, -⟩ := h.wellFormed.exists_versioned? hgroup
  obtain rfl : revision = 0 := h.revision_eq_zero hnow
  exact ⟨list, hnow⟩

theorem moveLayer_refused (h : Initial c) (hgroup : c.groupOf? id = some group)
    {expected : Option Nat} (hne : expected.getD 0 ≠ 0) :
    c.moveLayer id direction expected = .error (.conflict group (expected.getD 0) 0) := by
  obtain ⟨list, hnow⟩ := h.exists_versioned? hgroup
  rw [moveLayer_expected hgroup hnow, moveLayer_conflict hgroup hnow hne]

theorem moveLayer_done (h : Initial c) (hgroup : c.groupOf? id = some group)
    {expected : Option Nat} (hzero : expected.getD 0 = 0) :
    c.moveLayer id direction expected = c.moveLayer id direction none := by
  obtain ⟨list, hnow⟩ := h.exists_versioned? hgroup
  rw [moveLayer_expected hgroup hnow, hzero, moveLayer_expected hgroup hnow none]
  rfl

/-- A move that expects no revision is done, and reports whether it has changed anything. -/
theorem exists_moveLayer (h : Initial c) (hgroup : c.groupOf? id = some group) :
    ∃ outcome next, c.moveLayer id direction none = .ok (outcome, next) ∧
      outcome.revision = if outcome.changed then 1 else 0 := by
  obtain ⟨list, hnow⟩ := h.exists_versioned? hgroup
  obtain ⟨⟨outcome, next⟩, hok⟩ : ∃ result, c.moveLayer id direction (some 0) = .ok result :=
    h.wellFormed.exists_moveLayer_eq_ok hgroup hnow
  obtain ⟨entry, found, position, -, -, hrevision, -, hmoved⟩ := moveLayer_eq_ok hok
  rw [h.moveLayer_done hgroup rfl] at hok
  refine ⟨outcome, next, hok, ?_⟩
  rw [Option.getD_some] at hrevision
  rcases hmoved with ⟨-, rfl, -⟩ | ⟨neighbour, -, rfl, -⟩
  · simp [Moved.revision, Moved.changed, ← hrevision]
  · simp [Moved.revision, Moved.changed, ← hrevision]

end Initial

end Catalog

namespace Command

/-- An invocation asks for a move of a layer in the snapshot, and the guard lets it in. -/
structure Invocation.MovesLayer (settings : Settings) (path : String) (invocation : Invocation)
    (own : Service) (direction : Direction) (id : LayerId) (group : GroupId)
    (expected : Option Nat) : Prop where
  opens : serviceFor settings invocation.disk path = .ok own
  asks : Route.parse invocation.visit.request.method invocation.visit.request.path =
    .ok (.rearrange direction id)
  expects : Service.expectedRevision invocation.visit.request = .ok expected
  accepted : ∃ subject, own.guard.verdict invocation.visit = .ok subject
  stored : own.catalog.groupOf? id = some group

namespace Invocation.MovesLayer

variable {settings : Settings} {path : String} {invocation : Invocation} {own : Service}
  {direction : Direction} {id : LayerId} {group : GroupId} {expected : Option Nat}

theorem initial (h : invocation.MovesLayer settings path own direction id group expected) :
    Catalog.Initial own.catalog :=
  Catalog.initial_of_openFile (serviceFor_eq_ok h.opens).1

theorem asked (h : invocation.MovesLayer settings path own direction id group expected) :
    Service.asked? own.catalog invocation.visit.request invocation.visit.fresh
      (.rearrange direction id) = some (.moveLayer id direction expected) := by
  rw [Service.asked?, Service.action, h.expects]
  rfl

theorem catalog_eq (h : invocation.MovesLayer settings path own direction id group expected) :
    (own.step invocation.visit).after.catalog =
      own.catalog.after (.moveLayer id direction expected) := by
  obtain ⟨subject, haccepted⟩ := h.accepted
  rw [own.catalog_step h.initial.wellFormed, Service.operation?_of_accepted h.asks haccepted,
    h.asked]
  rfl

theorem response_eq (h : invocation.MovesLayer settings path own direction id group expected) :
    (own.step invocation.visit).response =
      match own.catalog.perform (.moveLayer id direction expected) with
      | .error e => .failure (.catalog e)
      | .ok (answer, _) => Service.response (.moveLayer id direction expected) answer := by
  obtain ⟨subject, haccepted⟩ := h.accepted
  rw [Service.response_of_accepted h.asks rfl haccepted,
    Service.act_of_asked h.initial.wellFormed h.asked]
  cases own.catalog.perform (.moveLayer id direction expected) <;> rfl

/-- Whoever expects the revision of an earlier change is refused, and nothing is written. -/
theorem refused (h : invocation.MovesLayer settings path own direction id group expected)
    (hne : expected.getD 0 ≠ 0) :
    invocation.outcome settings path =
      (.ok (.failure (.catalog (.conflict group (expected.getD 0) 0))), invocation.disk) := by
  have hresponse : (own.step invocation.visit).response =
      .failure (.catalog (.conflict group (expected.getD 0) 0)) := by
    rw [h.response_eq, Catalog.perform, h.initial.moveLayer_refused h.stored hne]
    rfl
  rw [outcome_of_service h.opens, hresponse]
  rfl

/-- Whoever expects no change is not refused, and is told one change at most. -/
theorem done (h : invocation.MovesLayer settings path own direction id group expected)
    (hsavable : Catalog.Savable invocation.disk path) (hzero : expected.getD 0 = 0) :
    ∃ outcome next, own.catalog.moveLayer id direction none = .ok (outcome, next) ∧
      (invocation.outcome settings path).1 =
        .ok ⟨200, .object [("moved", .bool outcome.changed), ("order", .ofNat outcome.target.toNat),
          ("revision", .ofNat (if outcome.changed then 1 else 0))]⟩ := by
  obtain ⟨outcome, next, hmove, hrevision⟩ := h.initial.exists_moveLayer h.stored
  refine ⟨outcome, next, hmove, ?_⟩
  have hperform : own.catalog.perform (.moveLayer id direction expected) =
      .ok (.moved outcome, next) := by
    rw [Catalog.perform, h.initial.moveLayer_done h.stored hzero, hmove]
    rfl
  rw [outcome_of_service h.opens, fst_keep hsavable, h.response_eq, hperform, ← hrevision]
  rfl

end Invocation.MovesLayer

theorem Invocation.Course.savable {settings : Settings} {path : String} {disk : Disk}
    {invocations : List Invocation} (h : Invocation.Course settings path disk invocations) :
    ∀ invocation ∈ invocations, Catalog.Savable invocation.disk path := by
  induction invocations generalizing disk with
  | nil => simp
  | cons invocation rest ih =>
      obtain ⟨-, hsavable, hrest⟩ := h
      exact List.forall_mem_cons.2 ⟨hsavable, ih hrest⟩

/--
Along any course of invocations, whatever was answered before, a move that is let in starts from revision
zero: it is answered 409 and leaves the disk as it is when its body gives another revision, and otherwise
it is done as if its body gave none, and reports one if it has changed something, zero if it has not.
-/
theorem course_forgets_revisions {settings : Settings} {path : String} {disk : Disk}
    {invocations : List Invocation}
    (hcourse : Invocation.Course settings path disk invocations) :
    ∀ invocation ∈ invocations, ∀ own direction id group expected,
      invocation.MovesLayer settings path own direction id group expected →
      (expected.getD 0 ≠ 0 → ∃ response,
        invocation.outcome settings path = (.ok response, invocation.disk) ∧
          response.status = 409) ∧
      (expected.getD 0 = 0 → ∃ outcome next,
        own.catalog.moveLayer id direction none = .ok (outcome, next) ∧
        (invocation.outcome settings path).1 =
          .ok ⟨200, .object [("moved", .bool outcome.changed),
            ("order", .ofNat outcome.target.toNat),
            ("revision", .ofNat (if outcome.changed then 1 else 0))]⟩) := by
  intro invocation hmem own direction id group expected hmoves
  exact ⟨fun hne => ⟨_, hmoves.refused hne, rfl⟩,
    hmoves.done (hcourse.savable invocation hmem)⟩

/-! ## A sample -/

open Service

def sampleSnapshot : Snapshot :=
  (Catalog.empty.run (Catalog.sample.take 5)).snapshot

def sampleFound : Catalog :=
  match Catalog.ofSnapshot sampleSnapshot with
  | .ok c => c
  | .error _ => .empty

def sampleSeen : Json :=
  .object [("revision", .ofNat 1)]

def sampleStored : Disk :=
  ((default : Disk).put "layers.json" sampleSnapshot.bytes).put "seen.json"
    (Utf8.encode sampleSeen.compactChars)

def sampleMoved : Disk :=
  ((sampleFound.after (.moveLayer ⟨5⟩ .up none)).save "layers.json" sampleStored).2

def sampleUp : Visit :=
  sampleVisit "ann" .put "/LayerData/Rearrange/up/00000000000000000000000000000005" 1

def sampleDown : Visit :=
  ⟨{ (sampleVisit "ann" .put "/LayerData/Rearrange/down/00000000000000000000000000000005" 2).request
      with body := some sampleSeen },
    .ofSeconds 2, 0⟩

theorem reads_sampleUp :
    toRequest sampleStored ⟨"put", sampleUp.request.path, none, sampleUp.request.authorization⟩ =
      .ok sampleUp.request := by
  have hmethod : Method.ofName? "put" = some .put := by decide
  rw [toRequest, hmethod]
  rfl

theorem reads_sampleDown :
    toRequest sampleMoved
        ⟨"put", sampleDown.request.path, some "seen.json", sampleDown.request.authorization⟩ =
      .ok sampleDown.request := by
  have hmethod : Method.ofName? "put" = some .put := by decide
  have hbody : body sampleMoved (some "seen.json") = .ok (some sampleSeen) := by decide +kernel
  rw [toRequest, hmethod, hbody]
  rfl

def sampleMove : Invocation :=
  ⟨_, sampleStored, sampleUp, reads_sampleUp⟩

def sampleReturn : Invocation :=
  ⟨_, sampleMoved, sampleDown, reads_sampleDown⟩

theorem savable_sampleStored : Catalog.Savable sampleStored "layers.json" := by
  intro bytes
  rfl

theorem savable_sampleMoved : Catalog.Savable sampleMoved "layers.json" := by
  intro bytes
  rfl

theorem ofSnapshot_sampleSnapshot : Catalog.ofSnapshot sampleSnapshot = .ok sampleFound := by
  rfl

theorem finite_sampleFound : Catalog.AllCameras Camera.Finite sampleFound := by
  refine .of_ofSnapshot ?_ ofSnapshot_sampleSnapshot
  unfold Camera.Finite
  decide +kernel

theorem opens_sampleStored :
    serviceFor sampleSettings sampleStored "layers.json" =
      .ok ⟨sampleFound, sampleNew.guard⟩ := by
  have hcameras : ∀ camera ∈ sampleSnapshot.cameras, camera.Finite ∧ camera.Legible := by
    unfold Camera.Finite Camera.Legible
    decide +kernel
  have hbytes : Snapshot.ofBytes sampleSnapshot.bytes = .ok sampleSnapshot :=
    Snapshot.ofBytes_bytes (by decide) (fun camera hcamera => (hcameras camera hcamera).1)
      fun camera hcamera => (hcameras camera hcamera).2
  have hopen : Catalog.openFile sampleStored "layers.json" = .ok sampleFound :=
    Catalog.openFile_of_read rfl rfl hbytes ofSnapshot_sampleSnapshot
  rw [serviceFor, openSnapshot, hopen]
  rfl

theorem moves_sampleMove :
    sampleMove.MovesLayer sampleSettings "layers.json" ⟨sampleFound, sampleNew.guard⟩ .up ⟨5⟩ ⟨3⟩
      none where
  opens := opens_sampleStored
  asks := by decide +kernel
  expects := rfl
  accepted := ⟨"ann", legible_ann.accepted rfl .put _ 1 (by decide) (unrevoked_sample "ann" _)⟩
  stored := by decide +kernel

theorem outcome_sampleMove :
    sampleMove.outcome sampleSettings "layers.json" =
      (.ok ⟨200, .object [("moved", .bool true), ("order", .ofNat 0), ("revision", .ofNat 1)]⟩,
        sampleMoved) := by
  have hresponse : (Service.step ⟨sampleFound, sampleNew.guard⟩ sampleMove.visit).response =
      ⟨200, .object [("moved", .bool true), ("order", .ofNat 0), ("revision", .ofNat 1)]⟩ := by
    rw [moves_sampleMove.response_eq]
    decide +kernel
  rw [outcome_of_service moves_sampleMove.opens, hresponse]
  apply Prod.ext
  · exact fst_keep savable_sampleStored
  · have hsaves : ((⟨200, .object [("moved", .bool true), ("order", .ofNat 0),
        ("revision", .ofNat 1)]⟩ : Response).isSuccess &&
        sampleMove.visit.request.method.isMutation) = true := by
      decide
    rw [snd_keep_of_saves hsaves, moves_sampleMove.catalog_eq, sampleMoved]
    rfl

/-- The move is found in the file, but not its revision. -/
theorem exists_moves_sampleReturn :
    ∃ own, sampleReturn.MovesLayer sampleSettings "layers.json" own .down ⟨5⟩ ⟨3⟩ (some 1) := by
  have hinitial : Catalog.Initial sampleFound := .inr ⟨_, ofSnapshot_sampleSnapshot⟩
  have hwell : Catalog.WellFormed (sampleFound.run [.moveLayer ⟨5⟩ .up none]) :=
    hinitial.wellFormed.run ⟨by decide, by decide⟩
  have hfinite : Catalog.AllCameras Camera.Finite
      (sampleFound.after (.moveLayer ⟨5⟩ .up none)) :=
    finite_sampleFound.after (by simp [Operation.camera?])
  have hprints : (sampleFound.after (.moveLayer ⟨5⟩ .up none)).PrintsExactly := by
    unfold Catalog.PrintsExactly
    decide +kernel
  obtain ⟨after, loaded, hsave, hopen, halike⟩ :=
    Catalog.exists_reopened hwell hfinite hprints savable_sampleStored
  obtain rfl : after = sampleMoved := (congrArg Prod.snd hsave).symm
  refine ⟨⟨loaded, sampleNew.guard⟩, ?_, by decide +kernel, by decide +kernel, ⟨"ann", ?_⟩, ?_⟩
  · show serviceFor sampleSettings sampleMoved "layers.json" = _
    rw [serviceFor, openSnapshot, hopen]
    rfl
  · exact legible_ann.accepted rfl .put sampleDown.request.path 2 (by decide)
      (unrevoked_sample "ann" _)
  · show loaded.groupOf? ⟨5⟩ = _
    rw [← halike.groupOf?]
    decide +kernel

theorem course_sample :
    Invocation.Course sampleSettings "layers.json" sampleStored [sampleMove, sampleReturn] := by
  refine ⟨⟨rfl, rfl⟩, savable_sampleStored, ?_, savable_sampleMoved, trivial⟩
  rw [outcome_sampleMove]
  exact ⟨rfl, rfl⟩

/-- A move reports revision one, and the next one that expects it is refused. -/
theorem reported_revision_refused :
    Invocation.Course sampleSettings "layers.json" sampleStored [sampleMove, sampleReturn] ∧
    sampleMove.outcome sampleSettings "layers.json" =
      (.ok ⟨200, .object [("moved", .bool true), ("order", .ofNat 0), ("revision", .ofNat 1)]⟩,
        sampleReturn.disk) ∧
    (∃ own, sampleReturn.MovesLayer sampleSettings "layers.json" own .down ⟨5⟩ ⟨3⟩ (some 1)) ∧
    ∃ response, (sampleReturn.outcome sampleSettings "layers.json").1 = .ok response ∧
      response.status = 409 := by
  obtain ⟨own, hmoves⟩ := exists_moves_sampleReturn
  refine ⟨course_sample, outcome_sampleMove, ⟨own, hmoves⟩, ?_⟩
  rw [hmoves.refused (by decide)]
  exact ⟨_, rfl, rfl⟩

theorem sample_forgets_revisions :
    Invocation.Course sampleSettings "layers.json" sampleStored [sampleMove, sampleReturn] ∧
    (∃ outcome next, sampleFound.moveLayer ⟨5⟩ .up none = .ok (outcome, next) ∧
      (sampleMove.outcome sampleSettings "layers.json").1 =
        .ok ⟨200, .object [("moved", .bool outcome.changed),
          ("order", .ofNat outcome.target.toNat),
          ("revision", .ofNat (if outcome.changed then 1 else 0))]⟩) ∧
    ∃ response, sampleReturn.outcome sampleSettings "layers.json" =
      (.ok response, sampleReturn.disk) ∧ response.status = 409 := by
  have hforgets := course_forgets_revisions course_sample
  obtain ⟨own, hmoves⟩ := exists_moves_sampleReturn
  refine ⟨course_sample, ?_, ?_⟩
  · exact (hforgets sampleMove (by simp) _ _ _ _ _ moves_sampleMove).2 rfl
  · exact (hforgets sampleReturn (by simp) _ _ _ _ _ hmoves).1 (by decide)

end Command

end MapCatalog
