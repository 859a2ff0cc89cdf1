import MapCatalog.Console.Command
import MapCatalog.Proofs.Catalog.Reopening
import MapCatalog.Proofs.Service.Alike
import MapCatalog.Proofs.Service.Failures

/-! # A service for every request -/

namespace MapCatalog

namespace Command

structure Invocation where
  call : Call
  disk : Disk
  visit : Visit
  reads : toRequest disk call = .ok visit.request

namespace Invocation

def outcome (settings : Settings) (path : String) (invocation : Invocation) :
    Except CommandError Response × Disk :=
  request settings invocation.call path invocation.visit.now invocation.visit.fresh invocation.disk

/--
Invocations one after the other.  Each finds the snapshot as the one before it left it, whatever became
of other files, and nothing keeps it from saving.
-/
def Course (settings : Settings) (path : String) : Disk → List Invocation → Prop
  | _, [] => True
  | disk, invocation :: rest =>
      Disk.Alike path disk invocation.disk ∧ Catalog.Savable invocation.disk path ∧
        Course settings path (invocation.outcome settings path).2 rest

def lastDisk (settings : Settings) (path : String) (disk : Disk) (invocations : List Invocation) :
    Disk :=
  invocations.foldl (fun _ invocation => (invocation.outcome settings path).2) disk

/-- A request is answered as in a step of the service that handles them all. -/
def AnsweredAs (settings : Settings) (path : String) (invocation : Invocation) (step : Step) :
    Prop :=
  ∃ response, (invocation.outcome settings path).1 = .ok response ∧
    invocation.visit.AnswersAlike step.response response

end Invocation

/-! ## What an invocation reads and writes -/

theorem finite_of_body {disk : Disk} {path : Option String} {doc : Json}
    (h : body disk path = .ok (some doc)) : doc.Finite := by
  unfold body at h
  split at h
  case h_1 => cases h
  case h_2 file =>
    split at h
    case h_1 => cases h
    case h_2 chars hchars =>
      split at h
      case h_1 => cases h
      case h_2 raw hraw =>
        cases h
        exact (Json.finite_of_parseRaw? hraw).normalize

theorem finiteBody_of_toRequest {disk : Disk} {call : Call} {request : Request}
    (h : toRequest disk call = .ok request) : Service.FiniteBody request := by
  unfold toRequest at h
  split at h
  case h_1 => cases h
  case h_2 method hmethod =>
    obtain ⟨found, hbody, rfl⟩ := Decode.map_eq_ok h
    intro doc hdoc
    cases hdoc
    exact finite_of_body hbody

theorem serviceFor_eq_ok {settings : Settings} {path : String} {disk : Disk} {service : Service}
    (h : serviceFor settings disk path = .ok service) :
    Catalog.openFile disk path = .ok service.catalog ∧ settings.guard = .ok service.guard := by
  unfold serviceFor openSnapshot at h
  cases hopen : Catalog.openFile disk path with
  | error e =>
      simp only [hopen] at h
      cases h
  | ok found =>
      cases hguard : settings.guard with
      | error e =>
          simp only [hopen, hguard] at h
          cases h
      | ok guard =>
          simp only [hopen, hguard] at h
          cases h
          exact ⟨rfl, rfl⟩

/-- A request that can be read is handled by the service that is opened for it. -/
theorem request_of_service {settings : Settings} {call : Call} {path : String} {now : Instant}
    {fresh : BitVec 128} {disk : Disk} {found : Request} {own : Service}
    (hreads : toRequest disk call = .ok found)
    (hown : serviceFor settings disk path = .ok own) :
    request settings call path now fresh disk =
      keep (own.step ⟨found, now, fresh⟩).after found.method
        (own.step ⟨found, now, fresh⟩).response path disk := by
  rw [request, hreads]
  simp only [hown]
  rfl

theorem outcome_of_service {settings : Settings} {path : String} {invocation : Invocation}
    {own : Service} (hown : serviceFor settings invocation.disk path = .ok own) :
    invocation.outcome settings path =
      keep (own.step invocation.visit).after invocation.visit.request.method
        (own.step invocation.visit).response path invocation.disk :=
  request_of_service invocation.reads hown

theorem fst_keep {service : Service} {method : Method} {response : Response} {path : String}
    {disk : Disk} (hsavable : Catalog.Savable disk path) :
    (keep service method response path disk).1 = .ok response := by
  unfold keep
  split
  case isTrue =>
    obtain ⟨after, hsave, -⟩ := Catalog.exists_saved hsavable service.catalog.snapshot.bytes
    simp only [Catalog.save, hsave]
  case isFalse => rfl

theorem snd_keep_of_saves {service : Service} {method : Method} {response : Response}
    {path : String} {disk : Disk} (h : (response.isSuccess && method.isMutation) = true) :
    (keep service method response path disk).2 = (service.catalog.save path disk).2 := by
  rw [keep, if_pos h]
  obtain ⟨saved, after⟩ := service.catalog.save path disk
  cases saved <;> rfl

/-! ## One service for all -/

/-- The snapshot on a disk is that of a service, up to revisions. -/
structure Stored (settings : Settings) (path : String) (disk : Disk) (service : Service) :
    Prop where
  opens : ∃ found, Catalog.openFile disk path = .ok found ∧ Catalog.Alike service.catalog found
  guard : settings.guard = .ok service.guard
  wellFormed : Catalog.WellFormed service.catalog
  finite : Catalog.AllCameras Camera.Finite service.catalog

theorem stored_of_serviceFor {settings : Settings} {path : String} {disk : Disk}
    {service : Service} (h : serviceFor settings disk path = .ok service) :
    Stored settings path disk service := by
  obtain ⟨hopen, hguard⟩ := serviceFor_eq_ok h
  exact ⟨⟨service.catalog, hopen, .refl service.catalog⟩, hguard,
    (Catalog.initial_of_openFile hopen).wellFormed, Catalog.finite_of_openFile hopen⟩

namespace Stored

variable {settings : Settings} {path : String} {disk : Disk} {service : Service}

theorem trees (h : Stored settings path disk service) :
    Command.trees disk path = .ok service.catalog.trees := by
  obtain ⟨found, hopen, halike⟩ := h.opens
  rw [Command.trees, openSnapshot, hopen, halike.trees]
  rfl

/-- The service of a single request differs in revisions only. -/
theorem exists_own (h : Stored settings path disk service) :
    ∃ own : Service, serviceFor settings disk path = .ok own ∧ service.guard = own.guard ∧
      Catalog.Alike service.catalog own.catalog := by
  obtain ⟨found, hopen, halike⟩ := h.opens
  refine ⟨⟨found, service.guard⟩, ?_, rfl, halike⟩
  rw [serviceFor, openSnapshot, hopen, h.guard]
  rfl

theorem revokes_nobody (h : Stored settings path disk service) :
    service.guard.revocations.entries = .empty := by
  obtain ⟨key, -, hguard⟩ := Decode.map_eq_ok h.guard
  rw [hguard]
  rfl

theorem of_alike {other : Disk} (h : Stored settings path disk service)
    (hfound : Disk.Alike path disk other) : Stored settings path other service :=
  ⟨Catalog.openFile_congr hfound ▸ h.opens, h.guard, h.wellFormed, h.finite⟩

/-- An invocation answers as a step of the service, and leaves what the service holds after it. -/
theorem step {invocation : Invocation} (h : Stored settings path invocation.disk service)
    (hsavable : Catalog.Savable invocation.disk path)
    (hstays : Route.parse invocation.visit.request.method invocation.visit.request.path ≠
      .ok .logout)
    (hplain : invocation.visit.ExpectsNoRevision)
    (hnext : Catalog.WellFormed (service.step invocation.visit).after.catalog)
    (hprints : (service.step invocation.visit).after.catalog.PrintsExactly) :
    invocation.AnsweredAs settings path (service.step invocation.visit) ∧
      Stored settings path (invocation.outcome settings path).2
        (service.step invocation.visit).after := by
  obtain ⟨own, hown, hsame, halike⟩ := h.exists_own
  obtain ⟨hanswer, hafter⟩ := Service.step_alike hsame halike h.wellFormed hplain
  have hguard : settings.guard = .ok (service.step invocation.visit).after.guard := by
    rw [Service.guard_step_of_new h.revokes_nobody hstays]
    exact h.guard
  have hfinite := Service.finite_step h.wellFormed h.finite
    (finiteBody_of_toRequest invocation.reads)
  unfold Invocation.AnsweredAs
  rw [outcome_of_service hown]
  cases hsaves : (own.step invocation.visit).response.isSuccess &&
      invocation.visit.request.method.isMutation with
  | false =>
      rw [← hanswer.isSuccess] at hsaves
      have hkept := Service.catalog_step_of_unchanging h.wellFormed hsaves
      rw [hanswer.isSuccess] at hsaves
      simp only [keep, hsaves, Bool.false_eq_true, if_false]
      exact ⟨⟨_, rfl, hanswer⟩, hkept ▸ h.opens, hguard, hnext, hfinite⟩
  | true =>
      obtain ⟨after, loaded, hsave, hopen, hloaded⟩ :=
        Catalog.exists_reopened hnext hfinite hprints hsavable
      -- Both would save the same, as a snapshot shows no revision.
      have hsaved : (own.step invocation.visit).after.catalog.save path invocation.disk =
          (.ok (), after) := by
        rw [Catalog.save, ← hafter.snapshot]
        exact hsave
      simp only [keep, hsaves, if_true, hsaved]
      exact ⟨⟨_, rfl, hanswer⟩, ⟨loaded, hopen, hloaded⟩, hguard, hnext, hfinite⟩

/-- What one invocation keeps holds along a course of them. -/
theorem run (h : Stored settings path disk service) {invocations : List Invocation}
    (hcourse : Invocation.Course settings path disk invocations)
    (hids : Catalog.NeverRepeats service.catalog
      (service.history (invocations.map Invocation.visit)))
    (hstays : ∀ invocation ∈ invocations,
      Route.parse invocation.visit.request.method invocation.visit.request.path ≠ .ok .logout)
    (hplain : ∀ invocation ∈ invocations, invocation.visit.ExpectsNoRevision)
    (hprints : ∀ step ∈ service.steps (invocations.map Invocation.visit),
      step.after.catalog.PrintsExactly) :
    List.Forall₂ (Invocation.AnsweredAs settings path) invocations
        (service.steps (invocations.map Invocation.visit)) ∧
      Stored settings path (Invocation.lastDisk settings path disk invocations)
        (service.after (invocations.map Invocation.visit)) := by
  induction invocations generalizing disk service with
  | nil => exact ⟨.nil, h⟩
  | cons invocation rest ih =>
      obtain ⟨hfound, hsavable, hcourse⟩ := hcourse
      have hcatalog := service.catalog_step h.wellFormed invocation.visit
      have hnext := Service.wellFormed_step h.wellFormed hids.left
      rw [List.map_cons, Service.steps, List.forall_mem_cons] at hprints
      rw [List.forall_mem_cons] at hstays hplain
      obtain ⟨hanswered, hstored⟩ := (h.of_alike hfound).step hsavable hstays.1 hplain.1 hnext
        hprints.1
      obtain ⟨hrest, hlast⟩ := ih hstored hcourse (hcatalog ▸ hids.right) hstays.2 hplain.2
        hprints.2
      exact ⟨.cons hanswered hrest, hlast⟩

end Stored

/--
Requests on the command line, each with a service of its own, are answered as in the steps of one
service that starts from the same snapshot and handles them all, but for the revisions that moves
report; and the last one leaves the hierarchy that the service has at the end.  No request logs out and
no move expects a revision.  Identifiers never repeat, and every finite number that is stored is printed
so that it reads back.
-/
theorem invocations_alike {settings : Settings} {path : String} {disk : Disk} {start : Service}
    (hstart : serviceFor settings disk path = .ok start) {invocations : List Invocation}
    (hcourse : Invocation.Course settings path disk invocations)
    (hids : Catalog.NeverRepeats start.catalog
      (start.history (invocations.map Invocation.visit)))
    (hstays : ∀ invocation ∈ invocations,
      Route.parse invocation.visit.request.method invocation.visit.request.path ≠ .ok .logout)
    (hplain : ∀ invocation ∈ invocations, invocation.visit.ExpectsNoRevision)
    (hprints : ∀ step ∈ start.steps (invocations.map Invocation.visit),
      step.after.catalog.PrintsExactly) :
    List.Forall₂ (Invocation.AnsweredAs settings path) invocations
        (start.steps (invocations.map Invocation.visit)) ∧
      trees (Invocation.lastDisk settings path disk invocations) path =
        .ok (start.after (invocations.map Invocation.visit)).catalog.trees := by
  have hrun := (stored_of_serviceFor hstart).run hcourse hids hstays hplain hprints
  exact ⟨hrun.1, hrun.2.trees⟩

/-! ## A sample -/

def sampleSettings : Settings :=
  ⟨⟨some "k", 86400, 60⟩, .standard⟩

def sampleSection : Json :=
  .object [("name", .text "Base")]

def sampleGroup : Json :=
  .object [("name", .text "Roads"), ("layerSectionId", (⟨7⟩ : SectionId).toJson)]

def sampleDisk : Disk :=
  ((default : Disk).put "section.json" (Utf8.encode sampleSection.compactChars)).put "group.json"
    (Utf8.encode sampleGroup.compactChars)

open Service

def sampleSaved : Disk :=
  ((Catalog.empty.run [.createSection ⟨7⟩ ⟨"Base"⟩]).save "layers.json" sampleDisk).2

def sampleGrouping : Visit :=
  ⟨{ (sampleVisit "ann" .post "/LayerGroup" 2).request with body := some sampleGroup.normalize },
    .ofSeconds 2, 8⟩

theorem reads_sampleCreation :
    toRequest sampleDisk ⟨"post", "/LayerSection", some "section.json",
      sampleCreation.request.authorization⟩ = .ok sampleCreation.request := by
  have hmethod : Method.ofName? "post" = some .post := by decide
  have hbody : body sampleDisk (some "section.json") = .ok (some sampleSection) := by decide +kernel
  rw [toRequest, hmethod, hbody]
  rfl

theorem reads_sampleGrouping :
    toRequest sampleSaved ⟨"post", "/LayerGroup", some "group.json",
      sampleGrouping.request.authorization⟩ = .ok sampleGrouping.request := by
  have hmethod : Method.ofName? "post" = some .post := by decide
  have hbody : body sampleSaved (some "group.json") = .ok (some sampleGroup.normalize) := by decide +kernel
  rw [toRequest, hmethod, hbody]
  rfl

theorem savable_sampleDisk : Catalog.Savable sampleDisk "layers.json" := by
  intro bytes
  rfl

theorem savable_sampleSaved : Catalog.Savable sampleSaved "layers.json" := by
  intro bytes
  rfl

def sampleFirst : Invocation :=
  ⟨_, sampleDisk, sampleCreation, reads_sampleCreation⟩

def sampleSecond : Invocation :=
  ⟨_, sampleSaved, sampleGrouping, reads_sampleGrouping⟩

theorem serviceFor_sampleDisk :
    serviceFor sampleSettings sampleDisk "layers.json" = .ok sampleNew := by
  rfl

theorem route_sampleCreation :
    Route.parse sampleCreation.request.method sampleCreation.request.path =
      .ok (.create .sections) := by
  decide +kernel

theorem route_sampleGrouping :
    Route.parse sampleGrouping.request.method sampleGrouping.request.path =
      .ok (.create .groups) := by
  decide +kernel

theorem catalog_sampleCreation :
    (sampleNew.step sampleCreation).after.catalog =
      Catalog.empty.run [.createSection ⟨7⟩ ⟨"Base"⟩] := by
  rw [catalog_step sampleNew Catalog.wellFormed_empty, operation?_sampleCreation]
  rfl

theorem isSuccess_sampleCreation : (sampleNew.step sampleCreation).response.isSuccess = true := by
  have hverdict : sampleNew.guard.verdict sampleCreation = .ok "ann" :=
    legible_ann.accepted rfl .post "/LayerSection" 1 (by decide) (unrevoked_sample "ann" _)
  have hresponse := response_of_accepted route_sampleCreation rfl hverdict
  rw [hresponse]
  decide +kernel

theorem keeps_sampleFirst :
    sampleFirst.outcome sampleSettings "layers.json" =
      keep (sampleNew.step sampleCreation).after sampleCreation.request.method
        (sampleNew.step sampleCreation).response "layers.json" sampleDisk :=
  outcome_of_service serviceFor_sampleDisk

theorem outcome_sampleFirst :
    (sampleFirst.outcome sampleSettings "layers.json").2 = sampleSaved := by
  have hsaves : ((sampleNew.step sampleCreation).response.isSuccess &&
      sampleCreation.request.method.isMutation) = true := by
    rw [isSuccess_sampleCreation]
    rfl
  rw [keeps_sampleFirst, snd_keep_of_saves hsaves, catalog_sampleCreation, sampleSaved]

theorem operation?_sampleGrouping :
    (sampleNew.step sampleCreation).after.operation? sampleGrouping =
      some (.createGroup ⟨8⟩ (.named "Roads" ⟨7⟩)) := by
  have hverdict : (sampleNew.step sampleCreation).after.guard.verdict sampleGrouping = .ok "ann" :=
    legible_ann.accepted sampleCreation_keeps.1 .post "/LayerGroup" 2 (by decide)
      (sampleCreation_keeps.2 _ (by decide))
  rw [operation?_of_accepted route_sampleGrouping hverdict, asked?_congr _ Catalog.empty]
  decide +kernel

theorem history_sampleGrouping :
    sampleNew.history [sampleCreation, sampleGrouping] =
      [.createSection ⟨7⟩ ⟨"Base"⟩, .createGroup ⟨8⟩ (.named "Roads" ⟨7⟩)] := by
  simp only [history, operation?_sampleCreation, operation?_sampleGrouping]
  rfl

theorem neverRepeats_sampleGrouping :
    Catalog.NeverRepeats sampleNew.catalog
      (sampleNew.history [sampleCreation, sampleGrouping]) := by
  rw [history_sampleGrouping]
  exact ⟨by decide, by decide⟩

theorem catalog_sampleGrouping :
    ((sampleNew.step sampleCreation).after.step sampleGrouping).after.catalog =
      Catalog.empty.run
        [.createSection ⟨7⟩ ⟨"Base"⟩, .createGroup ⟨8⟩ (.named "Roads" ⟨7⟩)] := by
  have hwell : Catalog.WellFormed (sampleNew.step sampleCreation).after.catalog := by
    have hids := neverRepeats_sampleGrouping
    rw [history] at hids
    exact wellFormed_step Catalog.wellFormed_empty hids.left
  rw [catalog_step _ hwell, operation?_sampleGrouping, catalog_sampleCreation]
  rfl

theorem course_sampleFirst :
    Invocation.Course sampleSettings "layers.json" sampleDisk [sampleFirst, sampleSecond] := by
  refine ⟨⟨rfl, rfl⟩, savable_sampleDisk, ?_, savable_sampleSaved, trivial⟩
  rw [outcome_sampleFirst]
  exact ⟨rfl, rfl⟩

theorem sample_invocations_alike :
    serviceFor sampleSettings sampleDisk "layers.json" = .ok sampleNew ∧
    Invocation.Course sampleSettings "layers.json" sampleDisk [sampleFirst, sampleSecond] ∧
    Catalog.NeverRepeats sampleNew.catalog
      (sampleNew.history [sampleCreation, sampleGrouping]) ∧
    List.Forall₂ (Invocation.AnsweredAs sampleSettings "layers.json")
      [sampleFirst, sampleSecond] (sampleNew.steps [sampleCreation, sampleGrouping]) ∧
    trees (Invocation.lastDisk sampleSettings "layers.json" sampleDisk [sampleFirst, sampleSecond])
      "layers.json" =
        .ok (Catalog.empty.run [.createSection ⟨7⟩ ⟨"Base"⟩,
          .createGroup ⟨8⟩ (.named "Roads" ⟨7⟩)]).trees := by
  have hstays : ∀ invocation ∈ [sampleFirst, sampleSecond],
      Route.parse invocation.visit.request.method invocation.visit.request.path ≠
        .ok .logout := by
    decide +kernel
  have hplain : ∀ invocation ∈ [sampleFirst, sampleSecond],
      invocation.visit.ExpectsNoRevision := by
    simp only [List.forall_mem_cons]
    refine ⟨fun hmoves => ?_, fun hmoves => ?_, by simp⟩
    · obtain ⟨direction, id, hroute⟩ := hmoves
      cases route_sampleCreation.symm.trans hroute
    · obtain ⟨direction, id, hroute⟩ := hmoves
      cases route_sampleGrouping.symm.trans hroute
  have hprints : ∀ step ∈ sampleNew.steps [sampleCreation, sampleGrouping],
      step.after.catalog.PrintsExactly := by
    simp only [steps, List.forall_mem_cons, catalog_sampleCreation, catalog_sampleGrouping,
      Catalog.PrintsExactly]
    decide +kernel
  have halike := invocations_alike serviceFor_sampleDisk course_sampleFirst
    neverRepeats_sampleGrouping hstays hplain hprints
  have hvisits : [sampleFirst, sampleSecond].map Invocation.visit =
      [sampleCreation, sampleGrouping] := rfl
  rw [hvisits, Service.after, List.foldl_cons, List.foldl_cons, List.foldl_nil,
    catalog_sampleGrouping] at halike
  exact ⟨serviceFor_sampleDisk, course_sampleFirst, neverRepeats_sampleGrouping, halike⟩

end Command

end MapCatalog
