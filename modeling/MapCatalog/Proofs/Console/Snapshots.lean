import MapCatalog.Proofs.Console.Invocations

/-! # What becomes of a snapshot -/

namespace MapCatalog

/-- The file at a path is a snapshot, and the catalogue that is loaded from it lists the same sections as
this one. -/
def Catalog.RestoredFrom (c : Catalog) (disk : Disk) (path : String) : Prop :=
  ∃ bytes snapshot loaded, disk.read path = .ok bytes ∧ Snapshot.ofBytes bytes = .ok snapshot ∧
    Catalog.ofSnapshot snapshot = .ok loaded ∧ Catalog.openFile disk path = .ok loaded ∧
    loaded.trees = c.trees

namespace Command

/-- What the service of a request holds after its step is saved so that it can be loaded again. -/
theorem restoredFrom_step {settings : Settings} {call : Call} {path : String} {disk : Disk}
    {own : Service} {visit : Visit} (hopens : serviceFor settings disk path = .ok own)
    (hreads : toRequest disk call = .ok visit.request) (hsavable : Catalog.Savable disk path)
    (hids : Catalog.NeverRepeats own.catalog (own.history [visit]))
    (hprints : (own.step visit).after.catalog.PrintsExactly) :
    (own.step visit).after.catalog.RestoredFrom ((own.step visit).after.catalog.save path disk).2
      path := by
  obtain ⟨hopen, -⟩ := serviceFor_eq_ok hopens
  have hstart := (Catalog.initial_of_openFile hopen).wellFormed
  have hwell := Service.wellFormed_step hstart hids.left
  have hfinite := Service.finite_step hstart (Catalog.finite_of_openFile hopen)
    (finiteBody_of_toRequest hreads)
  obtain ⟨after, loaded, hsave, hread, hbytes, hload, hreopen, halike⟩ :=
    Catalog.exists_restored hwell hfinite hprints hsavable
  rw [hsave]
  exact ⟨_, _, loaded, hread, hbytes, hload, hreopen, halike.trees.symm⟩

/-! ## Attempts -/

/-- A call at a moment, on the disk that it finds, whatever becomes of it. -/
structure Attempt where
  settings : Settings
  call : Call
  /-- The path of the snapshot. -/
  path : String
  now : Instant
  /-- The identifier that is at hand for a new record. -/
  fresh : BitVec 128
  disk : Disk

namespace Attempt

def outcome (attempt : Attempt) : Except CommandError Response × Disk :=
  request attempt.settings attempt.call attempt.path attempt.now attempt.fresh attempt.disk

/-- The step in which the service of an attempt handles the request that is read from its call. -/
inductive Takes (attempt : Attempt) : Step → Prop where
  | handles {own : Service} {request : Request}
      (opens : serviceFor attempt.settings attempt.disk attempt.path = .ok own)
      (reads : toRequest attempt.disk attempt.call = .ok request) :
      Takes attempt (own.step ⟨request, attempt.now, attempt.fresh⟩)

def Saves (step : Step) : Prop :=
  step.response.isSuccess = true ∧ step.visit.request.method ≠ .get

/-- An attempt fails and leaves the disk, or it is answered as in its step and keeps what that leaves. -/
inductive Ended (attempt : Attempt) : Except CommandError Response × Disk → Prop where
  | fails (e : CommandError) : Ended attempt (.error e, attempt.disk)
  | answers {step : Step} (h : attempt.Takes step) :
      Ended attempt
        (keep step.after step.visit.request.method step.response attempt.path attempt.disk)

theorem ended (attempt : Attempt) : attempt.Ended attempt.outcome := by
  rw [outcome]
  cases hreads : toRequest attempt.disk attempt.call with
  | error e =>
      rw [request, hreads]
      exact .fails e
  | ok found =>
      cases hopens : serviceFor attempt.settings attempt.disk attempt.path with
      | error e =>
          rw [request, hreads]
          simp only [hopens]
          exact .fails e
      | ok own =>
          have htakes : attempt.Takes (own.step ⟨found, attempt.now, attempt.fresh⟩) :=
            .handles hopens hreads
          rw [request_of_service hreads hopens]
          exact .answers htakes

theorem saves_iff (step : Step) :
    Saves step ↔ (step.response.isSuccess && step.visit.request.method.isMutation) = true := by
  simp [Saves, Method.isMutation]

theorem keep_of_not_saves {step : Step} (h : ¬ Saves step) (path : String) (disk : Disk) :
    keep step.after step.visit.request.method step.response path disk = (.ok step.response, disk) := by
  rw [saves_iff] at h
  rw [keep, if_neg h]

theorem Takes.unique {attempt : Attempt} {step other : Step} (h : attempt.Takes step)
    (hother : attempt.Takes other) : other = step := by
  obtain ⟨hopens, hreads⟩ := h
  obtain ⟨hopensOther, hreadsOther⟩ := hother
  cases hopens.symm.trans hopensOther
  cases hreads.symm.trans hreadsOther
  rfl

/-- Only a step that saves touches the disk, and what it leaves can be loaded again. -/
structure KeepsSnapshot (attempt : Attempt) : Prop where
  error : ∀ e, attempt.outcome.1 = .error e → attempt.outcome.2 = attempt.disk
  answer : ∀ response, attempt.outcome.1 = .ok response →
    ∃ step, attempt.Takes step ∧ step.response = response ∧
      (¬ Saves step → attempt.outcome.2 = attempt.disk) ∧
      (Saves step → step.after.catalog.RestoredFrom attempt.outcome.2 attempt.path)

/--
Where nothing stands in the way of saving, an attempt that fails leaves the disk as it was, and so does one
that does not succeed or only reads.  Every other one leaves a snapshot from which the hierarchy that its
service holds is loaded.  The identifier at hand is not in use, and every finite number that is stored is
printed so that it reads back.
-/
theorem keepsSnapshot (attempt : Attempt) (hsavable : Catalog.Savable attempt.disk attempt.path)
    (hids : ∀ step, attempt.Takes step →
      Catalog.NeverRepeats step.before.catalog (step.before.history [step.visit]))
    (hprints : ∀ step, attempt.Takes step → step.after.catalog.PrintsExactly) :
    attempt.KeepsSnapshot := by
  -- Either nothing came of the call, or its service handled it and what it holds may have to be saved.
  have hended := attempt.ended
  generalize houtcome : attempt.outcome = outcome at hended
  cases hended with
  | fails e =>
      refine ⟨fun _ _ => by rw [houtcome], fun response hanswer => ?_⟩
      rw [houtcome] at hanswer
      cases hanswer
  | @answers step htakes =>
      have hresponse : attempt.outcome.1 = .ok step.response := by
        rw [houtcome]
        exact fst_keep hsavable
      refine ⟨fun e herror => ?_, fun response hanswer => ⟨step, htakes, ?_, fun hnot => ?_,
        fun hsaves => ?_⟩⟩
      · rw [hresponse] at herror
        cases herror
      · exact Except.ok.inj (hresponse.symm.trans hanswer)
      · rw [houtcome, keep_of_not_saves hnot]
      · rw [houtcome, snd_keep_of_saves ((saves_iff step).1 hsaves)]
        have hunused := hids step htakes
        have hexact := hprints step htakes
        cases htakes with
        | handles hopens hreads =>
            exact restoredFrom_step hopens hreads hsavable hunused hexact

/-! ## A sample -/

open Service

def sample : Attempt :=
  ⟨sampleSettings, sampleFirst.call, "layers.json", sampleCreation.now, sampleCreation.fresh,
    sampleDisk⟩

theorem takes_sample : sample.Takes (sampleNew.step sampleCreation) :=
  .handles serviceFor_sampleDisk reads_sampleCreation

theorem sample_keepsSnapshot :
    Catalog.Savable sample.disk sample.path ∧
    (∀ step, sample.Takes step →
      Catalog.NeverRepeats step.before.catalog (step.before.history [step.visit])) ∧
    (∀ step, sample.Takes step → step.after.catalog.PrintsExactly) ∧
    sample.KeepsSnapshot ∧
    (Catalog.empty.run [.createSection ⟨7⟩ ⟨"Base"⟩]).RestoredFrom sampleSaved "layers.json" := by
  have hids : ∀ step, sample.Takes step →
      Catalog.NeverRepeats step.before.catalog (step.before.history [step.visit]) := by
    intro step htakes
    obtain rfl := takes_sample.unique htakes
    have hhistory : sampleNew.history [sampleCreation] = [.createSection ⟨7⟩ ⟨"Base"⟩] := by
      simp only [history, operation?_sampleCreation]
      rfl
    change Catalog.NeverRepeats sampleNew.catalog (sampleNew.history [sampleCreation])
    rw [hhistory]
    exact ⟨by decide, by decide⟩
  have hprints : ∀ step, sample.Takes step → step.after.catalog.PrintsExactly := by
    intro step htakes
    obtain rfl := takes_sample.unique htakes
    rw [catalog_sampleCreation, Catalog.PrintsExactly]
    decide +kernel
  have hkeeps := keepsSnapshot sample savable_sampleDisk hids hprints
  refine ⟨savable_sampleDisk, hids, hprints, hkeeps, ?_⟩
  have hanswer : sample.outcome.1 = .ok (sampleNew.step sampleCreation).response := by
    change (sampleFirst.outcome sampleSettings "layers.json").1 = _
    rw [keeps_sampleFirst]
    exact fst_keep savable_sampleDisk
  obtain ⟨step, htakes, -, -, hsaved⟩ := hkeeps.answer _ hanswer
  obtain rfl := takes_sample.unique htakes
  have hrestored := hsaved ⟨isSuccess_sampleCreation, by decide⟩
  have houtcome : sample.outcome.2 = sampleSaved := outcome_sampleFirst
  rw [catalog_sampleCreation, houtcome] at hrestored
  exact hrestored

end Attempt

end Command

end MapCatalog
