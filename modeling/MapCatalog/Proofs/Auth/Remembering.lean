import MapCatalog.Proofs.Auth.Revoked

/-! # What the revocations remember

Entries go when they are looked at and when everything is purged.  Seen from outside none of this shows.
-/

namespace MapCatalog

namespace Revocations

inductive Request
  | revoke (subject : String)
  | lookUp (subject : String)
  | purge
deriving DecidableEq

/-- A request, and what the clock showed. -/
structure Call where
  request : Request
  now : Instant
deriving DecidableEq

def Call.Revokes (call : Call) (subject : String) : Prop :=
  call.request = .revoke subject

instance (call : Call) (subject : String) : Decidable (call.Revokes subject) :=
  inferInstanceAs (Decidable (call.request = .revoke subject))

def Call.isRevocation (call : Call) : Bool :=
  match call.request with
  | .revoke _ => true
  | .lookUp _ | .purge => false

def Call.Concerns (call : Call) (subject : String) : Prop :=
  call.request = .revoke subject ∨ call.request = .lookUp subject

def serve (revocations : Revocations) (call : Call) : Revocations :=
  match call.request with
  | .revoke subject => revocations.revoke subject call.now
  | .lookUp subject => (revocations.check subject call.now).2
  | .purge => (revocations.purge call.now).2

def after (revocations : Revocations) (calls : List Call) : Revocations :=
  calls.foldl serve revocations

def answer (revocations : Revocations) (calls : List Call) (subject : String) (now : Instant) :
    Bool :=
  ((revocations.after calls).check subject now).1

/-- The last of the calls that revoke a subject does it at this moment. -/
def LastRevoked (calls : List Call) (subject : String) (revokedAt : Instant) : Prop :=
  ∃ before later, calls = before ++ ⟨.revoke subject, revokedAt⟩ :: later ∧
    ∀ call ∈ later, ¬ call.Revokes subject

def Dropped (revocations : Revocations) (now : Instant) (subject : String) : Prop :=
  revocations.entries.contains subject = true ∧
    (revocations.purge now).2.entries.contains subject = false

instance (revocations : Revocations) (now : Instant) (subject : String) :
    Decidable (revocations.Dropped now subject) :=
  inferInstanceAs (Decidable (_ ∧ _))

/-! ## Single calls -/

section Calls

variable (revocations : Revocations) (subject : String) {now later : Instant}

theorem get?_purge :
    (revocations.purge now).2.entries.get? subject =
      (revocations.entries.get? subject).filter (revocations.live now) :=
  revocations.entries.get?_filter (fun entry => revocations.live now entry.2) subject

/-- A purge changes nothing about who is revoked, at its moment or at a later one. -/
theorem revoked_purge_iff (hle : now ≤ later) :
    (revocations.purge now).2.Revoked subject later ↔ revocations.Revoked subject later := by
  have httl : (revocations.purge now).2.ttl = revocations.ttl := rfl
  simp only [Revoked, get?_purge, Option.filter_eq_some_iff, live_iff, httl]
  constructor
  · rintro ⟨revokedAt, ⟨hentry, -⟩, hlive⟩
    exact ⟨revokedAt, hentry, hlive⟩
  · rintro ⟨revokedAt, hentry, hlive⟩
    have hshorter := Instant.since_le_since_left hle revokedAt
    exact ⟨revokedAt, ⟨hentry, Int.lt_of_le_of_lt hshorter hlive⟩, hlive⟩

theorem dropped_iff :
    revocations.Dropped now subject ↔
      subject ∈ revocations.entries.keys ∧ ¬ revocations.Revoked subject now := by
  rw [Dropped, Table.contains_iff, ← Table.mem_keys_iff, Table.contains_eq_false_iff, get?_purge]
  refine and_congr_right fun _ => ?_
  simp only [Option.filter_eq_none_iff, live_iff, Revoked, not_exists, not_and]

theorem ttl_serve (call : Call) : (revocations.serve call).ttl = revocations.ttl := by
  unfold serve
  cases call.request with
  | revoke revoked => rfl
  | lookUp looked => exact congrArg Nat.cast (revocations.ttlNanos_check looked call.now)
  | purge => rfl

/-- A call that revokes a subject starts its time anew; no other call matters to it. -/
theorem revoked_serve_iff {call : Call} (hle : call.now ≤ later) :
    (revocations.serve call).Revoked subject later ↔
      if call.Revokes subject then later.since call.now < revocations.ttl
      else revocations.Revoked subject later := by
  obtain ⟨request, now⟩ := call
  cases request with
  | revoke revoked =>
      have hrevokes : (Call.mk (.revoke revoked) now).Revokes subject ↔ revoked = subject := by
        simp [Call.Revokes]
      simp only [serve, revoked_revoke_iff, hrevokes]
  | lookUp looked =>
      exact revocations.revoked_check_iff looked now hle subject
  | purge =>
      exact revocations.revoked_purge_iff subject hle

end Calls

/-! ## Sequences of calls -/

theorem lastRevoked_cons (call : Call) (calls : List Call) (subject : String)
    (revokedAt : Instant) :
    LastRevoked (call :: calls) subject revokedAt ↔
      LastRevoked calls subject revokedAt ∨
        call = ⟨.revoke subject, revokedAt⟩ ∧ ∀ other ∈ calls, ¬ other.Revokes subject := by
  constructor
  · rintro ⟨before, later, hcalls, hlater⟩
    cases before with
    | nil =>
        obtain ⟨rfl, rfl⟩ := List.cons.inj hcalls
        exact .inr ⟨rfl, hlater⟩
    | cons first before =>
        obtain ⟨-, hcalls⟩ := List.cons.inj hcalls
        exact .inl ⟨before, later, hcalls, hlater⟩
  · rintro (⟨before, later, rfl, hlater⟩ | ⟨rfl, hlater⟩)
    · exact ⟨call :: before, later, rfl, hlater⟩
    · exact ⟨[], calls, rfl, hlater⟩

theorem not_lastRevoked {calls : List Call} {subject : String}
    (h : ∀ call ∈ calls, ¬ call.Revokes subject) (revokedAt : Instant) :
    ¬ LastRevoked calls subject revokedAt := by
  rintro ⟨before, later, rfl, -⟩
  exact h ⟨.revoke subject, revokedAt⟩ (by simp) rfl

/-- Who is revoked after some calls: whoever they revoked last less than the time to live ago, and, of
those that they did not revoke, whoever was revoked without them. -/
theorem revoked_after_iff (revocations : Revocations) {calls : List Call} {now : Instant}
    (htimes : ∀ call ∈ calls, call.now ≤ now) (subject : String) :
    (revocations.after calls).Revoked subject now ↔
      (∃ revokedAt, LastRevoked calls subject revokedAt ∧ now.since revokedAt < revocations.ttl) ∨
        (∀ call ∈ calls, ¬ call.Revokes subject) ∧ revocations.Revoked subject now := by
  induction calls generalizing revocations with
  | nil =>
      have hnone : ∀ revokedAt, ¬ LastRevoked [] subject revokedAt := not_lastRevoked (by simp)
      simp [after, hnone]
  | cons call calls ih =>
      have hle : call.now ≤ now := htimes call List.mem_cons_self
      have hrest := ih (revocations.serve call) fun other hother =>
        htimes other (List.mem_cons_of_mem call hother)
      have hafter : revocations.after (call :: calls) = (revocations.serve call).after calls := rfl
      rw [hafter, hrest, ttl_serve, revocations.revoked_serve_iff subject hle]
      by_cases hlater : ∀ other ∈ calls, ¬ other.Revokes subject
      · have hnone := not_lastRevoked hlater
        have hlast : ∀ revokedAt, LastRevoked (call :: calls) subject revokedAt ↔
            call = ⟨.revoke subject, revokedAt⟩ := fun revokedAt => by
          rw [lastRevoked_cons, or_iff_right (hnone revokedAt), and_iff_left hlater]
        rw [and_iff_right hlater, List.forall_mem_cons, and_iff_left hlater]
        simp only [hlast, hnone, false_and, exists_false, false_or]
        by_cases hrevokes : call.Revokes subject
        · have hcall : ∀ revokedAt, call = ⟨.revoke subject, revokedAt⟩ ↔ call.now = revokedAt :=
            fun revokedAt => ⟨congrArg Call.now, fun hnow => by rw [← hnow, ← hrevokes]⟩
          simp [hrevokes, hcall]
        · have hcall : ∀ revokedAt, call ≠ ⟨.revoke subject, revokedAt⟩ := fun revokedAt h =>
            hrevokes (congrArg Call.request h)
          simp [hrevokes, hcall]
      · -- A later call revokes the subject anew, so this one does not matter.
        simp [lastRevoked_cons, hlater]

theorem answer_iff (revocations : Revocations) {calls : List Call} {now : Instant}
    (htimes : ∀ call ∈ calls, call.now ≤ now) (subject : String) :
    revocations.answer calls subject now = true ↔
      (∃ revokedAt, LastRevoked calls subject revokedAt ∧ now.since revokedAt < revocations.ttl) ∨
        (∀ call ∈ calls, ¬ call.Revokes subject) ∧ revocations.Revoked subject now := by
  rw [answer, fst_check_iff, revocations.revoked_after_iff htimes]

theorem not_revoked_lasting (ttlNanos : Nat) (subject : String) (now : Instant) :
    ¬ (lasting ttlNanos).Revoked subject now := by
  rintro ⟨revokedAt, hentry, -⟩
  cases hentry

/-! ## Calls that do not matter -/

/-- The calls that revoke a subject are all that its last revocation depends on. -/
theorem lastRevoked_filter (calls : List Call) (subject : String) (revokedAt : Instant) :
    LastRevoked (calls.filter fun call => call.Revokes subject) subject revokedAt ↔
      LastRevoked calls subject revokedAt := by
  induction calls with
  | nil => rfl
  | cons call calls ih =>
      rw [List.filter_cons, lastRevoked_cons]
      by_cases hrevokes : call.Revokes subject
      · simp [hrevokes, lastRevoked_cons, ih]
      · have hcall : call ≠ ⟨.revoke subject, revokedAt⟩ := fun h =>
          hrevokes (congrArg Call.request h)
        simp [hrevokes, hcall, ih]

theorem answer_congr (revocations : Revocations) {calls others : List Call} {subject : String}
    {now : Instant} (htimes : ∀ call ∈ calls, call.now ≤ now)
    (htimes' : ∀ call ∈ others, call.now ≤ now)
    (hsame : (calls.filter fun call => call.Revokes subject) =
      others.filter fun call => call.Revokes subject) :
    revocations.answer calls subject now = revocations.answer others subject now := by
  have hlast : ∀ revokedAt,
      LastRevoked calls subject revokedAt ↔ LastRevoked others subject revokedAt := by
    intro revokedAt
    rw [← lastRevoked_filter calls, hsame, lastRevoked_filter others]
  have hnone : (∀ call ∈ calls, ¬ call.Revokes subject) ↔
      ∀ call ∈ others, ¬ call.Revokes subject := by
    have hfilter := congrArg (· = []) hsame
    simpa [List.filter_eq_nil_iff] using hfilter
  rw [Bool.eq_iff_iff, revocations.answer_iff htimes, revocations.answer_iff htimes']
  simp only [hlast, hnone]

/-! ## Purges -/

/-- What a purge does to the entries, and what it cannot do any harm to. -/
structure PurgesSpent (revocations : Revocations) (now : Instant) : Prop where
  /-- It answers the number of entries that it drops. -/
  counted : (revocations.purge now).1 =
    (revocations.entries.keys.filter fun subject => revocations.Dropped now subject).length
  kept : ∀ subject, ¬ revocations.Dropped now subject →
    (revocations.purge now).2.entries.get? subject = revocations.entries.get? subject
  /-- Nobody whose entry it drops is revoked later, with the purge or without it, unless they are revoked
  anew. -/
  spent : ∀ subject, revocations.Dropped now subject →
    ∀ calls later, now ≤ later → (∀ call ∈ calls, call.now ≤ later) →
      (∀ call ∈ calls, ¬ call.Revokes subject) →
      revocations.answer calls subject later = false ∧
      (revocations.purge now).2.answer calls subject later = false

theorem dropped_entry_iff (revocations : Revocations) {now : Instant} {entry : String × Instant}
    (h : entry ∈ revocations.entries.entries) :
    revocations.Dropped now entry.1 ↔ revocations.live now entry.2 = false := by
  have hentry : revocations.entries.get? entry.1 = some entry.2 :=
    revocations.entries.get?_eq_some_iff.2 h
  have hkey : entry.1 ∈ revocations.entries.keys := List.mem_map_of_mem h
  rw [dropped_iff, and_iff_right hkey, Revoked, hentry, ← Bool.not_eq_true, live_iff]
  simp

theorem fst_purge (revocations : Revocations) (now : Instant) :
    (revocations.purge now).1 =
      (revocations.entries.keys.filter fun subject => revocations.Dropped now subject).length := by
  have hdropped : revocations.entries.entries.filter
        ((fun subject => decide (revocations.Dropped now subject)) ∘ Prod.fst) =
      revocations.entries.entries.filter fun entry => !revocations.live now entry.2 := by
    refine List.filter_congr fun entry hentry => ?_
    simp [revocations.dropped_entry_iff hentry]
  have hpurge : (revocations.purge now).1 = revocations.entries.entries.length -
      (revocations.entries.entries.filter fun entry => revocations.live now entry.2).length := rfl
  have hsize := List.length_eq_countP_add_countP (l := revocations.entries.entries)
    fun entry => revocations.live now entry.2
  rw [hpurge, Table.keys, List.filter_map, List.length_map, hdropped, hsize]
  simp [List.countP_eq_length_filter]

theorem not_dropped_get? (revocations : Revocations) {now : Instant} {subject : String}
    (h : ¬ revocations.Dropped now subject) :
    (revocations.purge now).2.entries.get? subject = revocations.entries.get? subject := by
  rw [get?_purge]
  cases hentry : revocations.entries.get? subject with
  | none => rfl
  | some revokedAt =>
      have hmem := revocations.entries.get?_eq_some_iff.1 hentry
      have hlive : revocations.live now revokedAt = true := by
        simpa using fun hdead => h ((revocations.dropped_entry_iff hmem).2 hdead)
      simp [hlive]

/-- Somebody who is not revoked and whom nobody revokes is not revoked later. -/
theorem answer_of_not_revoked (revocations : Revocations) {subject : String} {now later : Instant}
    (h : ¬ revocations.Revoked subject now) (hle : now ≤ later) {calls : List Call}
    (htimes : ∀ call ∈ calls, call.now ≤ later)
    (hcalls : ∀ call ∈ calls, ¬ call.Revokes subject) :
    revocations.answer calls subject later = false := by
  rw [← Bool.not_eq_true, revocations.answer_iff htimes]
  rintro (⟨revokedAt, hlast, -⟩ | ⟨-, hrevoked⟩)
  · exact not_lastRevoked hcalls revokedAt hlast
  · exact h (hrevoked.before hle)

theorem purgesSpent (revocations : Revocations) (now : Instant) : revocations.PurgesSpent now where
  counted := revocations.fst_purge now
  kept := fun _ => revocations.not_dropped_get?
  spent := by
    intro subject hdropped calls later hle htimes hcalls
    have hgone : ¬ revocations.Revoked subject now := ((revocations.dropped_iff subject).1 hdropped).2
    have hpurged : ¬ (revocations.purge now).2.Revoked subject now := fun h =>
      hgone ((revocations.revoked_purge_iff subject (Int.le_refl _)).1 h)
    exact ⟨revocations.answer_of_not_revoked hgone hle htimes hcalls,
      (revocations.purge now).2.answer_of_not_revoked hpurged hle htimes hcalls⟩

/-! ## The law -/

/-- What a look-up and a purge answer after some calls. -/
structure RemembersRevoked (ttlNanos : Nat) (calls : List Call) (now : Instant) : Prop where
  /-- A subject is revoked while less than the time to live has passed since it was revoked last. -/
  recent : ∀ subject, (lasting ttlNanos).answer calls subject now = true ↔
    ∃ revokedAt, LastRevoked calls subject revokedAt ∧ now.since revokedAt < ttlNanos
  /-- Without the purges and the other look-ups the answer is the same. -/
  unread : ∀ subject, (lasting ttlNanos).answer (calls.filter Call.isRevocation) subject now =
    (lasting ttlNanos).answer calls subject now
  /-- A call about somebody else does not change it. -/
  others : ∀ subject other first call rest, other ≠ subject → call.Concerns other →
    calls = first ++ call :: rest →
    (lasting ttlNanos).answer (first ++ rest) subject now =
      (lasting ttlNanos).answer calls subject now
  purges : ((lasting ttlNanos).after calls).PurgesSpent now

/-- The revocations tell exactly who was revoked less than the time to live ago, as long as no reading of
the clock is later than that of the question. -/
theorem remembers_revoked (ttlNanos : Nat) (calls : List Call) (now : Instant)
    (htimes : ∀ call ∈ calls, call.now ≤ now) : RemembersRevoked ttlNanos calls now where
  recent := by
    intro subject
    rw [answer_iff _ htimes, or_iff_left fun h => not_revoked_lasting ttlNanos subject now h.2]
    rfl
  unread := by
    intro subject
    refine answer_congr _ (fun call hcall => htimes call (List.mem_filter.1 hcall).1) htimes ?_
    rw [List.filter_filter]
    refine List.filter_congr fun call _ => ?_
    by_cases hrevokes : call.Revokes subject
    · have hrevocation : call.isRevocation = true := by
        simp [Call.isRevocation, show call.request = .revoke subject from hrevokes]
      simp [hrevokes, hrevocation]
    · simp [hrevokes]
  others := by
    rintro subject other first call rest hother hconcerns rfl
    have hcall : ¬ call.Revokes subject := by
      intro hrevokes
      rcases hconcerns with hrequest | hrequest
      · exact hother (Request.revoke.inj (hrequest.symm.trans hrevokes))
      · cases hrequest.symm.trans hrevokes
    have hfewer : ∀ call ∈ first ++ rest, call.now ≤ now := by
      intro kept hkept
      refine htimes kept ?_
      rcases List.mem_append.1 hkept with h | h
      · exact List.mem_append_left _ h
      · exact List.mem_append_right _ (List.mem_cons_of_mem call h)
    exact answer_congr _ hfewer htimes (by simp [List.filter_append, hcall])
  purges := purgesSpent _ now

/-- Ann is revoked twice, and looked up and purged in between. -/
def sampleCalls : List Call :=
  [⟨.revoke "ann", .ofSeconds 0⟩, ⟨.revoke "bob", .ofSeconds 1⟩, ⟨.lookUp "ann", .ofSeconds 2⟩,
    ⟨.purge, .ofSeconds 2⟩, ⟨.revoke "ann", .ofSeconds 3⟩]

theorem sample_remembers_revoked :
    (∀ call ∈ sampleCalls, call.now ≤ .ofSeconds 4) ∧
      RemembersRevoked 1500000000 sampleCalls (.ofSeconds 4) :=
  ⟨by decide, remembers_revoked 1500000000 sampleCalls (.ofSeconds 4) (by decide)⟩

end Revocations

end MapCatalog
