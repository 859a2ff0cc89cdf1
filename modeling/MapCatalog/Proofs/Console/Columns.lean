import MapCatalog.Proofs.Console.Wrapping

/-! # Widths of columns

A column whose width is not settled can count on a share of the table, whichever columns are settled before
it.  So all find room, and together they keep to the width of the table.
-/

namespace MapCatalog

namespace Grid

variable {share room : Nat}

/-- A bound leaves room for texts, and it asks for no more than a share. -/
def Bound.Fair (share room : Nat) : Bound → Prop
  | .atLeast least => 4 ≤ least ∧ least ≤ share + margin
  | .atMost percent => 4 ≤ room * min percent 100 / 100

/-- A column has a heading that fits in a share. -/
structure Slot.Fair (share room : Nat) (slot : Slot) : Prop where
  heading : ∃ text ∈ slot.texts, 2 ≤ Grid.widest (lines text) ∧ Grid.widest (lines text) ≤ share
  bound : slot.column.bound.Fair share room
  settled : ∀ width, slot.width = some width → 2 ≤ width

theorem Slot.Fair.least {slot : Slot} (h : slot.Fair share room) {least : Nat}
    (hbound : slot.column.bound = .atLeast least) : 4 ≤ least ∧ least ≤ share + margin := by
  have hfair := h.bound
  rwa [hbound] at hfair

theorem Slot.Fair.most {slot : Slot} (h : slot.Fair share room) {percent : Nat}
    (hbound : slot.column.bound = .atMost percent) : 4 ≤ room * min percent 100 / 100 := by
  have hfair := h.bound
  rwa [hbound] at hfair

/-- A choice takes no more than leaves a share for each of the other columns. -/
def Choice.Keeps (share room : Nat) (choose : Choice) : Prop :=
  ∀ space slot width, slot.Fair share room → 0 < space.columns →
    share * space.columns ≤ space.room → choose space slot = some width →
    2 ≤ width ∧ width ≤ space.room ∧ share * (space.columns - 1) ≤ space.room - width

def taken (slots : List Slot) : Nat :=
  (slots.map fun slot => slot.width.getD 0).sum

def pending (slots : List Slot) : Nat :=
  slots.countP fun slot => slot.width.isNone

/-- There is a share for each open column of these and of `others` more. -/
structure Balanced (share room others : Nat) (space : Space) (slots : List Slot) : Prop where
  columns : space.columns = pending slots + others
  spare : share * space.columns ≤ space.room
  fair : ∀ slot ∈ slots, slot.Fair share room

/-- What a pass over columns leaves, where no room comes from elsewhere. -/
structure Passes (share room others : Nat) (before after : Space × List Slot) : Prop where
  balanced : Balanced share room others after.1 after.2
  room : after.1.room + taken after.2 ≤ before.1.room + taken before.2
  length : after.2.length = before.2.length

theorem Passes.trans {others : Nat} {first second third : Space × List Slot}
    (h : Passes share room others first second) (h' : Passes share room others second third) :
    Passes share room others first third :=
  ⟨h'.balanced, Nat.le_trans h'.room h.room, h'.length.trans h.length⟩

theorem taken_cons (slot : Slot) (slots : List Slot) :
    taken (slot :: slots) = slot.width.getD 0 + taken slots := by
  simp [taken]

theorem pending_cons (slot : Slot) (slots : List Slot) :
    pending (slot :: slots) = pending slots + if slot.width.isNone then 1 else 0 :=
  List.countP_cons

theorem passes_settle {choose : Choice} (hkeeps : choose.Keeps share room) {others : Nat}
    {space : Space} {slots : List Slot} (h : Balanced share room others space slots) :
    Passes share room others (space, slots) (settle choose space slots) := by
  induction slots generalizing space others with
  | nil => exact ⟨h, Nat.le_refl _, rfl⟩
  | cons slot slots ih =>
      obtain ⟨hslot, hslots⟩ := List.forall_mem_cons.1 h.fair
      have hcolumns := h.columns
      rw [pending_cons] at hcolumns
      rw [settle]
      split
      next width hopen hchoice =>
        rw [hopen, Option.isNone_none, if_pos rfl] at hcolumns
        obtain ⟨hwide, hfits, hspare⟩ := hkeeps space slot width hslot (by omega) h.spare hchoice
        have hleft : Balanced share room others (space.without width) slots := by
          refine ⟨?_, hspare, hslots⟩
          simp only [Space.without]
          omega
        obtain ⟨hafter, hroom, hlength⟩ := ih hleft
        refine ⟨⟨?_, hafter.spare, ?_⟩, ?_, congrArg (· + 1) hlength⟩
        · rw [pending_cons]
          exact hafter.columns
        · refine List.forall_mem_cons.2 ⟨{ hslot with settled := ?_ }, hafter.fair⟩
          rintro _ ⟨⟩
          exact hwide
        · simp only [taken_cons, hopen, Option.getD_some, Option.getD_none, Space.without]
            at hroom ⊢
          omega
      next hskip =>
        -- The column stays as it is, so it is one of the others for those after it if it is open.
        have hleft : Balanced share room (others + if slot.width.isNone then 1 else 0) space slots :=
          ⟨by omega, h.spare, hslots⟩
        obtain ⟨hafter, hroom, hlength⟩ := ih hleft
        refine ⟨⟨?_, hafter.spare, ?_⟩, ?_, congrArg (· + 1) hlength⟩
        · rw [pending_cons, Nat.add_right_comm, Nat.add_assoc]
          exact hafter.columns
        · exact List.forall_mem_cons.2 ⟨hslot, hafter.fair⟩
        · simp only [taken_cons] at hroom ⊢
          omega

theorem passes_settleAll {choose : Choice} (hkeeps : choose.Keeps share room) {others : Nat}
    (rounds : Nat) {state : Space × List Slot}
    (h : Balanced share room others state.1 state.2) :
    Passes share room others state (settleAll choose rounds state) := by
  induction rounds generalizing state with
  | zero => exact ⟨h, Nat.le_refl _, rfl⟩
  | succ rounds ih =>
      rw [settleAll]
      split
      · exact ⟨h, Nat.le_refl _, rfl⟩
      · have hround := passes_settle hkeeps h
        exact hround.trans (ih hround.balanced)

/-! ## Each choice -/

theorem Space.share_le_average {space : Space} (hopen : 0 < space.columns)
    (hspare : share * space.columns ≤ space.room) : share ≤ space.average :=
  (Nat.le_div_iff_mul_le hopen).2 hspare

/-- What is not more than the average leaves a share for the others. -/
theorem Space.spare_of_le_average {space : Space} {width : Nat} (hopen : 0 < space.columns)
    (hspare : share * space.columns ≤ space.room) (hwidth : width ≤ space.average) :
    width ≤ space.room ∧ share * (space.columns - 1) ≤ space.room - width := by
  have hroom : width * space.columns ≤ space.room := (Nat.le_div_iff_mul_le hopen).1 hwidth
  obtain ⟨others, hothers⟩ := Nat.exists_eq_add_of_le hopen
  rw [hothers, Nat.mul_add, Nat.mul_one] at hspare hroom
  rw [hothers, Nat.add_sub_cancel_left]
  rcases Nat.le_total width share with hless | hmore
  · omega
  · have hothers := Nat.mul_le_mul_right others hmore
    omega

theorem inner_eq {least : Nat} (h : 4 ≤ least) : inner least = least - margin := by
  simp only [inner, margin]
  omega

/-- What a bound asks for is no more than a share, and so it leaves a share for the others. -/
theorem keeps_of_least {choose : Choice}
    (h : ∀ space slot width, choose space slot = some width →
      ∃ least, slot.column.bound = .atLeast least ∧ width = inner least) :
    choose.Keeps share room := by
  intro space slot width hslot hopen hspare hchoice
  obtain ⟨least, hbound, rfl⟩ := h space slot width hchoice
  obtain ⟨hleast, hmost⟩ := hslot.least hbound
  have haverage := Space.share_le_average hopen hspare
  rw [inner_eq hleast]
  simp only [margin] at hmost ⊢
  exact ⟨by omega, Space.spare_of_le_average hopen hspare (by omega)⟩

theorem keeps_needless : Choice.Keeps share room Slot.needless := by
  refine keeps_of_least fun space slot width hchoice => ?_
  unfold Slot.needless at hchoice
  split at hchoice
  next least hbound =>
    split at hchoice <;> cases hchoice
    exact ⟨least, hbound, rfl⟩
  next => cases hchoice

theorem keeps_scarce : Choice.Keeps share room Slot.scarce := by
  refine keeps_of_least fun space slot width hchoice => ?_
  unfold Slot.scarce at hchoice
  split at hchoice
  next least hbound =>
    split at hchoice <;> cases hchoice
    exact ⟨least, hbound, rfl⟩
  next => cases hchoice

theorem Slot.Fair.le_widest {slot : Slot} (h : slot.Fair share room) : 2 ≤ slot.widest := by
  obtain ⟨text, htext, hwide, -⟩ := h.heading
  refine Nat.le_trans hwide (widest_le_iff.2 fun line hline => ?_)
  exact Grid.le_widest (List.mem_flatMap.2 ⟨text, htext, hline⟩)

theorem keeps_modest : Choice.Keeps share room (Slot.modest room) := by
  intro space slot width hslot hopen hspare hchoice
  have hwidest := hslot.le_widest
  have hwhole : ∀ width, (if slot.widest ≤ space.average then some (max 1 slot.widest) else none) =
      some width → 2 ≤ width ∧ width ≤ space.average := by
    intro width hsome
    split at hsome <;> cases hsome
    omega
  have hmodest : 2 ≤ width ∧ width ≤ space.average := by
    unfold Slot.modest at hchoice
    simp only at hchoice
    split at hchoice
    next => exact hwhole width hchoice
    next percent hbound =>
      split at hchoice
      next hless =>
        cases hchoice
        have hmost := hslot.most hbound
        rw [inner_eq hmost]
        simp only [margin] at hless ⊢
        omega
      next => exact hwhole width hchoice
  exact ⟨hmodest.1, Space.spare_of_le_average hopen hspare hmodest.2⟩

/-- The heading is not wrapped, as it fits in a share. -/
theorem keeps_wrapped : Choice.Keeps share room Slot.wrapped := by
  intro space slot width hslot hopen hspare hchoice
  obtain ⟨text, htext, hwide, hheading⟩ := hslot.heading
  have haverage := Space.share_le_average hopen hspare
  have hfound : widest (lines text) ≤
      widest (slot.texts.flatMap (fittedLines space.average)) := by
    refine widest_le_iff.2 fun line hline => le_widest (List.mem_flatMap.2 ⟨text, htext, ?_⟩)
    refine List.mem_flatMap.2 ⟨line, hline, ?_⟩
    rw [if_pos (Nat.le_trans (widest_le_iff.1 hheading line hline) haverage)]
    exact List.mem_singleton_self line
  unfold Slot.wrapped at hchoice
  simp only at hchoice
  split at hchoice <;> cases hchoice
  exact ⟨by omega, Space.spare_of_le_average hopen hspare (by omega)⟩

theorem keeps_even (hshare : 2 ≤ share) : Choice.Keeps share room Slot.even := by
  intro space slot width hslot hopen hspare hchoice
  cases hchoice
  obtain ⟨others, hothers⟩ := Nat.exists_eq_add_of_le hopen
  obtain ⟨excess, hexcess⟩ := Nat.exists_eq_add_of_le hspare
  have hwidth : (space.room + space.columns - 1) / space.columns =
      share + (excess + others) / space.columns := by
    rw [← Nat.mul_add_div hopen, Nat.mul_comm space.columns share]
    congr 1
    omega
  have hrest : (excess + others) / space.columns ≤ excess := by
    refine Nat.le_of_lt_succ ((Nat.div_lt_iff_lt_mul hopen).2 ?_)
    rw [hothers, Nat.mul_add, Nat.mul_one, Nat.succ_mul]
    omega
  rw [hwidth]
  generalize (excess + others) / space.columns = surplus at hrest ⊢
  rw [hexcess, hothers, Nat.mul_add, Nat.mul_one, Nat.add_sub_cancel_left]
  omega

/-! ## All choices -/

theorem pending_settle_even (space : Space) (slots : List Slot) :
    pending (settle Slot.even space slots).2 = 0 := by
  induction slots generalizing space with
  | nil => rfl
  | cons slot slots ih =>
      rw [settle]
      split
      next =>
        rw [pending_cons]
        exact ih _
      next hskip =>
        cases hwidth : slot.width with
        | none => exact (hskip _ hwidth rfl).elim
        | some width =>
            rw [pending_cons, hwidth]
            exact ih space

theorem openSlots_cons (column : Column) (columns : List Column) (text : List String)
    (texts : List (List String)) :
    openSlots (column :: columns) (text :: texts) =
      ⟨column, text, none⟩ :: openSlots columns texts :=
  rfl

theorem openSlots_spec {columns : List Column} {texts : List (List String)}
    (hlength : texts.length = columns.length) :
    (openSlots columns texts).length = columns.length ∧
      pending (openSlots columns texts) = columns.length ∧ taken (openSlots columns texts) = 0 := by
  induction columns generalizing texts with
  | nil => exact ⟨rfl, rfl, rfl⟩
  | cons column columns ih =>
      cases texts with
      | nil => cases hlength
      | cons text texts =>
          obtain ⟨hslots, hpending, htaken⟩ := ih (Nat.succ.inj hlength)
          rw [openSlots_cons, pending_cons, taken_cons, hpending, htaken]
          exact ⟨congrArg (· + 1) hslots, rfl, rfl⟩

/-- Where there is a share for every column, the widths of the texts and what is drawn beside them keep to
the width of the table. -/
theorem widths_spec {total : Nat} {columns : List Column} {texts : List (List String)}
    (hshare : 2 ≤ share) (hlength : texts.length = columns.length)
    (hspare : share * columns.length ≤ total - (columns.length + 1) - margin * columns.length)
    (hfair : ∀ slot ∈ openSlots columns texts, slot.Fair share (total - (columns.length + 1))) :
    let found := widths total columns texts
    found.length = columns.length ∧ (∀ width ∈ found, 2 ≤ width) ∧
      found.sum ≤ total - (columns.length + 1) - margin * columns.length := by
  obtain ⟨hslots, hpending, htaken⟩ := openSlots_spec hlength
  have hopen : Balanced share (total - (columns.length + 1)) 0
      ⟨total - (columns.length + 1) - margin * columns.length, columns.length⟩
      (openSlots columns texts) :=
    ⟨hpending.symm, hspare, hfair⟩
  have hneedless := passes_settle keeps_needless hopen
  have hmodest := passes_settleAll keeps_modest columns.length hneedless.balanced
  have hscarce := passes_settle keeps_scarce hmodest.balanced
  have hwrapped := passes_settleAll keeps_wrapped columns.length hscarce.balanced
  have heven := passes_settle (keeps_even hshare) hwrapped.balanced
  have hall := (((hneedless.trans hmodest).trans hscarce).trans hwrapped).trans heven
  refine ⟨?_, ?_, ?_⟩
  · rw [widths, List.length_map]
    exact hall.length.trans hslots
  · intro width hwidth
    obtain ⟨slot, hslot, rfl⟩ := List.mem_map.1 hwidth
    have hsettled := List.countP_eq_zero.1 (pending_settle_even _ _) slot hslot
    cases hfound : slot.width with
    | none => simp [hfound] at hsettled
    | some found => exact (hall.balanced.fair slot hslot).settled found hfound
  · have hroom := hall.room
    rw [htaken, Nat.add_zero] at hroom
    exact Nat.le_trans (Nat.le_add_left _ _) hroom

/-! ## Headings -/

structure Column.Fair (share room : Nat) (column : Column) : Prop where
  wide : 2 ≤ widest (lines column.title)
  narrow : widest (lines column.title) ≤ share
  bound : column.bound.Fair share room

theorem fair_openSlots {columns : List Column} (hfair : ∀ column ∈ columns, column.Fair share room)
    (rows : List (List String)) :
    ∀ slot ∈ openSlots columns
      (columnTexts (columns.map Column.title :: rows) columns.length), slot.Fair share room := by
  intro slot hslot
  obtain ⟨index, hindex, rfl⟩ := List.mem_iff_getElem.1 hslot
  have hcolumn : index < columns.length := by
    rw [openSlots, List.length_zipWith] at hindex
    omega
  have hcolumnFair := hfair columns[index] (List.getElem_mem hcolumn)
  simp only [openSlots, columnTexts, List.getElem_zipWith, List.getElem_map, List.getElem_range,
    List.map_cons]
  refine ⟨⟨columns[index].title, ?_, hcolumnFair.wide, hcolumnFair.narrow⟩, hcolumnFair.bound, ?_⟩
  · simp [hcolumn]
  · rintro _ ⟨⟩

end Grid

end MapCatalog
