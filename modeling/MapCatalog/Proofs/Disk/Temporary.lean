import MapCatalog.Disk.Basic
import MapCatalog.Proofs.Service.Pieces

/-! # The place of a temporary file

What is put behind the stem of a name has two dots, and behind the stem there is one at most.
-/

namespace MapCatalog

namespace Path

/-! ## The names in a path -/

def namesOf (chars : List Char) : List String :=
  ((Text.pieces (· == '/') chars).filter fun name => !isIdle name).map String.ofList

theorem namesOf_append (front back : List Char) :
    namesOf (front ++ '/' :: back) = namesOf front ++ namesOf back := by
  rw [namesOf, Text.pieces_append rfl, List.filter_append, List.map_append]
  rfl

theorem namesOf_name {name : List Char} (hslash : '/' ∉ name) (hidle : isIdle name = false) :
    namesOf name = [String.ofList name] := by
  have hpiece : ∀ c ∈ name, (c == '/') = false := by
    intro c hc
    rw [beq_eq_false_iff_ne]
    exact fun heq => hslash (heq ▸ hc)
  simp [namesOf, Text.pieces_of_none hpiece, hidle]

theorem namesOf_dropIdleEnd (reversed : List Char) :
    namesOf (dropIdleEnd reversed).reverse = namesOf reversed.reverse := by
  fun_induction dropIdleEnd reversed with
  | case1 rest ih =>
      have hend : namesOf [] = [] := rfl
      rw [List.reverse_cons, namesOf_append, ih, hend, List.append_nil]
  | case2 rest ih =>
      have hend : namesOf ['.'] = [] := rfl
      rw [List.reverse_cons, List.reverse_cons, List.append_assoc, List.singleton_append,
        namesOf_append, ih, hend, List.append_nil]
  | case3 other => rfl

theorem dropIdleEnd_suffix (reversed : List Char) : dropIdleEnd reversed <:+ reversed := by
  fun_induction dropIdleEnd reversed with
  | case1 rest ih => exact ih.trans (List.suffix_cons _ _)
  | case2 rest ih => exact ih.trans ((List.suffix_cons _ _).trans (List.suffix_cons _ _))
  | case3 other => exact List.suffix_refl other

/-! ## Where a path is cut -/

theorem not_mem_takeWhile (cut : Char) (reversed : List Char) :
    cut ∉ (reversed.takeWhile (· != cut)).reverse := by
  intro hmem
  have hother := List.mem_takeWhile_imp (List.mem_reverse.1 hmem)
  simp at hother

theorem dropWhile_cases (cut : Char) (reversed : List Char) :
    reversed.dropWhile (· != cut) = [] ∨ ∃ rest, reversed.dropWhile (· != cut) = cut :: rest := by
  induction reversed with
  | nil => exact .inl rfl
  | cons c reversed ih =>
      by_cases hc : c = cut
      · exact .inr ⟨reversed, by simp [hc]⟩
      · simpa [hc] using ih

/-- A path ends in a name behind a folder, which is empty or ends in a slash. -/
structure EndsIn (path : String) (folder name : List Char) : Prop where
  text : (dropIdleEnd path.toList.reverse).reverse = folder ++ name
  folder : folder = [] ∨ ∃ front, folder = front ++ ['/']
  slash : '/' ∉ name
  named : isIdle name = false

variable {path : String} {folder name : List Char}

theorem endsIn_of_splitName? (h : splitName? path = some (folder, name)) :
    EndsIn path folder name := by
  unfold splitName? at h
  simp only at h
  split at h
  case isTrue => cases h
  case isFalse hnamed =>
    cases h
    refine ⟨?_, ?_, not_mem_takeWhile '/' _, ?_⟩
    · rw [← List.reverse_append, List.takeWhile_append_dropWhile]
    · rcases dropWhile_cases '/' (dropIdleEnd path.toList.reverse) with hnone | ⟨rest, hrest⟩
      · exact .inl (by rw [hnone]; rfl)
      · exact .inr ⟨rest.reverse, by rw [hrest, List.reverse_cons]⟩
    · simpa using fun hidle => hnamed (.inl hidle)

theorem namesOf_folder_append (hfolder : folder = [] ∨ ∃ front, folder = front ++ ['/'])
    (hslash : '/' ∉ name) (hnamed : isIdle name = false) :
    namesOf (folder ++ name) = namesOf folder ++ [String.ofList name] := by
  rw [← namesOf_name hslash hnamed]
  rcases hfolder with rfl | ⟨front, rfl⟩
  · rfl
  · have hend : namesOf [] = [] := rfl
    rw [List.append_assoc, List.singleton_append, namesOf_append, namesOf_append, hend,
      List.append_nil]

theorem head?_folder_append (hslash : '/' ∉ name) (rest : List Char) (hname : name ≠ []) :
    ((folder ++ (name ++ rest)).head? == some '/') = (folder.head? == some '/') := by
  cases folder with
  | cons c folder => rfl
  | nil =>
      obtain ⟨c, others, rfl⟩ := List.exists_cons_of_ne_nil hname
      have hc : c ≠ '/' := fun heq => hslash (heq ▸ List.mem_cons_self)
      simpa using hc

theorem EndsIn.ne_nil (h : EndsIn path folder name) : name ≠ [] := by
  rintro rfl
  exact absurd h.named (by decide)

/-- A path leads to its last name in the folder in front of it. -/
theorem EndsIn.place (h : EndsIn path folder name) :
    Path.place path = ⟨folder.head? == some '/', namesOf folder ++ [String.ofList name]⟩ := by
  have hnames : names path = namesOf folder ++ [String.ofList name] := by
    rw [← namesOf_folder_append h.folder h.slash h.named, ← h.text, namesOf_dropIdleEnd,
      List.reverse_reverse]
    rfl
  obtain ⟨tail, htail⟩ := dropIdleEnd_suffix path.toList.reverse
  have htext : path.toList = folder ++ (name ++ tail.reverse) := by
    rw [← List.append_assoc, ← h.text, ← List.reverse_append, htail, List.reverse_reverse]
  rw [Path.place, hnames, htext, head?_folder_append h.slash _ h.ne_nil]

/-- The folder that is made has the names in front of the last one. -/
theorem names_of_folder? {made : String} (h : splitName? path = some (folder, name))
    (hmade : folder? path = some made) : names made = namesOf folder := by
  obtain rfl : ((dropIdleEnd path.toList.reverse).dropWhile (· != '/')).reverse = folder := by
    unfold splitName? at h
    simp only at h
    split at h
    · cases h
    · exact congrArg Prod.fst (Option.some.inj h)
  rw [← namesOf_dropIdleEnd]
  unfold folder? at hmade
  simp only at hmade
  split at hmade
  case h_1 hroot =>
    split at hmade <;> cases hmade
    rw [hroot]
    rfl
  case h_2 rest hrest =>
    cases hmade
    rw [names, String.toList_ofList]
    rfl

/-! ## The stem of a name -/

theorem stem_cases (name : List Char) :
    stem name = name ∨
      ∃ extension, '.' ∉ extension ∧ name = stem name ++ '.' :: extension := by
  unfold stem
  simp only
  split
  case isTrue => exact .inl rfl
  case isFalse hstem =>
    right
    refine ⟨(name.reverse.takeWhile (· != '.')).reverse, not_mem_takeWhile '.' _, ?_⟩
    rcases dropWhile_cases '.' name.reverse with hnone | ⟨rest, hrest⟩
    · rw [hnone] at hstem
      exact absurd rfl hstem
    · have hname : (name.reverse.takeWhile (· != '.') ++ name.reverse.dropWhile (· != '.')).reverse =
          name := by rw [List.takeWhile_append_dropWhile, List.reverse_reverse]
      rw [hrest, List.reverse_append, List.reverse_cons, List.append_assoc] at hname
      rw [hrest, List.drop_one, List.tail_cons]
      exact hname.symm

theorem stem_begins (name : List Char) : stem name <+: name := by
  rcases stem_cases name with hwhole | ⟨extension, -, hname⟩
  · exact ⟨[], by rw [List.append_nil, hwhole]⟩
  · exact ⟨_, hname.symm⟩

/-- Behind the stem of the temporary name stand two dots, and behind the stem of a name one at most. -/
theorem stem_append_ne (name : List Char) : stem name ++ temporaryExtension ≠ name := by
  intro heq
  rcases stem_cases name with hwhole | ⟨extension, hdot, hname⟩
  · rw [hwhole, List.append_right_eq_self] at heq
    exact absurd heq (by decide)
  · have hbehind : temporaryExtension = '.' :: extension :=
      List.append_cancel_left (heq.trans hname)
    have hextension : "json.tmp".toList = extension := congrArg List.tail hbehind
    exact hdot (hextension ▸ by decide)

/-! ## The temporary place -/

/-- The temporary file lies in the same folder, under a name of its own. -/
theorem endsIn_temporary (h : splitName? path = some (folder, name)) :
    EndsIn (temporary path) folder (stem name ++ temporaryExtension) := by
  have hends := endsIn_of_splitName? h
  have htext : (temporary path).toList = folder ++ (stem name ++ temporaryExtension) := by
    rw [temporary, h]
    simp
  have hlong : 1 < (stem name ++ temporaryExtension).length := by
    have hextension : temporaryExtension.length = 9 := rfl
    rw [List.length_append]
    omega
  refine ⟨?_, hends.folder, ?_, ?_⟩
  · -- The last character is a letter, so nothing is dropped behind it.
    have hreversed : (folder ++ (stem name ++ temporaryExtension)).reverse =
        'p' :: ("mt.nosj.".toList ++ (folder ++ stem name).reverse) := by
      rw [← List.append_assoc, List.reverse_append]
      rfl
    rw [htext, hreversed, dropIdleEnd, ← hreversed, List.reverse_reverse]
    · simp
    · simp
  · rw [List.mem_append, not_or]
    exact ⟨fun hmem => hends.slash ((stem_begins name).subset hmem), by decide⟩
  · rw [Bool.eq_false_iff]
    intro hidle
    simp only [isIdle, Bool.or_eq_true, beq_iff_eq] at hidle
    rcases hidle with hempty | hdot
    · simp [hempty] at hlong
    · simp [hdot] at hlong

/-- The temporary file is never the file itself, whatever the extension of the file. -/
theorem place_temporary_ne (h : splitName? path = some (folder, name)) :
    Path.place (temporary path) ≠ Path.place path := by
  rw [(endsIn_temporary h).place, (endsIn_of_splitName? h).place]
  intro heq
  have hnames := List.append_cancel_left (congrArg Place.names heq)
  exact stem_append_ne name (String.ofList_injective (List.singleton_inj.1 hnames))

example : ["a", "a.json", "a.tmp", "a.json.tmp", "a.b.c", ".a"].map temporary =
    ["a.json.tmp", "a.json.tmp", "a.json.tmp", "a.json.json.tmp", "a.b.json.tmp", ".a.json.tmp"] := by
  decide

end Path

end MapCatalog
