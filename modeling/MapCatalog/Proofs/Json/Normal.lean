import MapCatalog.Json.Basic
import Mathlib.Data.List.Nodup
import Mathlib.Data.String.Basic

/-!
# Documents in normal form

The members of a normal form are in order of their keys, so no key is there twice, and bringing a normal
form into normal form changes nothing.  Where the keys of an object are distinct, its normal form has the
same members in another order, and further members under other keys only come in between.
-/

namespace MapCatalog

namespace Json

/-- What holds of a document when it holds of its parts holds of every document. -/
@[elab_as_elim]
theorem induction {motive : Json → Prop} (null : motive .null) (bool : ∀ flag, motive (.bool flag))
    (number : ∀ value, motive (.number value)) (text : ∀ value, motive (.text value))
    (array : ∀ items, (∀ item ∈ items, motive item) → motive (.array items))
    (object : ∀ members, (∀ entry ∈ members, motive entry.2) → motive (.object members))
    (doc : Json) : motive doc := by
  refine @Json.rec motive (fun items => ∀ item ∈ items, motive item)
    (fun members => ∀ entry ∈ members, motive entry.2) (fun entry => motive entry.2)
    null bool number text array object ?_ ?_ ?_ ?_ ?_ doc
  · exact fun _ h => absurd h List.not_mem_nil
  · exact fun _ _ hitem hrest => List.forall_mem_cons.2 ⟨hitem, hrest⟩
  · exact fun _ h => absurd h List.not_mem_nil
  · exact fun _ _ hentry hrest => List.forall_mem_cons.2 ⟨hentry, hrest⟩
  · exact fun _ _ h => h

/-! ## Members in order -/

def keys (members : Members) : List String :=
  members.map Prod.fst

theorem mem_keys {members : Members} {key : String} {value : Json} (h : (key, value) ∈ members) :
    key ∈ keys members :=
  List.mem_map_of_mem h

theorem exists_of_mem_keys {members : Members} {key : String} (h : key ∈ keys members) :
    ∃ value, (key, value) ∈ members := by
  obtain ⟨⟨_, value⟩, hentry, rfl⟩ := List.mem_map.1 h
  exact ⟨value, hentry⟩

/-- Every member comes before those with a larger key, and no key is there twice. -/
def Sorted (members : Members) : Prop :=
  members.Pairwise fun first second => first.1 < second.1

theorem Sorted.nodup_keys {members : Members} (h : Sorted members) : (keys members).Nodup :=
  List.pairwise_map.2 (h.imp fun hlt => ne_of_lt hlt)

theorem mem_insertIfAbsent {key : String} {value : Json} {members : Members}
    {entry : String × Json} (h : entry ∈ insertIfAbsent key value members) :
    entry = (key, value) ∨ entry ∈ members := by
  induction members with
  | nil =>
      exact .inl (List.mem_singleton.1 h)
  | cons first rest ih =>
      rw [insertIfAbsent] at h
      split at h
      case isTrue => exact List.mem_cons.1 h
      case isFalse =>
        split at h
        case isTrue => exact .inr h
        case isFalse =>
          rcases List.mem_cons.1 h with rfl | hrest
          · exact .inr List.mem_cons_self
          · exact (ih hrest).imp id (List.mem_cons_of_mem first)

theorem mem_keys_insertIfAbsent (key : String) (value : Json) (members : Members)
    (other : String) :
    other ∈ keys (insertIfAbsent key value members) ↔ other = key ∨ other ∈ keys members := by
  induction members with
  | nil =>
      simp [insertIfAbsent, keys]
  | cons first rest ih =>
      rw [insertIfAbsent]
      split
      case isTrue => simp [keys]
      case isFalse =>
        split
        case isTrue heq => simp [keys, heq]
        case isFalse =>
          have hfirst : ∀ others : Members,
              other ∈ keys (first :: others) ↔ other = first.1 ∨ other ∈ keys others :=
            fun others => List.mem_cons
          rw [hfirst, hfirst, ih, or_left_comm]

theorem sorted_insertIfAbsent (key : String) (value : Json) {members : Members}
    (h : Sorted members) : Sorted (insertIfAbsent key value members) := by
  induction members with
  | nil =>
      exact List.pairwise_singleton _ _
  | cons first rest ih =>
      obtain ⟨hfirst, hrest⟩ := List.pairwise_cons.1 h
      rw [insertIfAbsent]
      split
      case isTrue hlt =>
        refine List.pairwise_cons.2 ⟨List.forall_mem_cons.2 ⟨hlt, ?_⟩, h⟩
        exact fun other hother => hlt.trans (hfirst other hother)
      case isFalse hnot =>
        split
        case isTrue => exact h
        case isFalse hne =>
          have hlt : first.1 < key := lt_of_le_of_ne (not_lt.1 hnot) (Ne.symm hne)
          refine List.pairwise_cons.2 ⟨fun other hother => ?_, ih hrest⟩
          rcases mem_insertIfAbsent hother with rfl | hother
          · exact hlt
          · exact hfirst other hother

/-- A member with the least key is put in front. -/
theorem insertIfAbsent_of_least {key : String} {value : Json} {members : Members}
    (h : ∀ entry ∈ members, key < entry.1) :
    insertIfAbsent key value members = (key, value) :: members := by
  cases members with
  | nil =>
      rfl
  | cons first rest =>
      rw [insertIfAbsent, if_pos (h first List.mem_cons_self)]

/-- A member under a key that is not there yet comes to the others. -/
theorem insertIfAbsent_perm {key : String} {value : Json} {members : Members}
    (h : key ∉ keys members) : (insertIfAbsent key value members).Perm ((key, value) :: members) := by
  induction members with
  | nil =>
      exact .refl _
  | cons first rest ih =>
      obtain ⟨hne, hrest⟩ : key ≠ first.1 ∧ key ∉ keys rest := by simpa [keys] using h
      rw [insertIfAbsent]
      split
      case isTrue => exact .refl _
      case isFalse => exact ((ih hrest).cons first).trans (.swap ..)

/-- Members are chosen by their keys before or after another one is put among them. -/
theorem filter_insertIfAbsent (chosen : String → Bool) (key : String) (value : Json)
    {members : Members} (h : Sorted members) :
    ((insertIfAbsent key value members).filter fun entry => chosen entry.1) =
      if chosen key then insertIfAbsent key value (members.filter fun entry => chosen entry.1)
      else members.filter fun entry => chosen entry.1 := by
  induction members with
  | nil =>
      cases hkey : chosen key <;> simp [insertIfAbsent, hkey]
  | cons first rest ih =>
      obtain ⟨hfirst, hrest⟩ := List.pairwise_cons.1 h
      rw [insertIfAbsent]
      split
      case isTrue hlt =>
        have hleast : ∀ entry ∈ (first :: rest).filter fun entry => chosen entry.1,
            key < entry.1 := by
          intro entry hentry
          rcases List.mem_cons.1 (List.mem_filter.1 hentry).1 with rfl | hentry
          · exact hlt
          · exact hlt.trans (hfirst entry hentry)
        rw [insertIfAbsent_of_least hleast, List.filter_cons]
      case isFalse hnot =>
        split
        case isTrue heq =>
          cases hkey : chosen key with
          | false => rfl
          | true =>
              have hthere : chosen first.1 = true := heq ▸ hkey
              simp [hthere, insertIfAbsent, heq]
        case isFalse hne =>
          rw [List.filter_cons, List.filter_cons, ih hrest]
          cases hthere : chosen first.1 <;> cases hkey : chosen key <;>
            simp [insertIfAbsent, hnot, hne]

/-! ## Normal forms -/

theorem sorted_normalizeMembers (members : Members) : Sorted (normalizeMembers members) := by
  induction members with
  | nil =>
      exact List.Pairwise.nil
  | cons entry rest ih =>
      exact sorted_insertIfAbsent entry.1 entry.2.normalize ih

theorem mem_normalizeMembers {members : Members} {entry : String × Json}
    (h : entry ∈ normalizeMembers members) :
    ∃ value, (entry.1, value) ∈ members ∧ entry.2 = value.normalize := by
  induction members with
  | nil =>
      cases h
  | cons first rest ih =>
      rcases mem_insertIfAbsent h with rfl | hrest
      · exact ⟨first.2, List.mem_cons_self, rfl⟩
      · obtain ⟨value, hvalue, hnormal⟩ := ih hrest
        exact ⟨value, List.mem_cons_of_mem first hvalue, hnormal⟩

theorem mem_keys_normalizeMembers (members : Members) (key : String) :
    key ∈ keys (normalizeMembers members) ↔ key ∈ keys members := by
  induction members with
  | nil =>
      rfl
  | cons first rest ih =>
      rw [normalizeMembers, mem_keys_insertIfAbsent, ih]
      exact List.mem_cons.symm

/-- Members in order with values in normal form stay as they are. -/
theorem normalizeMembers_of_sorted {members : Members} (hsorted : Sorted members)
    (hvalues : ∀ entry ∈ members, entry.2.normalize = entry.2) :
    normalizeMembers members = members := by
  induction members with
  | nil =>
      rfl
  | cons first rest ih =>
      obtain ⟨hfirst, hrest⟩ := List.pairwise_cons.1 hsorted
      obtain ⟨hvalue, hvalues⟩ := List.forall_mem_cons.1 hvalues
      rw [normalizeMembers, ih hrest hvalues, insertIfAbsent_of_least hfirst, hvalue]

theorem normalize_normalize (doc : Json) : doc.normalize.normalize = doc.normalize := by
  induction doc using Json.induction with
  | null => rfl
  | bool flag => rfl
  | number value => rfl
  | text value => rfl
  | array items ih =>
      rw [normalize, normalize, normalizeItems_eq_map, normalizeItems_eq_map, List.map_map]
      exact congrArg array (List.map_congr_left ih)
  | object members ih =>
      have hvalues : ∀ entry ∈ normalizeMembers members, entry.2.normalize = entry.2 := by
        intro entry hentry
        obtain ⟨value, hvalue, hnormal⟩ := mem_normalizeMembers hentry
        rw [hnormal]
        exact ih _ hvalue
      rw [normalize, normalize,
        normalizeMembers_of_sorted (sorted_normalizeMembers members) hvalues]

@[simp]
theorem normalizeMembers_normalizeMembers (members : Members) :
    normalizeMembers (normalizeMembers members) = normalizeMembers members := by
  have h := normalize_normalize (.object members)
  rw [normalize, normalize] at h
  exact Json.object.inj h

/-- A member with its value in normal form. -/
def normalizeEntry (entry : String × Json) : String × Json :=
  (entry.1, entry.2.normalize)

theorem keys_map_normalizeEntry (members : Members) :
    keys (members.map normalizeEntry) = keys members := by
  simp [keys, normalizeEntry]

/-- A member is in the normal form as long as no other member has its key. -/
theorem normalizeEntry_mem_normalizeMembers {members : Members} {entry : String × Json}
    (hentry : entry ∈ members) (honly : ∀ value, (entry.1, value) ∈ members → value = entry.2) :
    normalizeEntry entry ∈ normalizeMembers members := by
  have hthere : entry.1 ∈ keys (normalizeMembers members) := by
    rw [mem_keys_normalizeMembers]
    exact mem_keys hentry
  obtain ⟨normal, hnormal⟩ := exists_of_mem_keys hthere
  obtain ⟨value, hvalue, rfl⟩ := mem_normalizeMembers hnormal
  rw [honly value hvalue] at hnormal
  exact hnormal

/-- The normal form of an object without repeated keys has the same members, in another order. -/
theorem normalizeMembers_perm {members : Members} (h : (keys members).Nodup) :
    (normalizeMembers members).Perm (members.map normalizeEntry) := by
  induction members with
  | nil =>
      exact .refl _
  | cons first rest ih =>
      obtain ⟨hnew, hrest⟩ := List.nodup_cons.1 h
      have hnormal : first.1 ∉ keys (normalizeMembers rest) := by
        rwa [mem_keys_normalizeMembers]
      exact (insertIfAbsent_perm hnormal).trans ((ih hrest).cons (normalizeEntry first))

/-- Members are chosen by their keys before or after they are brought into normal form. -/
theorem filter_normalizeMembers (chosen : String → Bool) (members : Members) :
    ((normalizeMembers members).filter fun entry => chosen entry.1) =
      normalizeMembers (members.filter fun entry => chosen entry.1) := by
  induction members with
  | nil =>
      rfl
  | cons first rest ih =>
      rw [normalizeMembers, filter_insertIfAbsent chosen first.1 _ (sorted_normalizeMembers rest),
        ih, List.filter_cons]
      cases chosen first.1 <;> rfl

/-- Members under distinct keys are all in the normal form, and so is nothing else under these keys. -/
theorem perm_filter_normalizeMembers {known added wider : Members}
    (hdistinct : (keys known).Nodup) (hwider : wider.Perm (known ++ added))
    (hadded : ∀ entry ∈ added, entry.1 ∉ keys known) :
    ((normalizeMembers wider).filter fun entry => entry.1 ∈ keys known).Perm
      (known.map normalizeEntry) := by
  have hknown : (known.filter fun entry => entry.1 ∈ keys known) = known :=
    List.filter_eq_self.2 fun entry hentry => by simpa using mem_keys hentry
  have hforeign : (added.filter fun entry => entry.1 ∈ keys known) = [] :=
    List.filter_eq_nil_iff.2 fun entry hentry => by simpa using hadded entry hentry
  have hchosen : (wider.filter fun entry => entry.1 ∈ keys known).Perm known := by
    have hfilter := hwider.filter fun entry => entry.1 ∈ keys known
    rwa [List.filter_append, hknown, hforeign, List.append_nil] at hfilter
  rw [filter_normalizeMembers fun key => key ∈ keys known]
  exact (normalizeMembers_perm ((hchosen.map Prod.fst).nodup_iff.2 hdistinct)).trans
    (hchosen.map normalizeEntry)

theorem exists_perm_normalizeMembers {known added wider : Members}
    (hdistinct : (keys known).Nodup) (hwider : wider.Perm (known ++ added))
    (hadded : ∀ entry ∈ added, entry.1 ∉ keys known) :
    ∃ others, (normalizeMembers wider).Perm (known.map normalizeEntry ++ others) ∧
      ∀ entry ∈ others, entry.1 ∈ keys added := by
  refine ⟨(normalizeMembers wider).filter fun entry => !decide (entry.1 ∈ keys known),
    (List.filter_append_perm _ _).symm.trans
      ((perm_filter_normalizeMembers hdistinct hwider hadded).append_right _), ?_⟩
  intro entry hentry
  obtain ⟨hentry, hforeign⟩ := List.mem_filter.1 hentry
  obtain ⟨value, hvalue, -⟩ := mem_normalizeMembers hentry
  rcases List.mem_append.1 (hwider.mem_iff.1 hvalue) with hvalue | hvalue
  · have hkey : entry.1 ∈ keys known := mem_keys hvalue
    simp [hkey] at hforeign
  · exact mem_keys hvalue

/-! ## Distinct keys -/

mutual

/-- No object in a document has a key twice. -/
def Distinct : Json → Prop
  | .array items => DistinctItems items
  | .object members => (keys members).Nodup ∧ DistinctMembers members
  | .null | .bool _ | .number _ | .text _ => True

def DistinctItems : List Json → Prop
  | [] => True
  | item :: rest => Distinct item ∧ DistinctItems rest

def DistinctMembers : List (String × Json) → Prop
  | [] => True
  | (_, value) :: rest => Distinct value ∧ DistinctMembers rest

end

theorem distinctItems_iff (items : List Json) :
    DistinctItems items ↔ ∀ item ∈ items, item.Distinct := by
  induction items with
  | nil =>
      simp [DistinctItems]
  | cons item rest ih =>
      simp [DistinctItems, ih]

theorem distinctMembers_iff (members : Members) :
    DistinctMembers members ↔ ∀ entry ∈ members, entry.2.Distinct := by
  induction members with
  | nil =>
      simp [DistinctMembers]
  | cons entry rest ih =>
      simp [DistinctMembers, ih]

theorem distinct_array_iff (items : List Json) :
    (Json.array items).Distinct ↔ ∀ item ∈ items, item.Distinct := by
  rw [Distinct, distinctItems_iff]

theorem distinct_object_iff (members : Members) :
    (Json.object members).Distinct ↔
      (keys members).Nodup ∧ ∀ entry ∈ members, entry.2.Distinct := by
  rw [Distinct, distinctMembers_iff]

theorem distinct_normalize (doc : Json) : doc.normalize.Distinct := by
  induction doc using Json.induction with
  | null | bool flag | number value | text value => trivial
  | array items ih =>
      rw [normalize, normalizeItems_eq_map, distinct_array_iff, List.forall_mem_map]
      exact ih
  | object members ih =>
      rw [normalize, distinct_object_iff]
      refine ⟨(sorted_normalizeMembers members).nodup_keys, fun entry hentry => ?_⟩
      obtain ⟨value, hvalue, hnormal⟩ := mem_normalizeMembers hentry
      rw [hnormal]
      exact ih _ hvalue

/-- A document without parts. -/
def isPlain : Json → Bool
  | .null | .bool _ | .number _ | .text _ => true
  | .array _ | .object _ => false

theorem isPlain_ofFloat (x : Binary64) : (ofFloat x).isPlain = true := by
  rw [ofFloat]
  split <;> rfl

theorem distinct_of_isPlain {doc : Json} (h : doc.isPlain = true) : doc.Distinct := by
  cases doc with
  | null | bool flag | number value | text value => trivial
  | array items | object members => cases h

/-- A document without parts is its own normal form, and that of no other document. -/
theorem eq_of_normalize_eq {doc other : Json} (h : doc.isPlain = true)
    (hnormal : other.normalize = doc.normalize) : other = doc := by
  cases doc <;> cases other <;> simp_all [normalize, isPlain]

end Json

end MapCatalog
