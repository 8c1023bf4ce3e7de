import DeclaredApi.Dict
import Mathlib.Data.String.Basic

/-!
# `DeclaredApi.Proofs.Dict`: sorted maps

Every map that is built by insertions is `Sorted`: `insert`, `filter` and `ofList` keep the
invariant or establish it. In a sorted map an entry and a look-up are the same thing
(`find?_eq_some_iff`), and a sorted map is the map of its own entries
(`ofList_eq_self`), which is what makes a map that was written to a text come back as it was.

`find?_filter` is the look-up law of a filter that asks for names only. It holds for every
map, sorted or not.
-/

set_option autoImplicit false

namespace DeclaredApi.Dict

variable {α : Type}

/-! ### The invariant -/

/-- The empty map is sorted. -/
theorem sorted_nil : Sorted ([] : Dict α) :=
  List.Pairwise.nil

/-- An entry of a map after an insertion is the new one or an old one. -/
theorem mem_insert_imp {key : String} {value : α} {m : Dict α} {entry : String × α}
    (h : entry ∈ insert key value m) : entry = (key, value) ∨ entry ∈ m := by
  induction m with
  | nil => exact Or.inl (by simpa [insert] using h)
  | cons head rest ih =>
      obtain ⟨k, v⟩ := head
      simp only [insert] at h
      split at h
      · rcases List.mem_cons.mp h with rfl | h
        · exact Or.inl rfl
        · exact Or.inr (List.mem_cons_of_mem _ h)
      · split at h
        · rcases List.mem_cons.mp h with rfl | h
          · exact Or.inl rfl
          · exact Or.inr h
        · rcases List.mem_cons.mp h with rfl | h
          · exact Or.inr List.mem_cons_self
          · exact (ih h).imp_right (List.mem_cons_of_mem _)

/-- An insertion keeps a map sorted. -/
theorem sorted_insert {m : Dict α} (h : Sorted m) (key : String) (value : α) :
    Sorted (insert key value m) := by
  induction m with
  | nil => exact List.pairwise_singleton _ _
  | cons head rest ih =>
      obtain ⟨k, v⟩ := head
      obtain ⟨hhead, hrest⟩ := List.pairwise_cons.mp h
      simp only [insert]
      split
      · next hk => subst hk; exact List.pairwise_cons.mpr ⟨hhead, hrest⟩
      · next hk =>
          split
          · next hlt =>
              refine List.pairwise_cons.mpr ⟨fun entry hmem => ?_, h⟩
              rcases List.mem_cons.mp hmem with rfl | hmem
              · exact hlt
              · exact lt_trans hlt (hhead entry hmem)
          · next hlt =>
              refine List.pairwise_cons.mpr ⟨fun entry hmem => ?_, ih hrest⟩
              rcases mem_insert_imp hmem with rfl | hmem
              · exact lt_of_le_of_ne (not_lt.mp hlt) hk
              · exact hhead entry hmem

/-- A sorted map has no entry twice. -/
theorem nodup_of_sorted {m : Dict α} (h : Sorted m) : m.Nodup :=
  h.imp fun {a b} hlt (heq : a = b) => lt_irrefl b.1 (heq ▸ hlt)

/-- The names of a sorted map are in order. -/
theorem pairwise_keys {m : Dict α} (h : Sorted m) : (keys m).Pairwise (· < ·) :=
  List.pairwise_map.mpr h

/-- Whether a map is sorted depends on its keys alone. -/
theorem sorted_of_keys_eq {β : Type} {m : Dict α} {m' : Dict β} (hkeys : keys m = keys m')
    (h : Sorted m) : Sorted m' := by
  have hpairwise := pairwise_keys h
  rw [hkeys] at hpairwise
  exact List.pairwise_map.mp hpairwise

/-- Dropping entries keeps a map sorted. -/
theorem sorted_filter {m : Dict α} (h : Sorted m) (keep : String × α → Bool) :
    Sorted (m.filter keep) :=
  List.Pairwise.sublist List.filter_sublist h

/-- Insertions into a sorted map give a sorted map. -/
theorem sorted_overlay {base : Dict α} (h : Sorted base) (top : Dict α) :
    Sorted (overlay base top) := by
  induction top generalizing base with
  | nil => exact h
  | cons entry rest ih => exact ih (sorted_insert h entry.1 entry.2)

/-- The map of any list of entries is sorted. -/
theorem sorted_ofList (entries : List (String × α)) : Sorted (ofList entries) :=
  sorted_overlay sorted_nil entries

/-- Every entry of an overlay is from one of the two maps. -/
theorem mem_overlay_imp {base top : Dict α} {entry : String × α} (h : entry ∈ overlay base top) :
    entry ∈ base ∨ entry ∈ top := by
  induction top generalizing base with
  | nil => exact Or.inl h
  | cons first rest ih =>
      rcases ih h with hbase | hrest
      · rcases mem_insert_imp hbase with rfl | hbase
        · exact Or.inr List.mem_cons_self
        · exact Or.inl hbase
      · exact Or.inr (List.mem_cons_of_mem _ hrest)

/-- Every entry of a map comes from the list it was made of. -/
theorem mem_ofList_imp {entries : List (String × α)} {entry : String × α}
    (h : entry ∈ ofList entries) : entry ∈ entries :=
  (mem_overlay_imp h).resolve_left List.not_mem_nil

/-! ### Look-up -/

/-- What is found under a key is there. -/
theorem mem_of_find? {key : String} {value : α} {m : Dict α} (h : find? key m = some value) :
    (key, value) ∈ m := by
  induction m with
  | nil => simp [find?] at h
  | cons entry rest ih =>
      obtain ⟨k, v⟩ := entry
      simp only [find?] at h
      split at h
      · next hk => subst hk; cases h; exact List.mem_cons_self
      · exact List.mem_cons_of_mem _ (ih h)

/-- The names of a map are those that are found. -/
theorem isSome_find?_iff {key : String} {m : Dict α} :
    (find? key m).isSome = true ↔ key ∈ keys m := by
  induction m with
  | nil => simp [find?, keys]
  | cons entry rest ih =>
      obtain ⟨k, v⟩ := entry
      by_cases hkey : k = key
      · simp [find?, keys, hkey]
      · have hne : key ≠ k := Ne.symm hkey
        unfold keys at ih ⊢
        simpa [find?, hkey, hne] using ih

/-- An insertion adds its name, if it is new. -/
theorem mem_keys_insert {key name : String} {value : α} {m : Dict α} :
    name ∈ keys (insert key value m) ↔ name = key ∨ name ∈ keys m := by
  rw [← isSome_find?_iff, ← isSome_find?_iff, find?_insert]
  split
  · next heq => simp [heq]
  · next hne => simp [Ne.symm hne]

/-- A sorted map holds an entry exactly when looking its name up gives its value. -/
theorem find?_eq_some_iff {m : Dict α} (h : Sorted m) {key : String} {value : α} :
    find? key m = some value ↔ (key, value) ∈ m := by
  refine ⟨mem_of_find?, fun hmem => ?_⟩
  induction m with
  | nil => simp at hmem
  | cons entry rest ih =>
      obtain ⟨k, v⟩ := entry
      obtain ⟨hhead, hrest⟩ := List.pairwise_cons.mp h
      rcases List.mem_cons.mp hmem with heq | hmem
      · cases heq
        exact if_pos rfl
      · -- The head comes before the entry, so its name is another one.
        have hne : k ≠ key := ne_of_lt (hhead _ hmem)
        rw [find?, if_neg hne]
        exact ih hrest hmem

/-- Sorted maps in which every name has the same value are the same map. -/
theorem eq_of_find?_eq {m m' : Dict α} (h : Sorted m) (h' : Sorted m')
    (hfind : ∀ key, find? key m = find? key m') : m = m' := by
  have hmem : ∀ entry : String × α, entry ∈ m ↔ entry ∈ m' := by
    intro entry
    rw [← find?_eq_some_iff h, hfind, find?_eq_some_iff h']
  have hperm : m.Perm m' :=
    (List.perm_ext_iff_of_nodup (nodup_of_sorted h) (nodup_of_sorted h')).2 hmem
  exact hperm.eq_of_pairwise (fun a b _ _ hab hba => absurd hba (lt_asymm hab)) h h'

/-- Putting in what is there changes nothing. -/
theorem insert_eq_self {m : Dict α} (h : Sorted m) {key : String} {value : α}
    (hfind : find? key m = some value) : insert key value m = m := by
  refine eq_of_find?_eq (sorted_insert h key value) h fun other => ?_
  rw [find?_insert]
  split
  · next heq => rw [← heq, hfind]
  · rfl

/-- Taking out what is not there changes nothing. -/
theorem erase_eq_self {m : Dict α} {key : String} (h : find? key m = none) : erase key m = m := by
  induction m with
  | nil => rfl
  | cons entry rest ih =>
      obtain ⟨k, v⟩ := entry
      rw [find?] at h
      split at h
      · cases h
      · next hne =>
          have hrest := ih h
          rw [erase] at hrest ⊢
          rw [List.filter_cons_of_pos (by simpa using hne), hrest]

/-- Putting in and taking out under different names can be done in either order. -/
theorem erase_insert_of_ne {m : Dict α} (h : Sorted m) {key other : String} (hne : key ≠ other)
    (value : α) : erase key (insert other value m) = insert other value (erase key m) := by
  have hsorted : Sorted (erase key m) := sorted_filter h _
  refine eq_of_find?_eq (sorted_filter (sorted_insert h other value) _)
    (sorted_insert hsorted other value) fun name => ?_
  rw [find?_erase, find?_insert, find?_insert, find?_erase]
  by_cases hkey : key = name
  · rw [if_pos hkey, if_pos hkey, if_neg fun heq => hne (hkey.trans heq.symm)]
  · rw [if_neg hkey, if_neg hkey]

/-- Taking out what was put in where nothing was changes nothing. -/
theorem erase_insert_self {m : Dict α} (h : Sorted m) {key : String} (hnone : find? key m = none)
    (value : α) : erase key (insert key value m) = m := by
  refine eq_of_find?_eq (sorted_filter (sorted_insert h key value) _) h fun name => ?_
  rw [find?_erase, find?_insert]
  by_cases hkey : key = name
  · rw [if_pos hkey, ← hkey, hnone]
  · rw [if_neg hkey, if_neg hkey]

/-- Looking a name up after a filter that asks for names only. -/
theorem find?_filter (keep : String → Bool) (key : String) (m : Dict α) :
    find? key (m.filter fun entry => keep entry.1)
      = if keep key then find? key m else none := by
  induction m with
  | nil => simp [find?]
  | cons entry rest ih =>
      obtain ⟨k, v⟩ := entry
      by_cases hk : k = key
      · subst hk
        cases hkeep : keep k
        · simp only [hkeep] at ih
          simpa [List.filter_cons, hkeep] using ih
        · simp [hkeep, find?]
      · cases hkeep : keep k
        · simpa [List.filter_cons, hkeep, find?, hk] using ih
        · simpa [List.filter_cons, hkeep, find?, hk] using ih

/-- In a sorted map the first key does not come again. -/
theorem find?_eq_none_of_sorted {key : String} {value : α} {m : Dict α}
    (h : Sorted ((key, value) :: m)) : find? key m = none := by
  rw [Option.eq_none_iff_forall_ne_some]
  intro found hfound
  exact lt_irrefl key ((List.pairwise_cons.mp h).1 _ (mem_of_find? hfound))

/-- Looking a name up after insertions that go by what is under their names. -/
theorem find?_foldl_insert (combine : Option α → α → α) {top : Dict α} (h : Sorted top)
    (base : Dict α) (key : String) :
    find? key (top.foldl (fun m entry => insert entry.1 (combine (find? entry.1 m) entry.2) m) base)
      = ((find? key top).map (combine (find? key base))).or (find? key base) := by
  induction top generalizing base with
  | nil => rfl
  | cons entry rest ih =>
      obtain ⟨k, v⟩ := entry
      rw [List.foldl_cons, ih (List.pairwise_cons.mp h).2 _, find?_insert, find?]
      by_cases hkey : k = key
      · -- The name comes once, so no later insertion changes what is put in here.
        subst hkey
        rw [find?_eq_none_of_sorted h, if_pos rfl, if_pos rfl]
        rfl
      · rw [if_neg hkey, if_neg hkey]

/-- Of two maps laid over each other the upper one is looked at first. -/
theorem find?_overlay {top : Dict α} (h : Sorted top) (base : Dict α) (key : String) :
    find? key (overlay base top) = (find? key top).or (find? key base) := by
  rw [overlay, find?_foldl_insert (fun _ value => value) h base key, Option.map_id_fun', id]

/-- Laying a map over another one a second time changes nothing. -/
theorem overlay_overlay {base top : Dict α} (hbase : Sorted base) (htop : Sorted top) :
    overlay base (overlay base top) = overlay base top := by
  have hsorted := sorted_overlay hbase top
  apply eq_of_find?_eq (sorted_overlay hbase _) hsorted
  intro key
  rw [find?_overlay hsorted, find?_overlay htop, Option.or_assoc, Option.or_self]

/-- Laying a map over itself changes nothing. -/
theorem overlay_self {m : Dict α} (h : Sorted m) : overlay m m = m := by
  apply eq_of_find?_eq (sorted_overlay h m) h
  intro key
  rw [find?_overlay h, Option.or_self]

/-- A key of either map is a key of the overlay. -/
theorem exists_find?_overlay {base top : Dict α} {key : String}
    (h : (∃ value, find? key base = some value) ∨ ∃ value, (key, value) ∈ top) :
    ∃ value, find? key (overlay base top) = some value := by
  induction top generalizing base with
  | nil => exact h.resolve_right (by simp)
  | cons entry rest ih =>
      -- Once a name has a value, no later insertion takes it away.
      refine ih ?_
      by_cases hkey : entry.1 = key
      · exact Or.inl ⟨entry.2, by rw [find?_insert, if_pos hkey]⟩
      · rcases h with ⟨value, hvalue⟩ | ⟨value, hmem⟩
        · exact Or.inl ⟨value, by rw [find?_insert, if_neg hkey, hvalue]⟩
        · rcases List.mem_cons.mp hmem with rfl | hmem
          · exact absurd rfl hkey
          · exact Or.inr ⟨value, hmem⟩

/-- Every name of a list has a value in the map of the list. -/
theorem exists_find?_ofList {entries : List (String × α)} {key : String} {value : α}
    (h : (key, value) ∈ entries) : ∃ found, find? key (ofList entries) = some found :=
  exists_find?_overlay (Or.inr ⟨value, h⟩)

/-- The names of the map of a list are those of the list. -/
theorem mem_keys_ofList {entries : List (String × α)} {key : String} :
    key ∈ keys (ofList entries) ↔ ∃ value, (key, value) ∈ entries := by
  constructor
  · intro h
    obtain ⟨entry, hentry, rfl⟩ := List.mem_map.mp h
    exact ⟨entry.2, mem_ofList_imp hentry⟩
  · rintro ⟨value, hmem⟩
    obtain ⟨found, hfound⟩ := exists_find?_ofList hmem
    exact isSome_find?_iff.mp (Option.isSome_iff_exists.mpr ⟨found, hfound⟩)

/-! ### A sorted map is the map of its entries -/

/-- A name past all others goes to the end. -/
theorem insert_eq_append {m : Dict α} {key : String} (value : α)
    (h : ∀ entry ∈ m, entry.1 < key) : insert key value m = m ++ [(key, value)] := by
  induction m with
  | nil => rfl
  | cons entry rest ih =>
      obtain ⟨k, v⟩ := entry
      have hk : k < key := h _ List.mem_cons_self
      rw [insert, if_neg (ne_of_lt hk), if_neg (not_lt_of_gt hk),
        ih fun entry hmem => h entry (List.mem_cons_of_mem _ hmem)]
      rfl

/-- Laying a map over one whose names all come before its own puts it at the end. -/
theorem overlay_eq_append {base top : Dict α} (h : Sorted (base ++ top)) :
    overlay base top = base ++ top := by
  induction top generalizing base with
  | nil => simp [overlay]
  | cons entry rest ih =>
      obtain ⟨k, v⟩ := entry
      have hlast : ∀ entry ∈ base, entry.1 < k := fun entry hmem =>
        (List.pairwise_append.mp h).2.2 entry hmem (k, v) List.mem_cons_self
      have hsorted : Sorted ((base ++ [(k, v)]) ++ rest) := by simpa using h
      have hstep : overlay base ((k, v) :: rest) = overlay (base ++ [(k, v)]) rest := by
        simp only [overlay, List.foldl_cons, insert_eq_append v hlast]
      rw [hstep, ih hsorted, List.append_assoc]
      rfl

/-- A sorted map is the map of its own entries. -/
theorem ofList_eq_self {m : Dict α} (h : Sorted m) : ofList m = m :=
  overlay_eq_append (show Sorted ([] ++ m) from h)

end DeclaredApi.Dict
