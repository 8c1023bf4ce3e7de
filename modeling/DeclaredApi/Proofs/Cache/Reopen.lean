import DeclaredApi.Proofs.Cache.Store

/-!
# `DeclaredApi.Proofs.Cache.Reopen`: what a store opened after a `set` holds

A text may open 127 containers inside each other. In the store file the data of an entry
stands in two more, the object of its entry and that of all entries, so data can be read back
from the file where it opens at most 125 (`Shallow`). The file is written whatever the data
is, and a file with one entry that cannot be read counts as a file without entries
(`entriesOfText_storeText_eq_nil`). Shallow data is read back as it was if its doubles are
(`entriesOfText_storeText_iff`).

So a `set` succeeds with any data, and what a store holds that is opened afterwards is decided
by the depths and the doubles (`entries_reopened_after_set`). It is nothing at all unless the data
and that of every other entry is shallow (`Legible`), and then it is what memory holds exactly
where all doubles are read back. Data that was read from a file is shallow, so a store stays
legible for as long as only shallow data is set (`fits_afterHistory`).

The data of a response was read from a text, so it opens up to 127 containers. It is not so
that each such response can be set without a loss (`not_reopened_with_all`).
-/

set_option autoImplicit false

namespace DeclaredApi.Cache

open Json (Document mapM_eq_none mapM_eq_some_iff mapM_eq_self_iff room_of_fields?)

/-- The data leaves room for its entry and for the object of all entries. -/
def Shallow (data : Json) : Prop :=
  data.depth + 2 ≤ Json.maxDepth

/-- Entries can be read back from their text where the data of each is shallow. -/
theorem fits_iff_shallow {entries : Entries} :
    Fits entries ↔ ∀ entry ∈ entries, Shallow entry.2.data := by
  simp only [Fits, Shallow, depth_json, Nat.add_assoc, Nat.reduceAdd]

/-! ### What is lost in the file -/

/-- An entry whose data is not shallow is not read. -/
theorem Entry.reread?_eq_none {entry : Entry} (h : ¬ Shallow entry.data) :
    entry.reread? = none := by
  rw [Shallow, Json.maxDepth] at h
  rw [Entry.reread?, Json.value?_reread_eq_none entry.data (by omega)]
  rfl

/-- One entry that is too deep makes the text of all entries one that holds none. -/
theorem entriesOfText_storeText_eq_nil {entries : Entries} (h : ¬ Fits entries) :
    entriesOfText (storeText entries) = [] := by
  simp only [fits_iff_shallow, not_forall] at h
  obtain ⟨member, hmem, hdeep⟩ := h
  have hread : reread? entries = none :=
    mapM_eq_none hmem (by rw [Entry.reread?_eq_none hdeep, Option.map_none])
  rw [entriesOfText_storeText_eq, hread]
  rfl

/-- The entries that are read keep their keys. -/
theorem keys_of_reread? {entries found : Entries} (h : reread? entries = some found) :
    Dict.keys found = Dict.keys entries := by
  have hkeys : List.Forall₂ (fun member other => member.1 = other.1) entries found := by
    refine (mapM_eq_some_iff.1 h).imp fun member other hread => ?_
    obtain ⟨entry, -, rfl⟩ := Option.map_eq_some_iff.1 hread
    rfl
  have hmap := List.forall₂_map_left_iff.2 (List.forall₂_map_right_iff.2 hkeys)
  rw [List.forall₂_eq_eq_eq] at hmap
  exact hmap.symm

/-- An entry is read back only if the doubles in its data are. -/
theorem readsBack_of_reread? {entry : Entry} (hordered : entry.data.Ordered)
    (h : entry.reread? = some entry) : entry.data.ReadsBack := by
  obtain ⟨data, hvalue, hentry⟩ := Option.map_eq_some_iff.1 h
  have hdata : data = entry.data := congrArg Entry.data hentry
  rw [hdata] at hvalue
  exact Json.readsBack_of_value? hordered hvalue

/-- Entries that fit are read back from the text that is written for them exactly if their doubles
are. -/
theorem entriesOfText_storeText_iff {entries : Entries} (hsound : Sound entries)
    (hfits : Fits entries) :
    entriesOfText (storeText entries) = entries ↔ ReadBack entries := by
  refine ⟨fun h member hmem => ?_, entriesOfText_storeText hsound hfits⟩
  rw [entriesOfText_storeText_eq] at h
  cases hread : reread? entries with
  | none =>
      rw [hread] at h
      rw [← h] at hmem
      cases hmem
  | some found =>
      -- The keys are in order, so the map of what is read is what is read.
      have hsorted : Dict.Sorted found :=
        Dict.sorted_of_keys_eq (keys_of_reread? hread).symm hsound.sorted
      rw [hread, Option.map_some, Option.getD_some, Dict.ofList_eq_self hsorted] at h
      rw [h] at hread
      obtain ⟨entry, hentry, heq⟩ := Option.map_eq_some_iff.1 (mapM_eq_self_iff.1 hread member hmem)
      obtain rfl : entry = member.2 := congrArg Prod.snd heq
      exact readsBack_of_reread? (hsound.ordered member hmem) hentry

/-! ### A store of shallow data -/

/-- An entry that is read is no deeper than allowed. -/
theorem depth_le_of_decodeEntry {d : Document} {room : Nat} {entry : Entry}
    (h : decodeEntry room d = some entry) : entry.json.depth ≤ room := by
  simp only [decodeEntry, Option.bind_eq_bind, Option.bind_eq_some_iff, Option.pure_def,
    Option.some.injEq] at h
  obtain ⟨record, hrecord, data, hdata, _, -, _, -, rfl⟩ := h
  obtain ⟨d, -, hvalue⟩ := Option.bind_eq_some_iff.1 hdata
  rw [depth_json, room_of_fields? hrecord]
  exact Nat.succ_le_succ (Json.depth_le_of_value? d hvalue)

/-- Entries that were read from a file can be read from it again. -/
theorem fits_entriesOfText (text : String) : Fits (entriesOfText text) := by
  intro entry hmem
  obtain ⟨d, hentry⟩ := exists_decodeEntry_of_mem hmem
  exact Nat.succ_le_succ (depth_le_of_decodeEntry hentry)

/-- A store is opened with entries that can be read from its file again. -/
theorem fits_of_ofFile {file : StoreFile} {cache : Cache} (h : ofFile file = .ok cache) :
    Fits cache.entries := by
  rcases entries_ofFile_cases h with heq | ⟨content, heq⟩
  · rw [heq]
    exact fun entry hmem => absurd hmem List.not_mem_nil
  · rw [heq]
    exact fits_entriesOfText content

/-- Every `set` that happens is given shallow data. -/
def Happening.Shallow : Happening → Prop
  | .asked _ (.set _ data _) => Cache.Shallow data
  | _ => True

/-- A happening that sets no deep data keeps it so. -/
theorem fits_apply {cache : Cache} (h : Fits cache.entries) {happening : Happening}
    (hshallow : happening.Shallow) : Fits (happening.apply cache).entries := by
  cases happening with
  | asked now operation =>
      simp only [Happening.apply]
      rcases entries_perform_cases now operation cache
        with ⟨keep, heq⟩ | ⟨key, data, ttl, rfl, heq⟩
      · rw [heq]
        exact fun entry hmem => h entry (List.mem_of_mem_filter hmem)
      · rw [heq, fits_iff_shallow]
        intro entry hmem
        rcases Dict.mem_insert_imp hmem with rfl | hmem
        · exact hshallow
        · exact fits_iff_shallow.1 h entry hmem
  | reopen =>
      simp only [Happening.apply]
      split
      · next opened hopen => exact fits_of_ofFile (ofFile_eq_ok_iff.mpr hopen)
      · exact h
  | outside file => exact h

/-- As long as only shallow data is set, all entries can be read from what is written. -/
theorem fits_afterHistory {cache : Cache} (h : Fits cache.entries) {history : List Happening}
    (hshallow : ∀ happening ∈ history, happening.Shallow) :
    Fits (afterHistory history cache).entries :=
  List.foldlRecOn (motive := fun cache : Cache => Fits cache.entries) history _ h
    fun _ hfits happening hmem => fits_apply hfits (hshallow happening hmem)

/-! ### The store that is opened after a `set` -/

/-- The data, and that of every entry under another key, is shallow. -/
structure Legible (entries : Entries) (key : String) (data : Json) : Prop where
  stored : Shallow data
  others : ∀ other entry, other ≠ key → Dict.find? other entries = some entry →
    Shallow entry.data

/-- The new entry is among those that must fit. -/
theorem shallow_of_fits_insert {entries : Entries} {key : String} {entry : Entry}
    (h : Fits (Dict.insert key entry entries)) : Shallow entry.data :=
  fits_iff_shallow.1 h (key, entry)
    (Dict.mem_of_find? (by rw [Dict.find?_insert, if_pos rfl]))

/-- Entries with a new one among them can be read back where all of them are legible. -/
theorem fits_insert_iff {entries : Entries} (hsorted : Dict.Sorted entries) (key : String)
    (entry : Entry) : Fits (Dict.insert key entry entries) ↔ Legible entries key entry.data := by
  have hsorted' := Dict.sorted_insert hsorted key entry
  constructor
  · intro h
    refine ⟨shallow_of_fits_insert h, fun other found hother hfind => ?_⟩
    refine fits_iff_shallow.1 h (other, found) (Dict.mem_of_find? ?_)
    rw [Dict.find?_insert, if_neg hother.symm, hfind]
  · intro h
    refine fits_iff_shallow.2 fun ⟨other, found⟩ hmem => ?_
    -- In a sorted map the entry under the key is the new one.
    rw [← Dict.find?_eq_some_iff hsorted', Dict.find?_insert] at hmem
    split at hmem
    · cases hmem
      exact h.stored
    · next hother => exact h.others other found (Ne.symm hother) hmem

/-- A `set` succeeds where the file can be written, and a store that is opened on the file
afterwards has the entries of the text that the `set` wrote. -/
theorem exists_opened_after_set {before : Cache} (hwritable : before.file.writeFault? = none)
    (now : Int64) (key : String) (data : Json) (ttl : UInt64) : ∃ after opened,
      before.set now key data ttl = (.ok (), after) ∧
      after.entries = Dict.insert key { data, timestamp := now, ttl } before.entries ∧
      ofFile after.file = .ok opened ∧
      opened.entries = entriesOfText (storeText after.entries) := by
  obtain ⟨opened, hopen, hentries⟩ :=
    exists_ofFile_of_read (StoreFile.read_overwrite hwritable
      (storeText (Dict.insert key { data, timestamp := now, ttl } before.entries)))
  exact ⟨_, opened, save_of_writable (by exact hwritable), rfl, hopen, hentries⟩

/-- A `set` succeeds with any data where the file can be written. If all data is legible, a store
that is opened on the file afterwards holds the same entries as memory, with the new one among
them, exactly where the doubles in them are read back. Otherwise it holds nothing at all. Where
only shallow data was set before, the new data alone decides what is legible. -/
theorem entries_reopened_after_set {file : StoreFile} {start before : Cache}
    (hstart : ofFile file = .ok start) {history : List Happening}
    (hproper : ∀ happening ∈ history, happening.Proper)
    (hbefore : afterHistory history start = before) (hwritable : before.file.writeFault? = none)
    (now : Int64) (key : String) {data : Json} (hdata : data.Ordered) (ttl : UInt64) :
    ∃ after opened,
      before.set now key data ttl = (.ok (), after) ∧ ofFile after.file = .ok opened ∧
      (∀ other, Dict.find? other after.entries
        = if key = other then some { data, timestamp := now, ttl }
          else Dict.find? other before.entries) ∧
      (Legible before.entries key data →
        (opened.entries = after.entries ↔ ReadBack after.entries)) ∧
      (¬ Legible before.entries key data → opened.entries = []) ∧
      ((∀ happening ∈ history, happening.Shallow) →
        (Legible before.entries key data ↔ Shallow data)) := by
  have hsound : Sound before.entries :=
    hbefore ▸ sound_afterHistory (sound_of_ofFile hstart) hproper
  have hiff := fits_insert_iff hsound.sorted key { data, timestamp := now, ttl }
  obtain ⟨after, opened, hset, hafter, hopen, hread⟩ :=
    exists_opened_after_set hwritable now key data ttl
  refine ⟨after, opened, hset, hopen, fun other => ?_, fun hlegible => ?_, fun hlegible => ?_,
    fun hshallow => ⟨Legible.stored, fun hnew => ⟨hnew, ?_⟩⟩⟩
  · rw [hafter]
    exact Dict.find?_insert key other _ before.entries
  · rw [hread, hafter]
    exact entriesOfText_storeText_iff (hsound.insert key hdata) (hiff.2 hlegible)
  · rw [hread, hafter]
    exact entriesOfText_storeText_eq_nil (mt hiff.1 hlegible)
  · -- What was read from the first file is shallow, and so is all that was set since.
    intro other entry _ hfind
    have hfits : Fits before.entries :=
      hbefore ▸ fits_afterHistory (fits_of_ofFile hstart) hshallow
    exact fits_iff_shallow.1 hfits _ (Dict.mem_of_find? hfind)

/-- An array in an array, and so on, around null. -/
def nest : Nat → Json
  | 0 => .null
  | n + 1 => .array [nest n]

/-- Each array is one more container. -/
theorem depth_nest (n : Nat) : (nest n).depth = n := by
  induction n with
  | zero => rfl
  | succ n ih => rw [nest, Json.depth, Json.depthItems, Json.depthItems, ih, Nat.max_zero]

/-- There is no object in it that could be out of order. -/
theorem ordered_nest (n : Nat) : (nest n).Ordered := by
  induction n with
  | zero => trivial
  | succ n ih => exact ⟨ih, trivial⟩

/-- There is no double in it that could be lost. -/
theorem readsBack_nest (n : Nat) : (nest n).ReadsBack := by
  refine Document.reread_eq_self_iff.mp ?_
  induction n with
  | zero => rfl
  | succ n ih =>
      rw [nest, Json.document, Json.itemDocuments, Json.itemDocuments, Document.reread,
        Document.rereadItems, Document.rereadItems, ih]

/-- A response of 126 arrays can be read, but not from the file of a store. -/
theorem exists_ofText?_nest : (∃ text, Json.ofText? text = some (nest 126)) ∧
    ¬ Shallow (nest 126) := by
  refine ⟨(Json.exists_ofText?_eq_some_iff (readsBack_nest 126)).2 ⟨ordered_nest 126, ?_⟩, ?_⟩
  · rw [depth_nest, Json.maxDepth]
    decide
  · rw [Shallow, depth_nest, Json.maxDepth]
    decide

/-- A store that is made on an absent file, and is given an entry. -/
def usersHistory : List Happening :=
  [.asked 0 (.set "users" (.bool true) 60)]

/-- Nothing has happened to the file of that store. -/
theorem writable_usersHistory :
    (afterHistory usersHistory { file := .text (storeText []) }).file.writeFault? = none :=
  rfl

/-- The entry is still in memory when data of 126 arrays was set, and gone from a store that is
opened on the file. -/
theorem entries_reopened_after_deep_set : ∃ after opened,
    (afterHistory usersHistory { file := .text (storeText []) }).set 0 "deep" (nest 126) 60
      = (.ok (), after) ∧
    ofFile after.file = .ok opened ∧
    Dict.find? "users" after.entries = some ⟨.bool true, 0, 60⟩ ∧
    opened.entries = [] := by
  obtain ⟨after, opened, hset, hopen, hafter, -, hlost, -⟩ :=
    entries_reopened_after_set (show ofFile .absent = .ok { file := .text (storeText []) } from rfl)
      (by simp [usersHistory, Happening.Proper, Operation.Proper, Json.Ordered])
      (show afterHistory usersHistory _ = _ from rfl) writable_usersHistory
      0 "deep" (ordered_nest 126) 60
  refine ⟨after, opened, hset, hopen, (hafter "users").trans (if_neg (by decide)), hlost ?_⟩
  intro hlegible
  exact exists_ofText?_nest.2 hlegible.stored

/-- It is not so that after each response that could be read from a text is set, a store that is
opened on the file holds every entry of memory. Nothing but requests happened to the store
before. -/
theorem not_reopened_with_all :
    ¬ ∀ (start : Cache) (history : List Happening), ofFile .absent = .ok start →
      (∀ happening ∈ history, happening.Proper ∧
        ∃ now operation, happening = .asked now operation) →
      ∀ (now : Int64) (key text : String) (data : Json) (ttl : UInt64),
      Json.ofText? text = some data →
      ∃ opened,
        ofFile ((afterHistory history start).set now key data ttl).2.file = .ok opened ∧
        ∀ other entry,
          Dict.find? other ((afterHistory history start).set now key data ttl).2.entries
            = some entry → Dict.find? other opened.entries = some entry := by
  intro hkept
  obtain ⟨⟨text, htext⟩, hdeep⟩ := exists_ofText?_nest
  obtain ⟨opened, hopen, hentries⟩ := hkept { file := .text (storeText []) } usersHistory rfl
    (by simp [usersHistory, Happening.Proper, Operation.Proper, Json.Ordered])
    0 "deep" text (nest 126) 60 htext
  obtain ⟨after, other, hset, hafter, hother, hread⟩ :=
    exists_opened_after_set writable_usersHistory 0 "deep" (nest 126) 60
  rw [hset] at hopen hentries
  have hsame : other = opened := Except.ok.inj (hother.symm.trans hopen)
  have hnone : opened.entries = [] := by
    rw [← hsame, hread, hafter]
    exact entriesOfText_storeText_eq_nil fun hfits => hdeep (shallow_of_fits_insert hfits)
  -- Memory still has the entry of the users.
  have husers := hentries "users" ⟨.bool true, 0, 60⟩ (by
    rw [hafter, Dict.find?_insert, if_neg (by decide)]
    rfl)
  rw [hnone] at husers
  cases husers

end DeclaredApi.Cache
