import DeclaredApi.Proofs.Cache.History
import DeclaredApi.Proofs.Json.Record

/-!
# `DeclaredApi.Proofs.Cache.Store`: the store file holds what memory holds

Between two operations the file can become anything: others overwrite it, remove it or put a
directory in its place, its own directory is removed, the disk is full, and a store can be opened
again on what it finds. A write that fails
leaves memory ahead of the file. So file and memory can differ in any way before an
operation.

`ofFile_after_commit` says that none of this matters once an operation has changed entries
and succeeded (`Commits`): a store that is opened on the file then holds exactly the entries
of memory. There are two halves to it. An operation that succeeds has written all entries
(`read_of_commits`), and reading what was written gives the same entries
(`entriesOfText_storeText`). For the second half the entries must be sorted by key and hold
sorted values, which every history keeps (`Sound`), must not be nested deeper than a text
may be (`Fits`), and must hold only doubles that are read back (`ReadBack`). What an
operation can do to the entries is said once (`entries_perform_cases`), and what every
history keeps follows from it.
-/

set_option autoImplicit false

namespace DeclaredApi.Cache

open Json (Document Decoder int64_ofInt64 uint64_ofUInt64 mapM_eq_self_iff exists_of_mem_mapM)

/-! ### Reading what was written -/

/-- The entries that were written are not nested too deep to be read. Each entry stands in the
object of all entries. -/
def Fits (entries : Entries) : Prop :=
  ∀ entry ∈ entries, entry.2.json.depth + 1 ≤ Json.maxDepth

/-- The doubles in the data of the entries are read back from their texts. -/
def ReadBack (entries : Entries) : Prop :=
  ∀ entry ∈ entries, entry.2.data.ReadsBack

/-- Entries as a store keeps them: sorted by key, and all objects in their data sorted. -/
structure Sound (entries : Entries) : Prop where
  sorted : Dict.Sorted entries
  ordered : ∀ entry ∈ entries, entry.2.data.Ordered

/-- An entry is one container around its data. -/
theorem depth_json (entry : Entry) : entry.json.depth = entry.data.depth + 1 := by
  simp [Entry.json, Json.depth, Json.depthMembers]

/-- The entry as it is read from the store file, if it is. There its data is one container deeper
than in the entry, which is one deeper than all entries. -/
def Entry.reread? (entry : Entry) : Option Entry :=
  (Document.value? 125 entry.data.document.reread).map fun data => { entry with data }

/-- Integers are read back whatever they are, so only the data of an entry can be lost. -/
theorem decodeEntry_reread (entry : Entry) :
    decodeEntry 126 entry.json.document.reread = entry.reread? := by
  have htimestamp :
      (Json.Number.ofInt64 entry.timestamp).reread = some (.ofInt64 entry.timestamp) :=
    Json.Number.reread_int _ _
  have httl : (Json.Number.ofUInt64 entry.ttl).reread = some (.ofUInt64 entry.ttl) :=
    Json.Number.reread_int _ _
  simp [decodeEntry, Entry.json, Entry.reread?, Json.document, Json.memberDocuments,
    Document.reread, Document.rereadMembers, Json.fields?, Json.knownMembers?, Dict.has,
    Dict.find?, Json.Fields.need?, Decoder.value, htimestamp, httl, int64_ofInt64,
    uint64_ofUInt64, Option.map_eq_bind]

/-- Members that are read again are each read from their value's text. -/
theorem rereadMembers_memberDocuments_map {α : Type} (f : α → Json) (entries : List (String × α)) :
    Document.rereadMembers (Json.memberDocuments (entries.map fun (key, value) => (key, f value)))
      = entries.map fun (key, value) => (some key, (f value).document.reread) := by
  induction entries with
  | nil => rfl
  | cons entry rest ih =>
      rw [List.map_cons, Json.memberDocuments, Document.rereadMembers, ih, List.map_cons]

/-- Entries as they are read from the store file: all of them, or none if one is not read. -/
def reread? (entries : Entries) : Option Entries :=
  entries.mapM fun member => member.2.reread?.map fun entry => (member.1, entry)

/-- What a store holds that is opened on the text of entries. -/
theorem entriesOfText_storeText_eq (entries : Entries) :
    entriesOfText (storeText entries) = ((reread? entries).map Dict.ofList).getD [] := by
  rw [entriesOfText, storeText, Json.render, Document.read?_render, Option.bind_eq_bind,
    Option.bind_some, Json.document, Document.reread, rereadMembers_memberDocuments_map,
    Json.maxDepth, decodeEntries, List.mapM_map, reread?]
  simp only [Option.bind_eq_bind, Option.bind_some, Option.pure_def, decodeEntry_reread,
    Function.comp_def, Option.map_eq_bind]

/-- An entry is read back where it is not too deep and its doubles are read back. -/
theorem Entry.reread?_eq_some {entry : Entry} (hdepth : entry.data.depth ≤ 125)
    (hordered : entry.data.Ordered) (hback : entry.data.ReadsBack) :
    entry.reread? = some entry := by
  rw [Entry.reread?, Document.reread_eq_self_iff.mpr hback,
    Json.value?_document entry.data hdepth hordered]
  rfl

/-- The entries of a store are read back from the text that is written for them. -/
theorem entriesOfText_storeText {entries : Entries} (hsound : Sound entries)
    (hfits : Fits entries) (hback : ReadBack entries) :
    entriesOfText (storeText entries) = entries := by
  have hread : reread? entries = some entries := by
    refine mapM_eq_self_iff.2 fun member hmem => ?_
    -- The entry and the object of all entries take two of the 127 levels.
    have hdepth := hfits member hmem
    rw [depth_json, Json.maxDepth] at hdepth
    rw [Entry.reread?_eq_some (by omega) (hsound.ordered member hmem) (hback member hmem)]
    rfl
  rw [entriesOfText_storeText_eq, hread, Option.map_some, Option.getD_some,
    Dict.ofList_eq_self hsound.sorted]

/-! ### Entries that a store can hold -/

/-- The data of an entry that was read is sorted. -/
theorem ordered_of_decodeEntry {d : Document} {room : Nat} {entry : Entry}
    (h : decodeEntry room d = some entry) : entry.data.Ordered := by
  simp only [decodeEntry, Option.bind_eq_bind, Option.bind_eq_some_iff, Option.pure_def,
    Option.some.injEq] at h
  obtain ⟨record, -, data, hdata, _, -, _, -, rfl⟩ := h
  obtain ⟨d, -, hvalue⟩ := Option.bind_eq_some_iff.1 hdata
  exact Json.ordered_of_value? d hvalue

/-- A text holds no entries or a map of entries that were read from documents. -/
theorem entriesOfText_cases (text : String) : entriesOfText text = [] ∨
    ∃ values, entriesOfText text = Dict.ofList values ∧
      ∀ value ∈ values, ∃ d, decodeEntry 126 d = some value.2 := by
  rw [entriesOfText]
  cases hread : Document.read? text.toList >>= decodeEntries Json.maxDepth with
  | none => exact Or.inl rfl
  | some entries =>
      obtain ⟨d, -, hentries⟩ := Option.bind_eq_some_iff.1 hread
      cases d with
      | object members =>
          obtain ⟨values, hvalues, hentries⟩ := Option.bind_eq_some_iff.1 hentries
          cases hentries
          refine Or.inr ⟨values, rfl, fun value hmem => ?_⟩
          obtain ⟨member, -, hvalue⟩ := exists_of_mem_mapM hvalues hmem
          simp only [Option.bind_eq_bind, Option.bind_eq_some_iff, Option.pure_def,
            Option.some.injEq] at hvalue
          obtain ⟨_, -, _, hentry, rfl⟩ := hvalue
          exact ⟨member.2, hentry⟩
      | _ => cases hentries

/-- The entries of a text are sorted by key. -/
theorem sorted_entriesOfText (text : String) : Dict.Sorted (entriesOfText text) := by
  rcases entriesOfText_cases text with heq | ⟨values, heq, -⟩
  · rw [heq]
    exact Dict.sorted_nil
  · rw [heq]
    exact Dict.sorted_ofList values

/-- Each entry of a text was read from a document in it. -/
theorem exists_decodeEntry_of_mem {text : String} {entry : String × Entry}
    (h : entry ∈ entriesOfText text) : ∃ d, decodeEntry 126 d = some entry.2 := by
  rcases entriesOfText_cases text with heq | ⟨values, heq, hvalues⟩
  · rw [heq] at h
    cases h
  · rw [heq] at h
    exact hvalues entry (Dict.mem_ofList_imp h)

/-- Whatever a file holds, the entries that are read from it are sound. -/
theorem sound_entriesOfText (text : String) : Sound (entriesOfText text) := by
  refine ⟨sorted_entriesOfText text, fun entry hmem => ?_⟩
  obtain ⟨d, hentry⟩ := exists_decodeEntry_of_mem hmem
  exact ordered_of_decodeEntry hentry

/-- Dropping entries keeps the others sound. -/
theorem Sound.filter {entries : Entries} (h : Sound entries) (keep : String × Entry → Bool) :
    Sound (entries.filter keep) :=
  ⟨Dict.sorted_filter h.sorted keep,
    fun entry hmem => h.ordered entry (List.mem_of_mem_filter hmem)⟩

/-- One more entry with sorted data keeps all sound. -/
theorem Sound.insert {entries : Entries} (h : Sound entries) (key : String) {entry : Entry}
    (hentry : entry.data.Ordered) : Sound (Dict.insert key entry entries) := by
  refine ⟨Dict.sorted_insert h.sorted key entry, fun other hmem => ?_⟩
  rcases Dict.mem_insert_imp hmem with rfl | hmem
  · exact hentry
  · exact h.ordered other hmem

/-! ### Histories of a store -/

/-- What can happen to a store. A write fails while the place of the file allows none, so a failed
write is an operation between two changes from outside. -/
inductive Happening where
  /-- The store is asked for an operation. -/
  | asked (now : Int64) (operation : Operation)
  /-- The store is opened again. If that fails, the old one goes on. -/
  | reopen
  /-- Others leave `file` in the place of the store file. -/
  | outside (file : StoreFile)

/-- The data of a `set` is a JSON value, whose objects are sorted. -/
def Operation.Proper : Operation → Prop
  | .set _ data _ => data.Ordered
  | _ => True

/-- Every operation that happens is given proper data. -/
def Happening.Proper : Happening → Prop
  | .asked _ operation => operation.Proper
  | _ => True

/-- The store after one more happening. -/
def Happening.apply (cache : Cache) : Happening → Cache
  | .asked now operation => (perform now operation cache).2
  | .reopen =>
    match openFile cache.file with
    | (.ok (), opened) => opened
    | (.error _, failed) => { cache with file := failed.file }
  | .outside file => { cache with file }

/-- The store after a history. -/
def afterHistory (history : List Happening) (cache : Cache) : Cache :=
  history.foldl Happening.apply cache

/-- The operation changes entries of the store and succeeds: a `set`, `clear` or `clearStart`
that succeeds, an `invalidate` that finds its key, or a `get` that drops an expired entry. -/
def Commits (now : Int64) (operation : Operation) (cache : Cache) : Prop :=
  match operation, (perform now operation cache).1 with
  | .set _ _ _, .ok _ => True
  | .clear, .ok _ => True
  | .clearStart _, .ok _ => True
  | .invalidate _, .ok (.existed true) => True
  | .get key, .ok _ =>
    ∃ entry, Dict.find? key cache.entries = some entry ∧ entry.isExpired now = true
  | _, _ => False

/-! ### What every history keeps -/

/-- A store is opened on a file exactly where opening it succeeds. -/
theorem ofFile_eq_ok_iff {file : StoreFile} {cache : Cache} :
    ofFile file = .ok cache ↔ openFile file = (.ok (), cache) := by
  unfold ofFile
  obtain ⟨_ | _, opened⟩ := openFile file
  · simp
  · simp

/-- A store is opened without entries or with those of a text. -/
theorem entries_ofFile_cases {file : StoreFile} {cache : Cache} (h : ofFile file = .ok cache) :
    cache.entries = [] ∨ ∃ content, cache.entries = entriesOfText content := by
  rw [ofFile_eq_ok_iff] at h
  unfold openFile at h
  simp only at h
  split at h
  · cases h
  · next content _ =>
      cases h
      exact Or.inr ⟨content, rfl⟩
  · -- The file is made, and the entries that are saved are none.
    have hentries := entries_save ({ file := file.withDirectory } : Cache)
    rw [h] at hentries
    exact Or.inl hentries

/-- A store is opened with sound entries. -/
theorem sound_of_ofFile {file : StoreFile} {cache : Cache} (h : ofFile file = .ok cache) :
    Sound cache.entries := by
  rcases entries_ofFile_cases h with heq | ⟨content, heq⟩
  · rw [heq]
    exact ⟨Dict.sorted_nil, by simp⟩
  · rw [heq]
    exact sound_entriesOfText content

/-- Whether it succeeds or not, an operation only drops entries, unless it is a `set`. -/
theorem entries_perform_cases (now : Int64) (operation : Operation) (cache : Cache) :
    (∃ keep, (perform now operation cache).2.entries = cache.entries.filter keep) ∨
    (∃ key data ttl, operation = .set key data ttl ∧ (perform now operation cache).2.entries
      = Dict.insert key { data, timestamp := now, ttl } cache.entries) := by
  have hcourse := course_perform now operation cache
  generalize perform now operation cache = result at hcourse
  cases hcourse with
  | kept r entries => exact Or.inl ⟨fun _ => true, entries.trans (List.filter_true _).symm⟩
  | dropped r keep entries => exact Or.inl ⟨keep, (entries_saveThen _ _).trans entries⟩
  | stored key data ttl => exact Or.inr ⟨key, data, ttl, rfl, entries_saveThen _ _⟩
  | cleared =>
      refine Or.inl ⟨fun _ => false, (entries_saveThen _ _).trans ?_⟩
      exact (List.filter_false _).symm
  | refused => exact Or.inl ⟨fun _ => true, (List.filter_true _).symm⟩

/-- An operation keeps the entries sound, whether it succeeds or not. -/
theorem sound_perform {cache : Cache} (h : Sound cache.entries) (now : Int64)
    {operation : Operation} (hproper : operation.Proper) :
    Sound (perform now operation cache).2.entries := by
  rcases entries_perform_cases now operation cache with ⟨keep, heq⟩ | ⟨key, data, ttl, rfl, heq⟩
  · rw [heq]
    exact h.filter keep
  · rw [heq]
    exact h.insert key hproper

/-- One happening keeps the entries sound. -/
theorem sound_apply {cache : Cache} (h : Sound cache.entries) {happening : Happening}
    (hproper : happening.Proper) : Sound (happening.apply cache).entries := by
  cases happening with
  | asked now operation => exact sound_perform h now hproper
  | reopen =>
      simp only [Happening.apply]
      split
      · next opened hopen => exact sound_of_ofFile (ofFile_eq_ok_iff.mpr hopen)
      · exact h
  | outside file => exact h

/-- Every history keeps the entries sound. -/
theorem sound_afterHistory {cache : Cache} (h : Sound cache.entries) {history : List Happening}
    (hproper : ∀ happening ∈ history, happening.Proper) :
    Sound (afterHistory history cache).entries :=
  List.foldlRecOn (motive := fun cache : Cache => Sound cache.entries) history _ h
    fun _ hsound happening hmem => sound_apply hsound (hproper happening hmem)

/-! ### What a success leaves in the file -/

/-- The reply of an operation that is asked through `perform` succeeds with it. -/
theorem exists_of_reply_ok {α : Type} {wrap : α → Reply} {answer : Except CacheError α × Cache}
    {r : Reply} (h : (reply wrap answer).1 = .ok r) : ∃ a, answer.1 = .ok a ∧ wrap a = r := by
  obtain ⟨_ | a, cache⟩ := answer
  · cases h
  · cases h
    exact ⟨a, rfl, rfl⟩

/-- An operation that changes entries and succeeds has written all entries. -/
theorem read_of_commits {now : Int64} {operation : Operation} {cache : Cache}
    (h : Commits now operation cache) :
    (perform now operation cache).2.file.read
      = .ok (some (storeText (perform now operation cache).2.entries)) := by
  cases hreply : (perform now operation cache).1 with
  | error e => cases operation <;> simp [Commits, hreply] at h
  | ok r =>
      cases operation with
      | get key =>
          -- A read writes only where it drops an entry.
          obtain ⟨a, hok, -⟩ := exists_of_reply_ok hreply
          simp only [Commits, hreply] at h
          obtain ⟨entry, hfind, hexp⟩ := h
          have hget : cache.get now key = saveThen none { cache with
              misses := cache.misses + 1, entries := Dict.erase key cache.entries } := by
            simp only [get, hfind, hexp, if_true]
          show (cache.get now key).2.file.read
            = .ok (some (storeText (cache.get now key).2.entries))
          rw [hget] at hok ⊢
          exact read_of_saveThen_ok hok
      | set key data ttl =>
          obtain ⟨a, hok, -⟩ := exists_of_reply_ok hreply
          exact read_of_save_ok hok
      | invalidate key =>
          obtain ⟨existed, hok, rfl⟩ := exists_of_reply_ok hreply
          show (cache.invalidate key).2.file.read
            = .ok (some (storeText (cache.invalidate key).2.entries))
          unfold invalidate at hok ⊢
          split at hok
          · next hhas =>
              rw [if_pos hhas]
              exact read_of_saveThen_ok hok
          · -- Without the key nothing is written, and the answer is no.
            cases hok
            simp [Commits, hreply] at h
      | clear =>
          obtain ⟨a, hok, -⟩ := exists_of_reply_ok hreply
          show cache.clear.2.file.read = .ok (some (storeText cache.clear.2.entries))
          -- A file that cannot be removed makes it fail before it writes.
          cases hremove : cache.file.removeFault? with
          | some fault =>
              simp only [clear, hremove] at hok
              cases hok
          | none =>
              simp only [clear, hremove] at hok ⊢
              exact read_of_save_ok hok
      | clearStart start =>
          obtain ⟨a, hok, -⟩ := exists_of_reply_ok hreply
          exact read_of_saveThen_ok hok
      | stats => simp [Commits] at h
      | listing => simp [Commits] at h

/-- A store that is opened on a file with a text has the entries of the text. -/
theorem exists_ofFile_of_read {file : StoreFile} {text : String}
    (h : file.read = .ok (some text)) : ∃ opened,
    ofFile file = .ok opened ∧ opened.entries = entriesOfText text := by
  -- Where there is a file its directory is there.
  have hthere : file.withDirectory = file := by
    cases file with
    | adrift => cases h
    | _ => rfl
  refine ⟨{ entries := entriesOfText text, file }, ?_, rfl⟩
  simp only [ofFile, openFile, hthere, h]

/-- After an operation that changes entries and succeeds, a store that is opened on the file
holds exactly the entries of memory, whatever happened before. -/
theorem ofFile_after_commit {file : StoreFile} {start : Cache} (hstart : ofFile file = .ok start)
    {history : List Happening} {now : Int64} {operation : Operation}
    (hproper : ∀ happening ∈ history ++ [.asked now operation], happening.Proper)
    (hcommits : Commits now operation (afterHistory history start))
    (hfits : Fits (perform now operation (afterHistory history start)).2.entries)
    (hback : ReadBack (perform now operation (afterHistory history start)).2.entries) :
    ∃ opened,
      ofFile (perform now operation (afterHistory history start)).2.file = .ok opened ∧
      opened.entries = (perform now operation (afterHistory history start)).2.entries := by
  have hbefore : Sound (afterHistory history start).entries :=
    sound_afterHistory (sound_of_ofFile hstart) fun happening hmem =>
      hproper happening (List.mem_append_left _ hmem)
  have hafter : Sound (perform now operation (afterHistory history start)).2.entries :=
    sound_perform hbefore now (hproper (.asked now operation) (by simp))
  obtain ⟨opened, hopen, hentries⟩ := exists_ofFile_of_read (read_of_commits hcommits)
  exact ⟨opened, hopen, hentries.trans (entriesOfText_storeText hafter hfits hback)⟩

/-- A history in which a write fails, memory runs ahead of the file, and the file is lost. -/
def aheadHistory : List Happening :=
  [.asked 0 (.set "a" .null 1), .outside .blocked, .asked 5 (.set "b" (.bool true) 2),
    .outside .absent]

/-- The expired read of `a` then writes `b`, which no write before it could. -/
theorem ofFile_after_expired_get : ∃ opened,
    ofFile (perform 2000 (.get "a") (afterHistory aheadHistory
      { file := .text (storeText []) })).2.file = .ok opened ∧
    opened.entries = [("b", ⟨.bool true, 5, 2⟩)] := by
  have hentries : (perform 2000 (.get "a") (afterHistory aheadHistory
      { file := .text (storeText []) })).2.entries = [("b", ⟨.bool true, 5, 2⟩)] := by rfl
  rw [← hentries]
  refine ofFile_after_commit
    (show ofFile .absent = .ok { file := .text (storeText []) } from rfl) ?_ ?_ ?_ ?_
  · simp [aheadHistory, Happening.Proper, Operation.Proper, Json.Ordered]
  · exact ⟨⟨.null, 0, 1⟩, rfl, by decide⟩
  · rw [hentries]
    simp [Fits, Entry.json, Json.depth, Json.depthMembers, Json.maxDepth]
  · rw [hentries]
    simp [ReadBack, Json.ReadsBack, Document.ReadsBack, Json.document, Document.tokens]

end DeclaredApi.Cache
