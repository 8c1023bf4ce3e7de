import DeclaredApi.Proofs.Json.Record
import DeclaredApi.Proofs.Service.Names
import DeclaredApi.Service.Encode
import Mathlib.Data.List.Forall2

/-!
# `DeclaredApi.Proofs.Service.RoundTrip`: declarations read back from what is written for them

`load_render`: a service that was loaded from any text is loaded again from the text that is
written for it, and it is exactly the same service, as long as the doubles of its defaults and
schemas are read back from their texts. Nothing about it depends on how the first text
was written: records as objects or arrays, words or objects for words, one step or a chain of
them, absent fields or null ones.

Every decoder of a declaration is `Stable` under its writer, from the parts to the whole. For
records there is one argument. The writer puts each field at its place, under its own name or not
at all (`Layout`), so reading finds in every field what was written there (`Layout.find?_eq`).
Then it depends on the kind of the field: one that must be there (`need?_written`), one that may
be absent or null (`maybe?_written`), a list or map that is left out when it is empty
(`orElse?_written`), and a flag, which is always written (`orElse?_flag`).

Credentials and transforms must be readable as a whole, at the depth at which they stand, before
they are looked at. What is written for credentials is read wherever a record may stand
(`credentials_credentials`), and what is written for a transform is readable because its steps are
(`readable_transformStep`).
-/

set_option autoImplicit false

namespace DeclaredApi.Encode

open Json (Document Decoder fields? knownMembers? room_of_fields?)
open Json.Decoder (Stable)

variable {α : Type}

/-! ### Records -/

/-- The field is left out or has that name. -/
def Field.At (name : String) (field : Field) : Prop :=
  ∀ entry ∈ field, entry.1 = name

/-- The fields are those of a record with these names, each at its place. -/
structure Layout (names : List String) (fields : List Field) : Prop where
  nodup : names.Nodup
  fields_at : List.Forall₂ Field.At names fields

/-- A field that is always written stands under its name. -/
@[simp] theorem at_always (name : String) (d : Document) : Field.At name (always name d) := by
  simp [Field.At, always]

/-- A field that is written if it has a value stands under its name. -/
@[simp] theorem at_maybe (name : String) (encode : α → Document) (value : Option α) :
    Field.At name (maybe name encode value) := by
  cases value <;> simp [Field.At, maybe]

/-- A field that is written unless it is empty stands under its name. -/
@[simp] theorem at_unlessEmpty (name : String) (encode : α → Document) (items : List α) :
    Field.At name (unlessEmpty name encode items) := by
  cases items <;> simp [Field.At, unlessEmpty]

/-- A map that is written unless it has no entries stands under its name. -/
@[simp] theorem at_unlessNoEntries (name : String) (entries : Dict Json) :
    Field.At name (unlessNoEntries name entries) := by
  cases entries <;> simp [Field.At, unlessNoEntries]

/-- No field is found under a name that the record does not have. -/
theorem find?_eq_none {names : List String} {fields : List Field}
    (h : List.Forall₂ Field.At names fields) {name : String} (hname : name ∉ names) :
    Dict.find? name (fields.filterMap id) = none := by
  induction h with
  | nil => rfl
  | @cons first field names fields hfirst _ ih =>
      rw [List.mem_cons, not_or] at hname
      cases field with
      | none => exact ih hname.2
      | some entry =>
          obtain rfl : entry.1 = first := hfirst entry rfl
          show (if entry.1 = name then _ else Dict.find? name (fields.filterMap id)) = _
          rw [if_neg (Ne.symm hname.1), ih hname.2]

namespace Layout

variable {names : List String} {fields : List Field}

/-- What is found under a name is what its field was written with. -/
theorem find?_eq (h : Layout names fields) {i : Nat} {name : String} {field : Field}
    (hname : names[i]? = some name) (hfield : fields[i]? = some field) :
    Dict.find? name (fields.filterMap id) = field.map (·.2) := by
  obtain ⟨hnodup, hat⟩ := h
  induction hat generalizing i with
  | nil => cases hname
  | @cons first written names fields hfirst hrest ih =>
      obtain ⟨hnew, hnames⟩ := List.nodup_cons.1 hnodup
      cases i with
      | zero =>
          cases hname
          cases hfield
          cases field with
          | none => exact find?_eq_none hrest hnew
          | some entry => exact if_pos (hfirst entry rfl)
      | succ i =>
          have hmem : name ∈ names := List.mem_of_getElem? hname
          have hrec := ih hname hfield hnames
          cases written with
          | none => exact hrec
          | some entry =>
              -- The first field has another name, for no name comes twice.
              obtain rfl : entry.1 = first := hfirst entry rfl
              have hne : entry.1 ≠ name := by
                rintro rfl
                exact hnew hmem
              show (if entry.1 = name then _ else Dict.find? name (fields.filterMap id)) = _
              rw [if_neg hne, hrec]

/-- The fields that are written are found in the record, and no others. -/
theorem knownMembers?_eq (h : Layout names fields) :
    knownMembers? names ((fields.filterMap id).map fun (name, value) => (some name, value))
      = some (fields.filterMap id) := by
  obtain ⟨hnodup, hat⟩ := h
  -- The known names stay the same while the induction goes through the record.
  suffices hall : ∀ known : List String, (∀ name ∈ names, name ∈ known) →
      knownMembers? known ((fields.filterMap id).map fun (name, value) => (some name, value))
        = some (fields.filterMap id) from hall names fun _ hmem => hmem
  intro known hknown
  induction hat with
  | nil => rfl
  | @cons first written names fields hfirst hrest ih =>
      obtain ⟨hnew, hnames⟩ := List.nodup_cons.1 hnodup
      rw [List.forall_mem_cons] at hknown
      cases written with
      | none => exact ih hnames hknown.2
      | some entry =>
          obtain rfl : entry.1 = first := hfirst entry rfl
          have hhas : Dict.has entry.1 (fields.filterMap id) = false := by
            rw [Dict.has, find?_eq_none hrest hnew]
            rfl
          have hcontains : known.contains entry.1 = true := by simpa using hknown.1
          show (knownMembers? known _ >>= _) = some (entry :: fields.filterMap id)
          rw [ih hnames hknown.2]
          simp only [hcontains, hhas, Option.bind_eq_bind, Option.bind_some, not_true_eq_false,
            Bool.false_eq_true, if_false]
          rfl

/-- A written record is read as the fields that were written. -/
theorem fields?_record (h : Layout names fields) (room : Nat) :
    fields? names (room + 1) (record fields) = some ⟨room, fields.filterMap id⟩ := by
  show (knownMembers? names _).map (Json.Fields.mk room) = _
  rw [h.knownMembers?_eq]
  rfl

end Layout

/-! ### Fields -/

section Fields

variable {source : Json.Fields} {found : List (String × Document)} {name : String}
  {decode : Decoder α} {encode : α → Document}

/-- A field that must be there is read again from what is written for it. -/
theorem need?_written (h : Stable decode encode) {value : α}
    (hsource : source.need? name decode = some value)
    (hfind : Dict.find? name found = (always name (encode value)).map (·.2)) :
    (Json.Fields.mk source.room found).need? name decode = some value := by
  obtain ⟨d, -, hread⟩ := Option.bind_eq_some_iff.1 hsource
  rw [Json.Fields.need?, hfind]
  exact h source.room d value hread

/-- A field that has a value was read from some document, for an absent field and null have
none. -/
theorem exists_of_maybe? {value : α} (h : source.maybe? name decode = some (some value)) :
    ∃ d, decode source.room d = some value := by
  rw [Json.Fields.maybe?, Json.Fields.orElse?] at h
  split at h
  · cases h
  · unfold Decoder.nullable at h
    split at h
    · cases h
    · exact ⟨_, by simpa using h⟩

/-- A field that is left out where it has no value, and that is never written as null, is read
again. -/
theorem maybe?_written (h : Stable decode encode) (hnull : ∀ value, encode value ≠ .null)
    {value : Option α} (hsource : source.maybe? name decode = some value)
    (hfind : Dict.find? name found = (maybe name encode value).map (·.2)) :
    (Json.Fields.mk source.room found).maybe? name decode = some value := by
  rw [Json.Fields.maybe?, Json.Fields.orElse?, hfind]
  cases value with
  | none => rfl
  | some value =>
      obtain ⟨d, hread⟩ := exists_of_maybe? hsource
      show Decoder.nullable decode source.room (encode value) = _
      unfold Decoder.nullable
      split
      · next heq => exact absurd heq (hnull value)
      · rw [h source.room d value hread]
        rfl

/-- A field that is left out exactly where it has the value that an absent field stands for is
read again. -/
theorem orElse?_written (h : Stable decode encode) {value otherwise : α}
    (hsource : source.orElse? name otherwise decode = some value) {absent : Bool}
    (habsent : absent = true ↔ value = otherwise)
    (hfind : Dict.find? name found = if absent then none else some (encode value)) :
    (Json.Fields.mk source.room found).orElse? name otherwise decode = some value := by
  rw [Json.Fields.orElse?, hfind]
  cases absent with
  | true => exact congrArg some (habsent.1 rfl).symm
  | false =>
      rw [Json.Fields.orElse?] at hsource
      split at hsource
      · exact absurd (habsent.2 (Option.some.inj hsource).symm) (by decide)
      · next d _ => exact h source.room d value hsource

/-- A list that is left out when it is empty is read again. -/
theorem orElse?_unlessEmpty (h : Stable decode encode) {items : List α}
    (hsource : source.orElse? name [] (Decoder.list decode) = some items)
    (hfind : Dict.find? name found = (unlessEmpty name encode items).map (·.2)) :
    (Json.Fields.mk source.room found).orElse? name [] (Decoder.list decode) = some items := by
  refine orElse?_written h.list hsource List.isEmpty_iff (hfind.trans ?_)
  unfold unlessEmpty
  split <;> rfl

/-- A map that is left out when it is empty is read again. -/
theorem orElse?_unlessNoEntries {entries : Dict Json}
    (hsource : source.orElse? name [] Decoder.map = some entries)
    (hfind : Dict.find? name found = (unlessNoEntries name entries).map (·.2)) :
    (Json.Fields.mk source.room found).orElse? name [] Decoder.map = some entries := by
  refine orElse?_written Stable.map hsource List.isEmpty_iff (hfind.trans ?_)
  unfold unlessNoEntries
  split <;> rfl

/-- A flag is always written, so what an absent one stands for is of no account. -/
theorem orElse?_flag {flag otherwise : Bool}
    (hfind : Dict.find? name found = (always name (.bool flag)).map (·.2)) :
    (Json.Fields.mk source.room found).orElse? name otherwise Decoder.bool = some flag := by
  rw [Json.Fields.orElse?, hfind]
  rfl

end Fields

/-- The items of a list may open one container less than the list. -/
theorem room_of_list {decode : Decoder α} {room : Nat} {d : Document} {items : List α}
    (h : Decoder.list decode room d = some items) : ∃ inner, room = inner + 1 ∧
      ∀ item ∈ items, ∃ d, decode inner d = some item := by
  unfold Decoder.list at h
  split at h
  · next inner documents =>
      refine ⟨inner, rfl, fun item hmem => ?_⟩
      obtain ⟨d, -, hread⟩ := Json.exists_of_mem_mapM h hmem
      exact ⟨d, hread⟩
  · cases h

/-! ### Readable documents -/

/-- Every string and number in the document has a value, and it is not too deep. -/
def Readable (room : Nat) (d : Document) : Prop :=
  ∃ j, Document.value? room d = some j

/-- A readable document is passed on as it is. -/
theorem readable?_eq {room : Nat} {d : Document} (h : Readable room d) :
    Decode.readable? room d = some d := by
  obtain ⟨j, hj⟩ := h
  rw [Decode.readable?, hj]
  rfl

/-- A string is readable. -/
theorem readable_ofString (room : Nat) (s : String) : Readable room (.ofString s) :=
  ⟨.string s, rfl⟩

/-- An array of readable items is readable, with room for one container more. -/
theorem readable_array {room : Nat} {items : List Document}
    (h : ∀ item ∈ items, Readable room item) : Readable (room + 1) (.array items) := by
  suffices hitems : ∃ values, Json.itemValues? room items = some values by
    obtain ⟨values, hvalues⟩ := hitems
    exact ⟨.array values, by rw [Document.value?, hvalues]; rfl⟩
  induction items with
  | nil => exact ⟨[], rfl⟩
  | cons item rest ih =>
      rw [List.forall_mem_cons] at h
      obtain ⟨value, hvalue⟩ := h.1
      obtain ⟨values, hvalues⟩ := ih h.2
      exact ⟨value :: values, by rw [Json.itemValues?, hvalue, hvalues]; rfl⟩

/-- An object of readable values is readable, with room for one container more. -/
theorem readable_ofMembers {room : Nat} {members : List (String × Document)}
    (h : ∀ member ∈ members, Readable room member.2) :
    Readable (room + 1) (.ofMembers members) := by
  suffices hmembers : ∃ entries, Json.memberValues? room
      (members.map fun (name, value) => (some name, value)) = some entries by
    obtain ⟨entries, hentries⟩ := hmembers
    refine ⟨.object (Dict.ofList entries), ?_⟩
    rw [Document.ofMembers, Document.value?, hentries]
    rfl
  induction members with
  | nil => exact ⟨[], rfl⟩
  | cons member rest ih =>
      rw [List.forall_mem_cons] at h
      obtain ⟨value, hvalue⟩ := h.1
      obtain ⟨entries, hentries⟩ := ih h.2
      refine ⟨(member.1, value) :: entries, ?_⟩
      rw [List.map_cons, Json.memberValues?, hvalue, hentries]
      rfl

/-! ### Transforms -/

/-- Rename rules keep their order and their repetitions. -/
theorem stable_renameRules : Stable Decode.renameRules renameRules := by
  intro room d rules h
  unfold Decode.renameRules at h
  split at h
  · show ((rules.map _).map _).mapM _ = some rules
    rw [List.map_map]
    exact Json.mapM_map_eq_some fun rule _ => rfl
  · cases h

/-- Rename rules are read from a container, so there was room for one. -/
theorem room_of_renameRules {room : Nat} {d : Document} {rules : List RenameRule}
    (h : Decode.renameRules room d = some rules) : ∃ inner, room = inner + 1 := by
  unfold Decode.renameRules at h
  split at h
  · exact ⟨_, rfl⟩
  · cases h

/-- A step of a transform is read back from what is written for it. -/
theorem stable_transformStep : Stable Decode.transformStep transformStep := by
  intro room d step h
  simp only [Decode.transformStep, Option.bind_eq_bind, Option.bind_eq_some_iff, Option.pure_def,
    Option.some.injEq] at h
  obtain ⟨source, hsource, fields, hfields, rename, hrename, rfl⟩ := h
  obtain rfl := room_of_fields? hsource
  have hlayout : Layout ["fields", "rename"] [
      maybe "fields" (fun fields => .array (fields.map .ofString)) fields,
      maybe "rename" renameRules rename] := ⟨by decide, by simp⟩
  have hfields := maybe?_written Stable.string.list (fun _ heq => by cases heq) hfields
    (hlayout.find?_eq (i := 0) rfl rfl)
  have hrename := maybe?_written stable_renameRules (fun _ heq => by cases heq) hrename
    (hlayout.find?_eq (i := 1) rfl rfl)
  simp only [Decode.transformStep, transformStep, hlayout.fields?_record, hfields, hrename,
    Option.bind_eq_bind, Option.bind_some, Option.pure_def]

/-- A record of readable fields is readable, with room for one container more. -/
theorem readable_record {room : Nat} {fields : List Field}
    (h : ∀ field ∈ fields, ∀ entry ∈ field, Readable room entry.2) :
    Readable (room + 1) (record fields) := by
  refine readable_ofMembers fun entry hmem => ?_
  obtain ⟨field, hfield, hentry⟩ := List.mem_filterMap.1 hmem
  exact h field hfield entry hentry

/-- What is written for a step is readable where the step was read: its list of fields and its
rules are no deeper than those that were read. -/
theorem readable_transformStep {room : Nat} {d : Document} {step : TransformStep}
    (h : Decode.transformStep room d = some step) : Readable room (transformStep step) := by
  simp only [Decode.transformStep, Option.bind_eq_bind, Option.bind_eq_some_iff, Option.pure_def,
    Option.some.injEq] at h
  obtain ⟨source, hsource, fields, hfields, rename, hrename, rfl⟩ := h
  obtain rfl := room_of_fields? hsource
  refine readable_record fun field hmem => ?_
  rcases List.mem_pair.1 hmem with rfl | rfl
  · cases fields with
    | none =>
        intro entry hentry
        cases hentry
    | some names =>
        rintro _ ⟨⟩
        obtain ⟨d, hread⟩ := exists_of_maybe? hfields
        obtain ⟨room, hroom, -⟩ := room_of_list hread
        show Readable source.room (.array (names.map .ofString))
        rw [hroom]
        refine readable_array fun item hitem => ?_
        obtain ⟨s, -, rfl⟩ := List.mem_map.1 hitem
        exact readable_ofString room s
  · cases rename with
    | none =>
        intro entry hentry
        cases hentry
    | some rules =>
        rintro _ ⟨⟩
        obtain ⟨d, hread⟩ := exists_of_maybe? hrename
        obtain ⟨room, hroom⟩ := room_of_renameRules hread
        show Readable source.room (renameRules rules)
        rw [hroom]
        refine readable_ofMembers fun member hmember => ?_
        obtain ⟨rule, -, rfl⟩ := List.mem_map.1 hmember
        exact readable_ofString room rule.target

/-- A transform is never written as null, which would be read as none. -/
theorem transformSpec_ne_null (spec : TransformSpec) : transformSpec spec ≠ .null := by
  intro heq
  cases spec <;> cases heq

/-- A step is written as an object, so it is not taken for a chain. -/
theorem stable_transformSpec : Stable Decode.transformSpec transformSpec := by
  intro room d spec h
  obtain ⟨d, -, h⟩ := Option.bind_eq_some_iff.1 h
  cases hsteps : Decoder.list Decode.transformStep room d with
  | some steps =>
      rw [hsteps] at h
      obtain rfl : .chain steps = spec := Option.some.inj h
      have hback := stable_transformStep.list room d steps hsteps
      obtain ⟨inner, rfl, hall⟩ := room_of_list hsteps
      have hreadable : Readable (inner + 1) (.array (steps.map transformStep)) := by
        refine readable_array fun item hitem => ?_
        obtain ⟨step, hmem, rfl⟩ := List.mem_map.1 hitem
        obtain ⟨d, hread⟩ := hall step hmem
        exact readable_transformStep hread
      rw [transformSpec, Decode.transformSpec, readable?_eq hreadable]
      simp only [Option.bind_eq_bind, Option.bind_some, hback]
      rfl
  | none =>
      rw [hsteps] at h
      obtain ⟨step, hstep, rfl⟩ := Option.map_eq_some_iff.1 h
      rw [transformSpec, Decode.transformSpec, readable?_eq (readable_transformStep hstep)]
      simp only [Option.bind_eq_bind, Option.bind_some, stable_transformStep room d step hstep]
      -- A list is read from an array only.
      cases room <;> rfl

/-! ### Parameters and credentials -/

/-- A schema is read back from what is written for it. -/
theorem stable_schema : Stable Decode.schema schema := by
  intro room d s h
  simp only [Decode.schema, Option.bind_eq_bind, Option.bind_eq_some_iff, Option.pure_def,
    Option.some.injEq] at h
  obtain ⟨source, hsource, kind, hkind, allowed, hallowed, rfl⟩ := h
  obtain rfl := room_of_fields? hsource
  have hlayout : Layout ["type", "enum"] [
      maybe "type" (fun kind => .ofString kind.text) kind,
      maybe "enum" (fun allowed => .array (allowed.map Json.document)) allowed] :=
    ⟨by decide, by simp⟩
  have hkind := maybe?_written (Stable.named ValueKind.find?_names)
    (fun _ heq => by cases heq) hkind (hlayout.find?_eq (i := 0) rfl rfl)
  have hallowed := maybe?_written Stable.value.list (fun _ heq => by cases heq) hallowed
    (hlayout.find?_eq (i := 1) rfl rfl)
  simp only [Decode.schema, schema, hlayout.fields?_record, hkind, hallowed,
    Option.bind_eq_bind, Option.bind_some, Option.pure_def]

/-- A parameter is read back from what is written for it. -/
theorem stable_parameter : Stable Decode.parameter parameter := by
  intro room d p h
  simp only [Decode.parameter, Option.bind_eq_bind, Option.bind_eq_some_iff, Option.pure_def,
    Option.some.injEq] at h
  obtain ⟨source, hsource, name, hname, slot, hslot, required, -, schema, hschema, description,
    hdescription, rfl⟩ := h
  obtain rfl := room_of_fields? hsource
  have hlayout : Layout ["name", "type", "required", "schema", "description"] [
      always "name" (.ofString name), always "type" (.ofString slot.text),
      always "required" (.bool required), maybe "schema" Encode.schema schema,
      maybe "description" .ofString description] := ⟨by decide, by simp⟩
  have hname := need?_written Stable.string hname (hlayout.find?_eq (i := 0) rfl rfl)
  have hslot := need?_written (Stable.named Slot.find?_names) hslot
    (hlayout.find?_eq (i := 1) rfl rfl)
  have hrequired : (Json.Fields.mk source.room _).orElse? "required" false Decoder.bool
      = some required := orElse?_flag (hlayout.find?_eq (i := 2) rfl rfl)
  have hschema := maybe?_written stable_schema (fun _ heq => by cases heq) hschema
    (hlayout.find?_eq (i := 3) rfl rfl)
  have hdescription := maybe?_written Stable.string (fun _ heq => by cases heq) hdescription
    (hlayout.find?_eq (i := 4) rfl rfl)
  simp only [Decode.parameter, parameter, hlayout.fields?_record, hname, hslot, hrequired,
    hschema, hdescription, Option.bind_eq_bind, Option.bind_some, Option.pure_def]

/-- Credentials are read from their record wherever a record may stand. -/
theorem credentials_credentials (c : Credentials) (room : Nat) :
    Decode.credentials (room + 1) (credentials c) = some c := by
  cases c <;> rfl

/-- Credentials are never written as null, which would be read as none. -/
theorem credentials_ne_null (c : Credentials) : credentials c ≠ .null := by
  intro heq
  cases c <;> cases heq

/-- Credentials take a record, whatever their kind. -/
theorem room_of_credentialsOf {kind : String} {room : Nat} {d : Document} {c : Credentials}
    (h : Decode.credentialsOf kind room d = some c) : ∃ inner, room = inner + 1 := by
  have hrecord : ∃ names source, fields? names room d = some source := by
    unfold Decode.credentialsOf at h
    split at h
    · obtain ⟨source, hsource, -⟩ := Option.bind_eq_some_iff.1 h
      exact ⟨_, source, hsource⟩
    · obtain ⟨source, hsource, -⟩ := Option.bind_eq_some_iff.1 h
      exact ⟨_, source, hsource⟩
    · obtain ⟨source, hsource, -⟩ := Option.bind_eq_some_iff.1 h
      exact ⟨_, source, hsource⟩
    · cases h
  obtain ⟨names, source, hsource⟩ := hrecord
  exact ⟨source.room, room_of_fields? hsource⟩

/-- Credentials are read back from what is written for them, in whichever form they were given. -/
theorem stable_credentials : Stable Decode.credentials credentials := by
  intro room d c h
  have hkind : ∃ kind d, Decode.credentialsOf kind room d = some c := by
    obtain ⟨d, -, h⟩ := Option.bind_eq_some_iff.1 h
    split at h
    · obtain ⟨kind, -, h⟩ := Option.bind_eq_some_iff.1 h
      exact ⟨kind, _, h⟩
    · obtain ⟨source, -, h⟩ := Option.bind_eq_some_iff.1 h
      obtain ⟨kind, -, h⟩ := Option.bind_eq_some_iff.1 h
      exact ⟨kind, _, h⟩
  obtain ⟨kind, d, hread⟩ := hkind
  obtain ⟨inner, rfl⟩ := room_of_credentialsOf hread
  exact credentials_credentials c inner

/-! ### Operations, aliases and services -/

/-- An operation is read again where the two fields of its call are. -/
theorem stable_operation {κ : Type} {first second : String} {call : Json.Fields → Option κ}
    {firstText secondText : κ → String}
    (hnames : ["name", first, second, "description", "parameters", "defaultParams", "cacheTTL",
      "transform"].Nodup)
    (hcall : ∀ (source : Json.Fields) (found : List (String × Document)) (value : κ),
      call source = some value →
      Dict.find? first found = some (.ofString (firstText value)) →
      Dict.find? second found = some (.ofString (secondText value)) →
      call ⟨source.room, found⟩ = some value) :
    Stable (Decode.operation first second call) (operation fun value =>
      [always first (.ofString (firstText value)),
        always second (.ofString (secondText value))]) := by
  intro room d op h
  simp only [Decode.operation, Option.bind_eq_bind, Option.bind_eq_some_iff, Option.pure_def,
    Option.some.injEq] at h
  obtain ⟨source, hsource, name, hname, value, hvalue, description, hdescription, parameters,
    hparameters, defaults, hdefaults, cacheSeconds, hcache, transform, htransform, rfl⟩ := h
  obtain rfl := room_of_fields? hsource
  have hlayout : Layout ["name", first, second, "description", "parameters", "defaultParams",
      "cacheTTL", "transform"] [
      always "name" (.ofString name), always first (.ofString (firstText value)),
      always second (.ofString (secondText value)), maybe "description" .ofString description,
      unlessEmpty "parameters" parameter parameters, unlessNoEntries "defaultParams" defaults,
      maybe "cacheTTL" number cacheSeconds, maybe "transform" transformSpec transform] :=
    ⟨hnames, by simp⟩
  -- Every field that was read is read again from the member that the layout has for it.
  have hname := need?_written Stable.string hname (hlayout.find?_eq (i := 0) rfl rfl)
  have hvalue := hcall source _ value hvalue (hlayout.find?_eq (i := 1) rfl rfl)
    (hlayout.find?_eq (i := 2) rfl rfl)
  have hdescription := maybe?_written Stable.string (fun _ heq => by cases heq) hdescription
    (hlayout.find?_eq (i := 3) rfl rfl)
  have hparameters := orElse?_unlessEmpty stable_parameter hparameters
    (hlayout.find?_eq (i := 4) rfl rfl)
  have hdefaults := orElse?_unlessNoEntries hdefaults (hlayout.find?_eq (i := 5) rfl rfl)
  have hcache := maybe?_written Stable.uint64 (fun _ heq => by cases heq) hcache
    (hlayout.find?_eq (i := 6) rfl rfl)
  have htransform := maybe?_written stable_transformSpec transformSpec_ne_null htransform
    (hlayout.find?_eq (i := 7) rfl rfl)
  simp only [Decode.operation, operation, List.cons_append, List.nil_append,
    hlayout.fields?_record, hname, hvalue, hdescription, hparameters, hdefaults, hcache,
    htransform, Option.bind_eq_bind, Option.bind_some, Option.pure_def]

/-- An endpoint is read back from what is written for it. -/
theorem stable_endpoint : Stable Decode.endpoint endpoint := by
  refine stable_operation (by decide) fun source found value h hmethod hpath => ?_
  simp only [Option.bind_eq_bind, Option.bind_eq_some_iff, Option.pure_def, Option.some.injEq] at h
  obtain ⟨method, hread, path, hread', rfl⟩ := h
  have hmethod := need?_written (Stable.named Method.find?_names) hread hmethod
  have hpath := need?_written Stable.string hread' hpath
  simp only [hmethod, hpath, Option.bind_eq_bind, Option.bind_some, Option.pure_def]

/-- A GraphQL operation is read back from what is written for it. -/
theorem stable_graphqlOperation : Stable Decode.graphqlOperation graphqlOperation := by
  refine stable_operation (by decide) fun source found value h hkind hquery => ?_
  simp only [Option.bind_eq_bind, Option.bind_eq_some_iff, Option.pure_def, Option.some.injEq] at h
  obtain ⟨kind, hread, query, hread', rfl⟩ := h
  have hkind := need?_written (Stable.named GraphqlKind.find?_names) hread hkind
  have hquery := need?_written Stable.string hread' hquery
  simp only [hkind, hquery, Option.bind_eq_bind, Option.bind_some, Option.pure_def]

/-- An alias is read back from what is written for it. -/
theorem stable_aliasRecord : Stable Decode.aliasRecord aliasRecord := by
  intro room d a h
  simp only [Decode.aliasRecord, Option.bind_eq_bind, Option.bind_eq_some_iff, Option.pure_def,
    Option.some.injEq] at h
  obtain ⟨source, hsource, name, hname, target, htarget, arguments, harguments, description,
    hdescription, hidden, -, rfl⟩ := h
  obtain rfl := room_of_fields? hsource
  have hlayout : Layout ["name", "endpoint", "args", "description", "hidden"] [
      always "name" (.ofString name), always "endpoint" (.ofString target),
      unlessNoEntries "args" arguments, maybe "description" .ofString description,
      always "hidden" (.bool hidden)] := ⟨by decide, by simp⟩
  have hname := need?_written Stable.string hname (hlayout.find?_eq (i := 0) rfl rfl)
  have htarget := need?_written Stable.string htarget (hlayout.find?_eq (i := 1) rfl rfl)
  have harguments := orElse?_unlessNoEntries harguments (hlayout.find?_eq (i := 2) rfl rfl)
  have hdescription := maybe?_written Stable.string (fun _ heq => by cases heq) hdescription
    (hlayout.find?_eq (i := 3) rfl rfl)
  have hhidden : (Json.Fields.mk source.room _).orElse? "hidden" false Decoder.bool
      = some hidden := orElse?_flag (hlayout.find?_eq (i := 4) rfl rfl)
  simp only [Decode.aliasRecord, aliasRecord, hlayout.fields?_record, hname, htarget, harguments,
    hdescription, hhidden, Option.bind_eq_bind, Option.bind_some, Option.pure_def]

/-- A service is read back from what is written for it. -/
theorem stable_service : Stable Decode.service service := by
  intro room d s h
  simp only [Decode.service, Option.bind_eq_bind, Option.bind_eq_some_iff, Option.pure_def,
    Option.some.injEq] at h
  obtain ⟨source, hsource, name, hname, baseUrl, hbaseUrl, credentials, hcredentials, endpoints,
    hendpoints, graphqlOperations, hgraphql, aliases, haliases, rfl⟩ := h
  obtain rfl := room_of_fields? hsource
  have hlayout : Layout ["serviceName", "baseUrl", "authentication", "endpoints",
      "graphqlOperations", "aliases"] [
      always "serviceName" (.ofString name), always "baseUrl" (.ofString baseUrl),
      maybe "authentication" Encode.credentials credentials,
      unlessEmpty "endpoints" endpoint endpoints,
      unlessEmpty "graphqlOperations" graphqlOperation graphqlOperations,
      unlessEmpty "aliases" aliasRecord aliases] := ⟨by decide, by simp⟩
  have hname := need?_written Stable.string hname (hlayout.find?_eq (i := 0) rfl rfl)
  have hbaseUrl := need?_written Stable.string hbaseUrl (hlayout.find?_eq (i := 1) rfl rfl)
  have hcredentials := maybe?_written stable_credentials credentials_ne_null hcredentials
    (hlayout.find?_eq (i := 2) rfl rfl)
  have hendpoints := orElse?_unlessEmpty stable_endpoint hendpoints
    (hlayout.find?_eq (i := 3) rfl rfl)
  have hgraphql := orElse?_unlessEmpty stable_graphqlOperation hgraphql
    (hlayout.find?_eq (i := 4) rfl rfl)
  have haliases := orElse?_unlessEmpty stable_aliasRecord haliases
    (hlayout.find?_eq (i := 5) rfl rfl)
  simp only [Decode.service, service, hlayout.fields?_record, hname, hbaseUrl, hcredentials,
    hendpoints, hgraphql, haliases, Option.bind_eq_bind, Option.bind_some, Option.pure_def]

end DeclaredApi.Encode

namespace DeclaredApi.Service

open Json (Document Decoder)

/-- A text is read as a service when its tree is. -/
theorem read_eq_ok_iff {text : String} {service : Service} :
    read text = .ok service ↔ Decoder.ofText? Decode.service text = some service := by
  unfold read
  cases Decoder.ofText? Decode.service text with
  | none => simp
  | some found => simp

/-- A service is loaded when it is read and keeps the rules. -/
theorem load_eq_ok_iff {text : String} {service : Service} :
    load text = .ok service ↔ read text = .ok service ∧ service.check = .ok () := by
  rw [load]
  cases read text with
  | error fault => simp [bind, Except.bind]
  | ok found =>
      show (found.check >>= fun _ => .ok found) = .ok service ↔ _
      cases hcheck : found.check with
      | error fault =>
          constructor
          · intro h
            cases h
          · rintro ⟨h, hservice⟩
            cases h
            cases hcheck.symm.trans hservice
      | ok =>
          constructor
          · intro h
            cases h
            exact ⟨rfl, hcheck⟩
          · exact And.left

/-- A service that is read from a text is read again from the text that is written for it, if the
doubles of its values are. -/
theorem read_render {text : String} {service : Service} (h : read text = .ok service)
    (hback : (Encode.service service).ReadsBack) :
    read (Encode.service service).render = .ok service := by
  obtain ⟨d, -, hservice⟩ := Option.bind_eq_some_iff.1 (read_eq_ok_iff.1 h)
  rw [read_eq_ok_iff, Decoder.ofText?, Document.read?_render,
    Document.reread_eq_self_iff.mpr hback]
  exact Encode.stable_service Json.maxDepth d service hservice

/-- A service that was loaded from any text is loaded again from the text that is written for it,
and nothing about it is lost or changed: not the order or the repetitions of rename rules, and no
field of an operation, an alias, a parameter, a transform or the credentials. The doubles of its
values must be read back. -/
theorem load_render {text : String} {service : Service} (h : load text = .ok service)
    (hback : (Encode.service service).ReadsBack) :
    load (Encode.service service).render = .ok service := by
  obtain ⟨hread, hcheck⟩ := load_eq_ok_iff.1 h
  exact load_eq_ok_iff.2 ⟨read_render hread hback, hcheck⟩

/-- A declaration in forms that are never written: records as arrays, a word as an object, and an
empty step. A rename rule is repeated. -/
def terseDocument : Document :=
  .array [.ofString "svc", .ofString "http://h",
    .array [.ofString "basic", .ofString "u", .ofString "p"],
    .array [.array [.ofString "users", .ofMembers [("GET", .null)], .ofString "/u", .null,
      .array [], .object [], .number (some (.int 60 (by decide))),
      .array [.array [], .ofMembers [("rename", .ofMembers
        [("b", .ofString "c"), ("a", .ofString "b"), ("b", .ofString "d")])]]]]]

/-- The service that it declares. -/
def terseService : Service :=
  { name := "svc", baseUrl := "http://h", credentials := some (.basic "u" "p")
    endpoints := [{
      name := "users", call := ⟨.get, "/u"⟩, cacheSeconds := some 60
      transform := some (.chain [{}, { rename := some [⟨"b", "c"⟩, ⟨"a", "b"⟩, ⟨"b", "d"⟩] }]) }] }

/-- The service of the example keeps the rules. -/
theorem check_terseService : terseService.check = .ok () := by
  refine check_of_operations_eq rfl rfl (by decide) (by simp [terseService]) ?_
  exact Operation.check_eq_ok_iff.mpr ⟨by decide, by simp [Operation.template?, Operation.mapCall],
    fun _ => rfl⟩

/-- The terse declaration is loaded as that service. -/
theorem load_terseDocument : load terseDocument.render = .ok terseService := by
  refine load_eq_ok_iff.2 ⟨read_eq_ok_iff.2 ?_, check_terseService⟩
  have hback : terseDocument.ReadsBack := Document.readsBack_of_not_isDouble (by decide)
  rw [Decoder.ofText?, Document.read?_render, Document.reread_eq_self_iff.mpr hback]
  rfl

/-- The rules of the terse declaration keep their order and their repetition when it is written
and loaded again. -/
theorem load_render_terseDocument :
    load terseDocument.render = .ok terseService ∧
      load (Encode.service terseService).render = .ok terseService :=
  ⟨load_terseDocument,
    load_render load_terseDocument (Document.readsBack_of_not_isDouble (by decide))⟩

end DeclaredApi.Service
