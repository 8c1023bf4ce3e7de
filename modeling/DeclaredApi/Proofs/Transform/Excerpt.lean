import DeclaredApi.Proofs.Path.Place
import DeclaredApi.Proofs.Transform.Step
import Mathlib.Data.Set.Insert

/-!
# `DeclaredApi.Proofs.Transform.Excerpt`: what plain fields keep of an object

`TransformStep.apply_plain_fields`: a step that lists plain fields never fails on an object, every
field leads to the same in the result as in the data, there is nothing else in the result, and the
result does not depend on the order or the repetitions of the fields.

Fields may overlap, one field may be spelled in several ways, and an array of the data stands in
the result as an object under the spellings that were asked for. `Excerpt paths data result` says
what the result is at every moment, where `paths` are the keys of the fields so far. Where a path
ends the result is the data, and elsewhere it is an object with the keys that the paths go on with,
each holding the excerpt of that child.

* The step lemma `Excerpt.exists_assignAt`: what the data holds at a path can be put there, and the
  excerpt then has that path too. Where all of the data is there already, this changes nothing.
* The run lemma `exists_extract`: the fields of a list, one after the other, give the excerpt at
  the paths that were found (`asked`).
* There is one excerpt at a set of paths (`Excerpt.unique`), so the order of the fields is of no
  account. It is read as the data at each of the paths (`Excerpt.getAt?_eq`), holds nothing at a
  path where the data has nothing (`Excerpt.exists_getAt?`), and nothing aside from the paths
  (`Excerpt.exists_comparable`).
-/

set_option autoImplicit false

namespace DeclaredApi.Json

open DeclaredApi.Path (Step)

/-- What the paths through `key` go on with. -/
def under (key : String) (paths : Set (List String)) : Set (List String) :=
  {rest | key :: rest ∈ paths}

/-- What `result` keeps of `data` when these paths are asked for. -/
inductive Excerpt : Set (List String) → Json → Json → Prop where
  /-- Where a path ends, all of the data is kept. -/
  | whole {paths : Set (List String)} {data : Json} (hend : [] ∈ paths) : Excerpt paths data data
  /-- Where none ends, the result is an object with the keys that the paths go on with. -/
  | part {paths : Set (List String)} {data : Json} {members : Dict Json} (hopen : [] ∉ paths)
      (hsorted : Dict.Sorted members)
      (hkeys : ∀ key, (∃ value, Dict.find? key members = some value) ↔ (under key paths).Nonempty)
      (hchild : ∀ key value, Dict.find? key members = some value →
        ∃ child, data.child? (.key key) = some child)
      (hvalue : ∀ key child value, data.child? (.key key) = some child →
        Dict.find? key members = some value → Excerpt (under key paths) child value) :
      Excerpt paths data (.object members)

variable {paths : Set (List String)} {data result value child : Json} {members : Dict Json}
  {key : String} {names rest : List String}

/-! ### Paths below a key -/

/-- One more path through a key is one more that goes on below it. -/
theorem under_insert_self :
    under key (insert (key :: rest) paths) = insert rest (under key paths) := by
  ext names
  simp [under]

/-- It is none that goes on below another key. -/
theorem under_insert_of_ne {other : String} (h : other ≠ key) :
    under other (insert (key :: rest) paths) = under other paths := by
  ext names
  simp [under, h]

namespace Excerpt

/-! ### One excerpt at a set of paths -/

/-- Where nothing is asked for, nothing is kept. -/
theorem empty (data : Json) : Excerpt ∅ data (.object []) := by
  refine .part (Set.notMem_empty _) Dict.sorted_nil (fun key => ?_) ?_ ?_
  · constructor
    · rintro ⟨value, hfind⟩
      cases hfind
    · rintro ⟨rest, hrest⟩
      exact absurd hrest (Set.notMem_empty _)
  · intro key value hfind
    cases hfind
  · intro key child value _ hfind
    cases hfind

/-- There is one excerpt for each set of paths. -/
theorem unique {other : Json} (h : Excerpt paths data result) (hother : Excerpt paths data other) :
    result = other := by
  induction h generalizing other with
  | whole hend =>
      cases hother with
      | whole _ => rfl
      | part hopen => exact absurd hend hopen
  | @part paths data members hopen hsorted hkeys hchild _ ih =>
      cases hother with
      | whole hend => exact absurd hend hopen
      | @part _ _ members' _ hsorted' hkeys' _ hvalue' =>
          refine congrArg Json.object (Dict.eq_of_find?_eq hsorted hsorted' fun key => ?_)
          cases hfind : Dict.find? key members with
          | none =>
              -- Both hold the same keys.
              cases hfind' : Dict.find? key members' with
              | none => rfl
              | some value' =>
                  obtain ⟨value, hvalue⟩ := (hkeys key).2 ((hkeys' key).1 ⟨value', hfind'⟩)
                  rw [hfind] at hvalue
                  cases hvalue
          | some value =>
              obtain ⟨value', hfind'⟩ := (hkeys' key).2 ((hkeys key).1 ⟨value, hfind⟩)
              obtain ⟨child, hchild⟩ := hchild key value hfind
              rw [hfind', ih key child value hchild hfind (hvalue' key child value' hchild hfind')]

/-! ### Reading an excerpt -/

/-- At a path that was asked for, an excerpt is read as the data is. -/
theorem getAt?_eq (h : Excerpt paths data result) (hmem : names ∈ paths) :
    result.getAt? (names.map .key) = data.getAt? (names.map .key) := by
  induction h generalizing names with
  | whole _ => rfl
  | @part paths data members hopen _ hkeys hchild _ ih =>
      cases names with
      | nil => exact absurd hmem hopen
      | cons key rest =>
          obtain ⟨value, hfind⟩ := (hkeys key).2 ⟨rest, hmem⟩
          obtain ⟨child, hchild⟩ := hchild key value hfind
          show (Dict.find? key members).bind _ = (data.child? (.key key)).bind _
          rw [hfind, hchild]
          exact ih key child value hchild hfind hmem

/-- What an excerpt holds something at, the data holds something at. -/
theorem exists_getAt? (h : Excerpt paths data result)
    (hget : result.getAt? (names.map .key) = some value) :
    ∃ found, data.getAt? (names.map .key) = some found := by
  induction h generalizing names with
  | whole _ => exact ⟨value, hget⟩
  | @part paths data members _ _ _ hchild _ ih =>
      cases names with
      | nil => exact ⟨data, rfl⟩
      | cons key rest =>
          obtain ⟨held, hfind, hget⟩ := Option.bind_eq_some_iff.1 hget
          obtain ⟨child, hchild⟩ := hchild key held hfind
          obtain ⟨found, hfound⟩ := ih key child held hchild hfind hget
          exact ⟨found, Option.bind_eq_some_iff.2 ⟨child, hchild, hfound⟩⟩

/-- What an excerpt holds is on the way to a path that was asked for, or below one. -/
theorem exists_comparable (h : Excerpt paths data result)
    (hget : result.getAt? (names.map .key) = some value) (hnames : names ≠ []) :
    ∃ path ∈ paths, names <+: path ∨ path <+: names := by
  induction h generalizing names with
  | whole hend => exact ⟨[], hend, Or.inr List.nil_prefix⟩
  | @part paths data members _ _ hkeys hchild _ ih =>
      cases names with
      | nil => exact absurd rfl hnames
      | cons key rest =>
          obtain ⟨held, hfind, hget⟩ := Option.bind_eq_some_iff.1 hget
          obtain ⟨child, hchild⟩ := hchild key held hfind
          by_cases hrest : rest = []
          · -- The key is there because some path goes on with it.
            obtain ⟨after, hafter⟩ := (hkeys key).1 ⟨held, hfind⟩
            exact ⟨key :: after, hafter, Or.inl ⟨after, by rw [hrest]; rfl⟩⟩
          · obtain ⟨path, hpath, hcomparable⟩ := ih key child held hchild hfind hget hrest
            refine ⟨key :: path, hpath, hcomparable.imp ?_ ?_⟩
            · exact fun hprefix => List.cons_prefix_cons.2 ⟨rfl, hprefix⟩
            · exact fun hprefix => List.cons_prefix_cons.2 ⟨rfl, hprefix⟩

/-! ### Writing one more path -/

/-- Where there is something below the data, there is room for it in the excerpt. -/
theorem isContainer (h : Excerpt paths data result) (hdata : data.isContainer = true) :
    result.isContainer = true := by
  cases h with
  | whole _ => exact hdata
  | part => rfl

/-- The place of a child is the excerpt of the child, made where it is not there yet. -/
theorem parentOrNew (h : Excerpt paths data (.object members)) (hopen : [] ∉ paths)
    (hchild : data.child? (.key key) = some child) (hcontainer : child.isContainer = true) :
    Excerpt (under key paths) child (Json.parentOrNew (Dict.find? key members)) := by
  cases h with
  | whole hend => exact absurd hend hopen
  | part _ _ hkeys _ hvalue =>
      cases hfind : Dict.find? key members with
      | none =>
          have hnone : under key paths = ∅ := by
            refine Set.not_nonempty_iff_eq_empty.1 fun hnonempty => ?_
            obtain ⟨value, hvalue⟩ := (hkeys key).2 hnonempty
            rw [hfind] at hvalue
            cases hvalue
          rw [hnone]
          exact empty child
      | some value =>
          have hexcerpt := hvalue key child value hchild hfind
          rwa [parentOrNew_some (hexcerpt.isContainer hcontainer)]

/-- An excerpt with a child at one more path is the excerpt at one more path. -/
theorem insertMember (h : Excerpt paths data (.object members)) (hopen : [] ∉ paths)
    (hchild : data.child? (.key key) = some child)
    (hvalue : Excerpt (insert rest (under key paths)) child value) :
    Excerpt (insert (key :: rest) paths) data (.object (Dict.insert key value members)) := by
  cases h with
  | whole hend => exact absurd hend hopen
  | part _ hsorted hkeys hchildren hvalues =>
      -- Under the key there is one more path, and under every other key there are those of before.
      refine .part ?_ (Dict.sorted_insert hsorted key value) ?_ ?_ ?_
      · rintro (heq | hend)
        · cases heq
        · exact hopen hend
      · intro other
        rw [Dict.find?_insert]
        split
        · next heq =>
            subst heq
            rw [under_insert_self]
            exact ⟨fun _ => ⟨rest, Set.mem_insert _ _⟩, fun _ => ⟨value, rfl⟩⟩
        · next hne =>
            rw [under_insert_of_ne (Ne.symm hne)]
            exact hkeys other
      · intro other held hfind
        rw [Dict.find?_insert] at hfind
        split at hfind
        · next heq => exact ⟨child, heq ▸ hchild⟩
        · exact hchildren other held hfind
      · intro other child' held hchild' hfind
        rw [Dict.find?_insert] at hfind
        split at hfind
        · next heq =>
            subst heq
            rw [hchild] at hchild'
            cases hchild'
            cases hfind
            rwa [under_insert_self]
        · next hne =>
            rw [under_insert_of_ne (Ne.symm hne)]
            exact hvalues other child' held hchild' hfind

/-- What the data holds at a path can be put there. -/
theorem exists_assignAt (h : Excerpt paths data result) (hdata : data.Ordered)
    (hget : data.getAt? (names.map .key) = some value) :
    ∃ written, assignAt value (names.map .key) result = (written, none) ∧
      Excerpt (insert names paths) data written := by
  induction names generalizing paths data result with
  | nil =>
      cases hget
      exact ⟨value, rfl, .whole (Set.mem_insert _ _)⟩
  | cons key rest ih =>
      cases h with
      | whole hend =>
          -- All of the data is there already.
          exact ⟨data, assignAt_eq_self hdata hget, .whole (Set.mem_insert_of_mem _ hend)⟩
      | @part _ _ members hopen hsorted hkeys hchildren hvalues =>
          have h := part hopen hsorted hkeys hchildren hvalues
          obtain ⟨child, hchild, hget⟩ := Option.bind_eq_some_iff.1 hget
          have hparent : rest ≠ [] →
              Excerpt (under key paths) child (Json.parentOrNew (Dict.find? key members)) ∧
                (Json.parentOrNew (Dict.find? key members)).isContainer = true := by
            intro hrest
            have hcontainer : child.isContainer = true :=
              isContainer_of_getAt? (by simpa using hrest) hget
            have hexcerpt := h.parentOrNew hopen hchild hcontainer
            exact ⟨hexcerpt, hexcerpt.isContainer hcontainer⟩
          have hbelow : ∃ written,
              assignAt value (rest.map .key) (Json.parentOrNew (Dict.find? key members))
                = (written, none) ∧ Excerpt (insert rest (under key paths)) child written := by
            by_cases hrest : rest = []
            · -- The path ends at the child, so what was there does not count.
              subst hrest
              cases hget
              exact ⟨value, rfl, .whole (Set.mem_insert _ _)⟩
            · exact ih (hparent hrest).1 (hdata.child? hchild) hget
          obtain ⟨written, hassign, hexcerpt⟩ := hbelow
          refine ⟨.object (Dict.insert key written members), ?_,
            h.insertMember hopen hchild hexcerpt⟩
          exact assignAt_object (fun hrest => (hparent (by simpa using hrest)).2) hassign

end Excerpt

/-! ### Fields, one after the other -/

/-- The keys of the fields that lead somewhere in the data. -/
def asked (data : Json) (fields : List String) : Set (List String) :=
  {names | ∃ field ∈ fields, (∃ value, data.get? field.toList = some value) ∧
    names = Path.keys field.toList}

/-- The first field asks by itself. -/
theorem asked_cons (data : Json) (field : String) (fields : List String) :
    asked data (field :: fields) = asked data [field] ∪ asked data fields := by
  ext names
  simp [asked]

/-- One more field is found and put at its path, or is left out. -/
theorem exists_extractField {field : String} (h : Excerpt paths data result)
    (hdata : data.Ordered) (hplain : Path.Plain field.toList) :
    ∃ next, extractField data result field.toList = .ok next ∧
      Excerpt (paths ∪ asked data [field]) data next := by
  have hland : landing? field.toList = some field.toList := by
    rw [landing?, hplain.splitWildcard?]
  cases hget : data.get? field.toList with
  | none =>
      have hnone : asked data [field] = ∅ := by
        simp [asked, hget]
      refine ⟨result, ?_, ?_⟩
      · rw [extractField, hget]
      · rwa [hnone, Set.union_empty]
  | some value =>
      have hfound : asked data [field] = {Path.keys field.toList} := by
        ext names
        simp [asked, hget]
      obtain ⟨next, hassign, hnext⟩ :=
        h.exists_assignAt hdata ((get?_of_plain hplain data).symm.trans hget)
      refine ⟨next, ?_, ?_⟩
      · rw [extractField, hget, hland]
        exact placed_eq_ok_iff.2 (assigned_of_plain hplain hassign)
      · rwa [hfound, Set.union_singleton]

/-- Plain fields add their paths to an excerpt, one after the other. -/
theorem exists_foldlM_extractField {fields : List String} (h : Excerpt paths data result)
    (hdata : data.Ordered) (hplain : ∀ field ∈ fields, Path.Plain field.toList) :
    ∃ final, (fields.map String.toList).foldlM (extractField data) result = .ok final ∧
      Excerpt (paths ∪ asked data fields) data final := by
  induction fields generalizing paths result with
  | nil =>
      have hnone : asked data [] = ∅ := by
        simp [asked]
      exact ⟨result, rfl, by rwa [hnone, Set.union_empty]⟩
  | cons field rest ih =>
      obtain ⟨hfield, hrest⟩ := List.forall_mem_cons.1 hplain
      obtain ⟨next, hnext, hexcerpt⟩ := exists_extractField h hdata hfield
      obtain ⟨final, hfinal, hexcerpt⟩ := ih hexcerpt hrest
      refine ⟨final, ?_, ?_⟩
      · rw [List.map_cons, List.foldlM_cons, hnext]
        exact hfinal
      · rwa [asked_cons, ← Set.union_assoc]

/-- Plain fields of an object never fail, and give its excerpt at the fields that it has. -/
theorem exists_extract {fields : List String} (hdata : (Json.object members).Ordered)
    (hplain : ∀ field ∈ fields, Path.Plain field.toList) :
    ∃ result, (Json.object members).extract (fields.map String.toList) = .ok result ∧
      Excerpt (asked (.object members) fields) (.object members) result := by
  obtain ⟨result, hresult, hexcerpt⟩ :=
    exists_foldlM_extractField (Excerpt.empty (.object members)) hdata hplain
  rw [Set.empty_union] at hexcerpt
  exact ⟨result, hresult, hexcerpt⟩

/-- An excerpt at the fields that the data has is read at each field as the data is. -/
theorem Excerpt.get?_eq {fields : List String} {field : String}
    (h : Excerpt (asked data fields) data result) (hfield : field ∈ fields)
    (hplain : Path.Plain field.toList) :
    result.get? field.toList = data.get? field.toList := by
  have hdata := get?_of_plain hplain data
  have hresult := get?_of_plain hplain result
  cases hget : data.get? field.toList with
  | some value =>
      have hasked : Path.keys field.toList ∈ asked data fields :=
        ⟨field, hfield, ⟨value, hget⟩, rfl⟩
      rw [hresult, h.getAt?_eq hasked, ← hdata, hget]
  | none =>
      cases hheld : result.get? field.toList with
      | none => rfl
      | some held =>
          obtain ⟨found, hfound⟩ := h.exists_getAt? (hresult ▸ hheld)
          rw [← hdata, hget] at hfound
          cases hfound

end DeclaredApi.Json

namespace DeclaredApi.TransformStep

/-- A step that lists plain fields never fails on an object. Every field leads to the same in the
result as in the object, also where it leads nowhere. The result holds nothing but what is on the
way to a field that was found, or below it. A list of the same fields in another order or with
other repetitions has the same result. -/
theorem apply_plain_fields {members : Dict Json} (h : (Json.object members).Ordered)
    {fields : List String} (hfields : fields ≠ [])
    (hplain : ∀ field ∈ fields, Path.Plain field.toList) :
    ∃ result, TransformStep.apply { fields := some fields } (.object members) = .ok result ∧
      (∀ field ∈ fields,
        result.get? field.toList = (Json.object members).get? field.toList) ∧
      (∀ path value, Path.Plain path → Path.keys path ≠ [] → result.get? path = some value →
        ∃ field ∈ fields, (∃ found, (Json.object members).get? field.toList = some found) ∧
          (Path.keys path <+: Path.keys field.toList ∨
            Path.keys field.toList <+: Path.keys path)) ∧
      ∀ others : List String, (∀ field, field ∈ others ↔ field ∈ fields) →
        TransformStep.apply { fields := some others } (.object members) = .ok result := by
  obtain ⟨result, hresult, hexcerpt⟩ := Json.exists_extract h hplain
  refine ⟨result, ?_, ?_, ?_, ?_⟩
  · rw [apply_fields hfields, hresult]
  · intro field hfield
    exact hexcerpt.get?_eq hfield (hplain field hfield)
  · intro path value hpath hkeys hget
    rw [Json.get?_of_plain hpath] at hget
    obtain ⟨_, ⟨field, hfield, hfound, rfl⟩, hcomparable⟩ :=
      hexcerpt.exists_comparable hget hkeys
    exact ⟨field, hfield, hfound, hcomparable⟩
  · intro others hsame
    have hothers : others ≠ [] := by
      obtain ⟨field, hfield⟩ := List.exists_mem_of_ne_nil fields hfields
      exact List.ne_nil_of_mem ((hsame field).2 hfield)
    obtain ⟨result', hresult', hexcerpt'⟩ :=
      Json.exists_extract h fun field hfield => hplain field ((hsame field).1 hfield)
    have hasked : Json.asked (.object members) others = Json.asked (.object members) fields := by
      ext names
      simp only [Json.asked, hsame]
    rw [hasked] at hexcerpt'
    rw [apply_fields hothers, hresult', hexcerpt'.unique hexcerpt]

/-- Two lines of an order, and a note that is null. -/
def inkOrder : Dict Json :=
  [("lines", .array [.object [("sku", .string "pen"), ("unit", .string "box")],
      .object [("sku", .string "ink"), ("unit", .string "jar")]]),
    ("note", .null)]

/-- Fields that overlap, spell a position in three ways, and lead nowhere below the note. -/
def inkOrderFields : List String :=
  ["lines[1].sku", "lines.01", "lines.+1.unit", "note", "note.text", "lines[1]", "lines.01"]

/-- The fields are found in the result and nothing beside them is, in any order and without
repetitions. -/
theorem apply_inkOrderFields :
    ∃ result,
      TransformStep.apply { fields := some inkOrderFields } (.object inkOrder) = .ok result ∧
      (∀ field ∈ inkOrderFields,
        result.get? field.toList = (Json.object inkOrder).get? field.toList) ∧
      result.get? "lines[0]".toList = none ∧
      TransformStep.apply { fields := some inkOrderFields.dedup.reverse } (.object inkOrder)
        = .ok result := by
  have hordered : (Json.object inkOrder).Ordered := by
    simp only [inkOrder, Json.Ordered, Json.OrderedMembers, Json.OrderedItems, Dict.Sorted]
    decide
  have hplain : ∀ field ∈ inkOrderFields, Path.Plain field.toList := by
    decide
  obtain ⟨result, hok, hget, hnothing, hsame⟩ := apply_plain_fields hordered (by decide) hplain
  refine ⟨result, hok, hget, ?_, hsame _ fun field => by rw [List.mem_reverse, List.mem_dedup]⟩
  -- No field goes through the first line or ends above it.
  have hapart : ∀ field ∈ inkOrderFields,
      ¬ (Path.keys "lines[0]".toList <+: Path.keys field.toList ∨
        Path.keys field.toList <+: Path.keys "lines[0]".toList) := by
    decide +kernel
  cases hfirst : result.get? "lines[0]".toList with
  | none => rfl
  | some value =>
      obtain ⟨field, hfield, -, hcomparable⟩ :=
        hnothing _ value (by decide) (by decide +kernel) hfirst
      exact absurd hcomparable (hapart field hfield)

end DeclaredApi.TransformStep
