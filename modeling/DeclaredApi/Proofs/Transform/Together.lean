import DeclaredApi.Proofs.Transform.Fits

/-!
# `DeclaredApi.Proofs.Transform.Together`: fields alone and fields together

`TransformStep.apply_more_fields`: a step with several fields succeeds where the step of each field
alone does, if no field blocks a later one, and gives what a field alone gives, if no other field
hinders it.

A field blocks a later one if it reshapes a place strictly above that of the later one (`Blocks`):
what it puts there is not what the object holds, so the later field may find a value in its way that
has no members. Fields of which none blocks a later one keep the result fit for all of them
(`exists_foldlM_of_not_blocks`).

A field is not hindered where all other fields land apart from it, or at its place, and those after
it put the same value there (`Unhindered`). The fields before it leave its place open to it
(`Unhindered.openTo`), and those after it leave alone what it has put there
(`Unhindered.getAt?_eq`).

Over an array a field may be read otherwise alone than beside fields that do not start with a
marker: there it keeps its own, and does nothing. `not_apply_more_fields` has examples of all three.
-/

set_option autoImplicit false

namespace DeclaredApi.Json

open DeclaredApi.Path (stripWildcard?)

variable {data built result value : Json} {field : List Char}
  {before after fields : List (List Char)} {names : List String}
  {reshaped : Set (List String)} {members : Dict Json}

/-! ### Fields that block others -/

/-- The place where the field puts something else than the data holds there. -/
def reshapedPlaces (data : Json) (field : List Char) : Set (List String) :=
  {place | ∃ names value, landed? data field = some (names, value) ∧
    data.getAt? (names.map .key) ≠ some value ∧ data.place names = place}

/-- The earlier field puts something else than the data holds strictly above the place where the
later one lands. -/
def Blocks (data : Json) (earlier later : List Char) : Prop :=
  ∃ above ∈ reshapedPlaces data earlier, ∃ names value, landed? data later = some (names, value) ∧
    above <+: data.place names ∧ above ≠ data.place names

/-- One more field finds its place, if no reshaped place is strictly above it. -/
theorem Fits.exists_extractField (h : Fits reshaped data built) (hdata : data.isContainer = true)
    (hbuilt : [] ∉ reshaped → built.isContainer = true)
    (halone : ∃ other alone, extractField data other field = .ok alone)
    (habove : ∀ names value, landed? data field = some (names, value) →
      ∀ place ∈ reshaped, place <+: data.place names → place = data.place names) :
    ∃ next, extractField data built field = .ok next ∧
      Fits (reshaped ∪ reshapedPlaces data field) data next ∧
      ([] ∉ reshaped ∪ reshapedPlaces data field → next.isContainer = true) := by
  obtain ⟨other, alone, halone⟩ := halone
  cases hlanded : landed? data field with
  | none =>
      exact ⟨built, extractField_of_not_landed hlanded built, h.mono Set.subset_union_left,
        fun hopen => hbuilt fun hend => hopen (Or.inl hend)⟩
  | some landed =>
      obtain ⟨names, value⟩ := landed
      obtain ⟨held, hheld, -⟩ := exists_getAt?_of_landed hlanded
      -- What the data holds at the place fits it, and the place of anything else is reshaped.
      have hvalue : value = held ∨ data.place names ∈ reshapedPlaces data field := by
        by_cases hsame : value = held
        · exact Or.inl hsame
        · refine Or.inr ⟨names, value, hlanded, fun heq => hsame ?_, rfl⟩
          exact Option.some.inj (heq.symm.trans hheld)
      have hfits : Fits {rest | data.place names ++ rest ∈ reshaped ∪ reshapedPlaces data field}
          held value := by
        rcases hvalue with rfl | hplace
        · exact .whole
        · refine .reshaped (Or.inr ?_)
          rwa [List.append_nil]
      obtain ⟨next, hassign, hnext, hcontainer⟩ :=
        h.exists_assignAt hbuilt hheld (habove names value hlanded) Set.subset_union_left hfits
      have hplain : ∀ path, landing? field = some path → Path.Plain path := fun path hpath =>
        plain_of_extractField halone hlanded hpath
      refine ⟨next, extractField_of_plain hplain hlanded hassign, hnext, fun hopen => ?_⟩
      by_cases hnames : names = []
      · -- The field puts all of the data in the place of the result.
        subst hnames
        cases hassign
        cases hheld
        rcases hvalue with rfl | hplace
        · exact hdata
        · exact absurd (Or.inr hplace) hopen
      · exact hcontainer hnames

/-- Fields of which none blocks a later one all find their places. -/
theorem exists_foldlM_of_not_blocks (h : Fits reshaped data built) (hdata : data.isContainer = true)
    (hbuilt : [] ∉ reshaped → built.isContainer = true)
    (halone : ∀ field ∈ fields, ∃ other alone, extractField data other field = .ok alone)
    (habove : ∀ field ∈ fields, ∀ names value, landed? data field = some (names, value) →
      ∀ place ∈ reshaped, place <+: data.place names → place = data.place names)
    (hblocks : fields.Pairwise fun earlier later => ¬ Blocks data earlier later) :
    ∃ result, fields.foldlM (extractField data) built = .ok result := by
  induction fields generalizing reshaped built with
  | nil => exact ⟨built, rfl⟩
  | cons field rest ih =>
      obtain ⟨hfield, hrest⟩ := List.forall_mem_cons.1 halone
      obtain ⟨hplace, hplaces⟩ := List.forall_mem_cons.1 habove
      obtain ⟨hfree, hblocks⟩ := List.pairwise_cons.1 hblocks
      obtain ⟨next, hnext, hfits, hcontainer⟩ := h.exists_extractField hdata hbuilt hfield hplace
      have hplaces' : ∀ later ∈ rest, ∀ names value, landed? data later = some (names, value) →
          ∀ place ∈ reshaped ∪ reshapedPlaces data field, place <+: data.place names →
            place = data.place names := by
        rintro later hlater names value hlanded place (hold | hnew) hprefix
        · exact hplaces later hlater names value hlanded place hold hprefix
        · -- The place is reshaped by the field itself, which blocks no later one.
          by_contra hne
          exact hfree later hlater ⟨place, hnew, names, value, hlanded, hprefix, hne⟩
      obtain ⟨result, hresult⟩ := ih hfits hcontainer hrest hplaces' hblocks
      refine ⟨result, ?_⟩
      rw [List.foldlM_cons, hnext]
      exact hresult

/-! ### Fields that hinder others -/

/-- No other field lands above or below the place, and no later one puts something else there. -/
structure Unhindered (data : Json) (before after : List (List Char)) (names : List String)
    (value : Json) : Prop where
  apart : ∀ other ∈ before ++ after, ∀ names' value', landed? data other = some (names', value') →
    names' <+: names ∨ names <+: names' → names' = names
  last : ∀ other ∈ after, ∀ value', landed? data other = some (names, value') → value' = value

/-- The fields before one that is not hindered leave its place open. -/
theorem Unhindered.openTo (h : Unhindered data before after names value)
    (hbefore : before.foldlM (extractField data) (.object []) = .ok built) :
    OpenTo names built := by
  refine of_foldlM_mem_ok (fun start other hmem next hstart hnext => ?_) (openTo_empty names)
    hbefore
  rcases extractField_cases hnext with ⟨-, rfl⟩ | ⟨names', value', hlanded, hassign⟩
  · exact hstart
  · refine hstart.assignAt hassign fun hprefix => ?_
    exact h.apart other (List.mem_append_left _ hmem) names' value' hlanded (Or.inl hprefix)

/-- The fields after one that is not hindered leave what it puts at its place. -/
theorem Unhindered.getAt?_eq (h : Unhindered data before after names value)
    (hopen : OpenTo names built) (hbuilt : built.getAt? (names.map .key) = some value)
    (hafter : after.foldlM (extractField data) built = .ok result) :
    result.getAt? (names.map .key) = some value := by
  have hround : ∀ start, ∀ other ∈ after, ∀ next,
      OpenTo names start ∧ start.getAt? (names.map .key) = some value →
      extractField data start other = .ok next →
      OpenTo names next ∧ next.getAt? (names.map .key) = some value := by
    rintro start other hmem next ⟨hopen, hstart⟩ hnext
    rcases extractField_cases hnext with ⟨-, rfl⟩ | ⟨names', value', hlanded, hassign⟩
    · exact ⟨hopen, hstart⟩
    · have hcomparable := h.apart other (List.mem_append_right _ hmem) names' value' hlanded
      refine ⟨hopen.assignAt hassign fun hprefix => hcomparable (Or.inl hprefix), ?_⟩
      by_cases hsame : names' = names
      · subst hsame
        rw [getAt?_assignAt hassign, h.last other hmem value' hlanded]
      · rw [hopen.getAt?_assignAt hassign (fun hprefix => hsame (hcomparable (Or.inl hprefix)))
          fun hprefix => hsame (hcomparable (Or.inr hprefix)), hstart]
  exact (of_foldlM_mem_ok hround ⟨hopen, hbuilt⟩ hafter).2

/-- A field that is not hindered delivers what it delivers alone. -/
theorem Unhindered.getAt?_extract (h : Unhindered (.object members) before after names value)
    (hlanded : landed? (.object members) field = some (names, value))
    (hresult : (Json.object members).extract (before ++ field :: after) = .ok result) :
    result.getAt? (names.map .key) = some value := by
  rw [extract_object, List.foldlM_append] at hresult
  obtain ⟨start, hstart, hresult⟩ := exists_of_bind_ok hresult
  rw [List.foldlM_cons] at hresult
  obtain ⟨next, hnext, hresult⟩ := exists_of_bind_ok hresult
  have hopen := h.openTo hstart
  rcases extractField_cases hnext with ⟨hnone, -⟩ | ⟨names', value', hlanded', hassign⟩
  · rw [hlanded] at hnone
    cases hnone
  · rw [hlanded] at hlanded'
    cases hlanded'
    exact h.getAt?_eq (hopen.assignAt hassign fun _ => rfl) (getAt?_assignAt hassign) hresult

/-! ### Fields over arrays -/

/-- A field that starts with a marker has no place to land. -/
theorem landed?_of_stripWildcard? (h : (stripWildcard? field).isSome) (data : Json) :
    landed? data field = none := by
  obtain ⟨rest, hrest⟩ := Option.isSome_iff_exists.1 h
  have hcut : Text.cut? Path.wildcardDot field = some ([], rest) := by
    cases field with
    | nil => cases hrest
    | cons c tail =>
        have hprefix : Path.wildcardDot.isPrefixOf? (c :: tail) = some rest := hrest
        rw [Text.cut?, hprefix]
  have hland : landing? field = none := by
    rw [landing?, Path.splitWildcard?, hcut]
  rw [landed?, hland]
  cases data.get? field <;> rfl

/-- Fields succeed together where each of them does alone, if none blocks a later one. Over an array
a field that starts with a marker may also be one that has kept it, and does nothing then. -/
theorem exists_extract_of_not_blocks
    (halone : ∀ field ∈ fields, (∃ alone, data.extract [field] = .ok alone) ∨
      (stripWildcard? field).isSome ∧ ∃ other ∈ fields, stripWildcard? other = none)
    (hblocks : ∀ spot members, data.element? spot = some (.object members) →
      (elementFields^[spot.length] fields).Pairwise fun earlier later =>
        ¬ Blocks (.object members) earlier later) :
    ∃ result, data.extract fields = .ok result := by
  induction data using inductionOnElements generalizing fields with
  | items items ih =>
      have hitem : ∀ item ∈ items, ∃ result, item.extract (elementFields fields) = .ok result := by
        intro item hmem
        obtain ⟨position, hposition⟩ := exists_element?_cons hmem
        refine ih item hmem ?_ fun spot members hspot =>
          hblocks (position :: spot) members ((hposition spot).trans hspot)
        have hone : ∀ field ∈ fields, ∀ alone, (Json.array items).extract [field] = .ok alone →
            ∃ alone, item.extract [(stripWildcard? field).getD field] = .ok alone := by
          intro field _ alone halone
          obtain ⟨reduced, -, hreduced⟩ := extract_array_eq_ok_iff.1 halone
          obtain ⟨position, hitem⟩ := List.mem_iff_getElem?.1 hmem
          obtain ⟨alone, -, hitem⟩ := exists_of_forall₂_getElem? hreduced hitem
          rw [elementFields_singleton] at hitem
          exact ⟨alone, hitem⟩
        by_cases hall : ∀ field ∈ fields, (stripWildcard? field).isSome
        · -- All fields lose their markers, as each of them does alone.
          rw [elementFields, mapM_getD_of_isSome hall]
          intro inner hinner
          obtain ⟨field, hfield, rfl⟩ := List.mem_map.1 hinner
          rcases halone field hfield with ⟨alone, halone⟩ | ⟨-, other, hother, hnone⟩
          · exact Or.inl (hone field hfield alone halone)
          · have hsome := hall other hother
            rw [hnone] at hsome
            cases hsome
        · -- All fields keep their texts, and there is one without a marker.
          obtain ⟨kept, hkept⟩ := not_forall.1 hall
          obtain ⟨hkept, hnone⟩ := Classical.not_imp.1 hkept
          have hnone := Option.not_isSome_iff_eq_none.1 hnone
          rw [elementFields, mapM_getD_of_none hkept hnone]
          intro field hfield
          cases hstrip : stripWildcard? field with
          | some inner => exact Or.inr ⟨rfl, kept, hkept, hnone⟩
          | none =>
              rcases halone field hfield with ⟨alone, halone⟩ | ⟨hsome, -⟩
              · have halone := hone field hfield alone halone
                rw [hstrip] at halone
                exact Or.inl halone
              · rw [hstrip] at hsome
                cases hsome
      obtain ⟨reduced, hreduced⟩ := exists_forall₂_of_forall hitem
      exact ⟨_, extract_array_eq_ok_iff.2 ⟨reduced, rfl, hreduced⟩⟩
  | other data hdata =>
      cases data with
      | array items => exact absurd rfl (hdata items)
      | object members =>
          rw [extract_object]
          have hstart : Fits ∅ (.object members) (.object []) := Fits.empty rfl
          refine exists_foldlM_of_not_blocks hstart rfl (fun _ => rfl) ?_
            (fun _ _ _ _ _ _ hplace => absurd hplace (Set.notMem_empty _)) (hblocks [] members rfl)
          intro field hfield
          rcases halone field hfield with ⟨alone, halone⟩ | ⟨hsome, -⟩
          · rw [extract_object, List.foldlM_cons] at halone
            obtain ⟨alone, halone, -⟩ := exists_of_bind_ok halone
            exact ⟨_, alone, halone⟩
          · have hnone := landed?_of_stripWildcard? hsome (.object members)
            exact ⟨_, _, extractField_of_not_landed hnone (.object [])⟩
      | _ => exact ⟨_, rfl⟩

end DeclaredApi.Json

namespace DeclaredApi.TransformStep

/-- A step with several fields, where the step of each field alone succeeds. It succeeds too, if in
no object that is reached through arrays alone a field blocks a later one. And where it succeeds, a
field of such an object gives what it gives alone, if it has lost its markers as it does alone and
no other field of the object hinders it. -/
theorem apply_more_fields {fields : List String} {data : Json}
    (halone : ∀ field ∈ fields,
      ∃ alone, TransformStep.apply { fields := some [field] } data = .ok alone) :
    ((∀ spot members, data.element? spot = some (.object members) →
        (Json.elementFields^[spot.length] (fields.map String.toList)).Pairwise fun earlier later =>
          ¬ Json.Blocks (.object members) earlier later) →
      ∃ result, TransformStep.apply { fields := some fields } data = .ok result) ∧
    ∀ result, TransformStep.apply { fields := some fields } data = .ok result →
      ∀ field ∈ fields, ∀ alone,
        TransformStep.apply { fields := some [field] } data = .ok alone →
        ∀ spot members inner before after names value,
          data.element? spot = some (.object members) →
          Json.elementFields^[spot.length] [field.toList] = [inner] →
          Json.elementFields^[spot.length] (fields.map String.toList) = before ++ inner :: after →
          Json.landed? (.object members) inner = some (names, value) →
          Json.Unhindered (.object members) before after names value →
          ∃ keptAlone kept, alone.element? spot = some keptAlone ∧
            result.element? spot = some kept ∧
            keptAlone.getAt? (names.map .key) = some value ∧
            kept.getAt? (names.map .key) = some value := by
  constructor
  · intro hblocks
    by_cases hfields : fields = []
    · subst hfields
      exact ⟨data, rfl⟩
    · rw [apply_fields hfields]
      refine Json.exists_extract_of_not_blocks ?_ hblocks
      intro path hpath
      obtain ⟨field, hfield, rfl⟩ := List.mem_map.1 hpath
      obtain ⟨alone, halone⟩ := halone field hfield
      rw [apply_fields (List.cons_ne_nil _ _)] at halone
      exact Or.inl ⟨alone, halone⟩
  · intro result hresult field hfield alone halone spot members inner before after names value hspot
      hinner hinside hlanded hfree
    rw [apply_fields (List.ne_nil_of_mem hfield)] at hresult
    rw [apply_fields (List.cons_ne_nil _ _)] at halone
    obtain ⟨kept, hkept, hextract⟩ := Json.extract_element? hresult hspot
    obtain ⟨keptAlone, hkeptAlone, hextractAlone⟩ := Json.extract_element? halone hspot
    rw [hinside] at hextract
    rw [List.map_singleton, hinner] at hextractAlone
    -- Alone, there is no field that could hinder it.
    have hfreeAlone : Json.Unhindered (.object members) [] [] names value :=
      ⟨fun _ hmem => absurd hmem List.not_mem_nil, fun _ hmem => absurd hmem List.not_mem_nil⟩
    exact ⟨keptAlone, kept, hkeptAlone, hkept, hfreeAlone.getAt?_extract hlanded hextractAlone,
      hfree.getAt?_extract hlanded hextract⟩

/-- An order with a line and a note. -/
def pencilOrder : Dict Json :=
  [("lines", .array [.object [("sku", .string "pencil")]]), ("note", .string "blunt")]

/-- The lines of each order, and its note. -/
def pencilFields : List String :=
  ["[*].lines[*].sku", "[*].note"]

/-- The fields do not hinder each other, so both are found in the result. -/
theorem apply_pencilFields :
    (∀ field ∈ pencilFields, ∃ alone,
      TransformStep.apply { fields := some [field] } (.array [.object pencilOrder]) = .ok alone) ∧
    ∃ result kept,
      TransformStep.apply { fields := some pencilFields } (.array [.object pencilOrder])
        = .ok result ∧
      result.element? [0] = some kept ∧
      kept.getAt? [.key "lines"] = some (.array [.string "pencil"]) := by
  have hsku : TransformStep.apply { fields := some ["[*].lines[*].sku"] }
      (.array [.object pencilOrder])
      = .ok (.array [.object [("lines", .array [.string "pencil"])]]) := by
    with_unfolding_all rfl
  have hnote : TransformStep.apply { fields := some ["[*].note"] } (.array [.object pencilOrder])
      = .ok (.array [.object [("note", .string "blunt")]]) := by
    with_unfolding_all rfl
  have halone : ∀ field ∈ pencilFields, ∃ alone, TransformStep.apply { fields := some [field] }
      (.array [.object pencilOrder]) = .ok alone :=
    List.forall_mem_cons.2 ⟨⟨_, hsku⟩, List.forall_mem_singleton.2 ⟨_, hnote⟩⟩
  have hinside : Json.elementFields (pencilFields.map String.toList)
      = ["lines[*].sku".toList, "note".toList] := by
    decide +kernel
  have hlines : Json.landed? (.object pencilOrder) "lines[*].sku".toList
      = some (["lines"], .array [.string "pencil"]) := by
    with_unfolding_all rfl
  have hother : Json.landed? (.object pencilOrder) "note".toList
      = some (["note"], .string "blunt") := by
    with_unfolding_all rfl
  obtain ⟨hsucceeds, hdelivers⟩ := apply_more_fields halone
  -- The one object of the data is the element of the array.
  have hblocks : ∀ spot members,
      (Json.array [.object pencilOrder]).element? spot = some (.object members) →
      (Json.elementFields^[spot.length] (pencilFields.map String.toList)).Pairwise
        fun earlier later => ¬ Json.Blocks (.object members) earlier later := by
    intro spot members hspot
    rcases spot with _ | ⟨_ | position, _ | ⟨next, rest⟩⟩
    · cases hspot
    · cases hspot
      show (Json.elementFields (pencilFields.map String.toList)).Pairwise _
      rw [hinside, List.pairwise_pair]
      rintro ⟨above, ⟨names, value, hlanded, -, rfl⟩, names', value', hlanded', hprefix, -⟩
      rw [hlines] at hlanded
      rw [hother] at hlanded'
      cases hlanded
      cases hlanded'
      revert hprefix
      decide +kernel
    · cases hspot
    · cases hspot
    · cases hspot
  obtain ⟨result, hresult⟩ := hsucceeds hblocks
  have hfree : Json.Unhindered (.object pencilOrder) [] ["note".toList] ["lines"]
      (.array [.string "pencil"]) := by
    constructor
    · intro other hmem names' value' hlanded hcomparable
      cases List.mem_singleton.1 hmem
      rw [hother] at hlanded
      cases hlanded
      revert hcomparable
      decide
    · intro other hmem value' hlanded
      cases List.mem_singleton.1 hmem
      rw [hother] at hlanded
      have hkeys : ["note"] = ["lines"] := congrArg Prod.fst (Option.some.inj hlanded)
      exact absurd hkeys (by decide)
  obtain ⟨-, kept, -, hkept, -, hget⟩ := hdelivers result hresult "[*].lines[*].sku"
    List.mem_cons_self _ hsku [0] pencilOrder "lines[*].sku".toList [] ["note".toList] ["lines"]
    (.array [.string "pencil"]) rfl (by decide +kernel) hinside hlines hfree
  exact ⟨halone, result, kept, hresult, hkept, hget⟩

/-- A line with an identifier and a name. -/
def pencilLine : Dict Json :=
  [("lines", .array [.object [("id", .string "7"), ("sku", .string "pencil")]])]

/-- A field that collects blocks one that leads below the same array, and is overwritten by another
that collects from it. Over an array a field that starts with a marker is lost beside one that does
not. -/
theorem not_apply_more_fields :
    (¬ ∀ (fields : List String) (data : Json),
      (∀ field ∈ fields, ∃ alone,
        TransformStep.apply { fields := some [field] } data = .ok alone) →
      ∃ result, TransformStep.apply { fields := some fields } data = .ok result) ∧
    (¬ ∀ (fields : List String) (members : Dict Json) (result : Json) (field : String)
        (names : List String) (value : Json),
      TransformStep.apply { fields := some fields } (.object members) = .ok result →
      field ∈ fields →
      Json.landed? (.object members) field.toList = some (names, value) →
      (∀ other ∈ fields, ∀ names' value',
        Json.landed? (.object members) other.toList = some (names', value') →
        names' <+: names ∨ names <+: names' → names' = names) →
      result.getAt? (names.map .key) = some value) ∧
    (TransformStep.apply { fields := some ["[*].id"] } (.array [.object [("id", .null)]])
        = .ok (.array [.object [("id", .null)]]) ∧
      TransformStep.apply { fields := some ["[*].id", "sku"] } (.array [.object [("id", .null)]])
        = .ok (.array [.object []])) := by
  refine ⟨fun h => ?_, fun h => ?_, by with_unfolding_all rfl, by cbv⟩
  · have hids : TransformStep.apply { fields := some ["lines[*].id"] } (.object pencilLine)
        = .ok (.object [("lines", .array [.string "7"])]) := by
      with_unfolding_all rfl
    have hfirst : TransformStep.apply { fields := some ["lines[0].id"] } (.object pencilLine)
        = .ok (.object [("lines", .object [("0", .object [("id", .string "7")])])]) := by
      with_unfolding_all rfl
    obtain ⟨result, hresult⟩ := h ["lines[*].id", "lines[0].id"] (.object pencilLine)
      (List.forall_mem_cons.2 ⟨⟨_, hids⟩, List.forall_mem_singleton.2 ⟨_, hfirst⟩⟩)
    have hfails : TransformStep.apply { fields := some ["lines[*].id", "lines[0].id"] }
        (.object pencilLine) = .error (.path ⟨"lines[0].id", .notContainer "0"⟩) := by
      with_unfolding_all rfl
    rw [hfails] at hresult
    cases hresult
  · have hresult : TransformStep.apply { fields := some ["lines[*].id", "lines[*].sku"] }
        (.object pencilLine) = .ok (.object [("lines", .array [.string "pencil"])]) := by
      with_unfolding_all rfl
    have hid : Json.landed? (.object pencilLine) "lines[*].id".toList
        = some (["lines"], .array [.string "7"]) := by
      with_unfolding_all rfl
    have hsku : Json.landed? (.object pencilLine) "lines[*].sku".toList
        = some (["lines"], .array [.string "pencil"]) := by
      with_unfolding_all rfl
    have hget := h _ _ _ "lines[*].id" _ _ hresult List.mem_cons_self hid (by
      refine List.forall_mem_cons.2 ⟨?_, List.forall_mem_singleton.2 ?_⟩
      · intro names value hlanded _
        rw [hid] at hlanded
        exact (congrArg Prod.fst (Option.some.inj hlanded)).symm
      · intro names value hlanded _
        rw [hsku] at hlanded
        exact (congrArg Prod.fst (Option.some.inj hlanded)).symm)
    have hlost : (Json.object [("lines", .array [.string "pencil"])]).getAt?
        (["lines"].map .key) = some (.array [.string "pencil"]) := by
      with_unfolding_all rfl
    rw [hlost] at hget
    simp at hget

end DeclaredApi.TransformStep
