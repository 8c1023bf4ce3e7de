import DeclaredApi.Proofs.Transform.Repeats

/-!
# `DeclaredApi.Proofs.Transform.Again`: extracting from what was extracted

`TransformStep.apply_again`: a step of several fields, on its own result, gives that result again,
if each of its fields alone does so. A plain field always does (`extract_again_of_plain`). A field
that collects from an array does so only where it collects nulls or all of the elements, for what it
collects stands in the place of the array (`not_apply_again`).

The fields of an object are read as asks (`exists_run_of_foldlM`). What they put in their places
fits the object without reshaped places, so they all find their places again in the result
(`exists_foldlM_of_fits`), and the second run has the result of the first one (`repeats`).
-/

set_option autoImplicit false

namespace DeclaredApi.Json

open DeclaredApi.Path (Step Route)

variable {data built result again value : Json} {field : List Char} {fields : List (List Char)}
  {names : List String} {made : Option Json} {members : Dict Json}

/-! ### Fields as asks -/

/-- What the field asks of an object, if it has a place to land. -/
def ask? (field : List Char) : Option Ask :=
  (landing? field).map fun path => ⟨Path.keys path, Path.tail field⟩

/-- A field goes on from its landing place itself. -/
theorem here_tail (field : List Char) : (Path.tail field).Here := by
  unfold Path.tail
  split <;> rfl

/-- What a field puts into a result is what the data answers to its ask. -/
theorem landed?_eq_some_iff_answer? :
    landed? data field = some (names, value) ↔
      ∃ ask, ask? field = some ask ∧ ask.answer? data = some value ∧ ask.keys = names := by
  rw [landed?_eq_some_iff]
  constructor
  · rintro ⟨path, hpath, hget, rfl⟩
    rw [get?_eq_of_landing hpath] at hget
    exact ⟨⟨Path.keys path, Path.tail field⟩, by rw [ask?, hpath]; rfl, hget, rfl⟩
  · rintro ⟨ask, hask, hanswer, rfl⟩
    obtain ⟨path, hpath, rfl⟩ := Option.map_eq_some_iff.1 hask
    exact ⟨path, hpath, (get?_eq_of_landing hpath data).trans hanswer, rfl⟩

/-- An extraction is a run from nothing. -/
theorem exists_run_of_foldlM
    (h : fields.foldlM (extractField data) (made.getD (.object [])) = .ok result) :
    ∃ final, Run data (fields.filterMap ask?) made final ∧ result = final.getD (.object []) := by
  induction fields generalizing made with
  | nil => exact ⟨made, .nil, (Except.ok.inj h).symm⟩
  | cons field rest ih =>
      rw [List.foldlM_cons] at h
      obtain ⟨next, hnext, h⟩ := exists_of_bind_ok h
      rcases extractField_cases hnext with ⟨hnone, rfl⟩ | ⟨names, value, hlanded, hassign⟩
      · obtain ⟨final, hrun, hresult⟩ := ih h
        refine ⟨final, ?_, hresult⟩
        cases hask : ask? field with
        | none => rwa [List.filterMap_cons_none hask]
        | some ask =>
            rw [List.filterMap_cons_some hask]
            refine .skip ?_ hrun
            cases hanswer : ask.answer? data with
            | none => rfl
            | some value =>
                rw [landed?_eq_some_iff_answer?.2 ⟨ask, hask, hanswer, rfl⟩] at hnone
                cases hnone
      · obtain ⟨ask, hask, hanswer, rfl⟩ := landed?_eq_some_iff_answer?.1 hlanded
        have h : rest.foldlM (extractField data) ((some next).getD (.object [])) = .ok result := h
        obtain ⟨final, hrun, hresult⟩ := ih h
        rw [List.filterMap_cons_some hask]
        refine ⟨final, .put hanswer ?_ hrun, hresult⟩
        -- A value that is there has room for what was written.
        cases made with
        | none => exact hassign
        | some built =>
            cases hkeys : ask.keys with
            | nil =>
                rw [hkeys] at hassign
                cases hassign
                rfl
            | cons key rest =>
                rw [hkeys] at hassign
                have hassign : assignAt value ((key :: rest).map .key) built = (next, none) :=
                  hassign
                rwa [parentOrNew_some (isContainer_of_assignAt hassign)]

/-- An extraction from an object is a run that begins with nothing. -/
theorem exists_run_of_extract (h : (Json.object members).extract fields = .ok result) :
    ∃ final, Run (.object members) (fields.filterMap ask?) none final ∧
      result = final.getD (.object []) := by
  have hfold : fields.foldlM (extractField (.object members))
      ((none : Option Json).getD (.object [])) = .ok result := h
  exact exists_run_of_foldlM hfold

/-! ### What is extracted fits the data -/

/-- What a field takes from a value it does not collect from is a container like the value. -/
theorem isContainer_of_follow? {route : Route} (hhere : route.Here)
    (hdata : data.isContainer = true) (hfollow : data.follow? route = some value) :
    value.isContainer = true := by
  cases route with
  | place steps =>
      cases hhere
      cases hfollow
      exact hdata
  | each steps rest =>
      cases hhere
      rw [follow?] at hfollow
      split at hfollow
      · cases hfollow
        rfl
      · cases hfollow

/-- Fields whose values fit can all be put into what has lost parts at most. -/
theorem exists_foldlM_of_fits (h : Fits ∅ data built) (hbuilt : built.isContainer = true)
    (hdata : data.isContainer = true)
    (hfields : ∀ field ∈ fields, ∀ names value, landed? data field = some (names, value) →
      (∀ path, landing? field = some path → Path.Plain path) ∧
      ∀ held, data.getAt? (names.map .key) = some held → Fits ∅ held value) :
    ∃ final, fields.foldlM (extractField data) built = .ok final ∧ Fits ∅ data final ∧
      final.isContainer = true := by
  induction fields generalizing built with
  | nil => exact ⟨built, rfl, h, hbuilt⟩
  | cons field rest ih =>
      obtain ⟨hfield, hrest⟩ := List.forall_mem_cons.1 hfields
      rw [List.foldlM_cons]
      cases hlanded : landed? data field with
      | none =>
          rw [extractField_of_not_landed hlanded]
          exact ih h hbuilt hrest
      | some landed =>
          obtain ⟨names, value⟩ := landed
          obtain ⟨hplain, hvalue⟩ := hfield names value hlanded
          obtain ⟨held, hheld, hfollow⟩ := exists_getAt?_of_landed hlanded
          obtain ⟨next, hassign, hnext, hcontainer⟩ := h.exists_assignAt (fun _ => hbuilt) hheld
            (fun _ hplace => absurd hplace (Set.notMem_empty _)) subset_rfl (hvalue held hheld)
          -- A field that lands at the root replaces all of it, by what follows the data itself.
          have hcontainer : next.isContainer = true := by
            by_cases hnames : names = []
            · subst hnames
              cases hheld
              cases hassign
              exact isContainer_of_follow? (here_tail field) hdata hfollow
            · exact hcontainer hnames
          rw [extractField_of_plain hplain hlanded hassign]
          exact ih hnext hcontainer hrest

/-- Each field finds again in its value what it has put there. -/
def Settled (fields : List (List Char)) (data : Json) : Prop :=
  ∀ field ∈ fields, ∀ names value, landed? data field = some (names, value) →
    value.follow? (Path.tail field) = some value

/-- A field that finds its value again settles on what is at its landing place. -/
theorem Settled.settles (h : Settled fields data) (hfield : field ∈ fields)
    (hlanded : landed? data field = some (names, value)) {held : Json}
    (hheld : data.getAt? (names.map .key) = some held) :
    Settles (Path.tail field) held ∧ value = collected (Path.tail field) held := by
  obtain ⟨held', hheld', hfollow⟩ := exists_getAt?_of_landed hlanded
  rw [hheld] at hheld'
  cases hheld'
  have hvalue : collected (Path.tail field) held = value := by
    rw [collected, hfollow]
    rfl
  refine ⟨?_, hvalue.symm⟩
  rw [Settles, hvalue, collected, h field hfield names value hlanded]
  rfl

/-- What lands after parts have been lost did so before. -/
theorem Fits.exists_landed? (h : Fits ∅ data built)
    (hlanded : landed? built field = some (names, value)) :
    ∃ value' held kept, landed? data field = some (names, value') ∧
      data.getAt? (names.map .key) = some held ∧ built.getAt? (names.map .key) = some kept ∧
      Fits ∅ held kept ∧ value = collected (Path.tail field) kept := by
  obtain ⟨kept, hkept, hfollow⟩ := exists_getAt?_of_landed hlanded
  obtain ⟨held, hheld, hfits⟩ := h.exists_getAt? hkept
  obtain ⟨path, hpath, -, rfl⟩ := landed?_eq_some_iff.1 hlanded
  have hcollected : value = collected (Path.tail field) kept := by
    rw [collected, hfollow]
    rfl
  cases hvalue : held.follow? (Path.tail field) with
  | none =>
      have hnone : Ask.answer? ⟨[], Path.tail field⟩ kept = none :=
        hfits.answer?_eq_none (here_tail field) rfl hvalue
      have hnone : kept.follow? (Path.tail field) = none := hnone
      rw [hfollow] at hnone
      cases hnone
  | some value' =>
      refine ⟨value', held, kept, ?_, hheld, hkept, hfits, hcollected⟩
      refine landed?_eq_some_iff.2 ⟨path, hpath, ?_, rfl⟩
      rw [get?_eq_of_landing hpath, hheld]
      exact hvalue

/-! ### Extracting twice -/

/-- What fields put into a sorted result leaves it sorted. -/
theorem ordered_of_foldlM (hdata : data.Ordered) (hbuilt : built.Ordered)
    (h : fields.foldlM (extractField data) built = .ok result) : result.Ordered := by
  refine of_foldlM_ok (fun before field after hbefore hround => ?_) hbuilt h
  rcases extractField_cases hround with ⟨-, rfl⟩ | ⟨names, value, hlanded, hassign⟩
  · exact hbefore
  · obtain ⟨held, hheld, hfollow⟩ := exists_getAt?_of_landed hlanded
    exact hbefore.assignAt ((hdata.getAt? hheld).follow? hfollow) hassign

/-- In an extraction that succeeds, a field that puts something lands on a plain path. -/
theorem plain_of_extract (h : (Json.object members).extract fields = .ok result)
    (hfield : field ∈ fields) (hlanded : landed? (.object members) field = some (names, value))
    {path : List Char} (hpath : landing? field = some path) : Path.Plain path := by
  obtain ⟨before, after, hround⟩ := exists_round_of_foldlM_ok h hfield
  exact plain_of_extractField hround hlanded hpath

/-- What settled fields extract from an object is an object that has lost parts at most. -/
theorem Settled.fits_extract (h : Settled fields (.object members))
    (hextract : (Json.object members).extract fields = .ok result) :
    Fits ∅ (.object members) result ∧ ∃ left, result = .object left := by
  obtain ⟨final, hfold, hfits, hcontainer⟩ := exists_foldlM_of_fits (Fits.empty rfl) rfl rfl
    fun field hfield names value hlanded =>
      ⟨fun path hpath => plain_of_extract hextract hfield hlanded hpath, fun held hheld => by
        obtain ⟨hsettles, rfl⟩ := h.settles hfield hlanded hheld
        exact hsettles.fits .whole⟩
  obtain rfl : result = final := Except.ok.inj (hextract.symm.trans hfold)
  refine ⟨hfits, ?_⟩
  cases result with
  | object left => exact ⟨left, rfl⟩
  | array items =>
      obtain ⟨held, hheld⟩ := hfits.exists_items
      cases hheld
  | _ => cases hcontainer

/-- Settled fields find their places again in what they have extracted. -/
theorem Settled.exists_extract {left : Dict Json} (h : Settled fields (.object members))
    (hextract : (Json.object members).extract fields = .ok (.object left)) :
    ∃ again, (Json.object left).extract fields = .ok again := by
  obtain ⟨hfits, -⟩ := h.fits_extract hextract
  obtain ⟨again, hagain, -, -⟩ := exists_foldlM_of_fits (Fits.empty rfl) rfl rfl
    fun field hfield names value hlanded => by
      obtain ⟨value', held, kept, hlanded', hheld, hkept, hpart, rfl⟩ :=
        hfits.exists_landed? hlanded
      refine ⟨fun path hpath => plain_of_extract hextract hfield hlanded' hpath,
        fun kept' hkept' => ?_⟩
      rw [hkept] at hkept'
      cases hkept'
      exact (h.settles hfield hlanded' hheld).1.fits hpart
  exact ⟨again, hagain⟩

/-- If each field finds its value again, all asks stay. -/
theorem Settled.stays (h : Settled fields data) :
    ∀ ask ∈ fields.filterMap ask?, ask.tail.Here ∧ ask.Stays data := by
  intro ask hask
  obtain ⟨field, hfield, hask⟩ := List.mem_filterMap.1 hask
  have htail : ask.tail = Path.tail field := by
    obtain ⟨path, -, rfl⟩ := Option.map_eq_some_iff.1 hask
    rfl
  refine ⟨htail ▸ here_tail field, fun held hheld hfollow => ?_⟩
  obtain ⟨value, hvalue⟩ := Option.isSome_iff_exists.1 hfollow
  have hanswer : ask.answer? data = some value :=
    Option.bind_eq_some_iff.2 ⟨held, hheld, hvalue⟩
  have hlanded := landed?_eq_some_iff_answer?.2 ⟨ask, hask, hanswer, rfl⟩
  rw [htail]
  exact (h.settles hfield hlanded hheld).1

/-- Where each field finds its value again, what was extracted from an object is extracted again. -/
theorem extract_extract_object (hordered : (Json.object members).Ordered)
    (hsettled : Settled fields (.object members))
    (h : (Json.object members).extract fields = .ok result) :
    result.extract fields = .ok result := by
  have hempty : (object []).Ordered := ⟨Dict.sorted_nil, trivial⟩
  obtain ⟨hfits, left, rfl⟩ := hsettled.fits_extract h
  obtain ⟨again, hagain⟩ := hsettled.exists_extract h
  have hleft := ordered_of_foldlM hordered hempty h
  rw [hagain]
  obtain ⟨first, hfirst, hresult⟩ := exists_run_of_extract h
  obtain ⟨second, hsecond, rfl⟩ := exists_run_of_extract hagain
  cases first with
  | none =>
      -- Nothing was found in the object, so nothing is found in what is left of it.
      have hnone : second = none := by
        obtain rfl : left = [] := object.inj hresult
        refine hsecond.eq_of_leaf (fun ask hask hkeys => ?_) fun _ => rfl
        exact hfits.answer?_eq_none (hsettled.stays ask hask).1 hkeys
          (hfirst.answer?_eq_none rfl hask)
      rw [hnone, hresult]
  | some value =>
      obtain rfl : .object left = value := hresult
      have hsame := repeats (.object members) (fields.filterMap ask?) none (.object left) second
        { settles := fun _ hroute => by cases hroute
          stays := hsettled.stays
          fits := hfits
          ordered := hleft
          ordered_again := fun value hvalue => by
            subst hvalue
            exact ordered_of_foldlM hleft hempty hagain
          first := hfirst
          second := hsecond }
      rw [hsame]
      rfl

/-- A field that extracts its own result again finds its value again. -/
theorem settled_of_alone
    (hplain : ∀ field ∈ fields, ∀ names value,
      landed? (.object members) field = some (names, value) →
      ∀ path, landing? field = some path → Path.Plain path)
    (halone : ∀ field ∈ fields, ∀ alone, (Json.object members).extract [field] = .ok alone →
      alone.extract [field] = .ok alone) : Settled fields (.object members) := by
  intro field hfield names value hlanded
  obtain ⟨written, hassign⟩ := exists_assignAt_empty value names
  have hround : extractField (.object members) (.object []) field = .ok written :=
    extractField_of_plain (hplain field hfield names value hlanded) hlanded hassign
  have hextract : (Json.object members).extract [field] = .ok written := by
    rw [extract_object, List.foldlM_cons, hround]
    rfl
  have hagain := halone field hfield written hextract
  cases names with
  | nil =>
      -- All of the object lands in the place of the result, and is not collected from.
      obtain ⟨held, hheld, hfollow⟩ := exists_getAt?_of_landed hlanded
      cases hheld
      have hhere := here_tail field
      cases htail : Path.tail field with
      | place steps =>
          rw [htail] at hhere
          cases hhere
          rfl
      | each steps rest =>
          rw [htail] at hhere hfollow
          cases hhere
          cases hfollow
  | cons key rest =>
      have hread : written.getAt? ((key :: rest).map .key) = some value := getAt?_assignAt hassign
      obtain ⟨-, child, -, hwritten⟩ := assignAt_cons_iff.1 hassign
      obtain ⟨left, rfl⟩ : ∃ left, written = .object left := ⟨_, hwritten.symm⟩
      rw [extract_object, List.foldlM_cons] at hagain
      obtain ⟨next, hnext, hagain⟩ := exists_of_bind_ok hagain
      obtain rfl : next = .object left := Except.ok.inj hagain
      rcases extractField_cases hnext with ⟨-, hempty⟩ | ⟨names', value', hlanded', hassign'⟩
      · rw [hempty] at hread
        cases hread
      · obtain ⟨path, hpath, -, hnames⟩ := landed?_eq_some_iff.1 hlanded
        obtain ⟨path', hpath', hget, hnames'⟩ := landed?_eq_some_iff.1 hlanded'
        rw [hpath] at hpath'
        cases hpath'
        rw [get?_eq_of_landing hpath, hnames, hread] at hget
        obtain rfl : names' = key :: rest := hnames'.symm.trans hnames
        have hsame : some value' = some value := (getAt?_assignAt hassign').symm.trans hread
        have hget : value.follow? (Path.tail field) = some value' := hget
        rw [hget, hsame]

/-- A plain field extracts its own result again. -/
theorem extract_again_of_plain (hordered : (Json.object members).Ordered)
    (hplain : Path.Plain field) (h : (Json.object members).extract [field] = .ok result) :
    result.extract [field] = .ok result := by
  refine extract_extract_object hordered ?_ h
  intro other hother names value _
  cases List.mem_singleton.1 hother
  rw [Path.tail, hplain.splitWildcard?]
  rfl

/-- Where each field alone extracts its own result again, the fields together do. -/
theorem extract_extract (hordered : data.Ordered)
    (halone : ∀ spot members, data.element? spot = some (.object members) →
      ∀ field ∈ elementFields^[spot.length] fields, ∀ alone,
        (Json.object members).extract [field] = .ok alone → alone.extract [field] = .ok alone)
    (h : data.extract fields = .ok result) : result.extract fields = .ok result := by
  induction data using inductionOnElements generalizing fields result with
  | items items ih =>
      obtain ⟨reduced, rfl, hreduced⟩ := extract_array_eq_ok_iff.1 h
      refine extract_array_eq_ok_iff.2 ⟨reduced, rfl, List.forall₂_same.2 fun value hvalue => ?_⟩
      obtain ⟨position, hposition⟩ := List.mem_iff_getElem?.1 hvalue
      obtain ⟨item, hitem, hextract⟩ := exists_of_forall₂_getElem? hreduced.flip hposition
      have hmem := List.mem_of_getElem? hitem
      refine ih item hmem (ordered_array_iff.1 hordered item hmem) ?_ hextract
      intro spot members hspot
      refine halone (position :: spot) members ?_
      rw [element?, hitem]
      exact hspot
  | other data hdata =>
      cases data with
      | array items => exact absurd rfl (hdata items)
      | object members =>
          -- The object is the element at the empty spot, so what each field alone extracts stays.
          have hsettled : Settled fields (.object members) :=
            settled_of_alone (fun field hfield names value hlanded path hpath =>
              plain_of_extract h hfield hlanded hpath) (halone [] members rfl)
          exact extract_extract_object hordered hsettled h
      | _ =>
          cases h
          rfl

end DeclaredApi.Json

namespace DeclaredApi.TransformStep

/-- A step of several fields gives its own result again, for all data in which each field alone
does so, as it is read in each of the objects that are reached through arrays alone. -/
theorem apply_again {fields : List String} {data result : Json} (hordered : data.Ordered)
    (halone : ∀ spot members, data.element? spot = some (.object members) →
      ∀ field ∈ Json.elementFields^[spot.length] (fields.map String.toList), ∀ alone,
        (Json.object members).extract [field] = .ok alone → alone.extract [field] = .ok alone)
    (happly : TransformStep.apply { fields := some fields } data = .ok result) :
    TransformStep.apply { fields := some fields } result = .ok result := by
  by_cases hfields : fields = []
  · subst hfields
    rfl
  · rw [apply_fields hfields] at happly ⊢
    exact Json.extract_extract hordered halone happly

/-- Two lines without a price, and a note. -/
def unpricedOrder : Dict Json :=
  [("lines", .array [.object [("sku", .string "pen")], .object [("sku", .string "ink")]]),
    ("note", .string "urgent")]

/-- The prices of all lines, which are null, and the sku of the first line, which is put into the
place of a null. -/
def unpricedFields : List String :=
  ["lines[*].price", "lines[0].sku", "note"]

/-- The order is sorted. -/
theorem ordered_unpricedOrder : (Json.object unpricedOrder).Ordered := by
  simp only [unpricedOrder, Json.Ordered, Json.OrderedMembers, Json.OrderedItems, Dict.Sorted]
  decide

/-- A collected null is overwritten, and still the fields find their values again. -/
theorem apply_again_unpricedFields :
    ∃ result,
      TransformStep.apply { fields := some unpricedFields } (.object unpricedOrder) = .ok result ∧
      TransformStep.apply { fields := some unpricedFields } result = .ok result := by
  have hprices : (Json.object unpricedOrder).extract ["lines[*].price".toList]
      = .ok (.object [("lines", .array [.null, .null])]) := by
    with_unfolding_all rfl
  have hagain : (Json.object [("lines", .array [.null, .null])]).extract ["lines[*].price".toList]
      = .ok (.object [("lines", .array [.null, .null])]) := by
    with_unfolding_all rfl
  have halone : ∀ field ∈ unpricedFields.map String.toList, ∀ alone,
      (Json.object unpricedOrder).extract [field] = .ok alone →
      alone.extract [field] = .ok alone := by
    refine List.forall_mem_cons.2 ⟨fun alone halone => ?_, List.forall_mem_cons.2
      ⟨fun alone => Json.extract_again_of_plain ordered_unpricedOrder (by decide),
        List.forall_mem_singleton.2 fun alone =>
          Json.extract_again_of_plain ordered_unpricedOrder (by decide)⟩⟩
    rw [hprices] at halone
    cases halone
    exact hagain
  have happly : TransformStep.apply { fields := some unpricedFields } (.object unpricedOrder)
      = .ok (.object [("lines", .array [.object [("sku", .string "pen")], .null]),
          ("note", .string "urgent")]) := by
    with_unfolding_all rfl
  refine ⟨_, happly, apply_again ordered_unpricedOrder (fun spot members hspot => ?_) happly⟩
  cases spot with
  | nil =>
      cases hspot
      exact halone
  | cons position rest => cases hspot

/-- Lines that are collected from once have nothing to be collected from again. -/
theorem not_apply_again :
    ¬ ∀ (fields : List String) (data result : Json), data.Ordered →
      TransformStep.apply { fields := some fields } data = .ok result →
      TransformStep.apply { fields := some fields } result = .ok result := by
  intro hagain
  have hfirst : TransformStep.apply { fields := some ["lines[*].sku"] } (.object unpricedOrder)
      = .ok (.object [("lines", .array [.string "pen", .string "ink"])]) := by
    with_unfolding_all rfl
  have hsecond : TransformStep.apply { fields := some ["lines[*].sku"] }
      (.object [("lines", .array [.string "pen", .string "ink"])])
      = .ok (.object [("lines", .array [.null, .null])]) := by
    with_unfolding_all rfl
  have hsame := hagain _ _ _ ordered_unpricedOrder hfirst
  rw [hsecond] at hsame
  simp at hsame

end DeclaredApi.TransformStep
