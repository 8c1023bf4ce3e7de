import DeclaredApi.Arguments.Merge
import DeclaredApi.Proofs.Json.Value
import DeclaredApi.Proofs.Request.Valid

/-!
# `DeclaredApi.Proofs.Arguments.Merge`: arguments in layers

What a call sends has up to three layers: the caller's arguments, below them those that an alias
presets, and below both the defaults of the operation. `Layered` says what is made of layers,
looking from the nearest one. A value that is no object stands as the nearest layer with the name
has it. An object is made of the objects that the layers have under the name, and each of its
members stands as the nearest of these objects has it, so nothing below a member is mixed.

Putting one more layer below what was made of layers is what `merge` does (`Layered.concat`), and
merging the same defaults a second time changes nothing (`merge_merge`). `merge_layers` puts both
together for the three layers of a call.
-/

set_option autoImplicit false

namespace DeclaredApi

namespace Arguments

variable {defaults arguments : Arguments} {name : String}

/-! ### Two layers -/

/-- What stands under a name after a merge. -/
theorem find?_merge (h : Dict.Sorted arguments) (defaults : Arguments) (name : String) :
    Dict.find? name (merge defaults arguments)
      = ((Dict.find? name arguments).map (mergeValue (Dict.find? name defaults))).or
          (Dict.find? name defaults) :=
  Dict.find?_foldl_insert mergeValue h defaults name

/-- A value that is no object takes the place of any default. -/
theorem mergeValue_of_ne {value : Json} (h : ∀ members, value ≠ .object members)
    (default? : Option Json) : mergeValue default? value = value := by
  unfold mergeValue
  split
  · next base top => exact absurd rfl (h top)
  · rfl

/-- An object becomes an object, in which the default is asked for what the object does not
have. -/
theorem exists_mergeValue_object (default? : Option Json) {top : Dict Json}
    (h : Dict.Sorted top) :
    ∃ mixed, mergeValue default? (.object top) = .object mixed ∧
      ∀ member, Dict.find? member mixed
        = (Dict.find? member top).or (default?.bind (Json.member? member)) := by
  cases default? with
  | none => exact ⟨top, rfl, fun member => (Option.or_none).symm⟩
  | some value =>
      cases value with
      | object base => exact ⟨_, rfl, Dict.find?_overlay h base⟩
      | _ => exact ⟨top, rfl, fun member => (Option.or_none).symm⟩

/-! ### Sorted arguments -/

/-- An object is sorted when its members are and each of their values is. -/
theorem ordered_object_iff {members : Dict Json} :
    (Json.object members).Ordered ↔
      Dict.Sorted members ∧
        ∀ name value, Dict.find? name members = some value → value.Ordered := by
  rw [Json.Ordered, Json.orderedMembers_iff, Prod.forall, and_congr_right_iff]
  intro hsorted
  simp only [Dict.find?_eq_some_iff hsorted]

/-- A value merged over a default is sorted where both are. -/
theorem ordered_mergeValue {default? : Option Json} {value : Json}
    (hdefault : ∀ found, default? = some found → found.Ordered) (hvalue : value.Ordered) :
    (mergeValue default? value).Ordered := by
  unfold mergeValue
  split
  · next base top =>
      have hbase := hdefault _ rfl
      rw [Json.Ordered, Json.orderedMembers_iff] at hbase hvalue ⊢
      refine ⟨Dict.sorted_overlay hbase.1 top, ?_⟩
      intro member hmem
      -- Each member of the mixed object comes from one of the two.
      rcases Dict.mem_overlay_imp hmem with hmem | hmem
      · exact hbase.2 member hmem
      · exact hvalue.2 member hmem
  · exact hvalue

/-- Merging keeps the arguments sorted by name. -/
theorem sorted_merge (h : Dict.Sorted defaults) (arguments : Arguments) :
    Dict.Sorted (merge defaults arguments) := by
  unfold merge
  induction arguments generalizing defaults with
  | nil => exact h
  | cons argument rest ih => exact ih (Dict.sorted_insert h _ _)

/-- A merge of sorted arguments is sorted. -/
theorem ordered_merge (hdefaults : (Json.object defaults).Ordered)
    (harguments : (Json.object arguments).Ordered) :
    (Json.object (merge defaults arguments)).Ordered := by
  rw [ordered_object_iff] at hdefaults harguments ⊢
  refine ⟨sorted_merge hdefaults.1 arguments, ?_⟩
  intro name value hvalue
  rw [find?_merge harguments.1, Option.or_eq_some_iff, Option.map_eq_some_iff] at hvalue
  rcases hvalue with ⟨given, hgiven, rfl⟩ | ⟨-, hvalue⟩
  · exact ordered_mergeValue (hdefaults.2 name) (harguments.2 name given hgiven)
  · exact hdefaults.2 name value hvalue

/-! ### Merging again -/

/-- Laying a value over a default again changes nothing. -/
theorem mergeValue_mergeValue {default? : Option Json} {value : Json}
    (hdefault : ∀ found, default? = some found → found.Ordered) (hvalue : value.Ordered) :
    mergeValue default? (mergeValue default? value) = mergeValue default? value := by
  cases default? with
  | none => rfl
  | some found =>
      cases found with
      | object base =>
          cases value with
          | object top =>
              have hbase := (ordered_object_iff.mp (hdefault _ rfl)).1
              have htop := (ordered_object_iff.mp hvalue).1
              exact congrArg Json.object (Dict.overlay_overlay hbase htop)
          | _ => rfl
      | _ => rfl

/-- A default laid over itself stays. -/
theorem mergeValue_self {value : Json} (h : value.Ordered) :
    mergeValue (some value) value = value := by
  cases value with
  | object members =>
      exact congrArg Json.object (Dict.overlay_self (ordered_object_iff.mp h).1)
  | _ => rfl

/-- Merging the same defaults again changes nothing. -/
theorem merge_merge (hdefaults : (Json.object defaults).Ordered)
    (harguments : (Json.object arguments).Ordered) :
    merge defaults (merge defaults arguments) = merge defaults arguments := by
  obtain ⟨hsorted, hvalues⟩ := ordered_object_iff.mp hdefaults
  have hmerged := sorted_merge hsorted arguments
  -- Both are sorted, so it is enough to look under every name.
  apply Dict.eq_of_find?_eq (sorted_merge hsorted _) hmerged
  intro name
  rw [find?_merge hmerged, find?_merge (ordered_object_iff.mp harguments).1]
  cases hgiven : Dict.find? name arguments with
  | some value =>
      have hvalue := (ordered_object_iff.mp harguments).2 name value hgiven
      rw [Option.map_some, Option.some_or, Option.map_some, Option.some_or,
        mergeValue_mergeValue (hvalues name) hvalue]
  | none =>
      cases hdefault : Dict.find? name defaults with
      | none => rfl
      | some value =>
          have hself := mergeValue_self (hvalues name value hdefault)
          rw [Option.map_none, Option.none_or, Option.map_some, hself, Option.some_or]

/-! ### Layers -/

/-- The value of the nearest layer that has the name. -/
def nearest? (layers : List Arguments) (name : String) : Option Json :=
  layers.findSome? (Dict.find? name)

/-- The member of the nearest layer that has, under the name, an object with that member. -/
def nearestMember? (layers : List Arguments) (name member : String) : Option Json :=
  layers.findSome? fun layer => (Dict.find? name layer).bind (Json.member? member)

/-- What is made of layers, of which the first is the nearest.

- `ordered`: it is sorted, as the layers are;
- `names`: it has the names of all layers;
- `whole`: a value that is no object stands as the nearest layer with the name has it;
- `mixed`: where the nearest layer with the name has an object there is an object, with all members
  of that object as they are. Each of its members stands as the nearest layer has it that has an
  object with that member. -/
structure Layered (layers : List Arguments) (merged : Arguments) : Prop where
  ordered : (Json.object merged).Ordered
  names : ∀ name, name ∈ Dict.keys merged ↔ ∃ layer ∈ layers, name ∈ Dict.keys layer
  whole : ∀ name value, nearest? layers name = some value → (∀ members, value ≠ .object members) →
    Dict.find? name merged = some value
  mixed : ∀ name members, nearest? layers name = some (.object members) →
    ∃ mixed, Dict.find? name merged = some (.object mixed) ∧
      (∀ member value, Dict.find? member members = some value →
        Dict.find? member mixed = some value) ∧
      ∀ member, Dict.find? member mixed = nearestMember? layers name member

variable {layers : List Arguments} {merged : Arguments} {member : String}

/-- The layer at the end is asked last. -/
theorem nearest?_concat (layers : List Arguments) (defaults : Arguments) (name : String) :
    nearest? (layers ++ [defaults]) name
      = (nearest? layers name).or (Dict.find? name defaults) := by
  simp [nearest?, List.findSome?_append]

/-- For a member, too, the layer at the end is asked last. -/
theorem nearestMember?_concat (layers : List Arguments) (defaults : Arguments)
    (name member : String) :
    nearestMember? (layers ++ [defaults]) name member
      = (nearestMember? layers name member).or
          ((Dict.find? name defaults).bind (Json.member? member)) := by
  simp [nearestMember?, List.findSome?_append]

/-- Where no layer has the name, none has a member under it. -/
theorem nearestMember?_eq_none (h : nearest? layers name = none) (member : String) :
    nearestMember? layers name member = none := by
  simp only [nearest?, nearestMember?, List.findSome?_eq_none_iff] at h ⊢
  intro layer hmem
  rw [h layer hmem, Option.bind_none]

/-- A member of the nearest object is the nearest member. -/
theorem nearestMember?_of_nearest? {members : Dict Json} {value : Json}
    (h : nearest? layers name = some (.object members))
    (hvalue : Dict.find? member members = some value) :
    nearestMember? layers name member = some value := by
  induction layers with
  | nil => cases h
  | cons layer rest ih =>
      rw [nearest?, List.findSome?_cons] at h
      rw [nearestMember?, List.findSome?_cons]
      cases hfind : Dict.find? name layer with
      | none =>
          rw [hfind] at h
          exact ih h
      | some found =>
          rw [hfind] at h
          cases h
          simp [Json.member?, hvalue]

/-- A layer has a name exactly when a value is found there. -/
theorem nearest?_isSome_iff :
    (nearest? layers name).isSome = true ↔ ∃ layer ∈ layers, name ∈ Dict.keys layer := by
  simp only [nearest?, List.findSome?_isSome_iff, Dict.isSome_find?_iff]

/-- A name that no layer has is not in the merged arguments. -/
theorem Layered.find?_eq_none (h : Layered layers merged) (hnone : nearest? layers name = none) :
    Dict.find? name merged = none := by
  have hnames : ¬ name ∈ Dict.keys merged := by
    rw [h.names, ← nearest?_isSome_iff, hnone]
    simp
  rwa [← Dict.isSome_find?_iff, Option.not_isSome_iff_eq_none] at hnames

/-- One layer is asked like a map. -/
theorem nearest?_single (arguments : Arguments) (name : String) :
    nearest? [arguments] name = Dict.find? name arguments := by
  simp [nearest?]

/-- A single layer is what is made of it. -/
theorem Layered.single (h : (Json.object arguments).Ordered) : Layered [arguments] arguments where
  ordered := h
  names name := by simp
  whole name value hvalue _ := by rwa [nearest?_single] at hvalue
  mixed name members hmembers := by
    rw [nearest?_single] at hmembers
    refine ⟨members, hmembers, fun _ _ hvalue => hvalue, ?_⟩
    intro member
    simp [nearestMember?, hmembers, Json.member?]

/-- Where the nearest of the layers has an object, a merge with one more layer below has an object
of the nearest members. -/
theorem Layered.exists_object_merge (h : Layered layers merged) {members : Dict Json}
    (hmembers : nearest? (layers ++ [defaults]) name = some (.object members)) :
    ∃ mixed, Dict.find? name (merge defaults merged) = some (.object mixed) ∧
      ∀ member, Dict.find? member mixed
        = nearestMember? (layers ++ [defaults]) name member := by
  obtain ⟨hsorted, hvalues⟩ := ordered_object_iff.mp h.ordered
  have hfind := find?_merge hsorted defaults name
  rw [nearest?_concat, Option.or_eq_some_iff] at hmembers
  rcases hmembers with habove | ⟨hnone, hbelow⟩
  · -- The object of the layers above is completed by that of the new layer, if it has one.
    obtain ⟨above, hfound, -, hmember⟩ := h.mixed name members habove
    have habove := (ordered_object_iff.mp (hvalues name _ hfound)).1
    obtain ⟨mixed, hmixed, hbelow⟩ := exists_mergeValue_object (Dict.find? name defaults) habove
    rw [hfound, Option.map_some, hmixed, Option.some_or] at hfind
    refine ⟨mixed, hfind, ?_⟩
    intro member
    rw [nearestMember?_concat, hbelow, hmember]
  · -- The name is new, and so its object is that of the new layer.
    rw [h.find?_eq_none hnone, Option.map_none, Option.none_or, hbelow] at hfind
    refine ⟨members, hfind, ?_⟩
    intro member
    rw [nearestMember?_concat, nearestMember?_eq_none hnone, hbelow]
    rfl

/-- Merging with defaults puts one more layer below the others. -/
theorem Layered.concat (h : Layered layers merged) (hdefaults : (Json.object defaults).Ordered) :
    Layered (layers ++ [defaults]) (merge defaults merged) where
  ordered := ordered_merge hdefaults h.ordered
  names name := by
    have hsorted := (ordered_object_iff.mp h.ordered).1
    rw [← Dict.isSome_find?_iff, find?_merge hsorted, Option.isSome_or, Option.isSome_map,
      Bool.or_eq_true, Dict.isSome_find?_iff, Dict.isSome_find?_iff, h.names]
    simp [or_and_right, exists_or]
  whole name value hvalue hplain := by
    have hsorted := (ordered_object_iff.mp h.ordered).1
    rw [nearest?_concat, Option.or_eq_some_iff] at hvalue
    rw [find?_merge hsorted]
    rcases hvalue with hvalue | ⟨hnone, hvalue⟩
    · rw [h.whole name value hvalue hplain, Option.map_some, mergeValue_of_ne hplain,
        Option.some_or]
    · rw [h.find?_eq_none hnone, hvalue, Option.map_none, Option.none_or]
  mixed name members hmembers := by
    obtain ⟨mixed, hfound, hmixed⟩ := h.exists_object_merge hmembers
    refine ⟨mixed, hfound, ?_, hmixed⟩
    intro member value hvalue
    rw [hmixed, nearestMember?_of_nearest? hmembers hvalue]

/-! ### The layers of a call -/

/-- Arguments laid over none stay. -/
theorem nil_merge (h : Dict.Sorted arguments) : merge [] arguments = arguments := by
  apply Dict.eq_of_find?_eq (sorted_merge Dict.sorted_nil arguments) h
  intro name
  rw [find?_merge h]
  cases Dict.find? name arguments <;> rfl

end Arguments

/-- The arguments that are preset by the alias a name went through, if it went through one. -/
def Resolution.presets (r : Resolution) : Arguments :=
  (r.alias?.map (·.arguments)).getD []

/-- The request of an operation with the arguments that are checked and sent. -/
def Service.prepareWith (service : Service) (authenticate : Authenticator)
    (operation : Operation Call) (effective : Arguments) (strict : Bool) :
    Except CallError Prepared := do
  effective.require (.ofOperation operation) strict
  let parts ← (effective.parts operation (.ofOperation operation)).mapError fun report =>
    .invalidArguments report none
  let request := (service.request operation parts).withContentType
  return { operation, request := authenticate service request }

namespace Service

variable {service : Service} {name : String} {caller : Arguments} {r : Resolution}

/-- A name is resolved to the caller's arguments, laid over those that its alias presets. -/
theorem arguments_of_resolve (h : service.resolve name caller = .ok r)
    (hcaller : Dict.Sorted caller) : r.arguments = Arguments.merge r.presets caller := by
  unfold resolve at h
  split at h
  · split at h
    · cases h
      rfl
    · cases h
  · cases h
    exact (Arguments.nil_merge hcaller).symm
  · cases h

/-- Of the arguments in their layers, what is prepared depends on the effective ones only. -/
theorem prepare_eq_prepareWith (h : service.resolve name caller = .ok r)
    (authenticate : Authenticator) (strict : Bool) :
    service.prepare authenticate name caller strict
      = service.prepareWith authenticate r.operation r.effective strict := by
  unfold prepare
  rw [h]
  rfl

end Service

/-- The effective arguments of a call are made of the caller's arguments, the presets of an alias
and the defaults of the operation, in this order, and merging the defaults again changes nothing.
They are what is prepared: with them for the three layers, the request or the error is the same. -/
theorem Arguments.merge_layers {defaults presets caller : Arguments}
    (hdefaults : (Json.object defaults).Ordered) (hpresets : (Json.object presets).Ordered)
    (hcaller : (Json.object caller).Ordered) :
    let effective := merge defaults (merge presets caller)
    Layered [caller, presets, defaults] effective
      ∧ merge defaults effective = effective
      ∧ ∀ (service : Service) authenticate name strict r, service.resolve name caller = .ok r →
          r.operation.defaults = defaults → r.presets = presets →
          service.prepare authenticate name caller strict
            = service.prepareWith authenticate r.operation effective strict := by
  refine ⟨?layered, merge_merge hdefaults (ordered_merge hpresets hcaller), ?prepared⟩
  case layered => exact ((Layered.single hcaller).concat hpresets).concat hdefaults
  case prepared =>
    intro service authenticate name strict r hresolve hoperation halias
    have hsorted := (ordered_object_iff.mp hcaller).1
    rw [Service.prepare_eq_prepareWith hresolve, Resolution.effective,
      Service.arguments_of_resolve hresolve hsorted, hoperation, halias]

/-- Defaults of a list of issues: open ones, in pages of five. -/
def issueDefaults : Arguments :=
  [("filter", .object [("page", .object [("size", .string "5")]), ("state", .string "open")]),
    ("limit", .string "10")]

/-- Presets with another kind of filter, and with an order. -/
def issuePresets : Arguments :=
  [("filter", .string "mine"), ("sort", .object [("by", .string "age")])]

/-- A caller who asks for the second page, and for the oldest first. -/
def issueCaller : Arguments :=
  [("filter", .object [("page", .object [("from", .string "2")])]),
    ("sort", .object [("down", .bool true)])]

/-- The caller's page hides the one of the defaults, whose state still counts. The filter of the
presets is no object, and is passed over. -/
def issueEffective : Arguments :=
  [("filter", .object [("page", .object [("from", .string "2")]), ("state", .string "open")]),
    ("limit", .string "10"),
    ("sort", .object [("by", .string "age"), ("down", .bool true)])]

/-- A service with an alias between the caller and a list of issues. -/
def issueService : Service :=
  { name := "svc", baseUrl := "http://h"
    graphqlOperations :=
      [{ name := "issues", call := ⟨.query, "issues"⟩, defaults := issueDefaults }]
    aliases := [{ name := "mine", operation := "issues", arguments := issuePresets }] }

/-- Objects nest over three layers here, and a list in one of them replaces the object below it.
-/
theorem merge_layers_of_issues :
    (Json.object issueDefaults).Ordered ∧ (Json.object issuePresets).Ordered ∧
    (Json.object issueCaller).Ordered ∧
    Arguments.Layered [issueCaller, issuePresets, issueDefaults] issueEffective ∧
    Arguments.merge issueDefaults issueEffective = issueEffective ∧
    ∃ operation, issueService.operation? "issues" = some operation ∧
      issueService.prepare .anonymous "mine" issueCaller false
        = issueService.prepareWith .anonymous operation issueEffective false := by
  have hordered : (Json.object issueDefaults).Ordered ∧ (Json.object issuePresets).Ordered ∧
      (Json.object issueCaller).Ordered := by
    simp only [issueDefaults, issuePresets, issueCaller, Json.Ordered, Json.OrderedMembers,
      Dict.Sorted]
    decide
  have heffective : Arguments.merge issueDefaults (Arguments.merge issuePresets issueCaller)
      = issueEffective := rfl
  obtain ⟨hdefaults, hpresets, hcaller⟩ := hordered
  obtain ⟨hlayered, hagain, hprepared⟩ := Arguments.merge_layers hdefaults hpresets hcaller
  rw [heffective] at hlayered hagain hprepared
  exact ⟨hdefaults, hpresets, hcaller, hlayered, hagain, _, rfl,
    hprepared issueService .anonymous "mine" false _ rfl rfl rfl⟩

end DeclaredApi
