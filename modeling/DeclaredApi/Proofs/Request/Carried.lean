import DeclaredApi.Proofs.Arguments.Parts
import DeclaredApi.Proofs.Request.Valid

/-!
# `DeclaredApi.Proofs.Request.Carried`: every argument is sent once

The parts of a request come from the arguments in two ways: the path is filled from the template,
and all else is put into its slot. An argument is sent once if the two ways agree about it, that
is, if its slot is the path exactly when the path looks it up.

`PathFits` says when they agree for all arguments: a name that is looked up is no blank
placeholder, or one that is declared for the path, and what is declared for the path is looked up.

* `has_imp_slot`, `carries_slot`: a part other than the path has a name only if it is the slot of
  that name, and then it has the argument's value as that slot writes it.
* `carriedOnce_of_parts`: the parts hold nothing but arguments and the template's literal text. If
  the path fits, every argument with something to send is carried by one part and no other.
  That the path fits is also necessary for this (`pathFits_of_carriedOnce`).
* `not_carriedOnce`: a path parameter without a placeholder is lost (`parts_unplaced`), and an
  argument for a blank placeholder is sent twice (`parts_blank`), both in services that are
  accepted.
-/

set_option autoImplicit false

namespace DeclaredApi

/-! ### What parts hold -/

namespace RequestParts

/-- The part of a request for a slot holds something under the name. The path holds the names that
are looked up in it. -/
def Has (pathNames : List String) (parts : RequestParts) (name : String) : Slot → Prop
  | .path => name ∈ pathNames
  | .query => ∃ text, (name, text) ∈ parts.query
  | .header => ∃ text, (name, text) ∈ parts.headers
  | .body => ∃ fields value, parts.body = some fields ∧ (name, value) ∈ fields

/-- The part of a request for a slot has the value for the name, and nothing else for that name:
the path its encoded text, where the name is looked up, the query its pairs in order, a header its
text, and the body the value itself. -/
def Carries (pathNames : List String) (parts : RequestParts) (name : String) (value : Json) :
    Slot → Prop
  | .path => name ∈ pathNames ∧
      ∃ before after, parts.path = before ++ Text.percentEncode value.plainText ++ after
  | .query => parts.query.filter (·.1 = name) = queryPairs name value ∧ queryPairs name value ≠ []
  | .header => Dict.find? name parts.headers = some value.plainText
  | .body => ∃ fields, parts.body = some fields ∧ Dict.find? name fields = some value

/-- One part carries the argument, and no other part has anything under its name. -/
def CarriedOnce (pathNames : List String) (parts : RequestParts) (name : String) (value : Json) :
    Prop :=
  ∃ slot, parts.Carries pathNames name value slot ∧
    ∀ other, parts.Has pathNames name other → other = slot

/-- The parts hold nothing but the arguments.

- `path`: the path is the literal text of the template and encoded values of arguments, or empty;
- `query`, `headers`, `body`: each entry is one that an argument of its name gives. -/
structure FromArguments (op : Operation Call) (arguments : Arguments) (parts : RequestParts) :
    Prop where
  path : match op.template? with
    | some template => ∃ texts,
        List.Forall₂ (Template.Piece.Fills arguments) (Template.pieces template.toList) texts ∧
          parts.path = String.join texts
    | none => parts.path = ""
  query : ∀ pair ∈ parts.query, ∃ value, (pair.1, value) ∈ arguments ∧
    pair ∈ queryPairs pair.1 value
  headers : ∀ header ∈ parts.headers, ∃ value, (header.1, value) ∈ arguments ∧
    value.isNull = false ∧ header.2 = value.plainText
  body : ∀ fields, parts.body = some fields → ∀ field ∈ fields, field ∈ arguments

end RequestParts

/-- A value has something to send in a slot: it is not null, and as a list for the query it has an
item that is not null. -/
def Json.HasContent (slot : Slot) : Json → Prop
  | .null => False
  | .array items => slot = .query → ∃ item ∈ items, item.isNull = false
  | _ => True

/-- A value with something to send is not null. -/
theorem Json.HasContent.isNull {slot : Slot} {value : Json} (h : value.HasContent slot) :
    value.isNull = false := by
  cases value with
  | null => cases h
  | bool | number | string | array | object => rfl

namespace RequestParts

/-- A value with something to send in the query gives a pair. -/
theorem queryPairs_ne_nil {name : String} {value : Json} (h : value.HasContent .query) :
    queryPairs name value ≠ [] := by
  cases value with
  | null => cases h
  | array items =>
      obtain ⟨item, hmem, hnull⟩ := h rfl
      simp only [queryPairs, ne_eq, List.map_eq_nil_iff, List.filter_eq_nil_iff, not_forall]
      exact ⟨item, hmem, by simp [hnull]⟩
  | _ => simp [queryPairs]

/-- All pairs of an argument have its name. -/
theorem fst_of_mem_queryPairs {name : String} {value : Json} {pair : String × String}
    (h : pair ∈ queryPairs name value) : pair.1 = name := by
  cases value with
  | null => cases h
  | array items =>
      obtain ⟨_, _, rfl⟩ := List.mem_map.mp h
      rfl
  | _ =>
      obtain rfl := List.mem_singleton.mp h
      rfl

variable {slotOf : String → Slot} {path : String} {arguments : Arguments} {name : String}
  {value : Json} {pathNames : List String}

/-- The arguments in a slot are those whose names are sorted into it. -/
theorem mem_inSlot_iff {slot : Slot} {argument : String × Json} :
    argument ∈ arguments.inSlot slotOf slot ↔ argument ∈ arguments ∧ slotOf argument.1 = slot := by
  simp [Arguments.inSlot]

/-- The fields of the body are the arguments for the body. -/
theorem body_ofSlots {fields : Dict Json}
    (h : (ofSlots slotOf path arguments).body = some fields) :
    fields = arguments.inSlot slotOf .body := by
  simp only [ofSlots] at h
  split at h
  · cases h
  · exact (Option.some.inj h).symm

/-- A part other than the path has only names of its slot. -/
theorem has_imp_slot {slot : Slot} (hslot : slot ≠ .path)
    (h : (ofSlots slotOf path arguments).Has pathNames name slot) : slotOf name = slot := by
  cases slot with
  | path => exact absurd rfl hslot
  | query =>
      obtain ⟨text, hmem⟩ := h
      obtain ⟨argument, hargument, hpair⟩ := List.mem_flatMap.mp hmem
      rw [show name = argument.1 from fst_of_mem_queryPairs hpair]
      exact (mem_inSlot_iff.mp hargument).2
  | header =>
      obtain ⟨text, hmem⟩ := h
      obtain ⟨argument, hargument, heq⟩ := List.mem_map.mp hmem
      cases heq
      exact (mem_inSlot_iff.mp (List.mem_filter.mp hargument).1).2
  | body =>
      obtain ⟨fields, value, hfields, hmem⟩ := h
      rw [body_ofSlots hfields] at hmem
      exact (mem_inSlot_iff.mp hmem).2

/-- The pairs under the name of an argument are its own, for no other argument has that name. -/
theorem filter_flatMap_queryPairs (hsorted : Dict.Sorted arguments)
    (hmem : (name, value) ∈ arguments) :
    (arguments.flatMap fun (name, value) => queryPairs name value).filter (·.1 = name)
      = queryPairs name value := by
  obtain ⟨before, after, rfl⟩ := List.append_of_mem hmem
  obtain ⟨-, hrest, hbefore⟩ := List.pairwise_append.mp hsorted
  have hafter := (List.pairwise_cons.mp hrest).1
  have hothers : ∀ others : Arguments, (∀ other ∈ others, other.1 ≠ name) →
      (others.flatMap fun (name, value) => queryPairs name value).filter (·.1 = name) = [] := by
    intro others hne
    refine List.filter_eq_nil_iff.mpr fun pair hpair => ?_
    obtain ⟨other, hother, hpair⟩ := List.mem_flatMap.mp hpair
    simpa [fst_of_mem_queryPairs hpair] using hne other hother
  have hown : (queryPairs name value).filter (·.1 = name) = queryPairs name value :=
    List.filter_eq_self.mpr fun pair hpair => by simpa using fst_of_mem_queryPairs hpair
  rw [List.flatMap_append, List.flatMap_cons, List.filter_append, List.filter_append, hown,
    hothers before fun other hother => ne_of_lt (hbefore other hother _ List.mem_cons_self),
    hothers after fun other hother => ne_of_gt (hafter other hother)]
  simp

/-- The slot of an argument with something to send carries it, unless that is the path. -/
theorem carries_slot (hsorted : Dict.Sorted arguments) (hmem : (name, value) ∈ arguments)
    (hslot : slotOf name ≠ .path) (hcontent : value.HasContent (slotOf name)) :
    (ofSlots slotOf path arguments).Carries pathNames name value (slotOf name) := by
  have hpart : (name, value) ∈ arguments.inSlot slotOf (slotOf name) :=
    mem_inSlot_iff.mpr ⟨hmem, rfl⟩
  have hsortedPart : Dict.Sorted (arguments.inSlot slotOf (slotOf name)) :=
    Dict.sorted_filter hsorted _
  cases hname : slotOf name with
  | path => exact absurd hname hslot
  | query =>
      rw [hname] at hpart hsortedPart hcontent
      exact ⟨filter_flatMap_queryPairs hsortedPart hpart, queryPairs_ne_nil hcontent⟩
  | header =>
      rw [hname] at hpart hsortedPart
      have hkept : (name, value) ∈ (arguments.inSlot slotOf .header).filter (¬ ·.2.isNull) :=
        List.mem_filter.mpr ⟨hpart, by simp [hcontent.isNull]⟩
      -- Writing the values as texts leaves the names and their order alone.
      have hsortedTexts : Dict.Sorted (ofSlots slotOf path arguments).headers :=
        List.pairwise_map.mpr (Dict.sorted_filter hsortedPart _)
      exact (Dict.find?_eq_some_iff hsortedTexts).mpr (List.mem_map_of_mem hkept)
  | body =>
      rw [hname] at hpart hsortedPart
      refine ⟨arguments.inSlot slotOf .body, ?_, (Dict.find?_eq_some_iff hsortedPart).mpr hpart⟩
      have hne : arguments.inSlot slotOf .body ≠ [] := List.ne_nil_of_mem hpart
      simp [ofSlots, hne]

/-- What a part carries it holds. -/
theorem has_of_carries {parts : RequestParts} {slot : Slot}
    (h : parts.Carries pathNames name value slot) : parts.Has pathNames name slot := by
  cases slot with
  | path => exact h.1
  | query =>
      obtain ⟨hpairs, hne⟩ := h
      obtain ⟨pair, hpair⟩ := List.exists_mem_of_ne_nil _ hne
      rw [← hpairs] at hpair
      obtain ⟨hmem, hname⟩ := List.mem_filter.mp hpair
      exact ⟨pair.2, by simpa [← of_decide_eq_true hname] using hmem⟩
  | header => exact ⟨value.plainText, Dict.mem_of_find? h⟩
  | body =>
      obtain ⟨fields, hfields, hfind⟩ := h
      exact ⟨fields, value, hfields, Dict.mem_of_find? hfind⟩

/-- The path carries an argument that is looked up in it. -/
theorem carries_path {op : Operation Call} {parts : RequestParts} (hsorted : Dict.Sorted arguments)
    (hpath : op.SendsPath arguments parts.path) (hmem : (name, value) ∈ arguments)
    (hlooked : name ∈ op.pathNames) :
    parts.Carries op.pathNames name value .path := by
  refine ⟨hlooked, ?_⟩
  unfold Operation.pathNames at hlooked
  unfold Operation.SendsPath at hpath
  cases htemplate : op.template? with
  | none =>
      rw [htemplate] at hlooked
      cases hlooked
  | some template =>
      rw [htemplate] at hlooked hpath
      exact Template.exists_split_of_fill hpath hlooked ((Dict.find?_eq_some_iff hsorted).mpr hmem)

/-- Parts hold nothing but arguments, whatever their slots are. -/
theorem fromArguments_ofSlots {op : Operation Call} (hpath : op.SendsPath arguments path) :
    (ofSlots slotOf path arguments).FromArguments op arguments where
  path := by
    unfold Operation.SendsPath at hpath
    cases htemplate : op.template? with
    | none =>
        rw [htemplate] at hpath
        exact hpath
    | some template =>
        rw [htemplate] at hpath
        exact Template.exists_texts_of_fill hpath
  query := by
    intro pair hpair
    obtain ⟨argument, hargument, hpair⟩ := List.mem_flatMap.mp hpair
    rw [fst_of_mem_queryPairs hpair]
    exact ⟨argument.2, (mem_inSlot_iff.mp hargument).1, hpair⟩
  headers := by
    intro header hheader
    obtain ⟨argument, hargument, rfl⟩ := List.mem_map.mp hheader
    obtain ⟨hmem, hnull⟩ := List.mem_filter.mp hargument
    exact ⟨argument.2, (mem_inSlot_iff.mp hmem).1, by simpa using hnull, rfl⟩
  body := by
    intro fields hfields field hfield
    rw [body_ofSlots hfields] at hfield
    exact (mem_inSlot_iff.mp hfield).1

end RequestParts

/-! ### Paths that fit -/

namespace Operation

variable {op : Operation Call} {name : String}

/-- Only the path of an endpoint has names to look up. -/
theorem isGraphql_of_mem_pathNames (h : name ∈ op.pathNames) : op.isGraphql = false := by
  unfold pathNames template? at h
  unfold isGraphql
  cases hcall : op.call with
  | rest call => rfl
  | graphql call =>
      rw [hcall] at h
      cases h

/-- The slot of a name is the path if it is a placeholder, or else if it is declared so for an
endpoint. -/
theorem slotFor_eq_path_iff (op : Operation Call) (name : String) :
    op.slotFor (.ofOperation op) name = .path ↔
      op.isGraphql = false ∧
        (name ∈ op.placeholders ∨ ∃ p, op.declaration? name = some p ∧ p.slot = .path) := by
  rw [slotFor, Expected.find?_ofOperation]
  by_cases hmem : name ∈ op.placeholders
  · have hrest := isGraphql_of_mem_pathNames (mem_placeholders_iff.mp hmem).1
    simp [hmem, hrest, Expected.placeholder]
  · rw [if_neg hmem]
    cases op.declaration? name with
    | none => cases op.isGraphql <;> cases op.isRead <;> simp [hmem]
    | some p =>
        cases hslot : p.slot with
        | header => simp [hmem, hslot]
        | path | query | body => cases op.isGraphql <;> simp [hmem, hslot]

/-- The path of an operation and its declarations ask for the same names.

- `blank`: a blank placeholder is declared as a path parameter;
- `declared`: what an endpoint declares as a path parameter is looked up in the path. -/
structure PathFits (op : Operation Call) : Prop where
  blank : "" ∈ op.pathNames → ∃ p, op.declaration? "" = some p ∧ p.slot = .path
  declared : op.isGraphql = false → ∀ name p, op.declaration? name = some p → p.slot = .path →
    name ∈ op.pathNames

/-- The path fits if the names that are put into the path are those that are looked up there. -/
theorem pathFits_iff :
    op.PathFits ↔ ∀ name, op.slotFor (.ofOperation op) name = .path ↔ name ∈ op.pathNames := by
  constructor
  · intro hfits name
    rw [slotFor_eq_path_iff]
    constructor
    · rintro ⟨hrest, hplaceholder | ⟨p, hdeclared, hslot⟩⟩
      · exact (mem_placeholders_iff.mp hplaceholder).1
      · exact hfits.declared hrest name p hdeclared hslot
    · intro hlooked
      refine ⟨isGraphql_of_mem_pathNames hlooked, ?_⟩
      by_cases hblank : name = ""
      · -- The blank name is no placeholder, so only a declaration can give it this slot.
        subst hblank
        exact Or.inr (hfits.blank hlooked)
      · exact Or.inl (mem_placeholders_iff.mpr ⟨hlooked, hblank⟩)
  · intro hagree
    refine ⟨fun hlooked => ?_, fun hrest name p hdeclared hslot => ?_⟩
    · obtain ⟨-, hplaceholder | hdeclared⟩ :=
        (slotFor_eq_path_iff op "").mp ((hagree "").mpr hlooked)
      · exact absurd rfl (mem_placeholders_iff.mp hplaceholder).2
      · exact hdeclared
    · exact (hagree name).mp
        ((slotFor_eq_path_iff op name).mpr ⟨hrest, Or.inr ⟨p, hdeclared, hslot⟩⟩)

end Operation

/-! ### Arguments and their parts -/

/-- Something is true of every argument with something to send and the parts that are made with
it, in all calls of the operation that fill its path. -/
def Operation.EveryArgument (op : Operation Call) (P : RequestParts → String → Json → Prop) :
    Prop :=
  ∀ (arguments : Arguments) (parts : RequestParts), Dict.Sorted arguments →
    arguments.parts op (.ofOperation op) = .ok parts → ∀ name value, (name, value) ∈ arguments →
      value.HasContent (op.slotFor (.ofOperation op) name) → P parts name value

namespace Arguments

variable {op : Operation Call} {arguments : Arguments} {parts : RequestParts}

/-- Arguments with a value for each of the names. -/
def giving (names : List String) : Arguments :=
  Dict.ofList (names.map fun name => (name, .string "x"))

/-- Every name of the list is given. -/
theorem find?_giving {name : String} {names : List String} (h : name ∈ names) :
    Dict.find? name (giving names) = some (.string "x") := by
  have hentry : (name, Json.string "x") ∈ names.map fun name => (name, Json.string "x") :=
    List.mem_map_of_mem h
  obtain ⟨found, hfound⟩ := Dict.exists_find?_ofList hentry
  obtain ⟨_, -, heq⟩ := List.mem_map.mp (Dict.mem_ofList_imp (Dict.mem_of_find? hfound))
  cases heq
  exact hfound

/-- The path must fit: where it does not, some argument is lost or sent twice. -/
theorem pathFits_of_carriedOnce
    (h : op.EveryArgument fun parts name value => parts.CarriedOnce op.pathNames name value) :
    op.PathFits := by
  refine Operation.pathFits_iff.mpr fun name => ?_
  -- A call that fills the path and has an argument of the name too.
  have hgiven : ∀ looked ∈ name :: op.pathNames,
      Dict.find? looked (giving (name :: op.pathNames)) = some (.string "x") :=
    fun _ => find?_giving
  have hfilled : ∃ parts, (giving (name :: op.pathNames)).parts op (.ofOperation op) = .ok parts :=
    exists_parts_iff.mpr fun looked hlooked =>
      isGiven_iff.mpr ⟨_, hgiven looked (List.mem_cons_of_mem _ hlooked), rfl⟩
  obtain ⟨parts, hparts⟩ := hfilled
  have hsorted : Dict.Sorted (giving (name :: op.pathNames)) := Dict.sorted_ofList _
  have hmem := Dict.mem_of_find? (hgiven name List.mem_cons_self)
  obtain ⟨slot, hcarries, honly⟩ := h _ parts hsorted hparts name _ hmem trivial
  obtain ⟨path, rfl, -⟩ := exists_path_of_parts hsorted hparts
  constructor
  · intro hpath
    -- A part that is not the path would make the name one of its own.
    have hslot : slot = .path := by
      by_contra hother
      have hown := RequestParts.has_imp_slot hother (RequestParts.has_of_carries hcarries)
      exact hother (hown.symm.trans hpath)
    subst hslot
    exact hcarries.1
  · intro hlooked
    by_contra hother
    -- The slot of the name would carry it, and so would the path.
    have hslot := honly _ (RequestParts.has_of_carries
      (RequestParts.carries_slot hsorted hmem hother trivial))
    exact hother (hslot.trans (honly .path hlooked).symm)

/-- What is sent for an operation comes from the arguments. If its path fits, every argument with
something to send is carried by one part, and no other part has its name; and only if it fits is
this so in all calls of the operation. -/
theorem carriedOnce_of_parts (hsorted : Dict.Sorted arguments)
    (h : arguments.parts op (.ofOperation op) = .ok parts) :
    parts.FromArguments op arguments ∧
    (op.PathFits → ∀ name value, (name, value) ∈ arguments →
      value.HasContent (op.slotFor (.ofOperation op) name) →
        parts.CarriedOnce op.pathNames name value) ∧
    (op.EveryArgument (fun parts name value => parts.CarriedOnce op.pathNames name value) →
      op.PathFits) := by
  obtain ⟨path, rfl, hpath⟩ := exists_path_of_parts hsorted h
  refine ⟨RequestParts.fromArguments_ofSlots hpath, ?_, pathFits_of_carriedOnce⟩
  intro hfits name value hmem hcontent
  have hagree := Operation.pathFits_iff.mp hfits name
  refine ⟨op.slotFor (.ofOperation op) name, ?_, ?_⟩
  · -- A slot takes what is classified to it. The path takes only what the template looks up, and
    -- that is where the two agree.
    by_cases hslot : op.slotFor (.ofOperation op) name = .path
    · rw [hslot]
      exact RequestParts.carries_path hsorted hpath hmem (hagree.mp hslot)
    · exact RequestParts.carries_slot hsorted hmem hslot hcontent
  · intro other hhas
    by_cases hother : other = .path
    · subst hother
      exact (hagree.mpr hhas).symm
    · exact (RequestParts.has_imp_slot hother hhas).symm

/-- An endpoint with a parameter for every part of a request. -/
def taggedOperation : Operation Call :=
  Service.pathOperation "/users/\x7bid\x7d"
    [{ name := "X-Trace", slot := .header }, { name := "note", slot := .body }]

/-- Arguments for it, one of them a list that is not declared. -/
def taggedArguments : Arguments :=
  [("X-Trace", .string "t"), ("id", .string "7"), ("note", .string "n"),
    ("tags", .array [.string "a", .null, .string "b"])]

/-- What is sent. -/
def taggedParts : RequestParts where
  path := "/users/7"
  query := [("tags", "a"), ("tags", "b")]
  headers := [("X-Trace", "t")]
  body := some [("note", .string "n")]

/-- The parts that the example is sorted into. -/
theorem parts_taggedArguments :
    taggedArguments.parts taggedOperation (.ofOperation taggedOperation) = .ok taggedParts := by
  have hexpected : Expected.ofOperation taggedOperation
      = { entries := [("X-Trace", ⟨.header, false, none⟩), ("id", Expected.placeholder),
            ("note", ⟨.body, false, none⟩)] } := by
    rw [taggedOperation, Service.ofOperation_pathOperation Service.lookedUp_named]
    rfl
  have hfill : Template.fill "/users/\x7bid\x7d" taggedArguments = .ok "/users/7" := by
    refine Template.fill_eq_ok_iff.mpr ⟨?_, ?_⟩
    · rw [Service.lookedUp_named]
      decide
    · rw [Service.pieces_named]
      rfl
  rw [Arguments.parts_of_fill rfl hfill, hexpected]
  rfl

/-- The path of the example asks for one name. -/
theorem pathNames_taggedOperation : taggedOperation.pathNames = ["id"] :=
  Service.lookedUp_named

/-- Nothing is declared for the path but its placeholder. -/
theorem pathFits_taggedOperation : taggedOperation.PathFits where
  blank := by
    intro hblank
    rw [pathNames_taggedOperation] at hblank
    exact absurd hblank (by decide)
  declared := by
    intro _ name p hdeclared hslot
    have hmem : p ∈ taggedOperation.parameters :=
      List.mem_reverse.mp (List.mem_of_find?_eq_some hdeclared)
    rcases List.mem_pair.mp hmem with rfl | rfl
    · cases hslot
    · cases hslot

/-- Every argument is in its part, the list item by item and without the null. -/
theorem carriedOnce_taggedArguments :
    (Dict.Sorted taggedArguments ∧
      taggedArguments.parts taggedOperation (.ofOperation taggedOperation) = .ok taggedParts ∧
      taggedOperation.PathFits) ∧
    taggedParts.FromArguments taggedOperation taggedArguments ∧
    ∀ name value, (name, value) ∈ taggedArguments →
      value.HasContent (taggedOperation.slotFor (.ofOperation taggedOperation) name) →
        taggedParts.CarriedOnce taggedOperation.pathNames name value := by
  have hsorted : Dict.Sorted taggedArguments := by
    unfold Dict.Sorted taggedArguments
    decide
  obtain ⟨hfrom, honce, -⟩ := carriedOnce_of_parts hsorted parts_taggedArguments
  exact ⟨⟨hsorted, parts_taggedArguments, pathFits_taggedOperation⟩, hfrom,
    honce pathFits_taggedOperation⟩

/-! ### Arguments that are lost or sent twice -/

/-- A path parameter without a placeholder. -/
def unplaced : Parameter :=
  { name := "id", slot := .path }

/-- A template without braces asks for nothing. -/
theorem lookedUp_literal : Template.lookedUp "/users" = [] := by
  rw [Template.lookedUp_eq_names, Template.names, Template.pieces_eq_literal rfl]
  rfl

/-- An argument for a path parameter without a placeholder is lost. -/
theorem parts_unplaced :
    Arguments.parts (Service.pathOperation "/users" [unplaced])
      (.ofOperation (Service.pathOperation "/users" [unplaced])) [("id", .string "1")]
      = .ok { path := "/users" } := by
  have hexpected : Expected.ofOperation (Service.pathOperation "/users" [unplaced])
      = { entries := [("id", ⟨.path, false, none⟩)] } := by
    rw [Service.ofOperation_pathOperation lookedUp_literal]
    rfl
  have hfill : Template.fill "/users" [("id", .string "1")] = .ok "/users" := by
    refine Template.fill_eq_ok_iff.mpr ⟨?_, ?_⟩
    · rw [lookedUp_literal]
      decide
    · rw [Template.pieces_eq_literal rfl]
      rfl
  rw [Arguments.parts_of_fill rfl hfill, hexpected]
  rfl

/-- An argument for a blank placeholder is sent in the path and in the query. -/
theorem parts_blank :
    Arguments.parts (Service.pathOperation "/users/\x7b\x7d")
      (.ofOperation (Service.pathOperation "/users/\x7b\x7d")) [("", .string "1")]
      = .ok { path := "/users/1", query := [("", "1")] } := by
  have hfill : Template.fill "/users/\x7b\x7d" [("", .string "1")] = .ok "/users/1" := by
    refine Template.fill_eq_ok_iff.mpr ⟨?_, ?_⟩
    · rw [Service.lookedUp_blank]
      decide
    · rw [Service.pieces_blank]
      rfl
  rw [Arguments.parts_of_fill rfl hfill, Service.ofOperation_blank]
  rfl

/-- Arguments for an operation of an accepted service may be lost, and they may be sent twice. -/
theorem not_carriedOnce :
    (¬ ∀ service : Service, service.check = .ok () → ∀ op ∈ service.operations,
      op.EveryArgument fun parts name value => ∃ slot, parts.Carries op.pathNames name value slot) ∧
    ¬ ∀ service : Service, service.check = .ok () → ∀ op ∈ service.operations,
      op.EveryArgument fun parts name _ => ∀ slot other,
        parts.Has op.pathNames name slot → parts.Has op.pathNames name other → slot = other := by
  constructor
  · intro h
    have hslash : "/users".startsWith "/" = true := by simp
    have hcheck := Service.check_pathService hslash [unplaced]
    obtain ⟨slot, hcarries⟩ := h _ hcheck _ (List.mem_singleton_self _) _ _
      (List.pairwise_singleton _ _) parts_unplaced "id" (.string "1") (List.mem_singleton_self _)
      trivial
    -- There is no part that could have it.
    cases slot with
    | path =>
        have hlooked : "id" ∈ Template.lookedUp "/users" := hcarries.1
        rw [lookedUp_literal] at hlooked
        cases hlooked
    | query => exact hcarries.2 hcarries.1.symm
    | header => cases hcarries
    | body =>
        obtain ⟨fields, hfields, -⟩ := hcarries
        cases hfields
  · intro h
    have hslash : "/users/\x7b\x7d".startsWith "/" = true := by simp
    have hcheck := Service.check_pathService hslash []
    have hone := h _ hcheck _ (List.mem_singleton_self _) _ _ (List.pairwise_singleton _ _)
      parts_blank "" (.string "1") (List.mem_singleton_self _) trivial
    have hpath : "" ∈ Template.lookedUp "/users/\x7b\x7d" := by
      rw [Service.lookedUp_blank]
      exact List.mem_cons_self
    cases hone .path .query hpath ⟨"1", List.mem_singleton_self _⟩

end Arguments
end DeclaredApi
