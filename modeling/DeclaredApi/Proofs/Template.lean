import DeclaredApi.Arguments.Parts
import DeclaredApi.Proofs.Template.Grammar
import Mathlib.Data.List.Forall2

/-!
# `DeclaredApi.Proofs.Template`: two scanners of one template

A template is scanned by two loops that know nothing of each other. `placeholders` collects the
names that become parameters, each once and never a blank one. `fill` looks up the argument for
every pair of braces as it comes, and puts the path together. Both are measured by the one way in
which the template is read (`Reads`):

* `placeholdersFrom_of_reads`: the first loop adds the names of the placeholders that are neither
  blank nor there already;
* `fillFrom_of_reads`: the second loop adds the texts of the pieces, and notes the names that no
  argument is given for, the blank one too.

So the two agree about the names of a template, but for the blank one (`placeholders_eq_lookedUp`,
`mem_placeholders_iff`). What `fill` looks up is told by `fill` itself: without arguments it misses
every name that it looks up (`lookedUp`).

A path that was filled is the texts of the pieces in order, each literal piece as it is and each
placeholder as the encoded value of a given argument (`exists_texts_of_fill`).
-/

set_option autoImplicit false

namespace DeclaredApi

/-- An argument is given when it is there and not null. -/
theorem Arguments.isGiven_iff {arguments : Arguments} {name : String} :
    arguments.isGiven name = true ↔
      ∃ value, Dict.find? name arguments = some value ∧ value.isNull = false := by
  simp only [isGiven, Option.any_eq_true, Bool.not_eq_true, decide_eq_true_eq]

namespace Template

/-- What stands between the braces of a template, in order. -/
def names (template : String) : List String :=
  (pieces template.toList).filterMap Piece.name?

/-! ### The scanner of names -/

/-- The name is not blank, and has not been found before. -/
def isNew (found : List String) (name : String) : Bool :=
  ¬ name.isEmpty ∧ ¬ found.contains name

/-- Without a pair of braces no name is found. -/
theorem placeholdersFrom_of_not_hasPair {text : List Char} (hpair : ¬ HasPair text)
    (found : List String) : placeholdersFrom found text = found := by
  rw [placeholdersFrom]
  split
  · rfl
  · next hopen =>
      obtain ⟨before, after, hbefore, rfl, rfl⟩ := Text.idxOf?_eq_some_iff_append.mp hopen
      have hdrop : (before ++ '{' :: after).drop (before.length + 1) = after := by simp
      have hclose : after.idxOf? '}' = none := by
        rw [List.idxOf?_eq_none_iff]
        intro hmem
        exact hpair ((hasPair_append_iff hbefore).mpr (hasPair_cons_iff.mpr hmem))
      simp only [hdrop, hclose]

/-- A template without a pair of braces has no placeholders. -/
theorem placeholders_of_not_hasPair {template : String} (hpair : ¬ HasPair template.toList) :
    placeholders template = [] :=
  placeholdersFrom_of_not_hasPair hpair []

/-- A pair of braces gives a name, which is kept if it is new. -/
theorem placeholdersFrom_append {before name rest : List Char} (hbefore : '{' ∉ before)
    (hname : '}' ∉ name) (found : List String) :
    placeholdersFrom found (before ++ '{' :: (name ++ '}' :: rest))
      = placeholdersFrom
          (if isNew found (String.ofList (Text.trim name)) then
            found ++ [String.ofList (Text.trim name)] else found) rest := by
  rw [placeholdersFrom]
  split
  · next hnone => simp [List.idxOf?_eq_none_iff] at hnone
  · next start hopen =>
      have hstart : (before ++ '{' :: (name ++ '}' :: rest)).idxOf? '{' = some before.length :=
        Text.idxOf?_eq_some_iff_append.mpr ⟨before, _, hbefore, rfl, rfl⟩
      obtain rfl := Option.some.inj (hstart.symm.trans hopen)
      have hdrop : (before ++ '{' :: (name ++ '}' :: rest)).drop (before.length + 1)
          = name ++ '}' :: rest := by simp
      have hclose : (name ++ '}' :: rest).idxOf? '}' = some name.length :=
        Text.idxOf?_eq_some_iff_append.mpr ⟨name, rest, hname, rfl, rfl⟩
      simp only [hdrop, hclose, isNew]
      simp

/-- A new name comes before the new names after it. -/
theorem append_eraseDups_filter (found rest : List String) (name : String) :
    (if isNew found name then found ++ [name] else found)
        ++ (rest.filter (isNew (if isNew found name then found ++ [name] else found))).eraseDups
      = found ++ ((name :: rest).filter (isNew found)).eraseDups := by
  cases hnew : isNew found name with
  | false => simp [hnew]
  | true =>
      -- What equals the name is new no more, and is dropped from the list in either way.
      have hsame : rest.filter (isNew (found ++ [name]))
          = (rest.filter (isNew found)).filter (fun other => !other == name) := by
        rw [List.filter_filter]
        refine List.filter_congr fun other _ => ?_
        simp [isNew]
        grind
      simp [hnew, hsame, List.eraseDups_cons]

/-- The first loop adds the names of the placeholders, each once and none that is blank. -/
theorem placeholdersFrom_of_reads {text : List Char} {ps : List Piece} (hreads : Reads text ps)
    (found : List String) :
    placeholdersFrom found text
      = found ++ ((ps.filterMap Piece.name?).filter (isNew found)).eraseDups := by
  induction hreads generalizing found with
  | literal hpair =>
      simp [placeholdersFrom_of_not_hasPair hpair, List.filterMap_cons, Piece.name?]
  | placeholder hbefore hname hrest ih =>
      rw [placeholdersFrom_append hbefore hname, ih, append_eraseDups_filter]
      rfl

/-- The placeholders are the names between braces, each at its first place and without the
blank one. -/
theorem placeholders_eq (template : String) :
    placeholders template = ((names template).filter (¬ ·.isEmpty)).eraseDups := by
  have hnew : isNew [] = fun name : String => decide ¬ name.isEmpty = true := by
    funext name
    simp [isNew]
  rw [placeholders, placeholdersFrom_of_reads (reads_pieces _), hnew, List.nil_append]
  rfl

/-! ### The scanner that fills -/

/-- The value for a placeholder, encoded. -/
def filling? (arguments : Arguments) (name : List Char) : Option String :=
  ((Dict.find? (String.ofList name) arguments).filter (¬ ·.isNull)).map fun value =>
    Text.percentEncode value.plainText

/-- The text of a piece with its placeholder filled. -/
def Piece.filled (arguments : Arguments) : Piece → String
  | .literal text => String.ofList text
  | .placeholder name => (filling? arguments name).getD ""

/-- The name of a placeholder that no argument fills. -/
def Piece.unfilled? (arguments : Arguments) : Piece → Option String
  | .literal _ => none
  | .placeholder name =>
    if (filling? arguments name).isSome then none else some (String.ofList name)

variable {arguments : Arguments}

/-- Without a pair of braces all that is left is literal. -/
theorem fillFrom_of_not_hasPair {text : List Char} (hpair : ¬ HasPair text) (path : String)
    (missing : List String) :
    fillFrom arguments path missing text = finish path missing text := by
  rw [fillFrom]
  split
  · rfl
  · next hopen =>
      obtain ⟨before, after, hbefore, rfl, rfl⟩ := Text.idxOf?_eq_some_iff_append.mp hopen
      have hdrop : (before ++ '{' :: after).drop before.length = '{' :: after := by simp
      have hclose : ('{' :: after).idxOf? '}' = none := by
        rw [List.idxOf?_eq_none_iff]
        intro hmem
        have hafter : '}' ∈ after := by simpa using hmem
        exact hpair ((hasPair_append_iff hbefore).mpr (hasPair_cons_iff.mpr hafter))
      simp only [hdrop, hclose]

/-- The text before a pair of braces is literal, and what stands between them is looked up. -/
theorem fillFrom_append {before name rest : List Char} (hbefore : '{' ∉ before)
    (hname : '}' ∉ name) (path : String) (missing : List String) :
    fillFrom arguments path missing (before ++ '{' :: (name ++ '}' :: rest))
      = match filling? arguments (Text.trim name) with
        | some text => fillFrom arguments (path ++ String.ofList before ++ text) missing rest
        | none =>
          fillFrom arguments (path ++ String.ofList before)
            (missing ++ [String.ofList (Text.trim name)]) rest := by
  rw [fillFrom]
  split
  · next hnone => simp [List.idxOf?_eq_none_iff] at hnone
  · next start hopen =>
      have hstart : (before ++ '{' :: (name ++ '}' :: rest)).idxOf? '{' = some before.length :=
        Text.idxOf?_eq_some_iff_append.mpr ⟨before, _, hbefore, rfl, rfl⟩
      obtain rfl := Option.some.inj (hstart.symm.trans hopen)
      have hdrop : (before ++ '{' :: (name ++ '}' :: rest)).drop before.length
          = '{' :: (name ++ '}' :: rest) := by simp
      -- The closing brace is looked for from the opening one on.
      have hclose : ('{' :: (name ++ '}' :: rest)).idxOf? '}' = some (name.length + 1) :=
        Text.idxOf?_eq_some_iff_append.mpr ⟨'{' :: name, rest, by simpa using hname, rfl, rfl⟩
      have htake : (before ++ '{' :: (name ++ '}' :: rest)).take before.length = before := by simp
      have hinner : (('{' :: (name ++ '}' :: rest)).take (name.length + 1)).drop 1 = name := by
        simp
      have hafter : ('{' :: (name ++ '}' :: rest)).drop (name.length + 1 + 1) = rest := by simp
      simp only [hdrop, hclose, htake, hinner, hafter, filling?]
      cases (Dict.find? (String.ofList (Text.trim name)) arguments).filter (¬ ·.isNull) <;> rfl

/-- A template without a pair of braces is the path. -/
theorem fill_of_not_hasPair {template : String} (hpair : ¬ HasPair template.toList)
    (arguments : Arguments) : fill template arguments = .ok template := by
  rw [fill, fillFrom_of_not_hasPair hpair]
  simp [finish]

/-- The second loop adds the texts of the pieces, and the names that no argument is given for. -/
theorem fillFrom_of_reads {text : List Char} {ps : List Piece} (hreads : Reads text ps)
    (path : String) (missing : List String) :
    fillFrom arguments path missing text
      = finish (path ++ String.join (ps.map (Piece.filled arguments)))
          (missing ++ ps.filterMap (Piece.unfilled? arguments)) [] := by
  induction hreads generalizing path missing with
  | literal hpair =>
      simp [fillFrom_of_not_hasPair hpair, finish, List.filterMap_cons, Piece.filled,
        Piece.unfilled?]
  | @placeholder before name rest ps hbefore hname _ ih =>
      rw [fillFrom_append hbefore hname]
      cases hfilling : filling? arguments (Text.trim name) with
      | some text =>
          simp [ih, List.filterMap_cons, Piece.filled, Piece.unfilled?, hfilling,
            String.append_assoc]
      | none =>
          simp [ih, List.filterMap_cons, Piece.filled, Piece.unfilled?, hfilling,
            String.append_assoc]

/-- A placeholder is filled with the encoded value of the argument with its name. -/
theorem filling?_eq_some_iff {name : List Char} {text : String} :
    filling? arguments name = some text ↔
      ∃ value, Dict.find? (String.ofList name) arguments = some value ∧ value.isNull = false ∧
        Text.percentEncode value.plainText = text := by
  simp only [filling?, Option.map_eq_some_iff, Option.filter_eq_some_iff, Bool.not_eq_true,
    decide_eq_true_eq, and_assoc]

/-- There is something to fill in exactly if the argument is given. -/
theorem isSome_filling? (name : List Char) :
    (filling? arguments name).isSome = arguments.isGiven (String.ofList name) := by
  rw [Bool.eq_iff_iff, Option.isSome_iff_exists, Arguments.isGiven_iff]
  simp only [filling?_eq_some_iff]
  grind

/-- The pieces that cannot be filled are the placeholders whose argument is not given. -/
theorem filterMap_unfilled? (ps : List Piece) :
    ps.filterMap (Piece.unfilled? arguments)
      = (ps.filterMap Piece.name?).filter fun name => ¬ arguments.isGiven name := by
  induction ps with
  | nil => rfl
  | cons piece rest ih =>
      cases piece with
      | literal text => simpa [List.filterMap_cons, Piece.unfilled?, Piece.name?] using ih
      | placeholder name =>
          cases hgiven : arguments.isGiven (String.ofList name) with
          | true =>
              simpa [List.filterMap_cons, Piece.unfilled?, Piece.name?, isSome_filling?, hgiven]
                using ih
          | false =>
              simpa [List.filterMap_cons, Piece.unfilled?, Piece.name?, isSome_filling?, hgiven]
                using ih

/-- Filling needs a given argument for every name between the braces, and lists the names without
one otherwise. -/
theorem fill_eq (template : String) (arguments : Arguments) :
    fill template arguments
      = if ∀ name ∈ names template, arguments.isGiven name = true then
          .ok (String.join ((pieces template.toList).map (Piece.filled arguments)))
        else .error ((names template).filter fun name => ¬ arguments.isGiven name) := by
  have hgiven : ((names template).filter fun name => ¬ arguments.isGiven name).isEmpty = true ↔
      ∀ name ∈ names template, arguments.isGiven name = true := by
    simp [List.isEmpty_iff, List.filter_eq_nil_iff]
  rw [← ite_congr (propext hgiven) (fun _ => rfl) fun _ => rfl, fill,
    fillFrom_of_reads (reads_pieces _), filterMap_unfilled?, List.nil_append, finish,
    String.empty_append, String.ofList_nil, String.append_empty]
  rfl

/-- The names that are looked up when a template is filled. Without arguments all of them are
missing. -/
def lookedUp (template : String) : List String :=
  match fill template [] with
  | .ok _ => []
  | .error missing => missing

/-- What is looked up is every name between braces, as often as it is there. -/
theorem lookedUp_eq_names (template : String) : lookedUp template = names template := by
  have hnone : ∀ name, Arguments.isGiven [] name = false := fun _ => rfl
  rw [lookedUp, fill_eq]
  by_cases hall : ∀ name ∈ names template, Arguments.isGiven [] name = true
  · -- Nothing is given, so there is no name.
    rw [if_pos hall]
    refine (List.eq_nil_iff_forall_not_mem.mpr fun name hmem => ?_).symm
    cases (hnone name).symm.trans (hall name hmem)
  · rw [if_neg hall]
    exact List.filter_eq_self.mpr fun name _ => by simp [hnone]

/-- What is looked up is the name of a piece. -/
theorem mem_lookedUp_iff {template name : String} :
    name ∈ lookedUp template ↔ Piece.placeholder name.toList ∈ pieces template.toList := by
  rw [lookedUp_eq_names]
  constructor
  · intro h
    obtain ⟨piece, hmem, hname⟩ := List.mem_filterMap.mp h
    cases piece with
    | literal text => cases hname
    | placeholder chars =>
        obtain rfl : String.ofList chars = name := Option.some.inj hname
        simpa using hmem
  · intro h
    exact List.mem_filterMap.mpr ⟨_, h, by simp [Piece.name?]⟩

/-- A path is filled when every name that is looked up is given. -/
theorem fill_eq_ok_iff {template path : String} :
    fill template arguments = .ok path ↔
      (∀ name ∈ lookedUp template, arguments.isGiven name = true) ∧
        path = String.join ((pieces template.toList).map (Piece.filled arguments)) := by
  rw [fill_eq, lookedUp_eq_names]
  split
  · next hall =>
      constructor
      · intro heq
        exact ⟨hall, (Except.ok.inj heq).symm⟩
      · rintro ⟨-, rfl⟩
        rfl
  · next hmissing => simp [hmissing]

/-- A placeholder stands for the encoded value of a given argument. -/
theorem filled_placeholder {name : List Char} {value : Json}
    (hfind : Dict.find? (String.ofList name) arguments = some value)
    (hnull : value.isNull = false) :
    Piece.filled arguments (.placeholder name) = Text.percentEncode value.plainText := by
  rw [Piece.filled, filling?_eq_some_iff.mpr ⟨value, hfind, hnull, rfl⟩]
  rfl

/-- The text that a piece stands for: a literal piece for itself, a placeholder for the encoded
value of the argument with its name. -/
inductive Piece.Fills (arguments : Arguments) : Piece → String → Prop where
  | literal (text : List Char) : Fills arguments (.literal text) (String.ofList text)
  | placeholder {name : List Char} {value : Json}
    (hfind : Dict.find? (String.ofList name) arguments = some value)
    (hnull : value.isNull = false) :
    Fills arguments (.placeholder name) (Text.percentEncode value.plainText)

/-- A filled path is made of the texts of the pieces. -/
theorem exists_texts_of_fill {template path : String} (h : fill template arguments = .ok path) :
    ∃ texts, List.Forall₂ (Piece.Fills arguments) (pieces template.toList) texts ∧
      path = String.join texts := by
  obtain ⟨hgiven, rfl⟩ := fill_eq_ok_iff.mp h
  refine ⟨_, ?_, rfl⟩
  rw [List.forall₂_map_right_iff, List.forall₂_same]
  intro piece hmem
  cases piece with
  | literal text => exact .literal text
  | placeholder name =>
      have hname : String.ofList name ∈ lookedUp template :=
        mem_lookedUp_iff.mpr (by simpa using hmem)
      obtain ⟨value, hfind, hnull⟩ := Arguments.isGiven_iff.mp (hgiven _ hname)
      rw [filled_placeholder hfind hnull]
      exact .placeholder hfind hnull

/-- A filled path has the encoded value of every argument that is looked up. -/
theorem exists_split_of_fill {template path name : String} {value : Json}
    (h : fill template arguments = .ok path) (hname : name ∈ lookedUp template)
    (hfind : Dict.find? name arguments = some value) :
    ∃ before after, path = before ++ Text.percentEncode value.plainText ++ after := by
  obtain ⟨hgiven, rfl⟩ := fill_eq_ok_iff.mp h
  obtain ⟨found, hfound, hnull⟩ := Arguments.isGiven_iff.mp (hgiven name hname)
  obtain rfl : value = found := Option.some.inj (hfind.symm.trans hfound)
  -- The path is what the pieces before the placeholder give, its value, and what those after give.
  obtain ⟨before, after, hpieces⟩ := List.append_of_mem (mem_lookedUp_iff.mp hname)
  have hfilled : Piece.filled arguments (.placeholder name.toList) = _ :=
    filled_placeholder (by simpa using hfind) hnull
  refine ⟨String.join (before.map (Piece.filled arguments)),
    String.join (after.map (Piece.filled arguments)), ?_⟩
  rw [hpieces, List.map_append, List.map_cons, String.join_append, String.join_cons, hfilled,
    String.append_assoc]

/-! ### The two scanners agree -/

/-- Filling asks for the names that are looked up, and for no other argument. -/
theorem fill_congr {template : String} {arguments arguments' : Arguments}
    (h : ∀ name ∈ lookedUp template, Dict.find? name arguments = Dict.find? name arguments') :
    fill template arguments = fill template arguments' := by
  have hgiven : ∀ name ∈ lookedUp template, arguments.isGiven name = arguments'.isGiven name :=
    fun name hname => by rw [Arguments.isGiven, Arguments.isGiven, h name hname]
  have hfilled : (pieces template.toList).map (Piece.filled arguments)
      = (pieces template.toList).map (Piece.filled arguments') := by
    refine List.map_congr_left fun piece hmem => ?_
    cases piece with
    | literal text => rfl
    | placeholder name =>
        have hname : String.ofList name ∈ lookedUp template :=
          mem_lookedUp_iff.mpr (by simpa using hmem)
        rw [Piece.filled, Piece.filled, filling?, filling?, h _ hname]
  have hmissing : (lookedUp template).filter (fun name => ¬ arguments.isGiven name)
      = (lookedUp template).filter fun name => ¬ arguments'.isGiven name :=
    List.filter_congr fun name hname => by rw [hgiven name hname]
  have hall : (∀ name ∈ lookedUp template, arguments.isGiven name = true) ↔
      ∀ name ∈ lookedUp template, arguments'.isGiven name = true :=
    forall₂_congr fun name hname => by rw [hgiven name hname]
  rw [fill_eq, fill_eq, ← lookedUp_eq_names, hfilled, hmissing]
  exact if_congr hall rfl rfl

/-- The placeholders are the names that are looked up, each at its first place and without the
blank one. -/
theorem placeholders_eq_lookedUp (template : String) :
    placeholders template = ((lookedUp template).filter (¬ ·.isEmpty)).eraseDups := by
  rw [placeholders_eq, lookedUp_eq_names]

/-- A name is a placeholder when it is looked up, unless it is blank. -/
theorem mem_placeholders_iff {template name : String} :
    name ∈ placeholders template ↔ name ∈ lookedUp template ∧ name ≠ "" := by
  simp [placeholders_eq_lookedUp, List.mem_eraseDups]

end Template
end DeclaredApi
