import DeclaredApi.Proofs.Path.Projection
import DeclaredApi.Proofs.Path.Removal
import DeclaredApi.Proofs.Transform.Move

/-!
# `DeclaredApi.Proofs.Transform.MemberRule`: rules for members and rules for places

A rule between two paths without dots gives a member another name. Any other rule between plain
paths reads the value at its source, writes it at its target and deletes its source. The two are
told by the dot alone, and a path without one need not be a key: it may be empty, or end in
positions (`Path.isKey_iff`).

A rule for members does what one for places would do if each of its paths were the one key that its
text is (`apply_member_rule`). So where both paths are such keys the two rules agree on every
object. Any other rule for members differs from the one for places on some object. If the source is
no key, it is one that has a value at the source and no member of that name. If the target is none,
it is one in which what is written at the target is no member of that name. Both are made of objects
alone (`OfObjects`), since there everything can be written.
-/

set_option autoImplicit false

namespace DeclaredApi

/-! ### Paths without dots -/

namespace Path

variable {path : List Char}

/-- A bracket ending has positions. -/
theorem exists_cons_of_positions? {text : List Char} {found : List Nat} (hne : text ≠ [])
    (h : positions? text = some found) : ∃ position more, found = position :: more := by
  rw [positions?.eq_def] at h
  split at h
  · exact absurd rfl hne
  · split at h
    · cases h
    · simp only [Option.bind_eq_bind, Option.bind_eq_some_iff] at h
      obtain ⟨position, -, more, -, h⟩ := h
      exact ⟨position, more, (Option.some.inj h).symm⟩
  · cases h

/-- The key of the first step of a part that ends in positions has no bracket. -/
theorem exists_step_of_positions? {part : List Char} {found : List Nat} (hbracket : '[' ∈ part)
    (h : positions? (part.dropWhile (· != '[')) = some found) :
    ∃ step rest, partSteps part = step :: rest ∧ '[' ∉ step.asKey.toList := by
  have hname : '[' ∉ part.takeWhile (· != '[') := fun hmem => by
    simpa using List.mem_takeWhile_imp hmem
  have hending : part.dropWhile (· != '[') ≠ [] := fun hnil => by
    simpa using List.dropWhile_eq_nil_iff.1 hnil '[' hbracket
  obtain ⟨position, more, rfl⟩ := exists_cons_of_positions? hending h
  rw [partSteps, h]
  simp only
  split
  · refine ⟨.index position, more.map .index, rfl, fun hmem => ?_⟩
    rw [Step.asKey, String.toList_ofList] at hmem
    have hdigit := Nat.isDigit_of_mem_toDigits (by decide) (by decide) hmem
    exact absurd hdigit (by decide)
  · exact ⟨.key (String.ofList (part.takeWhile (· != '['))), _, rfl, by
      rwa [Step.asKey, String.toList_ofList]⟩

/-- The path is a part that ends in positions. Without a bracket a part is indexed, too. -/
def EndsIndexed (path : List Char) : Prop :=
  '[' ∈ path ∧ IsIndexed path

/-- A path without a dot is empty, or it is a key, or it ends in positions and its first key is not
its text. -/
theorem keys_cases (hdot : '.' ∉ path) :
    (path = [] ∧ keys path = []) ∨
    (path ≠ [] ∧ ¬ EndsIndexed path ∧ keys path = [String.ofList path]) ∨
    (EndsIndexed path ∧ ∃ key rest, keys path = key :: rest ∧ key ≠ String.ofList path) := by
  rw [keys, steps_of_part hdot]
  by_cases hbracket : '[' ∈ path
  · cases hpositions : positions? (path.dropWhile (· != '[')) with
    | none =>
        -- Brackets without positions in them are a part of the key.
        refine Or.inr (Or.inl ⟨List.ne_nil_of_mem hbracket, fun hindexed => ?_, ?_⟩)
        · obtain ⟨found, hfound⟩ := isIndexed_iff.1 hindexed.2
          rw [hpositions] at hfound
          cases hfound
        · rw [partSteps, hpositions]
          rfl
    | some found =>
        -- The first step is what stands before the bracket, or a position. Neither has a bracket.
        obtain ⟨step, rest, hsteps, hkey⟩ := exists_step_of_positions? hbracket hpositions
        have hkeys : (partSteps path).map Step.asKey = step.asKey :: rest.map Step.asKey := by
          rw [hsteps]
          rfl
        have hindexed : EndsIndexed path := ⟨hbracket, isIndexed_iff.2 ⟨found, hpositions⟩⟩
        refine Or.inr (Or.inr ⟨hindexed, _, _, hkeys, fun heq => ?_⟩)
        rw [heq, String.toList_ofList] at hkey
        exact hkey hbracket
  · have hpasses : ∀ c ∈ path, (c != '[') = true := fun c hc =>
      bne_iff_ne.2 fun heq => hbracket (heq ▸ hc)
    rw [partSteps, List.dropWhile_eq_nil_iff.2 hpasses, List.takeWhile_eq_self_iff.2 hpasses,
      positions?]
    cases path with
    | nil => exact Or.inl ⟨rfl, rfl⟩
    | cons c path =>
        exact Or.inr (Or.inl ⟨List.cons_ne_nil _ _, fun hindexed => hbracket hindexed.1, rfl⟩)

/-- Read as a path, the text is one key, which is the text. -/
def IsKey (text : String) : Prop :=
  keys text.toList = [text]

/-- A text without a dot is a key exactly if it is not empty and does not end in positions. -/
theorem isKey_iff {text : String} (hdot : '.' ∉ text.toList) :
    IsKey text ↔ text.toList ≠ [] ∧ ¬ EndsIndexed text.toList := by
  rw [IsKey]
  rcases keys_cases hdot with ⟨hnil, hkeys⟩ | ⟨hne, hends, hkeys⟩ | ⟨hends, key, rest, hkeys, hne⟩
  · rw [hkeys]
    simp [hnil]
  · simp [hkeys, hne, hends]
  · rw [String.ofList_toList] at hne
    simp [hkeys, hne, hends]

/-- A text without a dot that is not empty has a key. -/
theorem keys_ne_nil (hdot : '.' ∉ path) (hne : path ≠ []) : keys path ≠ [] := by
  rcases keys_cases hdot with ⟨hnil, -⟩ | ⟨-, -, hkeys⟩ | ⟨-, key, rest, hkeys, -⟩
  · exact absurd hnil hne
  · rw [hkeys]
    exact List.cons_ne_nil _ _
  · rw [hkeys]
    exact List.cons_ne_nil _ _

/-- A text without a dot is a key, or its first key is another one. -/
theorem isKey_or_away {text : String} (hdot : '.' ∉ text.toList) :
    IsKey text ∨ (keys text.toList).head? ≠ some text := by
  rcases keys_cases hdot with ⟨-, hkeys⟩ | ⟨-, -, hkeys⟩ | ⟨-, key, rest, hkeys, hne⟩
  · exact Or.inr (by simp [hkeys])
  · rw [String.ofList_toList] at hkeys
    exact Or.inl hkeys
  · rw [String.ofList_toList] at hne
    exact Or.inr (by simpa [hkeys] using hne)

end Path

/-- The rule is about two members: its paths have different texts, without a dot or a marker. -/
structure RenameRule.MovesMember (rule : RenameRule) : Prop where
  source_plain : Path.Plain rule.source.toList
  target_plain : Path.Plain rule.target.toList
  source_dotless : '.' ∉ rule.source.toList
  target_dotless : '.' ∉ rule.target.toList
  differs : rule.source ≠ rule.target

/-- Such a rule moves a member. -/
theorem RenameRule.MovesMember.move_eq {rule : RenameRule} (h : rule.MovesMember) :
    move rule.source.toList rule.target.toList
      = .member rule.source.toList rule.target.toList := by
  have hne : rule.source.toList ≠ rule.target.toList := fun heq =>
    h.differs (String.toList_injective heq)
  have hplain :
      (Path.isWildcard rule.source.toList || Path.isWildcard rule.target.toList) = false := by
    rw [h.source_plain.isWildcard, h.target_plain.isWildcard]
    rfl
  have hdot : ¬ (rule.source.toList.contains '.' || rule.target.toList.contains '.') = true := by
    rw [Bool.or_eq_true, List.contains_iff_mem, List.contains_iff_mem, not_or]
    exact ⟨h.source_dotless, h.target_dotless⟩
  rw [move, if_neg hne, hplain, if_neg Bool.false_ne_true, if_neg hdot]

namespace Json

variable {root value data written result : Json} {names keys : List String}
  {source target : List Char}

/-! ### Moves along keys -/

/-- The value with what is at the first keys written at the second ones and deleted where it was. -/
def moveAlong (source target : List String) (data : Json) : Json :=
  match data.getAt? (source.map .key) with
  | some value => (assignAt value (target.map .key) data).1.without source
  | none => data

/-- A rule for places moves along the keys of its paths. -/
theorem eq_moveAlong_of_movePlace (hsource : Path.Plain source)
    (h : data.movePlace source target = .ok result) :
    result = data.moveAlong (Path.keys source) (Path.keys target) := by
  rw [movePlace, get?_of_plain hsource] at h
  rw [moveAlong]
  cases hget : data.getAt? ((Path.keys source).map .key) with
  | none =>
      rw [hget] at h
      cases h
      rfl
  | some value =>
      rw [hget] at h
      obtain ⟨written, hplaced, rfl⟩ := exists_of_map_ok h
      obtain ⟨-, hassign⟩ := assigned_eq_ok_iff.1 (placed_eq_ok_iff.1 hplaced)
      simp only [hassign, delete_of_plain hsource]

/-- A move to a place writes the value there and deletes it where it was. -/
theorem movePlace_eq_ok (hsource : Path.Plain source) (htarget : Path.Plain target)
    (hget : data.getAt? ((Path.keys source).map .key) = some value)
    (hassign : assignAt value ((Path.keys target).map .key) data = (written, none)) :
    data.movePlace source target = .ok (written.without (Path.keys source)) := by
  have hplaced : data.placed target value = .ok written :=
    placed_eq_ok_iff.2 (assigned_eq_ok_iff.2 ⟨htarget, hassign⟩)
  rw [movePlace, get?_of_plain hsource, hget]
  show (data.placed target value).map (·.delete source) = _
  rw [hplaced]
  exact congrArg Except.ok (delete_of_plain hsource written)

/-- A member that gets another name moves along one key to another one. -/
theorem moveMember_eq_moveAlong {members : Dict Json} (h : (Json.object members).Ordered)
    (hne : source ≠ target) :
    (Json.object members).moveMember source target
      = (Json.object members).moveAlong [String.ofList source] [String.ofList target] := by
  have hnames : String.ofList source ≠ String.ofList target := fun heq =>
    hne (String.ofList_injective heq)
  have hget : (Json.object members).getAt? ([String.ofList source].map .key)
      = Dict.find? (String.ofList source) members := by
    rw [List.map_singleton, getAt?]
    show Dict.find? (String.ofList source) members >>= getAt? [] = _
    cases Dict.find? (String.ofList source) members <;> rfl
  rw [moveMember, moveAlong, hget]
  cases hfind : Dict.find? (String.ofList source) members with
  | none => rfl
  | some value =>
      rw [Ordered] at h
      exact congrArg object (Dict.erase_insert_of_ne h.1 hnames value).symm

/-! ### Objects in objects -/

/-- The value is made of objects alone. -/
def OfObjects (root : Json) : Prop :=
  ∀ names, OpenTo names root

/-- An empty object is made of objects alone. -/
theorem ofObjects_empty : OfObjects (.object []) :=
  openTo_empty

/-- An object is made of objects alone if its members are. -/
theorem ofObjects_object_iff {members : Dict Json} :
    OfObjects (.object members) ↔
      ∀ key child, Dict.find? key members = some child → OfObjects child := by
  constructor
  · intro h key child hfind names
    exact h (key :: names) child hfind
  · intro h names
    cases names with
    | nil => trivial
    | cons key rest => exact fun child hfind => h key child hfind rest

/-- What is made of objects alone is an object. -/
theorem OfObjects.exists_members (h : OfObjects root) : ∃ members, root = .object members := by
  cases root with
  | object members => exact ⟨members, rfl⟩
  | _ => exact (h [""]).elim

/-- So is whatever is in it. -/
theorem OfObjects.getAt? (h : OfObjects root) (hget : root.getAt? (names.map .key) = some value) :
    OfObjects value := by
  induction names generalizing root with
  | nil =>
      cases hget
      exact h
  | cons key rest ih =>
      obtain ⟨members, rfl⟩ := h.exists_members
      obtain ⟨child, hchild, hget⟩ := Option.bind_eq_some_iff.1 hget
      exact ih (ofObjects_object_iff.1 h key child hchild) hget

/-- An object can be written anywhere. -/
theorem OfObjects.exists_assignAt (h : OfObjects root) (names : List String) :
    ∃ written, assignAt (.object []) (names.map .key) root = (written, none) ∧
      OfObjects written := by
  induction names generalizing root with
  | nil => exact ⟨_, rfl, ofObjects_empty⟩
  | cons key rest ih =>
      obtain ⟨members, rfl⟩ := h.exists_members
      have hparent : OfObjects (parentOrNew ((Json.object members).child? (.key key))) :=
        fun names => OpenTo.parentOrNew fun child hchild =>
          ofObjects_object_iff.1 h key child hchild names
      obtain ⟨made, hmade, hobjects⟩ := ih hparent
      refine ⟨_, assignAt_cons_iff.2 ⟨trivial, made, hmade, rfl⟩, ?_⟩
      refine ofObjects_object_iff.2 fun name child hchild => ?_
      rw [Dict.find?_insert] at hchild
      split at hchild
      · cases hchild
        exact hobjects
      · exact ofObjects_object_iff.1 h name child hchild

/-- Nothing is left where something is deleted from an object. -/
theorem OfObjects.getAt?_without (h : OfObjects root) (hroot : root.Ordered) (hne : names ≠ []) :
    (root.without names).getAt? (names.map .key) = none := by
  cases hget : root.getAt? (names.map .key) with
  | none => rw [without_eq_self hroot hget, hget]
  | some found =>
      obtain ⟨above, key, rfl⟩ := (List.eq_nil_or_concat' names).resolve_left hne
      rcases getAt?_without_cases hget with ⟨-, -, hnone⟩ | ⟨items, harray, -⟩
      · exact hnone
      · obtain ⟨members, heq⟩ := (h.getAt? harray).exists_members
        cases heq

/-- Where an object is written along other keys, no member of the name comes in. -/
theorem child?_assignAt_of_away {members : Dict Json} {name : String}
    (haway : names.head? ≠ some name) (hnone : Dict.find? name members = none)
    (h : assignAt (.object []) (names.map .key) (.object members) = (written, none)) :
    written.child? (.key name) = none := by
  cases names with
  | nil =>
      cases h
      rfl
  | cons key rest =>
      obtain ⟨-, made, -, rfl⟩ := assignAt_cons_iff.1 h
      have hne : key ≠ name := fun heq => haway (congrArg some heq)
      exact (Dict.find?_insert ..).trans ((if_neg hne).trans hnone)

/-- There is an object that has an object at the keys and nothing else. -/
theorem exists_objectAt (names : List String) :
    ∃ members, (Json.object members).Ordered ∧ OfObjects (.object members) ∧
      (Json.object members).getAt? (names.map .key) = some (.object []) ∧
      ∀ name, names.head? ≠ some name → Dict.find? name members = none := by
  obtain ⟨data, hdata, hobjects⟩ := ofObjects_empty.exists_assignAt names
  obtain ⟨members, rfl⟩ := hobjects.exists_members
  exact ⟨members, ordered_empty.assignAt ordered_empty hdata, hobjects, getAt?_assignAt hdata,
    fun name haway => child?_assignAt_of_away haway rfl hdata⟩

end Json

/-- To every object the rule does what one for places would do, if that one succeeds. -/
def RenameRule.AgreesWithPlace (rule : RenameRule) : Prop :=
  ∀ (members : Dict Json) (result : Json), (Json.object members).Ordered →
    (Json.object members).movePlace rule.source.toList rule.target.toList = .ok result →
    TransformStep.apply { rename := some [rule] } (.object members) = .ok result

namespace TransformStep

open Json (OfObjects moveAlong)

variable {rule : RenameRule}

/-- A rule about two members moves the one named by its source to the name of its target. -/
theorem apply_member (h : rule.MovesMember) {members : Dict Json}
    (hordered : (Json.object members).Ordered) :
    TransformStep.apply { rename := some [rule] } (.object members)
      = .ok ((Json.object members).moveAlong [rule.source] [rule.target]) := by
  have hne : rule.source.toList ≠ rule.target.toList := fun heq =>
    h.differs (String.toList_injective heq)
  have hmove := Json.moveMember_eq_moveAlong hordered hne
  rw [String.ofList_toList, String.ofList_toList] at hmove
  rw [← hmove, apply_singleton, h.move_eq, Move.apply]

/-- A rule about members that agrees with one for places has a key for its source. Otherwise there
is an object with a value where the source leads as a path, and no member of that name. -/
theorem isKey_source_of_agreesWithPlace (h : rule.MovesMember) (hsame : rule.AgreesWithPlace) :
    Path.IsKey rule.source := by
  refine (Path.isKey_or_away h.source_dotless).resolve_right fun haway => ?_
  -- Of an object that has a value at the source alone, the rule takes no member.
  obtain ⟨members, hordered, hobjects, hget, hnone⟩ :=
    Json.exists_objectAt (Path.keys rule.source.toList)
  have hunchanged : (Json.object members).moveAlong [rule.source] [rule.target]
      = .object members := by
    have hsource : (Json.object members).getAt? ([rule.source].map .key) = none := by
      show Dict.find? rule.source members >>= Json.getAt? [] = none
      rw [hnone rule.source haway]
      rfl
    rw [moveAlong, hsource]
  -- A rule for places would move that value.
  obtain ⟨written, hwritten, hmade⟩ := hobjects.exists_assignAt (Path.keys rule.target.toList)
  have hmoved := hsame members _ hordered
    (Json.movePlace_eq_ok h.source_plain h.target_plain hget hwritten)
  rw [apply_member h hordered, hunchanged] at hmoved
  have heq := Except.ok.inj hmoved
  by_cases hkeys : Path.keys rule.source.toList = []
  · -- The value is the whole object, which has nothing at the target before it is written there.
    have hsource : rule.source.toList = [] := by
      by_contra hne
      exact Path.keys_ne_nil h.source_dotless hne hkeys
    have htarget : rule.target.toList ≠ [] := fun hnil =>
      h.differs (String.toList_injective (hsource.trans hnil.symm))
    rw [hkeys] at hget heq
    cases hget
    have hread := Json.getAt?_assignAt hwritten
    rw [← show Json.object [] = written from heq] at hread
    obtain ⟨key, rest, hcons⟩ :=
      List.exists_cons_of_ne_nil (Path.keys_ne_nil h.target_dotless htarget)
    rw [hcons] at hread
    cases hread
  · have hread := hmade.getAt?_without (hordered.assignAt Json.ordered_empty hwritten) hkeys
    rw [← heq, hget] at hread
    cases hread

/-- If its source is a key, so is its target, for the object with the source alone gets its value
under the text of the target. -/
theorem isKey_target_of_agreesWithPlace (h : rule.MovesMember) (hsource : Path.IsKey rule.source)
    (hsame : rule.AgreesWithPlace) : Path.IsKey rule.target := by
  refine (Path.isKey_or_away h.target_dotless).resolve_right fun haway => ?_
  rw [Path.IsKey] at hsource
  obtain ⟨members, hordered, hobjects, hget, hnone⟩ := Json.exists_objectAt [rule.source]
  obtain ⟨written, hwritten, hmade⟩ := hobjects.exists_assignAt (Path.keys rule.target.toList)
  have hmoved := hsame members _ hordered
    (Json.movePlace_eq_ok h.source_plain h.target_plain (by rwa [hsource]) hwritten)
  have hmember : (Json.object members).moveAlong [rule.source] [rule.target]
      = (Json.object (Dict.insert rule.target (.object []) members)).without [rule.source] := by
    rw [moveAlong, hget]
    rfl
  rw [apply_member h hordered, hsource, hmember] at hmoved
  have heq := Except.ok.inj hmoved
  -- The rule makes a member of the target's name, and a rule for places makes none.
  have hkept : ∀ members : Dict Json,
      ((Json.object members).without [rule.source]).child? (.key rule.target)
        = Dict.find? rule.target members := fun members =>
    Json.child?_without_of_ne (show (Json.object members).slot _ ≠ _ from h.differs)
  have habsent : Dict.find? rule.target members = none :=
    hnone rule.target fun hhead => h.differs (Option.some.inj hhead)
  obtain ⟨members', rfl⟩ := hmade.exists_members
  have hread := congrArg (Json.child? (.key rule.target)) heq
  rw [hkept, hkept, Dict.find?_insert, if_pos rfl] at hread
  cases hread.trans (Json.child?_assignAt_of_away haway habsent hwritten)

/-- A rule for members moves along its paths as along one key each. It does what a rule for places
would do, wherever that one succeeds, exactly if each of the paths is that key. -/
theorem apply_member_rule (h : rule.MovesMember) :
    (∀ members, (Json.object members).Ordered →
      TransformStep.apply { rename := some [rule] } (.object members)
        = .ok ((Json.object members).moveAlong [rule.source] [rule.target])) ∧
    (rule.AgreesWithPlace ↔ Path.IsKey rule.source ∧ Path.IsKey rule.target) := by
  refine ⟨fun members => apply_member h, fun hsame => ?_, fun ⟨hsource, htarget⟩ => ?_⟩
  · have hsource := isKey_source_of_agreesWithPlace h hsame
    exact ⟨hsource, isKey_target_of_agreesWithPlace h hsource hsame⟩
  · intro members result hordered hmove
    rw [apply_member h hordered, Json.eq_moveAlong_of_movePlace h.source_plain hmove, hsource,
      htarget]

/-- A rule that calls a name a title. -/
def nameAsTitle : RenameRule :=
  { source := "name", target := "title" }

/-- On both ways the name becomes the title. -/
theorem apply_member_rule_of_nameAsTitle :
    TransformStep.apply { rename := some [nameAsTitle] } (.object [("name", .string "Ada")])
        = .ok (.object [("title", .string "Ada")]) ∧
      nameAsTitle.AgreesWithPlace := by
  have hordered : (Json.object [("name", .string "Ada")]).Ordered := by
    simp only [Json.Ordered, Json.OrderedMembers, Dict.Sorted]
    decide
  have hmember : nameAsTitle.MovesMember :=
    ⟨by decide, by decide, by decide, by decide, by decide⟩
  obtain ⟨happly, hagrees⟩ := apply_member_rule hmember
  refine ⟨(happly _ hordered).trans ?_, hagrees.2 ⟨?_, ?_⟩⟩
  · with_unfolding_all rfl
  · with_unfolding_all rfl
  · with_unfolding_all rfl

/-- A path without dots that ends in positions is not the member of that name: the first item is
read by a rule for places, and a rule for members leaves it. -/
theorem not_agreesWithPlace :
    ¬ ∀ rule : RenameRule, rule.MovesMember → rule.AgreesWithPlace := by
  intro h
  have hordered : (Json.object [("items", .array [.string "pen", .string "ink"])]).Ordered := by
    simp only [Json.Ordered, Json.OrderedMembers, Json.OrderedItems, Dict.Sorted]
    decide
  have hplace : (Json.object [("items", .array [.string "pen", .string "ink"])]).movePlace
        "items[0]".toList "first".toList
      = .ok (.object [("first", .string "pen"), ("items", .array [.null, .string "ink"])]) := by
    with_unfolding_all rfl
  have hmember : TransformStep.apply
        { rename := some [{ source := "items[0]", target := "first" }] }
        (.object [("items", .array [.string "pen", .string "ink"])])
      = .ok (.object [("items", .array [.string "pen", .string "ink"])]) := by
    with_unfolding_all rfl
  have hsame := h { source := "items[0]", target := "first" }
    ⟨by decide, by decide, by decide, by decide, by decide⟩ _ _ hordered hplace
  simpa using hmember.symm.trans hsame

end TransformStep
end DeclaredApi
