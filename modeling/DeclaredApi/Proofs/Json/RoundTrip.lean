import DeclaredApi.Json.Document
import DeclaredApi.Proofs.Json.TokenText

/-!
# `DeclaredApi.Proofs.Json.RoundTrip`: trees read back from their text

`Document.read?_render`: the reader takes the text of a tree apart into a tree of the same form,
for every tree and at every depth. It is the tree itself, but for doubles, which are read by
best effort (`Document.reread`). So a tree is read back exactly when each double in it is
(`Document.reread_eq_self_iff`).

The proof has a half for each half of the reader. `run?_flatMap_text` is about characters:
where no two numbers touch, the reader finds the tokens that were written, each as it is read.
`foldlM_tokens` is about tokens: from a state that waits for a value, the tokens of a tree lead
to the state after that value, whatever containers are open around it.

Two trees with one text are one tree whatever doubles they hold (`Document.render_injective`):
the text shows where each token ends, and no two tokens have one text.
-/

set_option autoImplicit false

namespace DeclaredApi.Json

/-! ### From characters to tokens -/

/-- Every token starts with a character that is no blank. Only a number starts with one that
could belong to a number. -/
theorem Token.exists_head (t : Token) : ∃ c more, t.text = c :: more ∧ isGap c = false ∧
    (t.isNumber = false → EndsNumber (c :: more)) := by
  have hdigit : ∀ c : Char, c.isDigit = true → isGap c = false := by
    intro c hc
    by_contra hgap
    simp only [isGap, Bool.not_eq_false, Bool.or_eq_true, beq_iff_eq] at hgap
    rcases hgap with ((rfl | rfl) | rfl) | rfl <;> revert hc <;> decide
  cases t with
  | bool value =>
      cases value
      · exact ⟨_, _, rfl, rfl, fun _ => by simp [EndsNumber]⟩
      · exact ⟨_, _, rfl, rfl, fun _ => by simp [EndsNumber]⟩
  | string value =>
      cases value
      · exact ⟨_, _, rfl, rfl, fun _ => by simp [EndsNumber]⟩
      · exact ⟨_, _, rfl, rfl, fun _ => by simp [EndsNumber]⟩
  | number value =>
      cases value with
      | none => exact ⟨_, _, rfl, rfl, by simp [Token.isNumber]⟩
      | some n =>
          obtain ⟨l, htext, hl, -⟩ := n.exists_literal
          obtain ⟨c, more, hunsigned, hc⟩ := hl.exists_digit
          show ∃ c more, n.text = c :: more ∧ _
          rw [← htext, Literal.text]
          cases l.negative
          · exact ⟨c, more, hunsigned, hdigit c hc, by simp [Token.isNumber]⟩
          · exact ⟨'-', _, rfl, rfl, by simp [Token.isNumber]⟩
  | _ => exact ⟨_, _, rfl, rfl, fun _ => by simp [EndsNumber]⟩

/-- No two numbers follow each other, so the text shows where each token ends. -/
def Separated (ts : List Token) : Prop :=
  ts.IsChain fun t next => t.isNumber = true → next.isNumber = false

/-- A token that is no number may stand in front of anything. -/
theorem Separated.cons {t : Token} {ts : List Token} (ht : t.isNumber = false)
    (hts : Separated ts) : Separated (t :: ts) :=
  List.isChain_cons.2 ⟨fun _ _ h => absurd h (by simp [ht]), hts⟩

/-- A token that is no number separates what stands on its two sides. -/
theorem Separated.append_cons {front back : List Token} {t : Token} (hfront : Separated front)
    (ht : t.isNumber = false) (hback : Separated back) : Separated (front ++ t :: back) := by
  refine List.IsChain.append hfront (hback.cons ht) ?_
  intro _ _ next hnext _
  obtain rfl : t = next := by simpa using hnext
  exact ht

/-- The text of a token has one character at least. -/
theorem length_le_flatMap_text (ts : List Token) :
    ts.length ≤ (ts.flatMap Token.text).length := by
  induction ts with
  | nil => simp
  | cons t ts ih =>
      obtain ⟨c, more, htext, -⟩ := t.exists_head
      rw [List.flatMap_cons, htext, List.length_append, List.length_cons, List.length_cons]
      omega

/-- The token after a number is none, so its first character ends the number. -/
theorem Separated.endsNumber {t : Token} {ts : List Token} (hts : Separated (t :: ts))
    (hnumber : t.isNumber = true) : EndsNumber (ts.flatMap Token.text) := by
  intro c hc
  cases ts with
  | nil => simp at hc
  | cons next ts =>
      obtain ⟨first, more, htext, -, hfirst⟩ := next.exists_head
      rw [List.flatMap_cons, htext] at hc
      exact hfirst ((List.isChain_cons.1 hts).1 next rfl hnumber) c hc

/-- Separated tokens with one text are the same tokens. -/
theorem Separated.flatMap_text_injective {ts ts' : List Token} (hts : Separated ts)
    (hts' : Separated ts') (h : ts.flatMap Token.text = ts'.flatMap Token.text) : ts = ts' := by
  induction ts generalizing ts' with
  | nil =>
      have hlength := length_le_flatMap_text ts'
      rw [← h, List.flatMap_nil, List.length_nil] at hlength
      exact (List.eq_nil_of_length_eq_zero (Nat.le_zero.1 hlength)).symm
  | cons t ts ih =>
      cases ts' with
      | nil =>
          have hlength := length_le_flatMap_text (t :: ts)
          rw [h, List.flatMap_nil] at hlength
          cases hlength
      | cons t' ts' =>
          -- One token is scanned from both, and what it leaves is the text of the others.
          have hscan := scanToken?_text t hts.endsNumber
          have hscan' := scanToken?_text t' hts'.endsNumber
          rw [List.flatMap_cons, List.flatMap_cons] at h
          rw [h, hscan'] at hscan
          have hrest := (Prod.mk.inj (Option.some.inj hscan)).2.symm
          rw [hrest] at h
          rw [Token.text_injective (List.append_cancel_right h),
            ih (List.isChain_cons.1 hts).2 (List.isChain_cons.1 hts').2 hrest]

namespace Document

/-- The reader finds the tokens that were written, each as it is read. -/
theorem run?_flatMap_text {ts : List Token} (hts : Separated ts) {fuel : Nat}
    (hfuel : ts.length ≤ fuel) (state : State) :
    run? fuel state (ts.flatMap Token.text) = (ts.map Token.reread).foldlM step? state := by
  induction ts generalizing fuel state with
  | nil => cases fuel <;> rfl
  | cons t ts ih =>
      obtain ⟨fuel, rfl⟩ : ∃ k, fuel = k + 1 := ⟨fuel - 1, by
        rw [List.length_cons] at hfuel
        omega⟩
      obtain ⟨-, htail⟩ := List.isChain_cons.1 hts
      obtain ⟨c, more, htext, hgap, -⟩ := t.exists_head
      -- The tokens are separated, so a number is followed by what ends it.
      have hscan := scanToken?_text t hts.endsNumber
      have hdrop : ((t :: ts).flatMap Token.text).dropWhile isGap
          = c :: (more ++ ts.flatMap Token.text) := by
        rw [List.flatMap_cons, htext, List.cons_append, List.dropWhile_cons_of_neg (by simp [hgap])]
      rw [htext, List.cons_append] at hscan
      rw [run?, hdrop]
      simp only [hscan, Option.bind_eq_bind, Option.bind_some, List.map_cons, List.foldlM_cons]
      cases step? state t.reread with
      | none => rfl
      | some state' =>
          exact ih htail (by simpa using hfuel) state'

/-! ### From tokens to trees -/

mutual

/-- The tokens of a tree are separated: a number stands next to a bracket or a comma only. -/
theorem separated_tokens (d : Document) : Separated d.tokens := by
  cases d with
  | array items => exact ((separated_itemTokens items).append_cons rfl List.isChain_nil).cons rfl
  | object members =>
      exact ((separated_memberTokens members).append_cons rfl List.isChain_nil).cons rfl
  | _ => exact List.isChain_singleton _

/-- Commas separate the items of an array. -/
theorem separated_itemTokens (items : List Document) : Separated (itemTokens items) := by
  match items with
  | [] => exact List.isChain_nil
  | [item] => exact separated_tokens item
  | item :: next :: rest =>
      exact (separated_tokens item).append_cons rfl (separated_itemTokens (next :: rest))

/-- Names and colons separate the members of an object. -/
theorem separated_memberTokens (members : List Member) : Separated (memberTokens members) := by
  match members with
  | [] => exact List.isChain_nil
  | [(name, value)] =>
      exact ((separated_tokens value).cons rfl).cons rfl
  | (name, value) :: next :: rest =>
      exact (((separated_tokens value).append_cons rfl
        (separated_memberTokens (next :: rest))).cons rfl).cons rfl

end

/-- A value starts with no closing bracket, so the first item of an array is read like any
other. -/
theorem foldlM_firstItem (item : Document) (rest : List Document) (stack : List Frame)
    (more : List Token) :
    (itemTokens (item :: rest) ++ more).foldlM step? (.firstItem stack)
      = (itemTokens (item :: rest) ++ more).foldlM step? (.value (.array [] :: stack)) := by
  cases rest <;> cases item <;> rfl

/-- A name is no closing brace, so the first member of an object is read like any other. -/
theorem foldlM_firstName (member : Member) (rest : List Member) (stack : List Frame)
    (more : List Token) :
    (memberTokens (member :: rest) ++ more).foldlM step? (.firstName stack)
      = (memberTokens (member :: rest) ++ more).foldlM step? (.name [] stack) := by
  cases rest <;> rfl

mutual

/-- The tokens of a tree lead from a state that waits for a value to the state after it. -/
theorem foldlM_tokens (d : Document) (stack : List Frame) (more : List Token) :
    (d.tokens ++ more).foldlM step? (.value stack) = more.foldlM step? (settle d stack) := by
  cases d with
  | array items =>
      show ((itemTokens items ++ [Token.closeArray]) ++ more).foldlM step? (.firstItem stack) = _
      cases items with
      | nil => rfl
      | cons item rest =>
          rw [List.append_assoc, foldlM_firstItem]
          exact foldlM_itemTokens (item :: rest) (List.cons_ne_nil _ _) [] stack more
  | object members =>
      show ((memberTokens members ++ [Token.closeObject]) ++ more).foldlM step?
        (.firstName stack) = _
      cases members with
      | nil => rfl
      | cons member rest =>
          rw [List.append_assoc, foldlM_firstName]
          exact foldlM_memberTokens (member :: rest) (List.cons_ne_nil _ _) [] stack more
  | _ => rfl

/-- The items of an array are added to those that stand before them. -/
theorem foldlM_itemTokens (items : List Document) (hne : items ≠ []) (before : List Document)
    (stack : List Frame) (more : List Token) :
    (itemTokens items ++ .closeArray :: more).foldlM step? (.value (.array before :: stack))
      = more.foldlM step? (settle (.array (before.reverse ++ items)) stack) := by
  match items, hne with
  | [item], _ =>
      -- The bracket after the last item closes the array.
      rw [itemTokens, foldlM_tokens item, ← List.reverse_cons]
      rfl
  | item :: next :: rest, _ =>
      -- The comma puts the item before the others, of which the first is waited for.
      rw [itemTokens, List.append_assoc, foldlM_tokens item, List.append_cons before.reverse,
        ← List.reverse_cons]
      exact foldlM_itemTokens (next :: rest) (List.cons_ne_nil _ _) (item :: before) stack more
      simp

/-- The members of an object are added to those that stand before them. -/
theorem foldlM_memberTokens (members : List Member) (hne : members ≠ [])
    (before : List Member) (stack : List Frame) (more : List Token) :
    (memberTokens members ++ .closeObject :: more).foldlM step? (.name before stack)
      = more.foldlM step? (settle (.object (before.reverse ++ members)) stack) := by
  match members, hne with
  | [(name, value)], _ =>
      -- The name and the colon lead to the value.
      show (value.tokens ++ .closeObject :: more).foldlM step?
        (.value (.object before name :: stack)) = _
      rw [foldlM_tokens value, ← List.reverse_cons]
      rfl
  | (name, value) :: next :: rest, _ =>
      show ((value.tokens ++ .comma :: memberTokens (next :: rest)) ++ .closeObject :: more).foldlM
        step? (.value (.object before name :: stack)) = _
      rw [List.append_assoc, foldlM_tokens value, List.append_cons before.reverse,
        ← List.reverse_cons]
      exact foldlM_memberTokens (next :: rest) (List.cons_ne_nil _ _) ((name, value) :: before)
        stack more

end

/-- Two trees with the same tokens are one tree. -/
theorem tokens_injective {d d' : Document} (h : d.tokens = d'.tokens) : d = d' := by
  have hfold := foldlM_tokens d [] []
  rw [h, foldlM_tokens d' [] []] at hfold
  exact (State.complete.inj (Option.some.inj hfold)).symm

/-- Two trees with one text are one tree. -/
theorem render_injective {d d' : Document} (h : d.render = d'.render) : d = d' :=
  tokens_injective ((separated_tokens d).flatMap_text_injective (separated_tokens d')
    (String.ofList_injective h))

/-! ### What is read from the text of a tree -/

mutual

/-- The tree that is read from the text of a tree: the same one, with every number read from its
text. -/
def reread : Document → Document
  | .null => .null
  | .bool b => .bool b
  | .number n => .number (n.bind Number.reread)
  | .string s => .string s
  | .array items => .array (rereadItems items)
  | .object members => .object (rereadMembers members)

/-- The items of an array, as they are read from their texts. -/
def rereadItems : List Document → List Document
  | [] => []
  | item :: rest => item.reread :: rereadItems rest

/-- The members of an object, as they are read from their texts. -/
def rereadMembers : List Member → List Member
  | [] => []
  | (name, value) :: rest => (name, value.reread) :: rereadMembers rest

end

mutual

/-- The tokens of a tree that is read again are its tokens, each read again. -/
theorem tokens_reread (d : Document) : d.reread.tokens = d.tokens.map Token.reread := by
  cases d with
  | number n => cases n <;> rfl
  | array items => simp [reread, tokens, itemTokens_rereadItems items, Token.reread]
  | object members => simp [reread, tokens, memberTokens_rereadMembers members, Token.reread]
  | _ => rfl

/-- The same for the items of an array. -/
theorem itemTokens_rereadItems (items : List Document) :
    itemTokens (rereadItems items) = (itemTokens items).map Token.reread := by
  match items with
  | [] => rfl
  | [item] => exact tokens_reread item
  | item :: next :: rest =>
      have hrest := itemTokens_rereadItems (next :: rest)
      rw [rereadItems] at hrest
      simp [rereadItems, itemTokens, tokens_reread item, hrest, Token.reread]

/-- The same for the members of an object, whose names stay. -/
theorem memberTokens_rereadMembers (members : List Member) :
    memberTokens (rereadMembers members) = (memberTokens members).map Token.reread := by
  match members with
  | [] => rfl
  | [(name, value)] =>
      simp [rereadMembers, memberTokens, tokens_reread value, Token.reread]
  | (name, value) :: next :: rest =>
      have hrest := memberTokens_rereadMembers (next :: rest)
      rw [rereadMembers] at hrest
      simp [rereadMembers, memberTokens, tokens_reread value, hrest, Token.reread]

end

/-- The reader takes the text of a tree apart into that tree, with every number as it is read. -/
theorem read?_render (d : Document) : read? d.render.toList = some d.reread := by
  have hfold := foldlM_tokens d.reread [] []
  rw [List.append_nil, tokens_reread] at hfold
  rw [read?, render, String.toList_ofList,
    run?_flatMap_text (separated_tokens d) (length_le_flatMap_text d.tokens), hfold]
  rfl

/-- Every double in the tree is read back from its text. -/
def ReadsBack (d : Document) : Prop :=
  ∀ x : Double, Token.number (some (.float x)) ∈ d.tokens →
    (Number.float x).reread = some (.float x)

/-- A tree is read back from its text exactly when its doubles are. -/
theorem reread_eq_self_iff {d : Document} : d.reread = d ↔ d.ReadsBack := by
  have htokens : d.reread = d ↔ ∀ t ∈ d.tokens, t.reread = t := by
    have hmap := List.map_inj_left (l := d.tokens) (f := Token.reread) (g := id)
    rw [List.map_id, ← tokens_reread] at hmap
    exact ⟨fun h => hmap.mp (congrArg tokens h), fun h => tokens_injective (hmap.mpr h)⟩
  rw [htokens]
  constructor
  · intro h x hmem
    exact Token.number.inj (h _ hmem)
  · intro h t hmem
    -- Only a number could be read as something else, and an integer is not.
    cases t with
    | number value =>
        cases value with
        | none => rfl
        | some n =>
            cases n with
            | int value range => exact congrArg Token.number (Number.reread_int value range)
            | float x => exact congrArg Token.number (h x hmem)
    | _ => rfl

/-- A tree without doubles is read back from its text. -/
theorem readsBack_of_not_isDouble {d : Document} (h : ∀ t ∈ d.tokens, t.isDouble = false) :
    d.ReadsBack := by
  intro x hmem
  cases h _ hmem

end Document
end DeclaredApi.Json
