import DeclaredApi.Proofs.Transform.Run

/-!
# `DeclaredApi.Proofs.Transform.Repeats`: a run on the result of a run

`repeats`: a run on the result of a run has that result again, if every route that answered settles
on what it answered from (`Rerun`).

The last answer for the whole takes the place of all that was put before. It is the value itself, or
an array of what was collected from its items, or null (`Settles.cases`), and the same is answered
again. So both runs begin alike in the place of every child (`BeginAlike`): with nothing, or with
what a route collects there that settles on it too. What comes after that answer goes by the
children, for which the same holds by induction (`Rerun.eq_again`).

A field may well find something else in the result than in the data, where later fields have written
over its value. Then they write over it again.
-/

set_option autoImplicit false

namespace DeclaredApi

open DeclaredApi.Path (Step Route)

/-- The route goes on from where it starts: it takes the value, or collects from its items. -/
def Path.Route.Here : Route → Prop
  | .place steps => steps = []
  | .each steps _ => steps = []

namespace Json

variable {data built result : Json} {asks : List Ask} {start sub : Option Route}
  {again made : Option Json} {route : Route} {step : Step}

/-- What the field puts at its place, it finds there again. -/
def Ask.Stays (ask : Ask) (data : Json) : Prop :=
  ∀ held, data.getAt? (ask.keys.map .key) = some held → (held.follow? ask.tail).isSome →
    Settles ask.tail held

/-- What stays in the data stays in its children, with one key less. -/
theorem Ask.Stays.child {key : String} {rest : List String} {tail : Route} {child : Json}
    (h : Ask.Stays ⟨key :: rest, tail⟩ data) (hchild : data.child? (.key key) = some child) :
    Ask.Stays ⟨rest, tail⟩ child := fun held hheld hfollow =>
  h held (Option.bind_eq_some_iff.2 ⟨child, hchild, hheld⟩) hfollow

/-- What there is at first: nothing, or what a route collects from the data. -/
def begun (start : Option Route) (data : Json) : Option Json :=
  start.map fun route => collected route data

/-- Two runs, of which the second one is on the result of the first one. Both begin with nothing, or
with what one route collects, and every route settles on what it answers from. -/
structure Rerun (data : Json) (asks : List Ask) (start : Option Route) (result : Json)
    (again : Option Json) : Prop where
  settles : ∀ route, start = some route → Settles route data
  stays : ∀ ask ∈ asks, ask.tail.Here ∧ ask.Stays data
  fits : Fits ∅ data result
  ordered : result.Ordered
  ordered_again : ∀ value, again = some value → value.Ordered
  first : Run data asks (begun start data) (some result)
  second : Run result asks (begun start result) again

/-- A run on the result of a run gives that result again. -/
def Repeats (data : Json) : Prop :=
  ∀ asks start result again, Rerun data asks start result again → again = some result

/-! ### What there is at first, child by child -/

/-- What there is at first in the place of the data is what there is at first in those of its
children. -/
structure Begins (sub start : Option Route) (data : Json) : Prop where
  shape : Shape (parentOrNew (begun start data)) data
  child : ∀ step, (parentOrNew (begun start data)).Own step →
    (parentOrNew (begun start data)).child? step = data.child? step >>= begun sub

/-- Where an empty object is begun with, the children begin with nothing. -/
theorem Begins.of_parentOrNew_eq (h : parentOrNew (begun start data) = .object [])
    (hdata : data.isContainer = true) : Begins none start data := by
  constructor
  · rw [h]
    exact hdata
  · intro step hown
    rw [h]
    cases data.child? step <;> cases step <;> rfl

/-- The value itself is begun with, if all of it is taken. -/
theorem parentOrNew_begun_place (hdata : data.isContainer = true) :
    parentOrNew (begun (some (.place [])) data) = data :=
  parentOrNew_some hdata

/-- Then each child begins with itself. -/
theorem Begins.place (hdata : data.isContainer = true) :
    Begins (some (.place [])) (some (.place [])) data := by
  constructor
  · rw [parentOrNew_begun_place hdata]
    exact shape_refl hdata
  · intro step hown
    rw [parentOrNew_begun_place hdata]
    cases data.child? step <;> rfl

/-- Where something is collected from the items of an array, each begins with what is collected
from it. -/
theorem Begins.each (rest : Route) (items : List Json) :
    Begins (some rest) (some (.each [] rest)) (.array items) := by
  constructor
  · exact List.length_map _
  · intro step hown
    cases step with
    | key name => cases hown
    | index position =>
        show (items.map (collected rest))[position]? = items[position]? >>= begun (some rest)
        rw [List.getElem?_map]
        cases items[position]? <;> rfl

/-- What a route settles on has the shape of the data. -/
theorem shape_begun (hstart : ∀ route, start = some route → Settles route data)
    (hdata : data.isContainer = true) : Shape (parentOrNew (begun start data)) data := by
  cases start with
  | none => exact hdata
  | some route =>
      rcases (hstart route rfl).cases with rfl | ⟨rest, items, rfl, rfl⟩ | hnull
      · exact (Begins.place hdata).shape
      · exact (Begins.each rest items).shape
      · rw [begun, Option.map_some, hnull]
        exact hdata

/-- Both runs begin alike in the places of the children. -/
structure BeginAlike (sub start : Option Route) (data result : Json) : Prop where
  first : Begins sub start data
  second : Begins sub start result
  kind : SameKind (parentOrNew (begun start result)) (parentOrNew (begun start data))
  settles : ∀ route, sub = some route → ∀ step child, data.child? step = some child →
    Settles route child

/-! ### Again, child by child -/

/-- Where nothing answers for the whole, nothing does after parts have been lost. -/
theorem Fits.answer?_eq_none {ask : Ask} (h : Fits ∅ data built) (hhere : ask.tail.Here)
    (hkeys : ask.keys = []) (hanswer : ask.answer? data = none) : ask.answer? built = none := by
  obtain ⟨keys, tail⟩ := ask
  subst hkeys
  cases tail with
  | place steps =>
      cases hhere
      cases hanswer
  | each steps rest =>
      cases hhere
      cases built with
      | array items =>
          obtain ⟨held, rfl⟩ := h.exists_items
          cases hanswer
      | _ => rfl

/-- A run below a value that has nothing below it changes nothing. -/
theorem Run.eq_of_leaf (h : Run data asks made again) (hopen : KeepsWhole asks data)
    (hleaf : ∀ key, data.child? (.key key) = none) : again = made := by
  induction h with
  | nil => rfl
  | skip _ _ ih => exact ih hopen.of_cons
  | @put ask asks made result value next hanswer hassign _ ih =>
      obtain ⟨keys, tail⟩ := ask
      cases keys with
      | nil =>
          rw [hopen _ List.mem_cons_self rfl] at hanswer
          cases hanswer
      | cons key rest =>
          rw [Ask.answer?_cons] at hanswer
          obtain ⟨child, hchild, -⟩ := Option.bind_eq_some_iff.1 hanswer
          rw [hleaf key] at hchild
          cases hchild

/-- A value that is neither an array nor an object has no children. -/
theorem child?_eq_none_of_leaf (hleaf : data.isContainer = false) : data.child? step = none := by
  cases data <;> first | rfl | cases hleaf

/-- What has children is there. -/
theorem eq_some_of_child? {child : Json} (h : (parentOrNew made).child? step = some child) :
    made = some (parentOrNew made) := by
  cases made with
  | none => cases h
  | some value => cases value <;> first | rfl | cases h

namespace Rerun

/-- What is not answered for the whole of the data is not answered for the whole of the result. -/
theorem keepsWhole (h : Rerun data asks start result again) (hopen : KeepsWhole asks data) :
    KeepsWhole asks result := fun ask hmem hkeys =>
  h.fits.answer?_eq_none (h.stays ask hmem).1 hkeys (hopen ask hmem hkeys)

/-- Where children repeat, the places of the children are the same in the end. -/
theorem parentOrNew_eq (h : Rerun data asks start result again)
    (hchildren : ∀ step child, data.child? step = some child → Repeats child)
    (halike : BeginAlike sub start data result) (hcontainer : result.isContainer = true)
    (hopen : KeepsWhole asks data) : parentOrNew again = result := by
  have hopen' := h.keepsWhole hopen
  have hnew : parentOrNew (some result) = result := parentOrNew_some hcontainer
  have hfrom := (h.first.sameKind hopen halike.first.shape).2
  have hto := (h.second.sameKind hopen' halike.second.shape).2
  rw [hnew] at hfrom
  have hordered : (parentOrNew again).Ordered := Ordered.parentOrNew h.ordered_again
  refine eq_of_child?_eq (hto.trans (halike.kind.trans hfrom.symm)) hordered h.ordered
    fun step hown => ?_
  have hown' := hto.own hown
  have hown := halike.kind.own hown'
  -- What the result has nothing for is not there at first, and does not come to be there.
  have hleft : result.child? step = none → (parentOrNew again).child? step = none := by
    intro hres
    rw [h.second.child?_of_none hopen' halike.second.shape hown' hres,
      halike.second.child step hown', hres]
    rfl
  cases hchild : data.child? step with
  | none =>
      have hres := h.first.child?_of_none hopen halike.first.shape hown hchild
      rw [hnew, halike.first.child step hown, hchild] at hres
      rw [hleft hres]
      exact hres.symm
  | some child =>
      cases hres : result.child? step with
      | none => exact hleft hres
      | some kept =>
          have hrun := h.first.child? hopen halike.first.shape hown hchild
          have hrun' := h.second.child? hopen' halike.second.shape hown' hres
          rw [hnew, hres, halike.first.child step hown, hchild] at hrun
          rw [halike.kind.asksBelow_eq, halike.second.child step hown', hres] at hrun'
          obtain ⟨held, hheld, hkept⟩ := h.fits.exists_child?_step hres
          rw [hchild] at hheld
          cases hheld
          refine hchildren step child hchild _ sub kept _
            { settles := fun route hroute => halike.settles route hroute step child hchild
              stays := fun ask hask => ?_
              fits := hkept
              ordered := h.ordered.child? hres
              ordered_again := fun value hvalue => hordered.child? hvalue
              first := hrun
              second := hrun' }
          obtain ⟨key, hmem, hstep⟩ := exists_of_mem_asksBelow hask
          obtain ⟨hhere, hstays⟩ := h.stays _ hmem
          exact ⟨hhere, hstays.child ((halike.first.shape.child?_of_stepOf hstep).trans hchild)⟩

/-- Where the result has no children, nothing has been put anywhere, and nothing will be. -/
theorem eq_of_leaf (h : Rerun data asks start result again) (hleaf : result.isContainer = false)
    (hopen : KeepsWhole asks data) : again = some result := by
  have hsame : some result = begun start data := by
    cases hdata : data.isContainer with
    | false => exact h.first.eq_of_leaf hopen fun key => child?_eq_none_of_leaf hdata
    | true =>
        have hshape := shape_begun h.settles hdata
        refine (h.first.eq_or_exists_child? hopen hshape).resolve_right ?_
        rintro ⟨key, child, hchild⟩
        have hself := Option.some.inj (eq_some_of_child? hchild)
        rw [← hself, child?_eq_none_of_leaf hleaf] at hchild
        cases hchild
  rw [h.second.eq_of_leaf (h.keepsWhole hopen) fun key => child?_eq_none_of_leaf hleaf]
  cases start with
  | none => cases hsame
  | some route =>
      have hroute : result = collected route data := Option.some.inj hsame
      rw [begun, Option.map_some, hroute]
      exact congrArg some (h.settles route rfl)

/-- Where the result has children, both runs begin alike in their places. -/
theorem exists_beginAlike (h : Rerun data asks start result again)
    (hcontainer : result.isContainer = true) (hdata : data.isContainer = true)
    (hopen : KeepsWhole asks data) :
    ∃ sub, BeginAlike sub start data result ∧ (begun start data = some result →
      ∃ base, begun start result = some base ∧ base.isContainer = true) := by
  have hkind := (h.first.sameKind hopen (shape_begun h.settles hdata)).2
  rw [parentOrNew_some hcontainer] at hkind
  cases start with
  | none =>
      refine ⟨none, ⟨.of_parentOrNew_eq rfl hdata, .of_parentOrNew_eq rfl hcontainer, trivial, ?_⟩,
        ?_⟩
      · intro route hroute
        cases hroute
      · intro hmade
        cases hmade
  | some route =>
      rcases (h.settles route rfl).cases with rfl | ⟨rest, items, rfl, rfl⟩ | hnull
      · refine ⟨some (.place []), ⟨.place hdata, .place hcontainer, ?_, ?_⟩, ?_⟩
        · rw [parentOrNew_begun_place hdata] at hkind ⊢
          rwa [parentOrNew_begun_place hcontainer]
        · rintro route hroute step child -
          cases hroute
          rfl
        · exact fun _ => ⟨result, rfl, hcontainer⟩
      · cases result with
        | array kept =>
            refine ⟨some rest, ⟨.each rest items, .each rest kept, trivial, ?_⟩, ?_⟩
            · intro route hroute step child hchild
              cases hroute
              obtain ⟨position, -, hitem⟩ := Option.bind_eq_some_iff.1 hchild
              exact settles_each_array_iff.1 (h.settles _ rfl) child (List.mem_of_getElem? hitem)
            · exact fun _ => ⟨_, rfl, rfl⟩
        | object members => cases hkind
        | _ => cases hcontainer
      · -- A null is no more than nothing.
        have hbegun : begun (some route) data = some .null := congrArg some hnull
        have hbegun' : begun (some route) result = some .null :=
          congrArg some (h.fits.collected_eq_null hnull)
        refine ⟨none, ⟨.of_parentOrNew_eq ?_ hdata, .of_parentOrNew_eq ?_ hcontainer, ?_, ?_⟩, ?_⟩
        · rw [hbegun]
          rfl
        · rw [hbegun']
          rfl
        · rw [hbegun, hbegun']
          trivial
        · intro route hroute
          cases hroute
        · intro hmade
          rw [hbegun] at hmade
          cases hmade
          cases hcontainer

/-- Where children repeat, the whole does, if nothing is put in its place. -/
theorem eq_again (h : Rerun data asks start result again)
    (hchildren : ∀ step child, data.child? step = some child → Repeats child)
    (hopen : KeepsWhole asks data) : again = some result := by
  cases hcontainer : result.isContainer with
  | false => exact h.eq_of_leaf hcontainer hopen
  | true =>
      have hdata : data.isContainer = true :=
        (h.fits.shape (Set.notMem_empty _) hcontainer).of_data
      have hnew : parentOrNew (some result) = result := parentOrNew_some hcontainer
      obtain ⟨sub, halike, hbase⟩ := h.exists_beginAlike hcontainer hdata hopen
      have heq := h.parentOrNew_eq hchildren halike hcontainer hopen
      have hsome : (∃ key child, result.child? (.key key) = some child) →
          again = some result := by
        rintro ⟨key, child, hchild⟩
        rw [← heq] at hchild
        rw [eq_some_of_child? hchild, heq]
      -- It is left to tell the result from nothing and from null.
      rcases h.second.eq_or_exists_child? (h.keepsWhole hopen) halike.second.shape
        with hsame | hchild
      · rcases h.first.eq_or_exists_child? hopen halike.first.shape with hmade | hchild
        · obtain ⟨base, hbase, hfull⟩ := hbase hmade.symm
          rw [hsame, hbase, parentOrNew_some hfull] at heq
          rw [hsame, hbase, heq]
        · exact hsome (hnew ▸ hchild)
      · exact hsome (heq ▸ hchild)

end Rerun

/-! ### The last answer for the whole -/

/-- No ask has the property, or there is a last one that has it. -/
theorem forall_or_exists_last (p : Ask → Prop) (asks : List Ask) :
    (∀ ask ∈ asks, ¬ p ask) ∨ ∃ before ask after, asks = before ++ ask :: after ∧ p ask ∧
      ∀ other ∈ after, ¬ p other := by
  induction asks with
  | nil => exact Or.inl (List.forall_mem_nil _)
  | cons first rest ih =>
      rcases ih with hrest | ⟨before, ask, after, rfl, hask, hafter⟩
      · by_cases hfirst : p first
        · exact Or.inr ⟨[], first, rest, rfl, hfirst, hrest⟩
        · exact Or.inl (List.forall_mem_cons.2 ⟨hfirst, hrest⟩)
      · exact Or.inr ⟨first :: before, ask, after, rfl, hask, hafter⟩

/-- An answer for the whole is what its route collects from the data. -/
theorem Ask.answer?_eq_some {ask : Ask} {value : Json} (hkeys : ask.keys = [])
    (hanswer : ask.answer? data = some value) :
    data.follow? ask.tail = some value ∧ value = collected ask.tail data := by
  obtain ⟨keys, tail⟩ := ask
  subst hkeys
  have hfollow : data.follow? tail = some value := hanswer
  exact ⟨hfollow, by rw [collected, hfollow]; rfl⟩

/-- What answered for the whole does so after the run that went on from the answer. -/
theorem answer?_ne_none_of_run {ask : Ask} {value : Json} (hhere : ask.tail.Here)
    (hkeys : ask.keys = []) (hanswer : ask.answer? data = some value)
    (hopen : KeepsWhole asks data) (h : Run data asks (some value) (some result)) :
    ask.answer? result ≠ none := by
  obtain ⟨keys, tail⟩ := ask
  subst hkeys
  cases tail with
  | place steps =>
      cases hhere
      exact Option.some_ne_none result
  | each steps rest =>
      cases hhere
      cases data with
      | array items =>
          obtain rfl := Option.some.inj hanswer
          -- The run goes on from an array, and what is put below it keeps it one.
          have hshape : Shape (parentOrNew (some (array (items.map (collected rest)))))
              (.array items) := List.length_map _
          have hkind := (h.sameKind hopen hshape).2
          cases result with
          | array kept => exact Option.some_ne_none _
          | _ => cases hkind
      | _ => cases hanswer

/-- A run on the result of a run gives that result again. The last answer for the whole takes the
place of all that was put before, so the runs are told by what comes after it. -/
theorem repeats (data : Json) : Repeats data := by
  have hchildren : ∀ step child, data.child? step = some child → Repeats child :=
    fun step child hchild => repeats child
  intro asks start result again h
  -- The last value that is put at the root itself takes the place of all that was built before it,
  -- so only the asks behind it count.
  rcases forall_or_exists_last (fun ask => ask.keys = [] ∧ ask.answer? data ≠ none) asks
    with hnone | ⟨before, ask, after, rfl, ⟨hkeys, hanswers⟩, hafter⟩
  · exact h.eq_again hchildren fun ask hmem hkeys =>
      not_not.1 fun hanswers => hnone ask hmem ⟨hkeys, hanswers⟩
  · have hopen : KeepsWhole after data := fun other hmem hkeys =>
      not_not.1 fun hanswers => hafter other hmem ⟨hkeys, hanswers⟩
    obtain ⟨hask, hrest⟩ := List.forall_mem_cons.1 (List.forall_mem_append.1 h.stays).2
    obtain ⟨_, -, hfirst⟩ := Run.append_iff.1 h.first
    obtain ⟨_, -, hsecond⟩ := Run.append_iff.1 h.second
    cases hfirst with
    | skip hanswer _ => exact absurd hanswer hanswers
    | @put _ _ _ _ value next hanswer hassign hfirst =>
        cases hsecond with
        | skip hanswer' _ =>
            rw [hkeys] at hassign
            cases hassign
            exact absurd hanswer' (answer?_ne_none_of_run hask.1 hkeys hanswer hopen hfirst)
        | @put _ _ _ _ value' next' hanswer' hassign' hsecond =>
            rw [hkeys] at hassign hassign'
            cases hassign
            cases hassign'
            obtain ⟨hfollow, rfl⟩ := Ask.answer?_eq_some hkeys hanswer
            obtain ⟨-, rfl⟩ := Ask.answer?_eq_some hkeys hanswer'
            -- Both runs put there what the ask collects, from the data and from the result.
            have hsettles : Settles ask.tail data := by
              refine hask.2 data ?_ (Option.isSome_iff_exists.2 ⟨_, hfollow⟩)
              rw [hkeys]
              rfl
            have hafter : Rerun data after (some ask.tail) result again :=
              { settles := fun route hroute => Option.some.inj hroute ▸ hsettles
                stays := hrest
                fits := h.fits
                ordered := h.ordered
                ordered_again := h.ordered_again
                first := hfirst
                second := hsecond }
            exact hafter.eq_again hchildren hopen
termination_by sizeOf data
decreasing_by exact sizeOf_child? hchild

end Json
end DeclaredApi
