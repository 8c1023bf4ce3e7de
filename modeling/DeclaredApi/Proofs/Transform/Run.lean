import DeclaredApi.Proofs.Transform.Settles

/-!
# `DeclaredApi.Proofs.Transform.Run`: an extraction, child by child

A field asks the data for what is at the place where it lands, and goes on from there (`Ask`). An
extraction puts the answers in their places, one after the other (`Run`). A run that puts nothing in
the place of the whole is a run for every child of the data, with what is asked for below it
(`Run.child?`), and leaves alone what the data has no child for (`Run.child?_of_none`).

The children are told by the own steps of what is there, for two keys that stand for one step ask
for one child.
-/

set_option autoImplicit false

namespace DeclaredApi.Json

open DeclaredApi.Path (Step Route position?)

variable {data built child made result : Json} {key : String} {step : Step}

/-! ### Runs -/

/-- What has been built has the shape of the data, so its own steps are steps of the data. -/
theorem Shape.child?_of_stepOf (h : Shape built data) (hstep : built.stepOf key = some step) :
    data.child? (.key key) = data.child? step := by
  cases built with
  | object members =>
      cases hstep
      rfl
  | array items =>
      cases data with
      | array items' => exact Json.child?_of_stepOf hstep
      | _ => cases h
  | _ => cases h

/-- What a field asks for: the keys of the place where it lands, and how it goes on from there. -/
structure Ask where
  keys : List String
  tail : Route

/-- What the data answers. -/
def Ask.answer? (ask : Ask) (data : Json) : Option Json :=
  data.getAt? (ask.keys.map .key) >>= follow? ask.tail

/-- The answers to a list of asks are put in their places, one after the other. At first there may
be nothing at all. -/
inductive Run (data : Json) : List Ask → Option Json → Option Json → Prop where
  | nil {made : Option Json} : Run data [] made made
  /-- The data has no answer. -/
  | skip {ask : Ask} {asks : List Ask} {made result : Option Json}
      (hanswer : ask.answer? data = none) (hrest : Run data asks made result) :
      Run data (ask :: asks) made result
  | put {ask : Ask} {asks : List Ask} {made result : Option Json} {value next : Json}
      (hanswer : ask.answer? data = some value)
      (hassign : assignAt value (ask.keys.map .key) (parentOrNew made) = (next, none))
      (hrest : Run data asks (some next) result) : Run data (ask :: asks) made result

/-- Nothing is answered that would be put in the place of the whole. -/
def KeepsWhole (asks : List Ask) (data : Json) : Prop :=
  ∀ ask ∈ asks, ask.keys = [] → ask.answer? data = none

variable {asks more : List Ask} {ask : Ask}

/-- What goes for all asks goes for those after the first. -/
theorem KeepsWhole.of_cons (h : KeepsWhole (ask :: asks) data) : KeepsWhole asks data :=
  fun other hmem => h other (List.mem_cons_of_mem _ hmem)

/-- The answer below a key is the answer of the child there. -/
theorem Ask.answer?_cons (key : String) (rest : List String) (tail : Route) (data : Json) :
    Ask.answer? ⟨key :: rest, tail⟩ data = data.child? (.key key) >>= Ask.answer? ⟨rest, tail⟩ := by
  show (data.child? (.key key) >>= getAt? (rest.map .key)) >>= follow? tail = _
  cases data.child? (.key key) <;> rfl

namespace Run

variable {made result : Option Json}

/-- A run of asks in two parts is a run of the first part and then one of the second. -/
theorem append_iff :
    Run data (asks ++ more) made result ↔ ∃ middle, Run data asks made middle ∧
      Run data more middle result := by
  constructor
  · intro h
    induction asks generalizing made with
    | nil => exact ⟨made, .nil, h⟩
    | cons ask rest ih =>
        cases h with
        | skip hanswer hrest =>
            obtain ⟨middle, hfirst, hsecond⟩ := ih hrest
            exact ⟨middle, .skip hanswer hfirst, hsecond⟩
        | put hanswer hassign hrest =>
            obtain ⟨middle, hfirst, hsecond⟩ := ih hrest
            exact ⟨middle, .put hanswer hassign hfirst, hsecond⟩
  · rintro ⟨middle, hfirst, hsecond⟩
    induction hfirst with
    | nil => exact hsecond
    | skip hanswer _ ih => exact .skip hanswer (ih hsecond)
    | put hanswer hassign _ ih => exact .put hanswer hassign (ih hsecond)

/-- Induction over a run that puts nothing in the place of the whole: every answer is put into a
child. -/
theorem inductionBelow {motive : List Ask → Option Json → Prop}
    (nil : Shape (parentOrNew result) data → motive [] result)
    (skip : ∀ ask asks made, ask.answer? data = none → Shape (parentOrNew made) data →
      motive asks made → motive (ask :: asks) made)
    (put : ∀ key rest tail asks made child value written, Shape (parentOrNew made) data →
      data.child? (.key key) = some child → Ask.answer? ⟨rest, tail⟩ child = some value →
      (parentOrNew made).HasRoom key →
      assignAt value (rest.map .key) (parentOrNew ((parentOrNew made).child? (.key key)))
        = (written, none) →
      motive asks (some ((parentOrNew made).putChild key written)) →
      motive (⟨key :: rest, tail⟩ :: asks) made)
    (h : Run data asks made result)
    (hopen : KeepsWhole asks data)
    (hshape : Shape (parentOrNew made) data) : motive asks made := by
  induction h with
  | nil => exact nil hshape
  | @skip ask asks made result hanswer _ ih =>
      have hmotive := ih nil hopen.of_cons hshape
      exact skip ask asks made hanswer hshape hmotive
  | @put ask asks made result value next hanswer hassign _ ih =>
      obtain ⟨keys, tail⟩ := ask
      cases keys with
      | nil =>
          -- No ask at the root itself is answered, so nothing replaces what was made.
          rw [hopen _ List.mem_cons_self rfl] at hanswer
          cases hanswer
      | cons key rest =>
          rw [Ask.answer?_cons] at hanswer
          obtain ⟨child, hchild, hanswer⟩ := Option.bind_eq_some_iff.1 hanswer
          obtain ⟨hroom, written, hwritten, rfl⟩ := assignAt_cons_iff.1 hassign
          have hnext := hshape.putChild hchild written
          have hmotive := ih nil hopen.of_cons
            ((parentOrNew_some hnext.isContainer).symm ▸ hnext)
          exact put key rest tail asks made child value written hshape hchild hanswer hroom hwritten
            hmotive

end Run

/-- What is asked for below a step. -/
def asksBelow (built : Json) (step : Step) (asks : List Ask) : List Ask :=
  asks.filterMap fun ask =>
    match ask.keys with
    | [] => none
    | key :: rest => if built.stepOf key = some step then some ⟨rest, ask.tail⟩ else none

/-- Values of one kind have the same asks below a step. -/
theorem SameKind.asksBelow_eq (h : SameKind data built) (step : Step) (asks : List Ask) :
    data.asksBelow step asks = built.asksBelow step asks := by
  simp only [asksBelow, h.stepOf_eq]

/-- An ask whose first key stands for the step is one below it. -/
theorem asksBelow_cons_of_eq {rest : List String} {tail : Route}
    (h : built.stepOf key = some step) (asks : List Ask) :
    built.asksBelow step (⟨key :: rest, tail⟩ :: asks)
      = ⟨rest, tail⟩ :: built.asksBelow step asks := by
  simp only [asksBelow, List.filterMap_cons, h, if_true]

/-- An ask whose first key stands for another step is none. -/
theorem asksBelow_cons_of_ne {rest : List String} {tail : Route}
    (h : built.stepOf key ≠ some step) (asks : List Ask) :
    built.asksBelow step (⟨key :: rest, tail⟩ :: asks) = built.asksBelow step asks := by
  simp only [asksBelow, List.filterMap_cons, h, if_false]

/-- An ask below a step comes from one whose first key stands for it. -/
theorem exists_of_mem_asksBelow (h : ask ∈ built.asksBelow step asks) :
    ∃ key, ⟨key :: ask.keys, ask.tail⟩ ∈ asks ∧ built.stepOf key = some step := by
  obtain ⟨⟨keys, tail⟩, hmem, hask⟩ := List.mem_filterMap.1 h
  cases keys with
  | nil => cases hask
  | cons key rest =>
      obtain ⟨hstep, hask⟩ := Option.ite_none_right_eq_some.1 hask
      cases hask
      exact ⟨key, hmem, hstep⟩

namespace Run

variable {made result : Option Json}

/-- A run that puts nothing in the place of the whole keeps its kind. -/
theorem sameKind (h : Run data asks made result)
    (hopen : KeepsWhole asks data)
    (hshape : Shape (parentOrNew made) data) :
    Shape (parentOrNew result) data ∧ SameKind (parentOrNew result) (parentOrNew made) := by
  refine inductionBelow (motive := fun _ made => Shape (parentOrNew result) data ∧
    SameKind (parentOrNew result) (parentOrNew made)) ?_ ?_ ?_ h hopen hshape
  · exact fun hshape => ⟨hshape, .refl hshape.isContainer⟩
  · exact fun _ _ _ _ _ ih => ih
  · rintro key rest tail asks made child value written - - - hroom - ⟨hresult, hsame⟩
    have hkind := SameKind.putChild hroom.isContainer key written
    rw [parentOrNew_some (hroom.putChild key written).isContainer] at hsame
    exact ⟨hresult, hsame.trans hkind⟩

/-- A run that puts nothing in the place of the whole is a run below each of its own steps. -/
theorem child? (h : Run data asks made result)
    (hopen : KeepsWhole asks data)
    (hshape : Shape (parentOrNew made) data) (hown : (parentOrNew made).Own step)
    (hchild : data.child? step = some child) :
    Run child ((parentOrNew made).asksBelow step asks) ((parentOrNew made).child? step)
      ((parentOrNew result).child? step) := by
  refine inductionBelow (motive := fun asks made => (parentOrNew made).Own step →
    Run child ((parentOrNew made).asksBelow step asks) ((parentOrNew made).child? step)
      ((parentOrNew result).child? step)) ?_ ?_ ?_ h hopen hshape hown
  · exact fun _ _ => .nil
  · rintro ⟨keys, tail⟩ asks made hanswer hshape ih hown
    cases keys with
    | nil => exact ih hown
    | cons key rest =>
        -- Only what is asked for below this step is asked for in the child.
        by_cases hstep : (parentOrNew made).stepOf key = some step
        · rw [Ask.answer?_cons, hshape.child?_of_stepOf hstep, hchild] at hanswer
          rw [asksBelow_cons_of_eq hstep]
          exact .skip hanswer (ih hown)
        · rw [asksBelow_cons_of_ne hstep]
          exact ih hown
  · intro key rest tail asks made held value written hshape hheld hanswer hroom hassign ih hown
    have hkind := SameKind.putChild hroom.isContainer key written
    rw [parentOrNew_some (hroom.putChild key written).isContainer, hkind.asksBelow_eq] at ih
    have hrest := ih (hkind.symm.own hown)
    by_cases hstep : (parentOrNew made).stepOf key = some step
    · rw [hshape.child?_of_stepOf hstep, hchild] at hheld
      cases hheld
      rw [child?_putChild_of_stepOf hroom hstep] at hrest
      rw [child?_of_stepOf hstep] at hassign
      rw [asksBelow_cons_of_eq hstep]
      exact .put hanswer hassign hrest
    · rw [child?_putChild_of_stepOf_ne hown hstep] at hrest
      rwa [asksBelow_cons_of_ne hstep]

/-- A run leaves alone what the data has nothing for. -/
theorem child?_of_none (h : Run data asks made result)
    (hopen : KeepsWhole asks data)
    (hshape : Shape (parentOrNew made) data) (hown : (parentOrNew made).Own step)
    (hchild : data.child? step = none) :
    (parentOrNew result).child? step = (parentOrNew made).child? step := by
  refine inductionBelow (motive := fun asks made => (parentOrNew made).Own step →
    (parentOrNew result).child? step = (parentOrNew made).child? step) ?_ ?_ ?_ h hopen hshape hown
  · exact fun _ _ => rfl
  · exact fun _ _ _ _ _ ih => ih
  · intro key rest tail asks made held value written hshape hheld _ hroom _ ih hown
    have hkind := SameKind.putChild hroom.isContainer key written
    rw [parentOrNew_some (hroom.putChild key written).isContainer] at ih
    rw [ih (hkind.symm.own hown), child?_putChild_of_stepOf_ne hown]
    -- An answer comes from a child of the data, and there is none at this step.
    intro hstep
    rw [hshape.child?_of_stepOf hstep, hchild] at hheld
    cases hheld

/-- A run that puts nothing in the place of the whole puts something into a child, or changes
nothing. -/
theorem eq_or_exists_child? (h : Run data asks made result)
    (hopen : KeepsWhole asks data)
    (hshape : Shape (parentOrNew made) data) :
    result = made ∨ ∃ key child, (parentOrNew result).child? (.key key) = some child := by
  refine inductionBelow (motive := fun _ made => result = made ∨
    ∃ key child, (parentOrNew result).child? (.key key) = some child) ?_ ?_ ?_ h hopen hshape
  · exact fun _ => Or.inl rfl
  · exact fun _ _ _ _ _ ih => ih
  · rintro key rest tail asks made held value written - - - hroom - (rfl | hchild)
    · refine Or.inr ⟨key, written, ?_⟩
      rw [parentOrNew_some (hroom.putChild key written).isContainer]
      exact child?_putChild_self hroom
    · exact Or.inr hchild

/-- A run takes nothing away, so where there was something there is something in the end. -/
theorem ne_none {value : Json} (h : Run data asks (some value) result) : result ≠ none := by
  generalize hmade : some value = made at h
  induction h generalizing value with
  | nil => exact hmade ▸ Option.some_ne_none value
  | skip _ _ ih => exact ih hmade
  | put _ _ _ ih => exact ih rfl

/-- A run that leaves nothing has had no answers. -/
theorem answer?_eq_none (h : Run data asks made result) (hresult : result = none)
    (hmem : ask ∈ asks) : ask.answer? data = none := by
  induction h with
  | nil => cases hmem
  | skip hanswer _ ih =>
      rcases List.mem_cons.1 hmem with rfl | hmem
      · exact hanswer
      · exact ih hresult hmem
  | put _ _ hrest _ => exact absurd hresult hrest.ne_none

end Run

end DeclaredApi.Json
