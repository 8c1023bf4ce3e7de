import Mathlib.Data.List.Forall2

/-!
# `DeclaredApi.Proofs.Except`: computations that stop at the first failure

A computation of several parts that succeeds succeeds in each part (`exists_of_bind_ok`,
`exists_of_map_ok`), and a loop that succeeds keeps what each of its rounds keeps
(`of_foldlM_ok`, `of_foldlM_mem_ok`). A computation over a list gives the results for its items
(`mapM_eq_ok_iff`), also one that goes on from the results of another (`forall₂_bind_ok`,
`exists_of_forall₂_bind_ok`), and is told by its items (`eq_of_forall₂_ok`). One that may have no
result, and leaves the list as it is then, changes all items or none (`mapM_getD_of_isSome`,
`mapM_getD_of_none`).
-/

set_option autoImplicit false

namespace DeclaredApi

variable {ε α β γ : Type}

/-- A bind that succeeds succeeds in both of its parts. -/
theorem exists_of_bind_ok {first : Except ε α} {next : α → Except ε β} {b : β}
    (h : first >>= next = .ok b) : ∃ a, first = .ok a ∧ next a = .ok b := by
  cases first with
  | error e => cases h
  | ok a => exact ⟨a, rfl, h⟩

/-- What is made of a result needs the result. -/
theorem exists_of_map_ok {x : Except ε α} {f : α → β} {b : β} (h : x.map f = .ok b) :
    ∃ a, x = .ok a ∧ f a = b := by
  cases x with
  | error e => cases h
  | ok a => exact ⟨a, rfl, Except.ok.inj h⟩

/-- What each round of a loop keeps for the items of a list, a loop over it that succeeds keeps. -/
theorem of_foldlM_mem_ok {round : β → α → Except ε β} {Kept : β → Prop} {items : List α}
    (hround : ∀ before, ∀ item ∈ items, ∀ after, Kept before → round before item = .ok after →
      Kept after)
    {start stop : β} (hstart : Kept start) (h : items.foldlM round start = .ok stop) :
    Kept stop := by
  induction items generalizing start with
  | nil =>
      cases h
      exact hstart
  | cons item rest ih =>
      rw [List.foldlM_cons] at h
      obtain ⟨next, hnext, h⟩ := exists_of_bind_ok h
      have hkept := hround start item List.mem_cons_self next hstart hnext
      exact ih (fun before item hmem => hround before item (List.mem_cons_of_mem _ hmem)) hkept h

/-- What each round of a loop keeps, a loop that succeeds keeps. -/
theorem of_foldlM_ok {round : β → α → Except ε β} {Kept : β → Prop}
    (hround : ∀ before item after, Kept before → round before item = .ok after → Kept after)
    {items : List α} {start stop : β} (hstart : Kept start)
    (h : items.foldlM round start = .ok stop) : Kept stop :=
  of_foldlM_mem_ok (fun before item _ => hround before item) hstart h

/-- A loop that succeeds succeeds in each of its rounds. -/
theorem exists_round_of_foldlM_ok {round : β → α → Except ε β} {items : List α} {item : α}
    {start stop : β} (h : items.foldlM round start = .ok stop) (hmem : item ∈ items) :
    ∃ before after, round before item = .ok after := by
  induction items generalizing start with
  | nil => cases hmem
  | cons first rest ih =>
      rw [List.foldlM_cons] at h
      obtain ⟨next, hnext, h⟩ := exists_of_bind_ok h
      rcases List.mem_cons.1 hmem with rfl | hmem
      · exact ⟨start, next, hnext⟩
      · exact ih h hmem

/-- A computation over a list gives the results for its items. -/
theorem mapM_eq_ok_iff {f : α → Except ε β} {items : List α} {results : List β} :
    items.mapM f = .ok results ↔
      List.Forall₂ (fun item result => f item = .ok result) items results := by
  induction items generalizing results with
  | nil =>
      rw [List.mapM_nil, List.forall₂_nil_left_iff]
      exact ⟨fun h => (Except.ok.inj h).symm, fun h => congrArg _ h.symm⟩
  | cons item rest ih =>
      rw [List.mapM_cons, List.forall₂_cons_left_iff]
      constructor
      · intro h
        obtain ⟨first, hfirst, h⟩ := exists_of_bind_ok h
        obtain ⟨others, hothers, h⟩ := exists_of_bind_ok h
        exact ⟨first, others, hfirst, ih.1 hothers, (Except.ok.inj h).symm⟩
      · rintro ⟨first, others, hfirst, hothers, rfl⟩
        rw [hfirst, ih.2 hothers]
        rfl

/-- Functions that agree on the items of a list give one result for it. -/
theorem mapM_congr {f g : α → Except ε β} {items : List α} (h : ∀ item ∈ items, f item = g item) :
    items.mapM f = items.mapM g := by
  induction items with
  | nil => rfl
  | cons item rest ih =>
      obtain ⟨hitem, hrest⟩ := List.forall_mem_cons.1 h
      rw [List.mapM_cons, List.mapM_cons, hitem, ih hrest]

/-- Computations over a list and then over its results are made of those for the items. -/
theorem forall₂_bind_ok {first : α → Except ε β} {next : β → Except ε γ} {items : List α}
    {middle : List β} {results : List γ}
    (hfirst : List.Forall₂ (fun item value => first item = .ok value) items middle)
    (hnext : List.Forall₂ (fun value result => next value = .ok result) middle results) :
    List.Forall₂ (fun item result => (first item >>= next) = .ok result) items results := by
  induction hfirst generalizing results with
  | nil =>
      cases hnext
      exact .nil
  | cons hvalue _ ih =>
      obtain ⟨result, others, hresult, hothers, rfl⟩ := List.forall₂_cons_left_iff.1 hnext
      refine .cons ?_ (ih hothers)
      rw [hvalue]
      exact hresult

/-- Computations for the items of a list that have two parts are made of those over the list and
then over its results. -/
theorem exists_of_forall₂_bind_ok {first : α → Except ε β} {next : β → Except ε γ} {items : List α}
    {results : List γ}
    (h : List.Forall₂ (fun item result => (first item >>= next) = .ok result) items results) :
    ∃ middle, List.Forall₂ (fun item value => first item = .ok value) items middle ∧
      List.Forall₂ (fun value result => next value = .ok result) middle results := by
  induction h with
  | nil => exact ⟨[], .nil, .nil⟩
  | cons hitem _ ih =>
      obtain ⟨value, hvalue, hresult⟩ := exists_of_bind_ok hitem
      obtain ⟨middle, hmiddle, hresults⟩ := ih
      exact ⟨value :: middle, .cons hvalue hmiddle, .cons hresult hresults⟩

/-- Two computations that agree on each item of a list agree on the list. -/
theorem eq_of_forall₂_ok {first second : α → Except ε β} {items : List α}
    {results results' : List β}
    (hsame : ∀ item ∈ items, ∀ result result', first item = .ok result →
      second item = .ok result' → result = result')
    (hfirst : List.Forall₂ (fun item result => first item = .ok result) items results)
    (hsecond : List.Forall₂ (fun item result => second item = .ok result) items results') :
    results = results' := by
  induction hfirst generalizing results' with
  | nil =>
      cases hsecond
      rfl
  | cons hitem _ ih =>
      obtain ⟨result', others', hitem', hothers, rfl⟩ := List.forall₂_cons_left_iff.1 hsecond
      obtain ⟨hhead, htail⟩ := List.forall_mem_cons.1 hsame
      rw [hhead _ _ hitem hitem', ih htail hothers]

/-- Each item of a list has its partner. -/
theorem exists_of_forall₂_getElem? {R : α → β → Prop} {items : List α} {results : List β}
    {position : Nat} {item : α} (h : List.Forall₂ R items results)
    (hitem : items[position]? = some item) :
    ∃ result, results[position]? = some result ∧ R item result := by
  obtain ⟨hlt, rfl⟩ := List.getElem?_eq_some_iff.1 hitem
  have hlt' : position < results.length := h.length_eq ▸ hlt
  exact ⟨results[position], List.getElem?_eq_getElem hlt', h.get hlt hlt'⟩

/-- Where each item of a list has a partner, the list has one. -/
theorem exists_forall₂_of_forall {R : α → β → Prop} {items : List α}
    (h : ∀ item ∈ items, ∃ result, R item result) : ∃ results, List.Forall₂ R items results := by
  induction items with
  | nil => exact ⟨[], .nil⟩
  | cons item rest ih =>
      obtain ⟨⟨result, hresult⟩, hrest⟩ := List.forall_mem_cons.1 h
      obtain ⟨others, hothers⟩ := ih hrest
      exact ⟨result :: others, .cons hresult hothers⟩

/-- A list has related results exactly if each of its items has one. -/
theorem exists_forall₂_iff {R : α → β → Prop} {items : List α} :
    (∃ results, List.Forall₂ R items results) ↔ ∀ item ∈ items, ∃ result, R item result := by
  refine ⟨?_, exists_forall₂_of_forall⟩
  rintro ⟨results, hresults⟩ item hmem
  obtain ⟨position, hitem⟩ := List.mem_iff_getElem?.1 hmem
  obtain ⟨result, -, hresult⟩ := exists_of_forall₂_getElem? hresults hitem
  exact ⟨result, hresult⟩

/-- Where every item has an image, the list is replaced by the images. -/
theorem mapM_getD_of_isSome {f : α → Option α} {items : List α}
    (h : ∀ item ∈ items, (f item).isSome) :
    (items.mapM f).getD items = items.map fun item => (f item).getD item := by
  have hsome : items.mapM f = some (items.map fun item => (f item).getD item) := by
    induction items with
    | nil => rfl
    | cons item rest ih =>
        obtain ⟨hitem, hrest⟩ := List.forall_mem_cons.1 h
        obtain ⟨changed, hchanged⟩ := Option.isSome_iff_exists.1 hitem
        rw [List.mapM_cons, ih hrest, List.map_cons, hchanged]
        rfl
  rw [hsome, Option.getD_some]

/-- One item without an image leaves the list as it is. -/
theorem mapM_getD_of_none {f : α → Option α} {items : List α} {item : α} (hmem : item ∈ items)
    (h : f item = none) : (items.mapM f).getD items = items := by
  have hnone : items.mapM f = none := by
    induction items with
    | nil => cases hmem
    | cons first rest ih =>
        rw [List.mapM_cons]
        rcases List.mem_cons.1 hmem with rfl | hmem
        · rw [h]
          rfl
        · rw [ih hmem]
          cases f first <;> rfl
  rw [hnone, Option.getD_none]

end DeclaredApi
