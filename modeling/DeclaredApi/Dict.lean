/-!
# `DeclaredApi.Dict`: maps from names to values, sorted by name

A `Dict` is an association list. `insert` puts a new name at its place in code point order
and overwrites a name that is there, so a map built by insertions is sorted, holds no name
twice, and two maps with the same entries are the same list. `Sorted` is that invariant,
kept by `insert` and `erase`. The look-up laws (`find?_insert`, `find?_erase`) hold without
it.
-/

set_option autoImplicit false

namespace DeclaredApi

/-- A map from names to values, as its entries in the order of their names. -/
abbrev Dict (α : Type) := List (String × α)

namespace Dict

variable {α β : Type}

/-- Each name comes before all later ones. -/
def Sorted (m : Dict α) : Prop :=
  m.Pairwise fun a b => a.1 < b.1

/-- The value under `key`, if there is one. -/
def find? (key : String) : Dict α → Option α
  | [] => none
  | (k, v) :: rest => if k = key then some v else find? key rest

/-- Whether there is a value under `key`. -/
def has (key : String) (m : Dict α) : Bool :=
  (find? key m).isSome

/-- The map with `value` under `key` and every other entry as it was. -/
def insert (key : String) (value : α) : Dict α → Dict α
  | [] => [(key, value)]
  | (k, v) :: rest =>
    if k = key then (key, value) :: rest
    else if key < k then (key, value) :: (k, v) :: rest
    else (k, v) :: insert key value rest

/-- The map without the entry under `key`. -/
def erase (key : String) (m : Dict α) : Dict α :=
  m.filter fun entry => entry.1 ≠ key

/-- The map of a list of entries, in which the last of several with one name counts. -/
def ofList (entries : List (String × α)) : Dict α :=
  entries.foldl (fun m entry => insert entry.1 entry.2 m) []

/-- `top` laid over `base`: where both have a name, the value of `top` counts. -/
def overlay (base top : Dict α) : Dict α :=
  top.foldl (fun m entry => insert entry.1 entry.2 m) base

/-- The names, in order. -/
def keys (m : Dict α) : List String :=
  m.map (·.1)

theorem find?_insert (key other : String) (value : α) (m : Dict α) :
    find? other (insert key value m) = if key = other then some value else find? other m := by
  induction m with
  | nil => simp [insert, find?]
  | cons entry rest ih =>
      obtain ⟨k, v⟩ := entry
      simp only [insert]
      split
      · next hk => subst hk; by_cases h : k = other <;> simp [find?, h]
      · next hk =>
          split
          · simp [find?]
          · simp only [find?, ih]
            by_cases h : k = other
            · subst h; simp [Ne.symm hk]
            · simp [h]

theorem find?_erase (key other : String) (m : Dict α) :
    find? other (erase key m) = if key = other then none else find? other m := by
  induction m with
  | nil => simp [erase, find?]
  | cons entry rest ih =>
      obtain ⟨k, v⟩ := entry
      simp only [erase, ne_eq, decide_not, List.filter_cons, Bool.not_eq_eq_eq_not,
        Bool.not_true, decide_eq_false_iff_not, ite_not] at ih ⊢
      by_cases hk : k = key
      · subst hk
        by_cases h : k = other <;> simp_all [find?]
      · by_cases h : k = other
        · subst h; simp [find?, hk, Ne.symm hk]
        · simp only [hk, if_false, find?, h, ih]

end Dict
end DeclaredApi
