import DeclaredApi.Proofs.Path.Write
import DeclaredApi.Proofs.Transform.Elements

/-!
# `DeclaredApi.Proofs.Transform.Landing`: what a field puts into a result, and where

A field of an object is read in two parts. It leads to its landing place, and what it finds there
it goes on from: a plain field takes it as it is, and a field with a marker collects from the
elements of an array (`get?_eq_of_landing`). So what it finds is told by what is at its landing
place (`exists_getAt?_of_landed`).

`landed?` is what the field puts into the result of an object, and the keys of the place.
Extraction writes that, or leaves the result as it is (`extractField_cases`). Alone a field fails
only if its landing path has a marker of its own, and then it fails in every list
(`plain_of_extractField`, `extractField_of_plain`).
-/

set_option autoImplicit false

namespace DeclaredApi

open DeclaredApi.Path (Route steps route splitWildcard? wildcard wildcardDot)

/-- How a field goes on from its landing place. -/
def Path.tail (field : List Char) : Route :=
  match splitWildcard? field with
  | some (_, some rest) => .each [] (route rest)
  | some (_, none) => .each [] (.place [])
  | none => .place []

namespace Json

variable {data before result value : Json} {field path : List Char} {names : List String}

/-- To collect from an array at some steps is to go there and collect. -/
theorem follow?_each (data : Json) (steps : List Path.Step) (rest : Route) :
    data.follow? (.each steps rest) = data.getAt? steps >>= follow? (.each [] rest) := by
  rw [follow?]
  cases data.getAt? steps with
  | none => rfl
  | some found => cases found <;> rfl

/-- A field is read from what is at its landing place. -/
theorem get?_eq_of_landing (h : landing? field = some path) (data : Json) :
    data.get? field
      = data.getAt? ((Path.keys path).map .key) >>= follow? (Path.tail field) := by
  have hkeys : data.getAt? ((Path.keys path).map .key) = data.getAt? (steps path) := by
    rw [Path.keys, List.map_map]
    exact getAt?_map_asKey data fun _ => Path.asPosition?_of_mem_steps
  rw [hkeys, get?, Path.route_eq, Path.tail]
  rw [landing?] at h
  cases hsplit : splitWildcard? field with
  | none =>
      rw [hsplit] at h
      cases h
      show data.getAt? (steps field) = data.getAt? (steps field) >>= follow? (.place [])
      cases data.getAt? (steps field) <;> rfl
  | some split =>
      rw [hsplit] at h
      obtain ⟨head, rest⟩ := split
      cases head with
      | nil => cases h
      | cons c head =>
          cases h
          cases rest <;> exact follow?_each data _ _

/-- What a field puts into the result of an object, with the keys of the place. -/
def landed? (data : Json) (field : List Char) : Option (List String × Json) := do
  let value ← data.get? field
  let path ← landing? field
  return (Path.keys path, value)

/-- A field puts what it finds at its landing path. -/
theorem landed?_eq_some_iff :
    landed? data field = some (names, value) ↔
      ∃ path, landing? field = some path ∧ data.get? field = some value ∧
        Path.keys path = names := by
  unfold landed?
  cases data.get? field <;> cases landing? field <;> simp [and_comm]

/-- What a field puts into a result comes from the place where it lands. -/
theorem exists_getAt?_of_landed (h : landed? data field = some (names, value)) :
    ∃ held, data.getAt? (names.map .key) = some held ∧
      held.follow? (Path.tail field) = some value := by
  obtain ⟨path, hpath, hget, rfl⟩ := landed?_eq_some_iff.1 h
  rw [get?_eq_of_landing hpath] at hget
  exact Option.bind_eq_some_iff.1 hget

/-- A field is written where it lands, or left out. -/
theorem extractField_cases (h : extractField data before field = .ok result) :
    (landed? data field = none ∧ result = before) ∨
      ∃ names value, landed? data field = some (names, value) ∧
        assignAt value (names.map .key) before = (result, none) := by
  unfold extractField at h
  split at h
  · next value path hget hpath =>
      refine Or.inr ⟨Path.keys path, value, landed?_eq_some_iff.2 ⟨path, hpath, hget, rfl⟩, ?_⟩
      exact (assigned_eq_ok_iff.1 (placed_eq_ok_iff.1 h)).2
  · next hnone =>
      refine Or.inl ⟨?_, (Except.ok.inj h).symm⟩
      unfold landed?
      cases hget : data.get? field with
      | none => rfl
      | some value =>
          cases hpath : landing? field with
          | none => rfl
          | some path => exact absurd hpath (hnone value path hget)

/-- A field that has been written lands at a plain path. -/
theorem plain_of_extractField (h : extractField data before field = .ok result)
    (hlanded : landed? data field = some (names, value)) (hpath : landing? field = some path) :
    Path.Plain path := by
  obtain ⟨path', hpath', hget, -⟩ := landed?_eq_some_iff.1 hlanded
  rw [hpath] at hpath'
  cases hpath'
  rw [extractField, hget, hpath] at h
  exact (assigned_eq_ok_iff.1 (placed_eq_ok_iff.1 h)).1

/-- A field that lands at a plain path can be written wherever there is room for it. -/
theorem extractField_of_plain (hplain : ∀ path, landing? field = some path → Path.Plain path)
    (hlanded : landed? data field = some (names, value))
    (hassign : assignAt value (names.map .key) before = (result, none)) :
    extractField data before field = .ok result := by
  obtain ⟨path, hpath, hget, rfl⟩ := landed?_eq_some_iff.1 hlanded
  rw [extractField, hget, hpath]
  exact placed_eq_ok_iff.2 (assigned_eq_ok_iff.2 ⟨hplain path hpath, hassign⟩)

/-- A field that puts nothing leaves the result as it is. -/
theorem extractField_of_not_landed (h : landed? data field = none) (before : Json) :
    extractField data before field = .ok before := by
  unfold extractField
  split
  · next value path hget hpath =>
      rw [landed?_eq_some_iff.2 ⟨path, hpath, hget, rfl⟩] at h
      cases h
  · rfl

end Json
end DeclaredApi
