import DeclaredApi.Transform.Basic

/-!
# `DeclaredApi.Transform.Rename`: moving values to other paths

A rule between two paths is one of four things, and `move` says which. Two keys without dots
move a member of the object itself. Paths with dots read the value, put it at its new path
and delete it at its old one. Two paths with the same text before their first marker move
inside every element of the array there. Any other use of a marker is refused.

Over an array every element is renamed on its own, and when both sides of all rules start
with a marker they lose it. `Move.spread` does this for one rule and `Json.renamed` for a
list of rules; inside an object the rules apply one after the other.
-/

set_option autoImplicit false

namespace DeclaredApi

/-- What a rename rule does to an object. -/
inductive Move where
  /-- Nothing: both paths have the same text. -/
  | stay
  /-- It fails, whatever the object. -/
  | refused (source target : List Char)
  /-- It moves a member. -/
  | member (source target : List Char)
  /-- It moves what is at a path. -/
  | place (source target : List Char)
  /-- It moves inside every element of the array at `head`. -/
  | each (head : List Char) (inner : Move)
deriving DecidableEq, Repr

/-- What the rule from `source` to `target` does. -/
def move (source target : List Char) : Move :=
  if source = target then .stay
  else if Path.isWildcard source || Path.isWildcard target then
    match h : Text.cut? Path.wildcardDot source, Text.cut? Path.wildcardDot target with
    | some (head, sourceTail), some (targetHead, targetTail) =>
      have : sourceTail.length < source.length :=
        Text.length_lt_of_cut? (List.cons_ne_nil _ _) h
      if head = targetHead then .each head (move sourceTail targetTail)
      else .refused source target
    | _, _ => .refused source target
  else if source.contains '.' || target.contains '.' then .place source target
  else .member source target
termination_by source.length

namespace Json

mutual

/-- The value with `f` applied to every object that is reached through arrays alone. -/
def throughArrays (f : Json → Except TransformError Json) : Json → Except TransformError Json
  | .array items => (throughItems f items).map .array
  | .object members => f (.object members)
  | other => .ok other

/-- The elements of an array with `f` applied to every object reached through arrays. -/
def throughItems (f : Json → Except TransformError Json) :
    List Json → Except TransformError (List Json)
  | [] => .ok []
  | item :: rest => do
    let item ← throughArrays f item
    let rest ← throughItems f rest
    return item :: rest

end

/-- The value with the member `source` under the name `target`. -/
def moveMember (source target : List Char) : Json → Json
  | .object members =>
    match Dict.find? (String.ofList source) members with
    | some value =>
      .object (Dict.insert (String.ofList target) value
        (Dict.erase (String.ofList source) members))
    | none => .object members
  | other => other

/-- The value with what is at `source` put at `target` and deleted at `source`. -/
def movePlace (source target : List Char) (data : Json) : Except TransformError Json :=
  match data.get? source with
  | some value => (data.placed target value).map (·.delete source)
  | none => .ok data

/-- The value with `f` applied to every element of the array at `head`, if there is one. -/
def moveEach (head : List Char) (f : Json → Except TransformError Json) (data : Json) :
    Except TransformError Json :=
  if Path.isWildcard head then .ok data
  else
    match data.getAt? (Path.steps head) with
    | some (.array items) => do
      let items ← items.mapM f
      return (data.modifyAt? (fun _ => some (.array items)) (Path.steps head)).getD data
    | _ => .ok data

end Json

namespace Move

open DeclaredApi.Json (throughArrays moveMember movePlace moveEach)

/-- The refusal of a rule. -/
def refusal (source target : List Char) : TransformError :=
  .wildcardPrefixes (String.ofList source) (String.ofList target)

/-- What the move makes of a value and, through arrays, of their elements. A move that
starts with a marker goes on inside the elements. -/
def spread : Move → Json → Except TransformError Json
  | .stay, data => .ok data
  | .refused source target, data => throughArrays (fun _ => .error (refusal source target)) data
  | .member source target, data =>
    throughArrays (fun object => .ok (moveMember source target object)) data
  | .place source target, data => throughArrays (movePlace source target) data
  | .each [] inner, .array items => (items.mapM (spread inner)).map .array
  | .each head inner, data => throughArrays (moveEach head (spread inner)) data

/-- What the move makes of a value itself. -/
def apply : Move → Json → Except TransformError Json
  | .stay, data => .ok data
  | .refused source target, _ => .error (refusal source target)
  | .member source target, data => .ok (moveMember source target data)
  | .place source target, data => movePlace source target data
  | .each head inner, data => moveEach head inner.spread data

end Move

/-- The two paths of a rule. -/
abbrev PathPair := List Char × List Char

/-- The rules as they apply to the elements of an array. -/
def elementRules (rules : List PathPair) : List PathPair :=
  (rules.mapM fun (source, target) => do
    let source ← Path.stripWildcard? source
    let target ← Path.stripWildcard? target
    return (source, target)).getD rules

namespace Json

mutual

/-- The value with all rules applied, the first one first. -/
def renamed (rules : List PathPair) : Json → Except TransformError Json
  | .array items => (renamedItems (elementRules rules) items).map .array
  | .object members =>
    rules.foldlM (fun data (source, target) => (move source target).apply data) (.object members)
  | other => .ok other

/-- Every element with all rules applied. -/
def renamedItems (rules : List PathPair) : List Json → Except TransformError (List Json)
  | [] => .ok []
  | item :: rest => do
    let item ← renamed rules item
    let rest ← renamedItems rules rest
    return item :: rest

end

end Json
end DeclaredApi
