import DeclaredApi.Json.Basic
import DeclaredApi.Path.Basic

/-!
# `DeclaredApi.Path.Place`: reading and writing at a path

Four walkers go down a JSON value along a path. `get?` reads, and over a wildcard it
collects one value for each element, null where the rest of the path leads nowhere.
`assign` writes: it makes objects where parents are absent or null, makes an array longer
by at most one element, and refuses wildcards. `delete` removes a member of an object, sets
an element of an array to null so that the others keep their positions, and does nothing
where a parent is absent. `modifyAt?` changes a value that is there.

`assign` works in place, so it answers with the value it leaves beside the fault. It makes
parents before it knows whether it can go on below them, and yet a failed assignment leaves a
sorted value as it was (`assign_all_or_nothing`).
-/

set_option autoImplicit false

namespace DeclaredApi

open DeclaredApi.Path (Step Route)

/-- What stops an assignment. -/
inductive PathFault where
  /-- The path has a wildcard. -/
  | wildcard
  /-- The step needs an object or array, and finds another value or no position. -/
  | notContainer (step : String)
  /-- The position is past the end of an array of that length. -/
  | outOfRange (position length : Nat)
deriving DecidableEq, Repr

/-- A failed assignment, with the path as it was written. -/
structure PathError where
  path : String
  fault : PathFault
deriving DecidableEq, Repr

/-- The message of a failed assignment. -/
def PathError.message (e : PathError) : String :=
  match e.fault with
  | .wildcard => "wildcard path '" ++ e.path ++ "' cannot be assigned directly"
  | .notContainer step =>
    "cannot descend into non-container value at '" ++ step ++ "' of '" ++ e.path ++ "'"
  | .outOfRange position length =>
    "index " ++ toString position ++ " of '" ++ e.path ++
      "' is past the end of an array of length " ++ toString length

namespace Json

/-! ### Reading -/

/-- The value one step down. -/
def child? (step : Step) : Json → Option Json
  | .object members => Dict.find? step.asKey members
  | .array items => step.asPosition? >>= (items[·]?)
  | _ => none

/-- The value at the end of the steps. -/
def getAt? : List Step → Json → Option Json
  | [], root => some root
  | step :: rest, root => root.child? step >>= getAt? rest

/-- The value a route leads to. -/
def follow? : Route → Json → Option Json
  | .place steps, root => root.getAt? steps
  | .each steps rest, root =>
    match root.getAt? steps with
    | some (.array items) => some (.array (items.map fun item => (follow? rest item).getD .null))
    | _ => none

/-- The value at a path. -/
def get? (root : Json) (path : List Char) : Option Json :=
  root.follow? (Path.route path)

/-! ### Writing -/

/-- The place of a child: absent and null children become an empty object. -/
def parentOrNew (child : Option Json) : Json :=
  match child with
  | none => .object []
  | some .null => .object []
  | some child => child

/-- The value with `value` at the end of the steps, or what stops that. A step below the
root stops at a child that is neither object nor array. -/
def assignAt (value : Json) : List Step → Json → Json × Option PathFault
  | [], _ => (value, none)
  | step :: rest, .object members =>
    let parent := parentOrNew (Dict.find? step.asKey members)
    if rest.isEmpty then (.object (Dict.insert step.asKey value members), none)
    else if parent.isContainer then
      let (child, fault) := assignAt value rest parent
      (.object (Dict.insert step.asKey child members), fault)
    else (.object members, some (.notContainer step.asKey))
  | step :: rest, .array items =>
    match step.asPosition? with
    | none => (.array items, some (.notContainer step.asKey))
    | some position =>
      if items.length < position then
        (.array items, some (.outOfRange position items.length))
      else
        let parent := parentOrNew items[position]?
        let items := if position = items.length then items ++ [.null] else items
        if rest.isEmpty then (.array (items.set position value), none)
        else if parent.isContainer then
          let (child, fault) := assignAt value rest parent
          (.array (items.set position child), fault)
        else (.array items, some (.notContainer step.asKey))
  | step :: _, root => (root, some (.notContainer step.asKey))

/-- The value with `value` at the path, or what is left and why it failed. -/
def assign (root : Json) (path : List Char) (value : Json) : Json × Option PathError :=
  if Path.isWildcard path then (root, some ⟨String.ofList path, .wildcard⟩)
  else
    let (root, fault) := assignAt value (Path.steps path) root
    (root, fault.map (PathError.mk (String.ofList path)))

/-- The value with `value` at the path, where that succeeds. -/
def assigned (root : Json) (path : List Char) (value : Json) : Except PathError Json :=
  match root.assign path value with
  | (root, none) => .ok root
  | (_, some e) => .error e

/-! ### Changing what is there -/

/-- The value with `f` applied one step down. -/
def modifyChild? (step : Step) (f : Json → Option Json) : Json → Option Json
  | .object members => do
    let child ← Dict.find? step.asKey members
    let child ← f child
    return .object (Dict.insert step.asKey child members)
  | .array items => do
    let position ← step.asPosition?
    let child ← items[position]?
    let child ← f child
    return .array (items.set position child)
  | _ => none

/-- The value with `f` applied at the end of the steps. -/
def modifyAt? (f : Json → Option Json) : List Step → Json → Option Json
  | [], root => f root
  | step :: rest, root => root.modifyChild? step (modifyAt? f rest)

/-- The value with `value` in place of what is at the path. -/
def replace? (root : Json) (path : List Char) (value : Json) : Option Json :=
  if Path.isWildcard path then none
  else root.modifyAt? (fun _ => some value) (Path.steps path)

/-- The value without what is one step down. -/
def deleteChild (step : Step) : Json → Json
  | .object members => .object (Dict.erase step.asKey members)
  | .array items =>
    match step.asPosition? with
    | some position => .array (items.set position .null)
    | none => .array items
  | root => root

/-- The value without what is at the end of the steps, if their parents are there. -/
def deleteAt? : List Step → Json → Option Json
  | [], _ => none
  | [step], root => some (root.deleteChild step)
  | step :: rest, root => root.modifyChild? step (deleteAt? rest)

/-- The value without what is at the path. -/
def delete (root : Json) (path : List Char) : Json :=
  if Path.isWildcard path then root else (root.deleteAt? (Path.steps path)).getD root

end Json
end DeclaredApi
