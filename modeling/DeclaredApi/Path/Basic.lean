import DeclaredApi.Text.Cut

/-!
# `DeclaredApi.Path.Basic`: field paths

A field path names a place in a JSON value. Its parts stand between dots, empty parts count
for nothing, and a part may end in positions in brackets: `user.address.city`,
`items[0].name`, `grid[1][2]`. `steps` reads such a text. A part whose bracket ending is not
made of positions is a key as it stands, bracket and all.

The marker `[*]` stands for every element of an array. `splitWildcard?` cuts a path at the
first marker that a dot follows, or else at a marker that ends the path. A `Route` is a path
cut at all its markers.
-/

set_option autoImplicit false

namespace DeclaredApi.Path

open Text

/-! ### Steps -/

/-- A step down into an object or an array. -/
inductive Step where
  | key (name : String)
  | index (position : Nat)
deriving DecidableEq, Repr

/-- The position a text names: decimal digits after an optional plus sign, in 64 bits. -/
def position? (text : List Char) : Option Nat :=
  let digits :=
    match text with
    | '+' :: rest => rest
    | text => text
  let value := Nat.ofDigitChars 10 digits 0
  if digits ≠ [] ∧ digits.all Char.isDigit ∧ value < 18446744073709551616 then some value else none

namespace Step

/-- The step into an object: a position is the key with its decimal digits. -/
def asKey : Step → String
  | .key name => name
  | .index position => String.ofList (Nat.toDigits 10 position)

/-- The step into an array: a key that reads as a position is one. -/
def asPosition? : Step → Option Nat
  | .key name => position? name.toList
  | .index position => some position

end Step

/-- The positions of a bracket ending: `[0][12]` gives 0 and 12. -/
def positions? : List Char → Option (List Nat)
  | [] => some []
  | '[' :: rest =>
    match h : cut? [']'] rest with
    | none => none
    | some (inner, after) => do
      let position ← position? inner
      have : after.length < rest.length + 1 :=
        Nat.lt_succ_of_lt (length_lt_of_cut? (List.cons_ne_nil _ _) h)
      let more ← positions? after
      return position :: more
  | _ => none
termination_by text => text.length

/-- The steps of one part of a path. -/
def partSteps (part : List Char) : List Step :=
  let name := part.takeWhile (· != '[')
  match positions? (part.dropWhile (· != '[')) with
  | none => [.key (String.ofList part)]
  | some positions =>
    (if name.isEmpty then [] else [.key (String.ofList name)]) ++ positions.map .index

/-- The steps of a path. -/
def steps (path : List Char) : List Step :=
  ((path.splitOn '.').filter (¬ ·.isEmpty)).flatMap partSteps

/-! ### Wildcards -/

/-- The marker for every element of an array. -/
def wildcard : List Char := ['[', '*', ']']

/-- The marker with the dot that the rest of a path follows. -/
def wildcardDot : List Char := ['[', '*', ']', '.']

/-- Whether the marker occurs anywhere in the path. -/
def isWildcard (path : List Char) : Bool :=
  holds wildcard path

/-- The path before its first marker and the path after it, of which a marker at the very
end has none. -/
def splitWildcard? (path : List Char) : Option (List Char × Option (List Char)) :=
  match cut? wildcardDot path with
  | some (head, tail) => some (head, some tail)
  | none => (dropEnding? wildcard path).map fun head => (head, none)

/-- The path without a marker and a dot at its start. -/
def stripWildcard? (path : List Char) : Option (List Char) :=
  wildcardDot.isPrefixOf? path

/-- The way a path leads. -/
inductive Route where
  /-- To one place. -/
  | place (steps : List Step)
  /-- To an array, and from each of its elements on. -/
  | each (steps : List Step) (rest : Route)
deriving Repr

/-- The way the path leads. -/
def route (path : List Char) : Route :=
  match h : cut? wildcardDot path with
  | some (head, tail) =>
    have : tail.length < path.length := length_lt_of_cut? (List.cons_ne_nil _ _) h
    .each (steps head) (route tail)
  | none =>
    match dropEnding? wildcard path with
    | some head => .each (steps head) (.place [])
    | none => .place (steps path)
termination_by path.length

end DeclaredApi.Path
