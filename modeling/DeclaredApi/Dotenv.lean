import DeclaredApi.Dict
import DeclaredApi.Text.Alphanumeric
import DeclaredApi.Text.Blank

/-!
# `DeclaredApi.Dotenv`: variables from a file

A file of variables has an assignment `NAME=value` on each line. A quoted value may go over
several lines, and what follows a blank and a `#` is a comment. Values in double quotes or
without quotes may name other variables. `assignments` reads the text up to its first broken
line, and `extend` adds the variables that an environment does not have yet.
-/

set_option autoImplicit false

namespace DeclaredApi.Dotenv

open Text

/-- A piece of a value: text, or a variable that is put in its place. -/
inductive Piece where
  | text (content : List Char)
  | variable (name : String)
deriving DecidableEq, Repr

/-- A variable with the pieces of its value. An empty value is none. -/
structure Assignment where
  name : String
  value : Option (List Piece)
deriving DecidableEq, Repr

/-! ### Lines -/

/-- Where the text so far ends, as far as the end of a line is concerned. -/
inductive Position where
  | plain
  /-- After a blank, where a comment may start. -/
  | blank
  | escape
  | single
  | singleEscape
  | double
  | doubleEscape
  /-- In a comment. -/
  | comment
deriving DecidableEq, Repr

/-- The position after a character outside quotes. -/
def Position.outside (c : Char) (otherwise : Position) : Position :=
  if c = '\\' then .escape
  else if c = '"' then .double
  else if c = '\'' then .single
  else otherwise

/-- The position after one more character. -/
def Position.next (c : Char) : Position → Position
  | .plain =>
    if isBlank c && c != '\n' && c != '\r' then .blank else .outside c .plain
  | .blank => if c = '#' then .comment else .outside c .plain
  | .escape => .plain
  | .single => if c = '\\' then .singleEscape else if c = '\'' then .plain else .single
  | .singleEscape => .single
  | .double => if c = '\\' then .doubleEscape else if c = '"' then .plain else .double
  | .doubleEscape => .double
  | .comment => .comment

/-- The text up to a comment, and the position after it. -/
def scanLine : Position → List Char → List Char × Position
  | position, [] => ([], position)
  | position, c :: rest =>
    match position.next c with
    | .comment => ([], .comment)
    | position =>
      let (text, position) := scanLine position rest
      (c :: text, position)

/-- The lines of a text, each with its line end. -/
def physicalLines : List Char → List (List Char)
  | [] => []
  | c :: rest =>
    if c = '\n' then [c] :: physicalLines rest
    else
      match physicalLines rest with
      | [] => [[c]]
      | line :: lines => (c :: line) :: lines

/-- A line without its line end. -/
def dropLineEnd (line : List Char) : List Char :=
  match line.reverse with
  | '\n' :: '\r' :: rest => rest.reverse
  | '\n' :: rest => rest.reverse
  | _ => line

/-- The lines of assignments, joined where quotes are open; `none` stands for a text that
ends before its line does. A line that starts with `#` is empty. -/
def logicalLines (before : List Char) (position : Position) :
    List (List Char) → List (Option (List Char))
  | [] => if position = .plain then [] else [none]
  | line :: rest =>
    let all := before ++ line
    if (trimStart all).head? = some '#' then some [] :: logicalLines [] .plain rest
    else
      match scanLine position line with
      | (text, .comment) => some (before ++ text) :: logicalLines [] .plain rest
      | (_, .plain) => some (dropLineEnd all) :: logicalLines [] .plain rest
      | (_, position) => logicalLines all position rest

/-! ### Values -/

/-- How far the name of a variable has been read. -/
inductive Naming where
  /-- No name is being read. -/
  | none
  /-- After `$`, with the letters and digits so far, the latest first. -/
  | open (name : List Char)
  /-- After `$` and a brace. -/
  | braced (name : List Char)
deriving DecidableEq, Repr

/-- Which quotes are open. -/
inductive Quote where
  | none
  | single
  | double
deriving DecidableEq, Repr

/-- What has been read of a value: its pieces, the latest first, and what is open. -/
structure Progress where
  pieces : List Piece := []
  quote : Quote := .none
  naming : Naming := .none
  escaped : Bool := false
  /-- After a blank outside quotes, where only blanks and a comment may follow. -/
  ended : Bool := false
  /-- In the comment after the value. -/
  comment : Bool := false

namespace Progress

def push (p : Progress) (c : Char) : Progress :=
  { p with pieces := .text [c] :: p.pieces }

/-- The variable of that name, with the latest letter first, is put here. -/
def substitute (p : Progress) (name : List Char) : Progress :=
  { p with pieces := .variable (String.ofList name.reverse) :: p.pieces, naming := .none }

/-- The progress after a character of the name of a variable. Without braces a name is made of
letters and digits of any script. -/
def nextInName (p : Progress) (c : Char) : Progress :=
  match p.naming with
  | .none => p
  | .open name =>
    if isAlphanumeric c then { p with naming := .open (c :: name) }
    else if c = '\x7b' ∧ name = [] then { p with naming := .braced [] }
    else if c = '$' then { p.substitute name with naming := .open [] }
    else (p.substitute name).push c
  | .braced name =>
    if c = '\x7d' then p.substitute name else { p with naming := .braced (c :: name) }

/-- The progress after a character outside of names and single quotes. -/
def nextPlain (p : Progress) (c : Char) : Progress :=
  if c = '$' then { p with naming := .open [] }
  else if c = '\\' then { p with escaped := true }
  else if p.quote = .double then
    if c = '"' then { p with quote := .none } else p.push c
  else if c = '\'' then { p with quote := .single }
  else if c = '"' then { p with quote := .double }
  else if c = ' ' ∨ c = '\t' then { p with ended := true }
  else p.push c

/-- The progress after one more character, unless the character may not come here. -/
def next? (p : Progress) (c : Char) : Option Progress :=
  if p.comment then some p
  else if p.ended then
    if c = ' ' ∨ c = '\t' then some p
    else if c = '#' then some { p with comment := true }
    else none
  else if p.escaped then
    let p := { p with escaped := false }
    if c = '\\' ∨ c = '\'' ∨ c = '"' ∨ c = '$' ∨ c = ' ' then some (p.push c)
    else if c = 'n' then some (p.push '\n')
    else none
  else if p.quote = .single then
    some (if c = '\'' then { p with quote := .none } else p.push c)
  else if p.naming ≠ .none then some (p.nextInName c)
  else some (p.nextPlain c)

/-- The pieces of a complete value. Quotes and braces must be closed. -/
def finish? (p : Progress) : Option (List Piece) :=
  match p.quote, p.naming with
  | .none, .none => some p.pieces.reverse
  | .none, .open name => some (p.substitute name).pieces.reverse
  | _, _ => none

end Progress

/-- The pieces of a value. -/
def value? (text : List Char) : Option (List Piece) :=
  text.foldlM Progress.next? {} >>= Progress.finish?

/-! ### Assignments -/

/-- The name that a text starts with, and the rest after blanks. -/
def name? (text : List Char) : Option (String × List Char) :=
  let isNameChar (c : Char) : Bool := c.isAlphanum || c == '_' || c == '.'
  match text with
  | c :: _ =>
    if c.isAlpha || c == '_' then
      some (String.ofList (text.takeWhile isNameChar), trimStart (text.dropWhile isNameChar))
    else none
  | [] => none

/-- The name before an equals sign, and the text after it. The word `export` may come before
the name. -/
def target? (text : List Char) : Option (String × List Char) := do
  match ← name? text with
  | (name, '=' :: rest) => return (name, rest)
  | ("export", rest) =>
    match ← name? rest with
    | (name, '=' :: rest) => return (name, rest)
    | _ => none
  | _ => none

/-- The assignment of a line, if it is not empty. The outer `none` stands for a broken line. -/
def assignment? (line : List Char) : Option (Option Assignment) :=
  match trim line with
  | [] => some none
  | '#' :: _ => some none
  | text => do
    let (name, rest) ← target? text
    match trimStart rest with
    | [] => return some { name, value := none }
    | '#' :: _ => return some { name, value := none }
    | rest => return some { name, value := some (← value? rest) }

/-- The assignments of lines, up to the first broken one. -/
def ofLines : List (Option (List Char)) → List Assignment
  | [] => []
  | line :: rest =>
    match line.bind assignment? with
    | none => []
    | some none => ofLines rest
    | some (some a) => a :: ofLines rest

/-- The assignments of a text, without a byte order mark before it. -/
def assignments (text : String) : List Assignment :=
  let text :=
    match text.toList with
    | '\uFEFF' :: rest => rest
    | text => text
  ofLines (logicalLines [] .plain (physicalLines text))

/-- The names that the assignments set or put into values. -/
def names (list : List Assignment) : List String :=
  list.flatMap fun a => a.name :: (a.value.getD []).filterMap fun
    | .variable name => some name
    | .text _ => none

/-! ### Environments -/

/-- The text of a piece: a variable counts as it is in the environment, else as it was
assigned before, else it is empty. -/
def Piece.content (environment assigned : Dict String) : Piece → String
  | .text content => String.ofList content
  | .variable name =>
    (Dict.find? name environment <|> Dict.find? name assigned).getD ""

/-- An environment, and what has been assigned so far. -/
structure Scope where
  environment : Dict String
  assigned : Dict String := []

/-- The scope after an assignment. A variable that the environment has keeps its value. -/
def Scope.assign (scope : Scope) (a : Assignment) : Scope :=
  let value :=
    String.join ((a.value.getD []).map (Piece.content scope.environment scope.assigned))
  { environment :=
      if Dict.has a.name scope.environment then scope.environment
      else Dict.insert a.name value scope.environment
    assigned := Dict.insert a.name value scope.assigned }

/-- The environment with the variables of the assignments that it does not have. -/
def extend (environment : Dict String) (list : List Assignment) : Dict String :=
  (list.foldl Scope.assign { environment }).environment

end DeclaredApi.Dotenv
