import DeclaredApi.Json.Token

/-!
# `DeclaredApi.Json.Document`: a JSON text as a tree

A `Document` is the syntax tree of a JSON text: members keep their order and may repeat a
name, and a string or number may be one that has no value. Configurations are read from
documents because the order and the repetitions of their rename rules matter, and because a
member that nobody reads may be of any depth and hold anything.

`Document.read?` builds the tree from the tokens with a stack of open containers, one token
at a time, so every container closes where its own bracket stands and the recursion is on
the tokens. `Document.render` writes the tokens of a tree without blanks, and
`Document.pretty` one member a line.
-/

set_option autoImplicit false

namespace DeclaredApi.Json

/-- The syntax tree of a JSON text. -/
inductive Document where
  | null
  | bool (value : Bool)
  /-- A number; `none` when it is too large for any. -/
  | number (value : Option Number)
  /-- A string; `none` when it holds an unpaired surrogate. -/
  | string (value : Option String)
  | array (items : List Document)
  /-- Members in the order of the text. A name is `none` like a string. -/
  | object (members : List (Option String × Document))
deriving Repr

namespace Document

/-- A member with the given name. -/
abbrev Member := Option String × Document

/-- A string with a value. -/
def ofString (s : String) : Document :=
  .string (some s)

/-- An object with the given members. -/
def ofMembers (members : List (String × Document)) : Document :=
  .object (members.map fun (name, value) => (some name, value))

/-! ### From tokens -/

/-- A container that is still open, with what it holds so far, the latest first. -/
inductive Frame where
  | array (items : List Document)
  /-- An object that waits for the value of its latest name. -/
  | object (members : List Member) (name : Option String)
deriving Repr

/-- What may come next in a text. -/
inductive State where
  /-- A value. -/
  | value (stack : List Frame)
  /-- The first item of an array, or its end. -/
  | firstItem (stack : List Frame)
  /-- A comma or the end of an array. -/
  | afterItem (items : List Document) (stack : List Frame)
  /-- The first name of an object, or its end. -/
  | firstName (stack : List Frame)
  /-- A further name of an object. -/
  | name (members : List Member) (stack : List Frame)
  /-- The colon after a name. -/
  | colon (members : List Member) (name : Option String) (stack : List Frame)
  /-- A comma or the end of an object. -/
  | afterMember (members : List Member) (stack : List Frame)
  /-- Nothing: the text is complete. -/
  | complete (value : Document)
deriving Repr

/-- The state after a value: it goes into the container that waits for it. -/
def settle (value : Document) : List Frame → State
  | [] => .complete value
  | .array items :: stack => .afterItem (value :: items) stack
  | .object members name :: stack => .afterMember ((name, value) :: members) stack

/-- The state after the first token of a value. -/
def begin? (stack : List Frame) : Token → Option State
  | .null => some (settle .null stack)
  | .bool b => some (settle (.bool b) stack)
  | .number n => some (settle (.number n) stack)
  | .string s => some (settle (.string s) stack)
  | .openArray => some (.firstItem stack)
  | .openObject => some (.firstName stack)
  | _ => none

/-- The state after one more token, unless the token may not come here. -/
def step? : State → Token → Option State
  | .value stack, token => begin? stack token
  | .firstItem stack, .closeArray => some (settle (.array []) stack)
  | .firstItem stack, token => begin? (.array [] :: stack) token
  | .afterItem items stack, .comma => some (.value (.array items :: stack))
  | .afterItem items stack, .closeArray => some (settle (.array items.reverse) stack)
  | .firstName stack, .closeObject => some (settle (.object []) stack)
  | .firstName stack, .string s => some (.colon [] s stack)
  | .name members stack, .string s => some (.colon members s stack)
  | .colon members name stack, .colon => some (.value (.object members name :: stack))
  | .afterMember members stack, .comma => some (.name members stack)
  | .afterMember members stack, .closeObject => some (settle (.object members.reverse) stack)
  | _, _ => none

/-- The state after a whole text, read from `state`. Each round takes the blanks before a
token and the token itself, and `fuel` bounds the rounds. -/
def run? : Nat → State → List Char → Option State
  | 0, state, text => if text.isEmpty then some state else none
  | fuel + 1, state, text =>
    match text.dropWhile isGap with
    | [] => some state
    | text => do
      let (token, rest) ← scanToken? text
      run? fuel (← step? state token) rest

/-- The tree of a JSON text. A text holds no more tokens than characters. -/
def read? (text : List Char) : Option Document :=
  match run? text.length (.value []) text with
  | some (.complete value) => some value
  | _ => none

/-! ### To tokens -/

mutual

/-- The tokens of a tree. -/
def tokens : Document → List Token
  | .null => [.null]
  | .bool b => [.bool b]
  | .number n => [.number n]
  | .string s => [.string s]
  | .array items => .openArray :: itemTokens items ++ [.closeArray]
  | .object members => .openObject :: memberTokens members ++ [.closeObject]

/-- The tokens of the items of an array, with commas between them. -/
def itemTokens : List Document → List Token
  | [] => []
  | [item] => item.tokens
  | item :: rest => item.tokens ++ .comma :: itemTokens rest

/-- The tokens of the members of an object, with commas between them. -/
def memberTokens : List Member → List Token
  | [] => []
  | [(name, value)] => .string name :: .colon :: value.tokens
  | (name, value) :: rest =>
    .string name :: .colon :: value.tokens ++ .comma :: memberTokens rest

end

/-- The text of a tree, without blanks. -/
def render (d : Document) : String :=
  String.ofList (d.tokens.flatMap Token.text)

/-! ### One member a line -/

/-- A line end and the blanks before a line at the given level, two a level. -/
def lineStart (level : Nat) : List Char :=
  '\n' :: List.replicate (2 * level) ' '

mutual

/-- The text of a tree with one item or member a line, at a level of indentation. An empty
container stays on its line. -/
def prettyAt (level : Nat) : Document → List Char
  | .array [] => ['[', ']']
  | .array items => '[' :: prettyItems (level + 1) items ++ lineStart level ++ [']']
  | .object [] => ['{', '}']
  | .object members => '{' :: prettyMembers (level + 1) members ++ lineStart level ++ ['}']
  | leaf => leaf.tokens.flatMap Token.text

/-- The items of an array, each on a line of its own. -/
def prettyItems (level : Nat) : List Document → List Char
  | [] => []
  | [item] => lineStart level ++ item.prettyAt level
  | item :: rest => lineStart level ++ item.prettyAt level ++ ',' :: prettyItems level rest

/-- The members of an object, each on a line of its own. -/
def prettyMembers (level : Nat) : List Member → List Char
  | [] => []
  | [(name, value)] =>
    lineStart level ++ Token.text (.string name) ++ [':', ' '] ++ value.prettyAt level
  | (name, value) :: rest =>
    lineStart level ++ Token.text (.string name) ++ [':', ' '] ++ value.prettyAt level ++
      ',' :: prettyMembers level rest

end

/-- The text of a tree with one item or member a line. -/
def pretty (d : Document) : String :=
  String.ofList (d.prettyAt 0)

end Document
end DeclaredApi.Json
