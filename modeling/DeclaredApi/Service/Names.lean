import DeclaredApi.Service.Basic

/-!
# `DeclaredApi.Service.Names`: the words of a declaration

Methods, kinds and slots are written as fixed words. Each type has one table of its words,
which the reader of declarations looks names up in and `text` writes from. `find?_names`
lemmas say that reading a written word gives it back.
-/

set_option autoImplicit false

namespace DeclaredApi

namespace Slot

def text : Slot → String
  | .path => "path"
  | .query => "query"
  | .body => "body"
  | .header => "header"

/-- The words for the slots. -/
def names : List (String × Slot) :=
  [path, query, body, header].map fun slot => (slot.text, slot)

theorem find?_names (slot : Slot) : Dict.find? slot.text names = some slot := by
  cases slot <;> decide

end Slot

namespace ValueKind

def text : ValueKind → String
  | .string => "string"
  | .number => "number"
  | .integer => "integer"
  | .boolean => "boolean"
  | .array => "array"
  | .object => "object"

/-- All kinds of values. -/
def all : List ValueKind :=
  [.string, .number, .integer, .boolean, .array, .object]

/-- The words for the kinds of values. -/
def names : List (String × ValueKind) :=
  all.map fun kind => (kind.text, kind)

theorem find?_names (kind : ValueKind) : Dict.find? kind.text names = some kind := by
  cases kind <;> decide

end ValueKind

namespace Method

def text : Method → String
  | .get => "GET"
  | .post => "POST"
  | .put => "PUT"
  | .patch => "PATCH"
  | .delete => "DELETE"
  | .head => "HEAD"
  | .options => "OPTIONS"

/-- The words for the methods. -/
def names : List (String × Method) :=
  [get, post, put, patch, delete, head, options].map fun method => (method.text, method)

theorem find?_names (method : Method) : Dict.find? method.text names = some method := by
  cases method <;> decide

end Method

namespace GraphqlKind

def text : GraphqlKind → String
  | .query => "query"
  | .mutation => "mutation"

/-- The words for the kinds of GraphQL operations. -/
def names : List (String × GraphqlKind) :=
  [query, mutation].map fun kind => (kind.text, kind)

theorem find?_names (kind : GraphqlKind) : Dict.find? kind.text names = some kind := by
  cases kind <;> decide

end GraphqlKind

end DeclaredApi
