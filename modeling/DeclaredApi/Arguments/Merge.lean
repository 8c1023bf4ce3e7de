import DeclaredApi.Json.Basic

/-!
# `DeclaredApi.Arguments.Merge`: laying arguments over defaults

An argument takes the place of a default with its name. Where both are objects their members
are merged instead, and among those the argument's count. Nothing deeper is merged.
-/

set_option autoImplicit false

namespace DeclaredApi

/-- The arguments of a call, by name. -/
abbrev Arguments := Dict Json

namespace Arguments

/-- An argument laid over the default with its name. -/
def mergeValue (default? : Option Json) (value : Json) : Json :=
  match default?, value with
  | some (.object base), .object top => .object (Dict.overlay base top)
  | _, value => value

/-- The arguments laid over the defaults. -/
def merge (defaults arguments : Arguments) : Arguments :=
  arguments.foldl (fun merged (name, value) =>
    Dict.insert name (mergeValue (Dict.find? name merged) value) merged) defaults

end Arguments
end DeclaredApi
