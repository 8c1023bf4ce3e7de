import DeclaredApi.Text.Blank
import DeclaredApi.Toml.Document

/-!
# `DeclaredApi.Settings`: the settings of the command

Settings are a TOML document with four sections, all of which may be absent, as may every
key in them; keys they do not know are passed over. A section is a table, or an array of its
values in their order. `Settings.read?` gives the settings of a document, and
`Settings.normalize` fills what was left blank and refuses what cannot be used.
-/

set_option autoImplicit false

namespace DeclaredApi

/-- How log lines are written. -/
inductive LogFormat where
  | compact
  | json
deriving DecidableEq, Repr

def LogFormat.text : LogFormat → String
  | .compact => "compact"
  | .json => "json"

/-- The settings of the response cache. -/
structure CacheSettings where
  enabled : Bool := true
  /-- The directory of the store files. -/
  directory : String := "data/cache"
  /-- The name of the store file. -/
  namespaceName : String := "default"
deriving DecidableEq, Repr

/-- The settings of requests. -/
structure HttpSettings where
  timeoutSeconds : Nat := 30
  userAgent : String := "apishape/0.1.0"
deriving DecidableEq, Repr

/-- The settings of the command. -/
structure Settings where
  cache : CacheSettings := {}
  http : HttpSettings := {}
  /-- Unknown arguments are errors. -/
  strict : Bool := false
  logFormat : LogFormat := .compact
deriving DecidableEq, Repr

namespace Settings

open Toml (Value Entries)

/-! ### Reading -/

def bool? : Value → Option Bool
  | .bool b => some b
  | _ => none

def string? : Value → Option String
  | .string s => some s
  | _ => none

def natural? : Value → Option Nat
  | .integer n => if 0 ≤ n then some n.toNat else none
  | _ => none

/-- Whether a value is a container without contents. -/
def isEmptyContainer : Value → Bool
  | .array items => items.isEmpty
  | .table _ entries => entries.isEmpty
  | .tables elements => elements.isEmpty
  | _ => false

/-- The name of a format. It may also be the only key of a table, over an empty container. -/
def logFormat? : Value → Option LogFormat
  | .string name => ofName? name
  | .table _ [(name, value)] => if isEmptyContainer value then ofName? name else none
  | _ => none
where
  /-- The format of that name. -/
  ofName? (name : String) : Option LogFormat :=
    if name = "compact" then some .compact
    else if name = "json" then some .json
    else none

/-- The keys of a section with their values. A date has the shape of a section that knows
none of the keys. -/
def section? (keys : List String) : Value → Option Entries
  | .table _ entries => some entries
  | .array items => some (keys.zip items)
  | .tables elements => some (keys.zip (elements.map (Value.table .header)))
  | .date _ => some []
  | _ => none

/-- The value under a key, or `otherwise` when it is absent. -/
def orElse? {α : Type} (entries : Entries) (key : String) (otherwise : α)
    (decode : Value → Option α) : Option α :=
  match entries.lookup key with
  | none => some otherwise
  | some value => decode value

def cache? (value : Value) : Option CacheSettings := do
  let default : CacheSettings := {}
  let entries ← section? ["enabled", "dir", "namespace"] value
  let enabled ← orElse? entries "enabled" default.enabled bool?
  let directory ← orElse? entries "dir" default.directory string?
  let namespaceName ← orElse? entries "namespace" default.namespaceName string?
  return { enabled, directory, namespaceName }

def http? (value : Value) : Option HttpSettings := do
  let default : HttpSettings := {}
  let entries ← section? ["timeout_secs", "user_agent"] value
  let timeoutSeconds ← orElse? entries "timeout_secs" default.timeoutSeconds natural?
  let userAgent ← orElse? entries "user_agent" default.userAgent string?
  return { timeoutSeconds, userAgent }

def validation? (value : Value) : Option Bool := do
  let entries ← section? ["strict"] value
  orElse? entries "strict" false bool?

def logging? (value : Value) : Option LogFormat := do
  let entries ← section? ["format"] value
  orElse? entries "format" .compact logFormat?

/-- The settings of a document. -/
def read? (document : String) : Option Settings := do
  let entries ← Toml.read? document
  let cache ← orElse? entries "cache" {} cache?
  let http ← orElse? entries "http" {} http?
  let strict ← orElse? entries "validation" false validation?
  let logFormat ← orElse? entries "logging" .compact logging?
  return { cache, http, strict, logFormat }

/-! ### Normalizing -/

/-- Why settings cannot be used. -/
inductive Fault where
  | blankNamespace
  /-- The name of the store file would leave the directory. -/
  | namespaceNotPlain
  | noTimeout
deriving DecidableEq, Repr

def Fault.message : Fault → String
  | .blankNamespace => "cache.namespace must not be empty"
  | .namespaceNotPlain => "cache.namespace must be a plain file name"
  | .noTimeout => "http.timeout_secs must be a positive number of seconds"

/-- The directory of the store files: what the environment names counts first, and where
nothing is named the default. -/
def directory (settings : Settings) (override : Option String) : String :=
  let named := (override.filter (¬ Text.isBlankString ·)).getD settings.cache.directory
  if named.isEmpty then ({} : CacheSettings).directory else named

/-- Refuses a namespace that is no plain file name. -/
def checkNamespace (name : String) : Except Fault Unit :=
  let name := String.ofList (Text.trim name.toList)
  if name.isEmpty then .error .blankNamespace
  else if name.contains '/' || name.contains '\\' || name = "." || name = ".." then
    .error .namespaceNotPlain
  else .ok ()

/-- The settings with everything filled in, for the given directory of the environment. -/
def normalize (settings : Settings) (override : Option String) : Except Fault Settings := do
  checkNamespace settings.cache.namespaceName
  if settings.http.timeoutSeconds = 0 then throw .noTimeout
  let cache := { settings.cache with directory := settings.directory override }
  let userAgent :=
    if Text.isBlankString settings.http.userAgent then ({} : HttpSettings).userAgent
    else settings.http.userAgent
  return { settings with cache, http := { settings.http with userAgent } }

end Settings
end DeclaredApi
