import DeclaredApi.Client.Encode
import DeclaredApi.Command.Files
import DeclaredApi.Dotenv
import DeclaredApi.Http.Header
import DeclaredApi.Service.Check
import DeclaredApi.Settings

/-!
# `DeclaredApi.Command.Run`: the command

The command calls one operation, or one operation for each of a list of arguments. What to
call comes from environment variables, which a file `.env` may supply, and settings from a
TOML file. The result is printed as JSON; a call that fails prints its help and nothing
else. `run` is written over any file system, so it can be run in memory.
-/

set_option autoImplicit false

namespace DeclaredApi.Command

/-- What a command leaves: whether it succeeded, what it prints, and a hint. -/
structure Result where
  succeeded : Bool
  output : String := ""
  hint : String := ""

/-- A command that fails without a word. -/
def failed : Result := { succeeded := false }

/-! ### Variables -/

def configVariable : String := "APISHAPE_CONFIG"
def cacheDirectoryVariable : String := "APISHAPE_CACHE_DIR"
def serviceVariable : String := "APISHAPE_SERVICE"
def operationVariable : String := "APISHAPE_OPERATION"
def argumentsVariable : String := "APISHAPE_ARGS"
def noCacheVariable : String := "APISHAPE_NO_CACHE"
def failFastVariable : String := "APISHAPE_FAIL_FAST"

/-- The variables that the command reads. -/
def variableNames : List String :=
  [configVariable, cacheDirectoryVariable, serviceVariable, operationVariable,
    argumentsVariable, noCacheVariable, failFastVariable]

/-- The file that may supply variables. -/
def variablesFile : String := ".env"

/-- The settings file when no variable names one. -/
def defaultConfig : String := "apishape.toml"

/-- Whether a variable is set to a word for yes. -/
def isSet (environment : Dict String) (name : String) : Bool :=
  match Dict.find? name environment with
  | none => false
  | some value =>
    ["1", "true", "yes"].contains (Text.foldCase (String.ofList (Text.trim value.toList)))

/-! ### Arguments -/

/-- The arguments of one call. Null stands for none. -/
def argumentsOf? : Json → Option Arguments
  | .object members => some members
  | .null => some []
  | _ => none

/-! ### The steps of the command -/

section

variable {m : Type → Type} [Monad m] (files : Files m)

/-- The environment with the variables that the file supplies. -/
def environment (given : Dict String) : m (Dict String) := do
  match ← files.find variablesFile with
  | .file text => return Dotenv.extend given (Dotenv.assignments text)
  | _ => return given

/-- The settings, if they can be read and used. Without a settings file all is default. -/
def settings? (environment : Dict String) : m (Option Settings) := do
  let path := (Dict.find? configVariable environment).getD defaultConfig
  let settings ←
    match ← files.find path with
    | .absent => pure (some {})
    | .file text => pure (Settings.read? text)
    | .directory => pure none
  let override := Dict.find? cacheDirectoryVariable environment
  return settings.bind fun settings => (settings.normalize override).toOption

/-- The path of the store file. -/
def storePath (settings : CacheSettings) : String :=
  let directory := settings.directory
  (if directory.endsWith "/" then directory else directory ++ "/") ++
    settings.namespaceName ++ ".json"

/-- What stands at a path for a store file, if the directories above it are there or can be
made. -/
def storeFile? (path : String) : m (Option StoreFile) := do
  if ¬ (← files.makeAbove path) then return none
  match ← files.find path with
  | .absent => return some .absent
  | .file text => return some (.text text)
  | .directory => return some .blocked

/-- Writes what a cache holds to its path, if that differs from the store file before. -/
def keep (path : String) (before : StoreFile) (cache : Cache) : m Bool := do
  match cache.file with
  | .text content => if cache.file = before then return true else files.write path content
  | _ => return true

/-- A cache on the store file at a path, which is made if it is absent. -/
def openCache? (path : String) : m (Option Cache) := do
  let some before ← storeFile? files path | return none
  let .ok cache := Cache.ofFile before | return none
  if ¬ (← keep files path before cache) then return none
  return some cache

/-- A client for the settings. Its cache is in their directory, which is made if it is
absent. -/
def client? (settings : Settings) (server : Server) : m (Option Client) := do
  if ¬ settings.cache.enabled then return some { server }
  if ¬ (← files.makeDirectories settings.cache.directory) then return none
  let some cache ← openCache? files (storePath settings.cache) | return none
  return some { server, cache := some cache }

end

/-- What is to be called. -/
structure Invocation where
  service : Service
  /-- The name of an alias or operation. -/
  name : String
  arguments : Json
  options : CallOptions
  failFast : Bool

/-- The result of an invocation, and the client after it. A list of arguments is a batch. -/
def Invocation.run (wanted : Invocation) (now : Int64) (client : Client) : Result × Client :=
  match wanted.arguments with
  | .array items =>
    match items.mapM argumentsOf? with
    | none => (failed, client)
    | some inputs =>
      let (report, client) := client.batch .declared wanted.service now wanted.options
        wanted.name wanted.failFast inputs
      ({ succeeded := true, output := report.json.pretty ++ "\n" }, client)
  | arguments =>
    match argumentsOf? arguments with
    | none => (failed, client)
    | some arguments =>
      match client.call .declared wanted.service now wanted.options wanted.name arguments with
      | (.ok outcome, client) =>
        ({ succeeded := true, output := outcome.json.pretty ++ "\n" }, client)
      | (.error e, client) =>
        ({ failed with hint := (e.help?.map (· ++ "\n")).getD "" }, client)

section

variable {m : Type → Type} [Monad m] (files : Files m)

/-- What the environment asks for, if all of it can be read. -/
def invocation? (environment : Dict String) (settings : Settings) : m (Option Invocation) := do
  let some path := Dict.find? serviceVariable environment | return none
  let some name := Dict.find? operationVariable environment | return none
  let .file text ← files.find path | return none
  let .ok service := Service.load text | return none
  let some arguments :=
    Json.ofText? ((Dict.find? argumentsVariable environment).getD "\x7b\x7d") | return none
  let options : CallOptions :=
    { strict := settings.strict, noCache := isSet environment noCacheVariable }
  let failFast := isSet environment failFastVariable
  return some { service, name, arguments, options, failFast }

/-- Runs the command at the time `now` with the variables that are given. -/
def run (given : Dict String) (now : Int64) (server : Server) : m Result := do
  let environment ← environment files given
  let some settings ← settings? files environment | return failed
  let some wanted ← invocation? files environment settings | return failed
  if ¬ Http.isHeaderValue settings.http.userAgent then return failed
  let some client ← client? files settings server | return failed
  let (result, after) := wanted.run now client
  match client.cache, after.cache with
  | some before, some cache =>
    let _ ← keep files (storePath settings.cache) before.file cache
    return result
  | _, _ => return result

end

end DeclaredApi.Command
