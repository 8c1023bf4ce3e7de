import DeclaredApi.Dict

/-!
# `DeclaredApi.Command.Files`: the files a command works on

A command looks paths up, makes directories and writes files. `Files` is what it needs of a
file system, in any monad, and `Workspace` is a directory tree in memory that serves as one.
Paths start at one of its directories, or at its top if they begin with a slash. A path and
the names in it have a greatest length, and nothing stands at a path that is too long.
-/

set_option autoImplicit false

namespace DeclaredApi

/-- What stands at a path. -/
inductive Found where
  | absent
  | file (text : String)
  | directory
deriving DecidableEq, Repr

/-- The operations on files. Those that change something answer whether they succeeded. -/
structure Files (m : Type → Type) where
  find : String → m Found
  /-- Makes a directory in one that is there; it is no failure if it is there itself. -/
  makeDirectory : String → m Bool
  write : String → String → m Bool

namespace Files

/-! ### Paths -/

/-- The most bytes of a path. -/
def longestPath : Nat := 4095

/-- The most bytes of a name. -/
def longestName : Nat := 255

/-- Whether a text can be a path. -/
def isPath (path : String) : Bool :=
  ¬ path.isEmpty && ¬ path.contains '\x00' && path.utf8ByteSize ≤ longestPath

/-- The names of a path. Empty names stand for nothing. -/
def names (path : String) : List String :=
  ((path.toList.splitOn '/').map String.ofList).filter (¬ ·.isEmpty)

/-- The paths of the directories above the last name of a path, the highest first. Single
dots are no names here, so what is above `a/b/.` is `a`. -/
def above (path : String) : List String :=
  let names := (names path).filter (· ≠ ".")
  let top := if path.startsWith "/" then "/" else ""
  (List.range (names.length - 1)).map fun n =>
    top ++ String.intercalate "/" (names.take (n + 1))

/-! ### Directories with those above them -/

section

variable {m : Type → Type} [Monad m] (files : Files m)

/-- Makes the directories above the last name of a path, up to the first that fails. -/
def makeAbove (path : String) : m Bool :=
  (above path).allM files.makeDirectory

/-- Makes a directory and those above it. As a path with a single dot at its end names
nothing new, `a/b/.` fails after `a` is made, unless `a/b` is there already. -/
def makeDirectories (path : String) : m Bool := do
  if ¬ isPath path then return false
  if ¬ (← files.makeAbove path) then return false
  files.makeDirectory path

end

end Files

/-- A directory tree: files and directories by their paths. The top of the tree is not
listed. -/
structure Workspace where
  entries : Dict Found

namespace Workspace

/-! ### Looking up -/

/-- The names on the way to the directory where the command runs, the last one first. -/
def home : List String := ["home"]

/-- Where a path starts: at the top if it begins with a slash, else at home. -/
def start (path : String) : List String :=
  if path.startsWith "/" then [] else home

/-- The path of names, the last one first. -/
def pathOf (reversed : List String) : String :=
  String.intercalate "/" reversed.reverse

/-- What stands at the names, the last one first. -/
def at? (w : Workspace) (reversed : List String) : Found :=
  if reversed.isEmpty then .directory else (Dict.find? (pathOf reversed) w.entries).getD .absent

/-- Where names lead from a directory, as names with the last one first. Every name but the
last must be a directory. A single dot leads nowhere else, and two dots lead to the directory
above, at the top nowhere else. -/
def walk? (w : Workspace) : List String → List String → Option (List String)
  | reversed, [] => some reversed
  | reversed, name :: rest =>
    if w.at? reversed ≠ .directory then none
    else if name = "." then walk? w reversed rest
    else if name = ".." then walk? w reversed.tail rest
    else walk? w (name :: reversed) rest

/-- What stands at a path. A path that ends in a slash can only name a directory. -/
def find (w : Workspace) (path : String) : Found :=
  if ¬ Files.isPath path then .absent
  else
    match w.walk? (start path) (Files.names path) with
    | none => .absent
    | some reversed =>
      match w.at? reversed with
      | .file text => if path.endsWith "/" then .absent else .file text
      | found => found

/-- The place that a path names for something new, as names with the last one first. Its last
name must be one that can be given, in a directory that is there. -/
def place? (w : Workspace) (path : String) : Option (List String) :=
  if ¬ Files.isPath path then none
  else
    match (Files.names path).reverse with
    | [] => none
    | name :: above =>
      if name = "." ∨ name = ".." ∨ Files.longestName < name.utf8ByteSize then none
      else
        match w.walk? (start path) above.reverse with
        | none => none
        | some reversed =>
          if w.at? reversed = .directory then some (name :: reversed) else none

/-! ### Changing -/

/-- The workspace with something at a place. -/
def put (place : List String) (found : Found) (w : Workspace) : Workspace :=
  { entries := Dict.insert (pathOf place) found w.entries }

/-- The workspace with a directory made in one that is there, and whether it is there now. -/
def makeDirectory (path : String) (w : Workspace) : Bool × Workspace :=
  if w.find path = .directory then (true, w)
  else
    match w.place? path with
    | none => (false, w)
    | some place => if w.at? place = .absent then (true, w.put place .directory) else (false, w)

/-- The workspace with a file written, and whether it could be. -/
def write (path text : String) (w : Workspace) : Bool × Workspace :=
  match w.place? path with
  | none => (false, w)
  | some place =>
    if path.endsWith "/" ∨ w.at? place = .directory then (false, w)
    else (true, w.put place (.file text))

/-- The workspace as a file system. -/
def files : Files (StateM Workspace) where
  find path := do return (← get).find path
  makeDirectory path := modifyGet (makeDirectory path)
  write path text := modifyGet (write path text)

/-- A workspace with nothing in it but its home. -/
def empty : Workspace := ⟨[(pathOf home, .directory)]⟩

/-- A workspace with the given files and the directories they are in. -/
def ofFiles (list : List (String × String)) : Workspace :=
  list.foldl (fun w (path, text) =>
    let (_, w) := (files.makeAbove path).run w
    (write path text w).2) empty

/-- The paths at home in order; those of directories end in a slash. -/
def paths (w : Workspace) : List String :=
  let start := pathOf home ++ "/"
  let listed := w.entries.filterMap fun (path, found) =>
    (path.dropPrefix? start).map fun path =>
      (if found = .directory then path.toString ++ "/" else path.toString, ())
  Dict.keys (Dict.ofList listed)

end Workspace
end DeclaredApi
