import ReactiveView.OrderedMap
import ReactiveView.Text.Blank

/-!
# Volumes

The files that templates, configurations and artifacts are read from and written to. A volume says
what stands at a location, which is the list of names that lead to it; a path is a text that is
followed name by name, through directories that have to be there. All that matters about a file is
its text, and whether it has one.
-/

namespace ReactiveView

/-- The names that lead to a file or directory, outermost first. The first name of an absolute
location is a slash. -/
abbrev Location := List String

/-- What stands at a location. -/
inductive Entry where
  /-- A directory. -/
  | directory
  /-- A file, with its text unless its bytes are none. -/
  | file (text? : Option String)
deriving DecidableEq

/-- Why a path could not be used. -/
inductive FileError where
  /-- Nothing stands there. -/
  | notFound
  /-- Something stands in the way, or what stands there is of the wrong kind. -/
  | refused
deriving DecidableEq, Repr

/-- Files and directories. -/
structure Volume where
  /-- What stands at each location. -/
  entries : OrderedMap Location Entry := .empty

/-- Append a relative path to a path; an absolute path replaces it. -/
def joinPath (base path : String) : String :=
  match path.toList with
  | '/' :: _ => path
  | _ =>
    match base.toList.getLast? with
    | none => path
    | some '/' => base ++ path
    | some _ => base ++ "/" ++ path

/-- Whether a path is absolute. -/
def isAbsolutePath (path : String) : Bool := path.toList.head? == some '/'

namespace Volume

/-- The longest name of a file or directory, in bytes. -/
def nameLimit : Nat := 255

/-- The volume without files. -/
def empty : Volume := {}

instance : Inhabited Volume := ⟨empty⟩

/-- Whether a location is that of an outermost directory, which is always there. -/
def isOutermost (location : Location) : Bool := location = [] || location = ["/"]

/-- What stands at a location. -/
def entry? (v : Volume) (location : Location) : Option Entry :=
  if isOutermost location then some .directory else v.entries.get? location

/-- The location that names lead to from a location. Each name is looked up in a directory. -/
def follow (v : Volume) (location : Location) : List String → Except FileError Location
  | [] => .ok location
  | name :: names =>
    match v.entry? location with
    | none => .error .notFound
    | some (.file _) => .error .refused
    | some .directory =>
      if name = "" ∨ name = "." then v.follow location names
      else if name = ".." then v.follow location.dropLast names
      else if nameLimit < name.utf8ByteSize ∨ name.contains '\x00' then .error .refused
      else v.follow (location ++ [name]) names

/-- The location at which a path begins, and the names in it. -/
def pathNames (path : String) : Location × List String :=
  let names := (Text.splitBy (· == '/') path.toList).map String.ofList
  if isAbsolutePath path then (["/"], names) else ([], names)

/-- The location of a path. -/
def locate (v : Volume) (path : String) : Except FileError Location :=
  let (start, names) := pathNames path
  v.follow start names

/-- Whether a path leads to a file. -/
def isFile (v : Volume) (path : String) : Bool :=
  match v.locate path with
  | .ok location =>
    match v.entry? location with
    | some (.file _) => true
    | _ => false
  | .error _ => false

/-- The text of a file. -/
def readText (v : Volume) (path : String) : Except FileError String := do
  match v.entry? (← v.locate path) with
  | some (.file (some text)) => return text
  | some _ => throw .refused
  | none => throw .notFound

/-- Make a directory at a location, unless there is one. -/
def makeDirectoryAt (v : Volume) (location : Location) : Except FileError Volume :=
  match v.entry? location with
  | some .directory => .ok v
  | some (.file _) => .error .refused
  | none => .ok ⟨v.entries.insert location .directory⟩

/-- Follow names from a location, and make the directories that are missing on the way and at its
end. -/
def makeWay (v : Volume) (location : Location) : List String → Except FileError (Location × Volume)
  | [] => do
    let v ← v.makeDirectoryAt location
    return (location, v)
  | name :: names => do
    let v ← v.makeDirectoryAt location
    v.makeWay (← v.follow location [name]) names

/-- Make a directory and all that it stands in. -/
def makeDirectory (v : Volume) (path : String) : Except FileError Volume := do
  let (start, names) := pathNames path
  let (_, v) ← v.makeWay start names
  return v

/-- Write a file in a directory. -/
def writeAt (v : Volume) (location : Location) (text? : Option String) :
    Except FileError Volume :=
  match v.entry? location with
  | some .directory => .error .refused
  | _ => .ok ⟨v.entries.insert location (.file text?)⟩

/-- Write a file, and make the directories that it stands in. -/
def write (v : Volume) (path : String) (text? : Option String) : Except FileError Volume := do
  let (start, names) := pathNames path
  let (location, v) ← v.makeWay start names.dropLast
  v.writeAt (← v.follow location (names.drop (names.length - 1))) text?

/-- Remove a file. -/
def removeFile (v : Volume) (path : String) : Except FileError Volume := do
  let location ← v.locate path
  match v.entry? location with
  | some (.file _) => return ⟨v.entries.erase location⟩
  | some .directory => throw .refused
  | none => throw .notFound

/-- Remove a directory with all that stands in it. -/
def removeDirectory (v : Volume) (path : String) : Except FileError Volume := do
  let location ← v.locate path
  match v.entry? location with
  | some .directory => return ⟨v.entries.filter fun at_ _ => !location.isPrefixOf at_⟩
  | some (.file _) => throw .refused
  | none => throw .notFound

/-- The text of a location. -/
def pathOf (location : Location) : String :=
  match location with
  | "/" :: names => "/" ++ "/".intercalate names
  | names => "/".intercalate names

/-- The paths of the files in a directory and in the directories in it, in the order of their
texts. -/
def files (v : Volume) (directory : Location) : List String :=
  let found := v.entries.entries.filterMap fun (location, entry) =>
    match entry with
    | .file _ => if directory.isPrefixOf location then some (pathOf location) else none
    | .directory => none
  found.mergeSort fun a b => a ≤ b

end Volume
end ReactiveView
