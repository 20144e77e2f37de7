import Elevation.FileSystem

/-! Changes to a file system. A change that the system would refuse leaves everything as it was. -/

namespace Elevation.FileSystem

def put (fs : FileSystem) (place : Place) (object : Object) : FileSystem :=
  { fs with objects := (place, object) :: fs.objects.filter (·.1 ≠ place) }

def erase (fs : FileSystem) (place : Place) : FileSystem :=
  { fs with objects := fs.objects.filter fun entry => !place.isPrefixOf entry.1 }

/-- Walks the components from a directory and makes the directories that are missing. -/
def enter (fs : FileSystem) : Place → List String → Option (FileSystem × Place)
  | here, [] => some (fs, here)
  | here, name :: rest =>
    if name = "" ∨ name = "." then enter fs here rest
    else if name = ".." then enter fs here.dropLast rest
    else
      match fs.object? (here ++ [name]) with
      | none => enter (fs.put (here ++ [name]) .directory) (here ++ [name]) rest
      | some .directory => enter fs (here ++ [name]) rest
      | some (.link _) =>
        match walk fs linkLimit here [name] with
        | .ok place => if fs.object? place = some .directory then enter fs place rest else none
        | .error _ => none
      | some _ => none

def start (fs : FileSystem) (path : String) : Place :=
  if Path.isAbsolute path then [] else fs.current

def makeDirectory (fs : FileSystem) (path : String) : FileSystem :=
  match fs.enter (fs.start path) (Path.components path) with
  | some (fs, _) => fs
  | none => fs

def parent (fs : FileSystem) (path : String) : Option (FileSystem × Place × String) :=
  match (Path.components path).reverse with
  | [] => none
  | name :: before =>
    (fs.enter (fs.start path) before.reverse).map fun (fs, place) => (fs, place, name)

/-- Writes a file at a name in a directory, through at most `links` symbolic links. -/
def writeAt (fs : FileSystem) (content : List UInt8) (mode : Nat) :
    (links : Nat) → Place → String → FileSystem
  | 0, _, _ => fs
  | links + 1, here, name =>
    match fs.object? (here ++ [name]) with
    | some (.link target) =>
      match (Path.components target).reverse with
      | [] => fs
      | last :: before =>
        match walk fs linkLimit (if Path.isAbsolute target then [] else here) before.reverse with
        | .ok place => writeAt fs content mode links place last
        | .error _ => fs
    | some .directory => fs
    | some .device => fs
    | _ => fs.put (here ++ [name]) (.file content mode)

def write (fs : FileSystem) (path : String) (content : List UInt8) (mode : Nat) : FileSystem :=
  match fs.parent path with
  | some (fs, place, name) => fs.writeAt content mode linkLimit place name
  | none => fs

def makeLink (fs : FileSystem) (path target : String) : FileSystem :=
  match fs.parent path with
  | some (fs, place, name) =>
    if (fs.object? (place ++ [name])).isSome then fs else fs.put (place ++ [name]) (.link target)
  | none => fs

def remove (fs : FileSystem) (path : String) : FileSystem :=
  match (Path.components path).reverse with
  | [] => fs
  | name :: before =>
    match walk fs linkLimit (fs.start path) before.reverse with
    | .ok place => fs.erase (place ++ [name])
    | .error _ => fs

def changeMode (fs : FileSystem) (path : String) (mode : Nat) : FileSystem :=
  match fs.resolve path with
  | .ok place =>
    match fs.object? place with
    | some (.file content _) => fs.put place (.file content mode)
    | _ => fs
  | .error _ => fs

def names (fs : FileSystem) (path : String) : Except Errno (List String) := do
  let place ← fs.resolve path
  if fs.object? place = some .directory then
    .ok (fs.objects.filterMap fun entry =>
      if entry.1.dropLast = place then entry.1.getLast? else none)
  else .error .notDirectory

end Elevation.FileSystem
