/-! Paths and the objects that they name. Joining paths is lexical: doubled slashes, dots and parent
steps are worked out without looking at any file. In a file system every object has one place, the
names on the way to it from the root; there are no hard links. A path is resolved as the system does
it, component by component, following symbolic links, with a parent step leaving the directory that
was reached and not the text before it. All files belong to the user, and directories can be
searched by everyone.

A command is looked up in a search path in two ways. `find` decides whether a helper is there and
answers the joined path under which it was found. `locate` is the lookup that the system performs
when the command is executed; it takes each entry as it is written. -/

namespace Elevation

namespace Path

def components (path : String) : List String :=
  (path.toList.splitOn '/').map String.ofList

def isAbsolute (path : String) : Bool := path.toList.head? = some '/'

def endsInSlash (path : String) : Bool := path.toList.getLast? = some '/'

/-- Adds one component to normal components, the last of them first. A parent step cancels the
component before it, stays in front of a relative path, and is lost at the root. -/
def pushComponent (absolute : Bool) (normal : List String) (component : String) : List String :=
  if component = "" ∨ component = "." then normal
  else if component = ".." then
    match normal with
    | [] => if absolute then [] else [".."]
    | last :: before => if last = ".." then ".." :: normal else before
  else component :: normal

def normalComponents (absolute : Bool) (parts : List String) : List String :=
  (parts.foldl (pushComponent absolute) []).reverse

/-- The shortest path that names the same place, as far as the text tells. An empty path names the
current directory. -/
def normalize (path : String) : String :=
  let absolute := isAbsolute path
  let body := "/".intercalate (normalComponents absolute (components path))
  let trailing := if endsInSlash path then "/" else ""
  if absolute then (if body = "" then "/" else "/" ++ body ++ trailing)
  else if body = "" then "." ++ trailing
  else body ++ trailing

def join (parts : List String) : String :=
  normalize ("/".intercalate (parts.filter (· ≠ "")))

end Path

inductive Errno where
  | noEntry
  | notDirectory
  | isDirectory
  | accessDenied
  | tooManyLinks
  | nameTooLong
  | invalidArgument
  deriving DecidableEq, Repr

namespace Errno

def name : Errno → String
  | noEntry => "ENOENT"
  | notDirectory => "ENOTDIR"
  | isDirectory => "EISDIR"
  | accessDenied => "EACCES"
  | tooManyLinks => "ELOOP"
  | nameTooLong => "ENAMETOOLONG"
  | invalidArgument => "EINVAL"

def description : Errno → String
  | noEntry => "no such file or directory"
  | notDirectory => "not a directory"
  | isDirectory => "illegal operation on a directory"
  | accessDenied => "permission denied"
  | tooManyLinks => "too many symbolic links encountered"
  | nameTooLong => "name too long"
  | invalidArgument => "invalid argument"

end Errno

abbrev Place := List String

inductive Object where
  | file (content : List UInt8) (mode : Nat)
  | directory
  | link (target : String)
  /-- Reads as empty, as the null device does. A device or a pipe that never ends is not told apart
  and reads as empty, too. -/
  | device
  deriving DecidableEq, Repr

/-- The root directory is always there and is not listed. -/
structure FileSystem where
  objects : List (Place × Object)
  current : Place
  deriving Repr

namespace FileSystem

def nameLimit : Nat := 255

def pathLimit : Nat := 4096

def linkLimit : Nat := 40

def object? (fs : FileSystem) (place : Place) : Option Object :=
  if place = [] then some .directory else fs.objects.lookup place

/-- Walks the components from a directory. A link hands its target and the components behind it
to `follow`. -/
def walkWith (fs : FileSystem) (follow : Place → List String → Except Errno Place) :
    Place → List String → Except Errno Place
  | here, [] => .ok here
  | here, name :: rest =>
    if name = "" ∨ name = "." then walkWith fs follow here rest
    else if name = ".." then walkWith fs follow here.dropLast rest
    else if nameLimit < name.utf8ByteSize then .error .nameTooLong
    else
      match fs.object? (here ++ [name]) with
      | none => .error .noEntry
      | some .directory => walkWith fs follow (here ++ [name]) rest
      | some (.link target) =>
        if target = "" then .error .noEntry
        else follow (if Path.isAbsolute target then [] else here) (Path.components target ++ rest)
      | some _ => if rest = [] then .ok (here ++ [name]) else .error .notDirectory

def walk (fs : FileSystem) : (links : Nat) → Place → List String → Except Errno Place
  | 0 => walkWith fs fun _ _ => .error .tooManyLinks
  | links + 1 => walkWith fs (walk fs links)

def resolve (fs : FileSystem) (path : String) : Except Errno Place :=
  if path.toList.contains '\x00' then .error .invalidArgument
  else if path = "" then .error .noEntry
  else if pathLimit ≤ path.utf8ByteSize then .error .nameTooLong
  else
    walk fs linkLimit (if Path.isAbsolute path then [] else fs.current) (Path.components path)

def status (fs : FileSystem) (path : String) : Except Errno Object := do
  let place ← fs.resolve path
  match fs.object? place with
  | some object => .ok object
  | none => .error .noEntry

def pathExists (fs : FileSystem) (path : String) : Bool :=
  match fs.status path with
  | .ok _ => true
  | .error _ => false

def ownerMayRead (mode : Nat) : Bool := mode / 256 % 2 = 1

def ownerMayExecute (mode : Nat) : Bool := mode / 64 % 2 = 1

def read (fs : FileSystem) (path : String) : Except Errno (List UInt8) := do
  match ← fs.status path with
  | .file content mode => if ownerMayRead mode then .ok content else .error .accessDenied
  | .device => .ok []
  | _ => .error .isDirectory

/-- A regular file, links followed, that the user may execute. -/
def isExecutableFile (fs : FileSystem) (path : String) : Bool :=
  match fs.status path with
  | .ok (.file _ mode) => ownerMayExecute mode
  | _ => false

end FileSystem

namespace SearchPath

/-- The entries of a search path. An empty path has one empty entry. -/
def entries (searchPath : String) : List String :=
  (searchPath.toList.splitOn ':').map String.ofList

def hasSlash (name : String) : Bool := name.toList.contains '/'

def candidate (name entry : String) : String :=
  if entry = "" then Path.join [".", name] else Path.join [entry, name]

/-- The first candidate that is an executable file. A name with a slash is taken as it is, and
neither an empty name nor an empty search path finds anything. -/
def find (fs : FileSystem) (name searchPath : String) : Option String :=
  if name = "" then none
  else if hasSlash name then (if fs.isExecutableFile name then some name else none)
  else if searchPath = "" then none
  else ((entries searchPath).map (candidate name)).find? fs.isExecutableFile

def plainCandidate (name entry : String) : String :=
  if entry = "" then name else entry ++ "/" ++ name

/-- The first entry in which the system finds an executable file of that name. -/
def locate (fs : FileSystem) (name searchPath : String) : Option String :=
  ((entries searchPath).map (plainCandidate name)).find? fs.isExecutableFile

end SearchPath

end Elevation
