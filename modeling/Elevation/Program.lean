import Elevation.FileSystem
import Elevation.Text

/-! Executing files. A file is either the image of a tool of the system, or a script whose first
line may name its interpreter. A script without such a line is left to the shell. -/

namespace Elevation

structure Program where
  tool : String
  args : List String
  deriving DecidableEq, Repr

namespace Program

def interpreterLimit : Nat := 4

def tools : List String := ["sh", "sleep", "true", "false", "echo", "cat", "env"]

def imageMark : List Char := ['\x7f', 'E', 'L', 'F']

/-- The image of a tool holds its name. -/
def image (tool : String) : List UInt8 := Text.Utf8.encode (imageMark ++ tool.toList)

def interpreter? (text : List Char) : Option (String × List String) :=
  match text with
  | '#' :: '!' :: rest =>
    let line := (rest.takeWhile (· ≠ '\n')).dropWhile Text.isSpace
    let line := (line.reverse.dropWhile Text.isSpace).reverse
    let path := line.takeWhile fun c => !Text.isSpace c
    let argument := (line.drop path.length).dropWhile Text.isSpace
    if path = [] then none
    else some (String.ofList path, if argument = [] then [] else [String.ofList argument])
  | _ => none

def executable (fs : FileSystem) (path : String) : Except Errno (List Char) := do
  match ← fs.status path with
  | .file content mode =>
    if FileSystem.ownerMayExecute mode then .ok (Text.Utf8.decode content) else .error .accessDenied
  | _ => .error .accessDenied

def load (fs : FileSystem) : (depth : Nat) → String → List String → Except Errno Program
  | depth, path, args => do
    let text ← executable fs path
    if text.take imageMark.length = imageMark then
      return ⟨String.ofList (text.drop imageMark.length), args⟩
    else
      match interpreter? text, depth with
      | none, _ => return ⟨"sh", path :: args⟩
      | some _, 0 => .error .tooManyLinks
      | some (interpreter, argument), depth + 1 =>
        load fs depth interpreter (argument ++ path :: args)

def standardPath : String := "/bin:/usr/bin"

/-- Tries the places of a search path in order. A place where nothing can be executed is passed
over. At the end, that access was denied somewhere counts for more than what the last place
answered. -/
def tryAll (fs : FileSystem) (args : List String) (denied : Bool) (last : Errno) :
    List String → Except Errno Program
  | [] => .error (if denied then .accessDenied else last)
  | path :: rest =>
    match load fs interpreterLimit path args with
    | .ok program => .ok program
    | .error .accessDenied => tryAll fs args true .accessDenied rest
    | .error .noEntry => tryAll fs args denied .noEntry rest
    | .error .notDirectory => tryAll fs args denied .notDirectory rest
    | .error errno => .error errno

def find (fs : FileSystem) (searchPath : Option String) (file : String) (args : List String) :
    Except Errno Program :=
  if file = "" then .error .noEntry
  else if SearchPath.hasSlash file then load fs interpreterLimit file args
  else if FileSystem.nameLimit < file.utf8ByteSize then .error .nameTooLong
  else
    tryAll fs args false .noEntry
      ((SearchPath.entries (searchPath.getD standardPath)).map (SearchPath.plainCandidate file))

end Program

end Elevation
