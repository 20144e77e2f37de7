import Elevation.FileSystem.Update
import Elevation.Invocation
import Elevation.Log.Line

/-! The command line program. It takes in its arguments, its environment, its input and the files
that a run may look at, concludes the run, and writes what there is to write. Commands are followed
as scripts; of any other executable file only its name is known. -/

namespace Elevation

namespace Snapshot

/-- The mode that files are taken to have. -/
def mode : Nat := 0o755

def content (path : String) (bytes : List UInt8) : List UInt8 :=
  if (Text.Utf8.encode Program.imageMark).isPrefixOf bytes then
    Program.image ((Path.components path).getLast?.getD path)
  else bytes

def add (fs : FileSystem) (path : String) : IO FileSystem := do
  try
    let bytes ← IO.FS.readBinFile path
    return fs.write path (content path bytes.toList) mode
  catch _ => return fs

def candidates (searchPath name : String) : List String :=
  if SearchPath.hasSlash name then [name]
  else (SearchPath.entries searchPath).map (SearchPath.plainCandidate name)

/-- The config file, the files that its helper and the words of the command may name, and the
tools. -/
def take (directory : String) (argv : List String) (env : Variables) : IO FileSystem := do
  let empty : FileSystem := ⟨[], (Path.components directory).filter (· ≠ "")⟩
  let home := (env.get? Invocation.homeVariable).getD ""
  let environment := LaunchEnvironment.read home env
  let fs ← add (empty.makeDirectory directory) environment.configPath
  let helper := (Config.load fs environment.configPath).config.privilege.helper
  let names := (helper :: argv).filter (· ≠ "")
  let tools := Program.tools.flatMap fun tool => ["/bin/" ++ tool, "/usr/bin/" ++ tool]
  (names.flatMap (candidates environment.searchPath) ++ tools).foldlM add fs

end Snapshot

end Elevation

open Elevation

def main (argv : List String) : IO UInt32 := do
  let listed ← IO.FS.readBinFile "/proc/self/environ"
  let env := Variables.ofList (Text.Utf8.decode listed.toList)
  let directory := (← IO.currentDir).toString
  let files ← Snapshot.take directory argv env
  let input ← (← IO.getStdin).readToEnd
  let conclusion := Invocation.conclude ⟨argv, env, files, input, none⟩
  let out ← IO.getStdout
  out.write ⟨conclusion.output.toArray⟩
  out.flush
  let err ← IO.getStderr
  for record in conclusion.records do
    err.putStr (record.line ++ "\n")
  err.write ⟨conclusion.errors.toArray⟩
  err.flush
  return UInt32.ofNat conclusion.status
