/-
The program on real files.

The names of the files that may be read come from standard input, one to a line, as
`find . contracts node_modules` prints them; a name that cannot be read as a file is taken for
a directory.  The program runs on the tree of these files, and the files that it has written
are put in place.  No compiler can be started from here, so a build ends with the message that
there is none.
-/
import SolidityBundler.CommandLine.Program
import Std.Time

namespace SolidityBundler

namespace CommandLine

/-- The lines of a stream that are not empty. -/
partial def readNames (input : IO.FS.Stream) (names : List String) : IO (List String) := do
  let line ← input.getLine
  if line.isEmpty then return names.reverse
  let name := line.toList.filter (· != '\n')
  readNames input (if name.isEmpty then names else String.ofList name :: names)

/-- The file or directory of a given name. -/
def readNode (name : String) : IO FileNode := do
  try
    let content ← IO.FS.readBinFile name
    return .file content.toList
  catch _ => return .directory

/-- The tree of the named files. -/
def readTree (current : TreePath) (names : List String) : IO FileTree :=
  names.foldlM
    (fun tree name => do return tree.place (.ofText name.toList) (← readNode name))
    (FileTree.empty current.segments)

def writeChange (change : Address × Bytes) : IO Unit := do
  let path := TreePath.absolute change.1
  IO.FS.createDirAll (String.ofList path.parent.toText)
  IO.FS.writeBinFile (String.ofList path.toText) (ByteArray.mk change.2.toArray)

def noCompiler : Compiler where
  installed := []
  install := fun _ => none
  answer := fun _ _ => .notInstalled "Solc is not installed."

/-- The time of day as log lines give it. -/
def currentTime : IO Text := do
  let now ← Std.Time.PlainDateTime.now
  return (now.format "uuuu-MM-dd HH:mm:ss").toList

end CommandLine

end SolidityBundler

open SolidityBundler CommandLine in
def main (arguments : List String) : IO UInt32 := do
  let current := TreePath.ofText (← IO.currentDir).toString.toList
  let tree ← readTree current (← readNames (← IO.getStdin) [])
  let libraryPath := (← IO.getEnv "SOLB_LIBRARY_PATH").map String.toList
  let result := runProgram { libraryPath, compiler := noCompiler, time := ← currentTime }
    (arguments.map String.toList) tree
  (tree.changes result.tree).forM writeChange
  IO.print (String.ofList result.output)
  IO.eprint (String.ofList result.messages)
  match result.status with
  | .ok status => return status.toUInt32
  | .error crash =>
      IO.eprintln (String.ofList (crash.message?.getD "ended without an outcome"))
      return 1
