import Stencil.Command

/-!
The program: a command line run on the files of the system.

The files a run may look at are read before it, and those it has changed are written after it.
-/

namespace Stencil.Main

/-- More rounds than a loop that ends can take. -/
def roundBound : Nat := Nat.pow 2 62

/-- Looks at one path and notes what is there. -/
def look (files : FileTree) (path : String) : IO FileTree := do
  try
    return files.add path (← IO.FS.readBinFile path)
  catch
    | .inappropriateType .. => return files.addDirectory path
    | _ => return files

def writeChanges (before after : FileTree) : IO Unit := do
  for (names, content) in FileTree.changes before after do
    IO.FS.writeBinFile ("/" ++ "/".intercalate names) content

/-- Runs the program on its arguments and answers with the exit code. -/
def run (args : List String) : IO UInt32 := do
  let environment ← IO.getEnv "SCRIPTLET_CONFIG"
  let home ← IO.getEnv "HOME"
  let directory := toString (← IO.currentDir)
  let root := FileTree.empty []
  let paths := Command.paths args environment home
  let files ← paths.foldlM look (.empty (root.names directory))
  match Command.run files roundBound args environment home with
  | none =>
    IO.eprintln "✗ a loop does not end"
    return 1
  | some outcome =>
    writeChanges files outcome.files
    IO.print outcome.stdout
    IO.eprint outcome.stderr
    return .ofNat outcome.code

end Stencil.Main

def main (args : List String) : IO UInt32 := Stencil.Main.run args
