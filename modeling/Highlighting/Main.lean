import Highlighting.CommandLine.Program

/-!
# The command

`Program.start` decides everything: it works on a tree of files and says what is to be shown.  The
command puts the files that its arguments name into such a tree, prints what is to be shown and
stores the files that have been written.  It cannot list folders and says so when it is given one;
files are named one by one.
-/

namespace Highlighting

namespace Command

/-- The preferences that the environment holds. -/
def environment : IO Environment :=
  (Program.noteVariable :: Preferences.variableNames).filterMapM fun name => do
    return (← IO.getEnv name).map (name, ·)

/-- Whether a path leads to a folder. -/
def isFolder (path : String) : IO Bool := do
  return (← (IO.FS.realPath (path ++ "/.")).toBaseIO).isOk

/-- A tree with nothing but the working folder. -/
def emptyTree : IO FileTree := do
  let home := (Path.pieces (toString (← IO.currentDir))).filter fun p => !Path.isIdle p
  return { (({} : FileTree).makeFolders [] home).1 with home }

/-- Adds the file at a path to a tree, if there is one that can be read. -/
def load (t : FileTree) (path : String) : IO FileTree := do
  match ← (IO.FS.readBinFile path).toBaseIO with
  | .ok contents => return (t.write path contents).1
  | .error _ => return t

/-- Adds the files that a command line names to a tree. -/
def loadAll (t : FileTree) (args : Arguments) : IO FileTree :=
  (args.inputs ++ args.extensions ++ args.outputDir.toList).foldlM load t

/-- Prints a text on its stream. -/
def print : Program.Shown → IO Unit
  | .out text => IO.print text
  | .err text => IO.eprint text

/-- Stores a file, with the folders that lead to it. -/
def store (p : Place) (contents : ByteArray) : IO Unit := do
  IO.FS.createDirAll (Place.path p.dropLast)
  IO.FS.writeBinFile p.path contents

/-- Runs a command line. -/
def run (line : List String) : IO UInt32 := do
  let args := (Arguments.parse line).toOption.getD {}
  for path in args.inputs do
    if ← isFolder path then
      IO.eprintln s!"Error: cannot list the folder {path}"
      return 1
  let env ← environment
  let tree ← loadAll (← emptyTree) args
  let r := Program.start env line { files := tree }
  for e in r.effects do
    (Program.shownFor (Program.settings env line) e).forM print
  for (p, contents) in tree.changes r.state.files do
    store p contents
  return r.value.toUInt32

end Command

end Highlighting

/-- Runs the command line of the process and gives its exit code. -/
def main (line : List String) : IO UInt32 := Highlighting.Command.run line
