import Highlighting.Files.Path

/-!
# Trees of files

A tree of files lists files and folders by their places, a place being the names that lead to it
from the root.  The list is ordered by places, in which a folder comes right before what it holds;
so to walk a folder is to read on in the list.
-/

namespace Highlighting

/-- The names that lead from the root to a file or folder. -/
abbrev Place := List String

namespace Place

/-- The order of places: a folder is before what it holds, and names are in order. -/
def precedes : Place → Place → Bool
  | _, [] => false
  | [], _ :: _ => true
  | a :: as, b :: bs => a < b || (a == b && precedes as bs)

/-- The absolute path of a place. -/
def path (p : Place) : String := "/" ++ "/".intercalate p

/-- What leads from a folder to a place below it. -/
def within? : Place → Place → Option Place
  | [], p => some p
  | _ :: _, [] => none
  | a :: as, b :: bs => if a = b then within? as bs else none

end Place

/-- What stands at a place. -/
inductive FileEntry where
  | file (contents : ByteArray)
  | folder

/-- Files and folders in the order of their places, and the folder where relative paths start. -/
structure FileTree where
  home : Place := []
  entries : List (Place × FileEntry) := []

namespace FileTree

/-- What stands at a place.  The root is a folder. -/
def entry? (t : FileTree) (p : Place) : Option FileEntry :=
  if p = [] then some .folder else (t.entries.find? fun e => e.1 == p).map (·.2)

/-- Whether a folder stands at a place. -/
def isFolder (t : FileTree) (p : Place) : Bool :=
  match t.entry? p with
  | some .folder => true
  | _ => false

/-- The place that a piece of a path leads to from a folder. -/
def step? (t : FileTree) (p : Place) (piece : String) : Option Place :=
  if !t.isFolder p then none
  else if Path.isIdle piece then some p
  else if piece = ".." then some p.dropLast
  else some (p ++ [piece])

/-- The place where a path starts. -/
def origin (t : FileTree) (path : String) : Place := if Path.isAbsolute path then [] else t.home

/-- The place that a path leads to, whether or not something stands there. -/
def resolve? (t : FileTree) (path : String) : Option Place :=
  if path = "" then none else (Path.pieces path).foldlM t.step? (t.origin path)

/-- What a path leads to. -/
def find? (t : FileTree) (path : String) : Option (Place × FileEntry) := do
  let p ← t.resolve? path
  let e ← t.entry? p
  some (p, e)

/-- Puts an entry at a place of an ordered list, instead of the one that is there. -/
def insertEntry (p : Place) (e : FileEntry) :
    List (Place × FileEntry) → List (Place × FileEntry)
  | [] => [(p, e)]
  | x :: xs =>
    if p = x.1 then (p, e) :: xs
    else if p.precedes x.1 then (p, e) :: x :: xs
    else x :: insertEntry p e xs

/-- The tree with an entry at a place. -/
def insert (t : FileTree) (p : Place) (e : FileEntry) : FileTree :=
  { t with entries := insertEntry p e t.entries }

/-- Why a file cannot be written. -/
inductive WriteFailure where
  /-- a file stands where a folder is to be made -/
  | occupied
  /-- a file stands on the way to the folder -/
  | notFolder
  /-- a folder stands where the file is to be -/
  | isFolder
deriving DecidableEq, Inhabited

namespace WriteFailure

/-- The failure in words. -/
def message : WriteFailure → String
  | occupied => "File exists (os error 17)"
  | notFolder => "Not a directory (os error 20)"
  | isFolder => "Is a directory (os error 21)"

end WriteFailure

/-- Makes the folders along the pieces of a path where they are missing.  A file in the way stops
it, and the folders made up to there stay. -/
def makeFolders (t : FileTree) (p : Place) : List String → FileTree × Except WriteFailure Place
  | [] => (t, .ok p)
  | piece :: rest =>
    match t.step? p piece with
    | none => (t, .error .notFolder)
    | some q =>
      match t.entry? q with
      | some .folder => makeFolders t q rest
      | some (.file _) => (t, .error (if rest.isEmpty then .occupied else .notFolder))
      | none => makeFolders (t.insert q .folder) q rest

/-- Writes a file, with the folders that lead to it. -/
def write (t : FileTree) (path : String) (contents : ByteArray) :
    FileTree × Except WriteFailure Unit :=
  let (t, folder) := t.makeFolders (t.origin path) (Path.folderPieces path)
  match folder, t.resolve? path with
  | .error e, _ => (t, .error e)
  | .ok _, none => (t, .error .notFolder)
  | .ok _, some p =>
    if t.isFolder p then (t, .error .isFolder) else (t.insert p (.file contents), .ok ())

/-- The files below a folder, in order: what leads to each from the folder, and its contents. -/
def filesBelow (t : FileTree) (folder : Place) : List (Place × ByteArray) :=
  t.entries.filterMap fun (p, e) =>
    match folder.within? p, e with
    | some rest, .file contents => some (rest, contents)
    | _, _ => none

/-- Whether a file with these contents stands at a place. -/
def holds (t : FileTree) (p : Place) (contents : ByteArray) : Bool :=
  match t.entry? p with
  | some (.file found) => found.data == contents.data
  | _ => false

/-- The files that a later tree has and an earlier one has not, or not with these contents. -/
def changes (earlier later : FileTree) : List (Place × ByteArray) :=
  (later.filesBelow []).filter fun (p, contents) => !earlier.holds p contents

end FileTree

end Highlighting
