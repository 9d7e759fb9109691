/-!
# Paths

A path is a text whose pieces stand between slashes.  Empty pieces and pieces that are one point
change nothing, and two points lead to the folder above.
-/

namespace Highlighting

namespace Path

/-- The texts between slashes. -/
def piecesOf : List Char → List (List Char)
  | [] => [[]]
  | c :: cs =>
    if c = '/' then [] :: piecesOf cs
    else
      match piecesOf cs with
      | [] => [[c]]
      | p :: ps => (c :: p) :: ps

/-- The pieces of a path between slashes. -/
def pieces (path : String) : List String := (piecesOf path.toList).map String.ofList

/-- Whether a piece changes nothing. -/
def isIdle (piece : String) : Bool := piece == "" || piece == "."

/-- Whether a path starts at the root and not at the working folder. -/
def isAbsolute (path : String) : Bool := path.toList.head? == some '/'

/-- The pieces of a path up to its last one that is not idle, in reverse. -/
def backward (path : String) : List String := (pieces path).reverse.dropWhile isIdle

/-- The last piece of a path, unless it leads upward or there is none. -/
def fileName? (path : String) : Option String :=
  match backward path with
  | [] => none
  | p :: _ => if p = ".." then none else some p

/-- The pieces that lead to the folder of the last piece. -/
def folderPieces (path : String) : List String := (backward path).tail.reverse

/-- The part of a file name behind its last point, unless nothing stands before that point. -/
def extensionOf? (name : String) : Option String :=
  if name = ".." then none
  else
    let back := name.toList.reverse
    match back.dropWhile (· != '.') with
    | [] => none
    | [_] => none
    | _ => some (String.ofList (back.takeWhile (· != '.')).reverse)

/-- A path within a folder. -/
def join (folder name : String) : String :=
  if folder = "" then name
  else if folder.toList.getLast? = some '/' then folder ++ name
  else folder ++ "/" ++ name

theorem join_empty (name : String) : join "" name = name := rfl

example : fileName? "src/a.c" = some "a.c" := by decide +kernel

example : extensionOf? "a.tar.gz" = some "gz" := by decide +kernel

example : extensionOf? ".hidden" = none := by decide +kernel

end Path

end Highlighting
