import ValueNames.Text.Lines

/-!
# Paths

A path is a text whose pieces are separated by slashes. Paths are compared and
taken apart as they are written: nothing here asks a file system, and a piece
`..` is a piece like any other. Empty pieces and pieces that are a single dot
are idle: they lead nowhere and are passed over at the end of a path. A dot at
the very beginning is kept, because `./a` and `a` are written differently.
-/

namespace ValueNames.Path

/-! ## Joining -/

/-- Whether a path starts at the root. -/
def isAbsolute (path : Text) : Bool := path.head? = some '/'

/-- The path `path` as seen from `directory`; an absolute path is seen as itself. -/
def join (directory path : Text) : Text :=
  if isAbsolute path then path
  else if directory = [] ∨ directory.getLast? = some '/' then directory ++ path
  else directory ++ '/' :: path

/-! ## Taking apart -/

/-- The slash of an absolute path, or the dot at the beginning of a relative one. -/
def lead : Text → Text
  | '/' :: _ => ['/']
  | ['.'] => ['.']
  | '.' :: '/' :: _ => ['.']
  | _ => []

/-- The pieces between slashes, from the last to the first, without the lead. -/
def piecesBackwards (path : Text) : List Text :=
  (Text.splitOn '/' (path.drop (lead path).length)).reverse

/-- Whether a piece leads nowhere. -/
def isIdle (piece : Text) : Bool := piece = [] || piece = ['.']

/-- The path with the given lead and the given pieces, from the last to the first. -/
def ofPiecesBackwards (lead : Text) (pieces : List Text) : Text :=
  lead ++ Text.join ['/'] (pieces.dropWhile isIdle).reverse

/--
The paths that are left when the pieces are taken away one after the other,
from the last to the first. When none is left, a dot at the beginning still
stands for a directory of its own, whose parent is the empty path.
-/
def parents (lead : Text) : List Text → List Text
  | [] => if lead = ['.'] then [[]] else []
  | piece :: pieces =>
      if isIdle piece then parents lead pieces
      else ofPiecesBackwards lead pieces :: parents lead pieces

/-- A path and all that is above it, from the inside out. -/
def ancestors (path : Text) : List Text := path :: parents (lead path) (piecesBackwards path)

/-- The path without its last piece. -/
def parent? (path : Text) : Option Text := (parents (lead path) (piecesBackwards path)).head?

/-! ## Names -/

/-- The last piece, if it names a file or directory below the rest of the path. -/
def fileName? (path : Text) : Option Text :=
  match (piecesBackwards path).dropWhile isIdle with
  | [] => none
  | name :: _ => if name = ['.', '.'] then none else some name

/-- What follows the last dot of a file name that does not begin with that dot. -/
def extension? (path : Text) : Option Text :=
  (fileName? path).bind fun name =>
    match (Text.splitOn '.' name).reverse with
    | extension :: stem :: stems => if stems = [] ∧ stem = [] then none else some extension
    | _ => none

end ValueNames.Path
