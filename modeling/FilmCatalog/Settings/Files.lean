/-!
# Files by their paths

A path leads from the root, or from the directory where the program works, to
a file. Its steps are the texts between slashes; an empty step and `.` stay in
a directory and `..` leaves it, so that a path with a slash at its end never
leads to a file.

A file may also be named without its extension. The extension is put behind
the last step that is a name, and the empty steps and `.` after it are left out.

Key definitions: `FileTree`, `FileTree.text?`, `withExtension?`.
-/

namespace FilmCatalog

/-- The files and directories that there are. -/
structure FileTree where
  /-- The texts of the files, each with the names that lead to it from the root. -/
  files : List (List String × String)
  /-- The names that lead to directories; those on the way to them and to files
  are directories too. -/
  directories : List (List String)
  /-- The names that lead to the directory where the program works. -/
  here : List String
  deriving DecidableEq, Repr

namespace FileTree

/-- Whether names lead to a directory. -/
def isDirectory (t : FileTree) (names : List String) : Bool :=
  (t.here :: t.directories).any names.isPrefixOf ||
    t.files.any fun (place, _) => names.isPrefixOf place && names != place

/-- Goes on from a place by the steps of a path. -/
def walk (t : FileTree) : List String → List String → Option (List String)
  | place, [] => some place
  | place, step :: rest =>
    if !t.isDirectory place then none
    else if step = "" ∨ step = "." then t.walk place rest
    else if step = ".." then t.walk place.dropLast rest
    else t.walk (place ++ [step]) rest

/-- The text of the file to which a path leads. -/
def text? (t : FileTree) (path : String) : Option String := do
  let place ← t.walk (if path.startsWith "/" then [] else t.here) (path.splitOn "/")
  t.files.lookup place

end FileTree

/-- The path of a file of which the extension was left out, if a name is left
to put it behind. -/
def withExtension? (extension path : String) : Option String :=
  let steps := (path.splitOn "/").reverse.dropWhile fun s => s = "" || s = "."
  match steps with
  | [] => none
  | last :: before =>
    if last = ".." then none
    else some ("/".intercalate (before.reverse ++ [last ++ extension]))

end FilmCatalog
