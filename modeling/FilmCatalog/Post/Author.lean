import FilmCatalog.Text.Blank

/-!
# Author names

The store keeps an author with the mark `u/` in front. A reader is shown the
name without it.

Key definitions: `Author.stored`, `Author.shown`.
-/

namespace FilmCatalog.Author

/-- The mark in front of a stored author. -/
def mark : String := "u/"

/-- The stored form of an author: trimmed, with the mark put in front if it is missing. -/
def stored (name : String) : String :=
  let name := Text.trim name
  if mark.toList.isPrefixOf name.toList then name else mark ++ name

/-- The author without the mark, if there is one. -/
def shown (name : String) : String :=
  if mark.toList.isPrefixOf name.toList then String.ofList (name.toList.drop mark.length) else name

end FilmCatalog.Author
