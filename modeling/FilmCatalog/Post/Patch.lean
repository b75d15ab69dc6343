import FilmCatalog.Error
import FilmCatalog.Post.Basic

/-!
# Patches

A patch changes some fields of a stored post. A field that it does not carry
stays as it is.

Key definitions: `Patch`, `Patch.isEmpty`, `Patch.touchesRow`, `Patch.ensureNotEmpty`.
-/

namespace FilmCatalog

/-- The fields to change, with their new values. -/
structure Patch where
  score : Option Int
  nsfw : Option Bool
  grayscale : Option Bool
  sprocket : Option Bool
  colors : Option (List Color)
  keywords : Option (List Keyword)
  deriving DecidableEq, Repr

namespace Patch

/-- The reason why a patch without any field is refused. -/
def emptyReason : String := "must include patch parameters"

/-- Whether a patch carries a field of the post itself, not only colors or keywords. -/
def touchesRow (p : Patch) : Bool :=
  p.score.isSome || p.nsfw.isSome || p.grayscale.isSome || p.sprocket.isSome

/-- Whether a patch carries nothing. -/
def isEmpty (p : Patch) : Bool :=
  !p.touchesRow && p.colors.isNone && p.keywords.isNone

/-- Refuses a patch that carries nothing. -/
def ensureNotEmpty (p : Patch) : Except DomainError Unit :=
  if p.isEmpty then .error (.validation emptyReason) else .ok ()

end Patch
end FilmCatalog
