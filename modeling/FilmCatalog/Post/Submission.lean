import FilmCatalog.Error
import FilmCatalog.Post.Author
import FilmCatalog.Post.Basic

/-!
# Submissions

A submission is checked before it is stored: five colors, a permalink that is
not blank, and the four image sizes in order. The checks are made in this
order and the first that fails is reported.

Key definitions: `Submission`, `NewPost`, `Submission.validate`, `NewPost.toPost`.
-/

namespace FilmCatalog

/-- A post as a client sends it. -/
structure Submission where
  title : String
  author : String
  permalink : String
  score : Int
  nsfw : Bool
  grayscale : Bool
  sprocket : Bool
  time : Int
  images : List Image
  colors : List Color
  keywords : List Keyword
  deriving DecidableEq, Repr

/-- A post that is ready to be stored; the author is in stored form. -/
structure NewPost where
  title : String
  author : String
  permalink : String
  score : Int
  nsfw : Bool
  grayscale : Bool
  sprocket : Bool
  time : Int
  images : ImageSet
  colors : List Color
  keywords : List Keyword
  deriving DecidableEq, Repr

/-- How many colors a submission has. -/
def requiredColors : Nat := 5

/-- Why a submission is refused. -/
inductive SubmissionFault where
  | colorCount (n : Nat)
  | blankPermalink
  | imageCount (n : Nat)
  deriving DecidableEq, Repr

/-- The text of a reason. -/
def SubmissionFault.message : SubmissionFault → String
  | .colorCount n => "expected " ++ toString requiredColors ++ " colors, got " ++ toString n
  | .blankPermalink => "permalink must not be empty"
  | .imageCount n =>
    "expected " ++ toString ImageVariant.all.length ++ " images (low, medium, high, raw), got " ++
      toString n

/-- A reason as an error of the domain. -/
def SubmissionFault.toError (f : SubmissionFault) : DomainError := .validation f.message

/-- The image set of four images in the order of their sizes. -/
def ImageSet.ofList : List Image → Except SubmissionFault ImageSet
  | [low, medium, high, raw] => .ok ⟨low, medium, high, raw⟩
  | images => .error (.imageCount images.length)

/-- Checks a submission. -/
def Submission.validate (s : Submission) : Except SubmissionFault NewPost := do
  if s.colors.length ≠ requiredColors then throw (.colorCount s.colors.length)
  if (Text.trim s.permalink).isEmpty then throw .blankPermalink
  let images ← ImageSet.ofList s.images
  pure {
    title := s.title
    author := Author.stored s.author
    permalink := s.permalink
    score := s.score
    nsfw := s.nsfw
    grayscale := s.grayscale
    sprocket := s.sprocket
    time := s.time
    images := images
    colors := s.colors
    keywords := s.keywords }

/-- The post under its id, with the author as it is shown. -/
def NewPost.toPost (p : NewPost) (id : Int) : Post where
  id := id
  title := p.title
  author := Author.shown p.author
  permalink := p.permalink
  score := p.score
  nsfw := p.nsfw
  grayscale := p.grayscale
  sprocket := p.sprocket
  time := p.time
  images := p.images
  colors := p.colors
  keywords := p.keywords

end FilmCatalog
