import FilmCatalog.Listing.Query
import FilmCatalog.Sql.Fragment

/-!
# Listing queries in SQL

A listing is one statement: every post row with its colors and keywords
gathered into arrays, and the number of all matching rows beside each. A post
without colors or keywords stays in the listing as long as none are wanted:
the child table is then joined from outside, else from inside.

Key definitions: `JoinKind`, `Condition.fragment`, `RowOrder.fragment`,
`ListingQuery.fragment`, `ListingQuery.statement`.
-/

namespace FilmCatalog

/-- How a child table is joined to the posts. -/
inductive JoinKind where
  | leftOuter
  | inner
  deriving DecidableEq, Repr

/-- A join in SQL. -/
def JoinKind.sql : JoinKind → String
  | .leftOuter => "LEFT OUTER JOIN"
  | .inner => "INNER JOIN"

/-- The join of a child table that has to match something or nothing. -/
def JoinKind.ofWanted {α : Type} (wanted : List α) : JoinKind :=
  if wanted.isEmpty then .leftOuter else .inner

/-- The column of a flag. -/
def Flag.column : Flag → String
  | .nsfw => "p.nsfw"
  | .grayscale => "p.grayscale"
  | .sprocket => "p.sprocket"

/-- The column of a side. -/
def Side.column : Side → String
  | .width => "p.width"
  | .height => "p.height"

/-- The comparison of a range end. -/
def RangeEnd.sql : RangeEnd → String
  | .atLeast => " >= "
  | .atMost => " <= "

open Fragment in
/-- A condition in SQL. -/
def Condition.fragment : Condition → Fragment
  | .timeBefore cursor => text "p.time < " ++ value (.int8 cursor)
  | .scoreBefore cursor => text "p.score < " ++ value (.int8 cursor)
  | .shuffledAfter seed cursor =>
    text "(MOD(p.time, " ++ value (.int8 seed) ++ text ") > MOD(" ++ value (.int8 cursor) ++
      text ", " ++ value (.int8 seed) ++ text ") OR (MOD(p.time, " ++ value (.int8 seed) ++
      text ") = MOD(" ++ value (.int8 cursor) ++ text ", " ++ value (.int8 seed) ++
      text ") AND p.time < " ++ value (.int8 cursor) ++ text "))"
  | .flagIs flag b => text (flag.column ++ " = ") ++ value (.bool b)
  | .idAmong ids => text "p.id = ANY(" ++ value (.ints ids) ++ text ")"
  | .titleLike pattern => text "p.title ILIKE " ++ value (.text pattern)
  | .authorIs author => text "p.author = " ++ value (.text author)
  | .sideWithin side limit bound => text (side.column ++ limit.sql) ++ value (.int8 bound)
  | .ratioWithin limit bound =>
    text ("p.width::float8 / NULLIF(p.height, 0)" ++ limit.sql) ++ value (.float8 bound)

open Fragment in
/-- An order in SQL. -/
def RowOrder.fragment : RowOrder → Fragment
  | .latest => text "p.time DESC, p.id DESC"
  | .best => text "p.score DESC, p.time DESC, p.id DESC"
  | .shuffled seed =>
    text "MOD(p.time, " ++ value (.int8 seed) ++ text ") ASC, p.time DESC, p.id DESC"

open Fragment in
/-- The ids of the posts that have a color. -/
def ColorPredicate.fragment (c : ColorPredicate) : Fragment :=
  text "(SELECT post_id FROM colors WHERE html = " ++ value (.text c.name) ++
    text " GROUP BY post_id, html HAVING SUM(percent) > " ++ value (.float8 c.minPercent) ++
    text ")"

open Fragment in
/-- The ids of the posts that have a word. -/
def wordFragment (word : String) : Fragment :=
  text "(SELECT post_id FROM keywords WHERE word = " ++ value (.text word) ++ text ")"

/-- The ids that all of some sets have, if there are sets. -/
def intersection? (sets : List Fragment) : Option Fragment :=
  if sets.isEmpty then none else some (Fragment.joined " INTERSECT " sets)

/-- The columns of the post row. -/
def postColumns : String :=
  "p.id, p.url, p.title, p.author, p.permalink, p.score, p.nsfw, " ++
    "p.grayscale, p.sprocket, p.time, p.width, p.height, " ++
    "p.low_url, p.low_width, p.low_height, " ++
    "p.medium_url, p.medium_width, p.medium_height, " ++
    "p.high_url, p.high_width, p.high_height"

/-- The columns of the gathered colors, the largest share first. -/
def colorColumns : String :=
  "ARRAY_AGG(hex ORDER BY percent DESC, id ASC) AS hexes, " ++
    "ARRAY_AGG(css ORDER BY percent DESC, id ASC) AS csses, " ++
    "ARRAY_AGG(html ORDER BY percent DESC, id ASC) AS htmls, " ++
    "ARRAY_AGG(percent ORDER BY percent DESC, id ASC) AS percents"

/-- The columns of the gathered keywords, the greatest weight first. -/
def keywordColumns : String :=
  "ARRAY_AGG(word ORDER BY weight DESC, id ASC) AS words, " ++
    "ARRAY_AGG(weight ORDER BY weight DESC, id ASC) AS weights"

open Fragment in
/-- A child table gathered by post, restricted to some posts or not. -/
def gathered (table columns : String) (among : Option Fragment) : Fragment :=
  text ("(SELECT post_id, " ++ columns ++ " FROM " ++ table) ++
    (match among with
      | some ids => text " WHERE post_id IN (" ++ ids ++ text ")"
      | none => empty) ++
    text " GROUP BY post_id)"

namespace ListingQuery

/-- The join of the colors. -/
def colorJoin (q : ListingQuery) : JoinKind := .ofWanted q.colors

/-- The ids of the posts that have every wanted color. -/
def colorFilter (q : ListingQuery) : Option Fragment :=
  intersection? (q.colors.map ColorPredicate.fragment)

/-- The join of the keywords. -/
def keywordJoin (q : ListingQuery) : JoinKind := .ofWanted q.keywords

/-- The ids of the posts that have every wanted word. -/
def keywordFilter (q : ListingQuery) : Option Fragment :=
  intersection? (q.keywords.map wordFragment)

/-- All conditions together, if there are any. -/
def whereClause (q : ListingQuery) : Option Fragment :=
  if q.conditions.isEmpty then none
  else some (Fragment.joined " AND " (q.conditions.map Condition.fragment))

open Fragment in
/-- A listing query in SQL, all but its limit. -/
def fragment (q : ListingQuery) : Fragment :=
  text ("SELECT " ++ postColumns ++
    ", c.hexes, c.csses, c.htmls, c.percents, k.words, k.weights" ++
    ", COUNT(*) OVER() AS total_count FROM posts p " ++ q.colorJoin.sql ++ " ") ++
  gathered "colors" colorColumns q.colorFilter ++
  text (" c ON c.post_id = p.id " ++ q.keywordJoin.sql ++ " ") ++
  gathered "keywords" keywordColumns q.keywordFilter ++
  text " k ON k.post_id = p.id" ++
  (match q.whereClause with
    | some conditions => text " WHERE " ++ conditions
    | none => empty) ++
  text " ORDER BY " ++ q.order.fragment

/-- The limit in SQL. It is part of the text. -/
def limitSql (q : ListingQuery) : String :=
  match q.limit with
  | some n => " LIMIT " ++ toString n
  | none => ""

/-- The statement of a listing query. -/
def statement (q : ListingQuery) : Statement :=
  let s := q.fragment.toStatement
  { s with sql := s.sql ++ q.limitSql }

end ListingQuery
end FilmCatalog
