import FilmCatalog.Store.Basic

/-!
# Ranked similarity

Similar posts from an index of ids and a reader of posts. The ranking is cut
to the first ids that are not excluded, each once; the reader then gives those
of them that are there and have the wanted flags, and they are put back into
the order of the ranking.

Key definitions: `SimilarityFilter.shortlist`, `SimilaritySource.ranked`.
-/

namespace FilmCatalog

/-- The first ids of a ranking that are not excluded, each once. -/
def SimilarityFilter.shortlist (f : SimilarityFilter) (ranking : List Int) : List Int :=
  ((ranking.filter fun id => !f.excludes id).eraseDups).take f.limit.toNat

/-- Posts in the order of their ids in a ranking; others come last. -/
def inRankOrder (ranking : List Int) (posts : List Post) : List Post :=
  posts.mergeSort fun p q => decide (ranking.idxOf p.id ≤ ranking.idxOf q.id)

/-- The listing of some ids with the flags of a similarity filter. -/
def SimilarityFilter.hydration (f : SimilarityFilter) (ids : List Int) : PostFilter :=
  (PostFilter.byIds ids).withFlags f.nsfw f.grayscale f.sprocket

/-- Similar posts from an index and a reader. -/
def SimilaritySource.ranked {m : Type → Type} [Monad m] (index : VectorIndex m)
    (posts : PostReader m) : SimilaritySource m where
  findSimilar f := do
    let ids := f.shortlist (← index.nearest f)
    if ids.isEmpty then pure []
    else
      let page ← posts.findPosts (f.hydration ids)
      pure (inRankOrder ids page.posts)
  forget := index.remove

end FilmCatalog
