import FilmCatalog.Catalog.Bench
import FilmCatalog.Proofs.Cache.Requests
import FilmCatalog.Proofs.Filter.Similarity
import FilmCatalog.Proofs.Settings.Resolved

/-!
# Bounded pages

Whatever is asked for, a catalog with accepted settings asks its store for at least
one post and for no more than the maximum: what was requested if that is in the
range, the maximum if it is more, the default if nothing was requested. Requests
that come to the same size are one request to the store and to the cache.

Key definitions: `PageLimits.pageSize`, `PostFilter.within`, `SimilarityFilter.within`.
Key theorems: `PostFilter.withPageSize_eq`, `SimilarityFilter.withMaxLimit_eq`,
`Catalog.pages_bounded`.
-/

namespace FilmCatalog

/-! ## Sizes -/

/-- The size of a page for a limit that may have been requested. -/
def PageLimits.pageSize (l : PageLimits) (requested : Option ℤ) : ℤ :=
  min (requested.getD l.defaultPageSize) l.maxPageSize

/-- The filter with its limit brought into the range of the settings. -/
def PostFilter.within (l : PageLimits) (f : PostFilter) : PostFilter :=
  { f with limit := some (l.pageSize f.limit) }

/-- The similarity filter with its limit brought into the range of the settings. -/
def SimilarityFilter.within (l : PageLimits) (f : SimilarityFilter) : SimilarityFilter :=
  { f with limit := min f.limit l.maxSimilar }

namespace PageLimits.Ordered

variable {l : PageLimits} (h : l.Ordered)

include h

theorem pageSize_pos {requested : Option ℤ} (hpos : ∀ n, requested = some n → 0 < n) :
    1 ≤ l.pageSize requested := by
  have hpage := h.page_pos
  have hmax := h.page_le
  unfold PageLimits.pageSize
  cases requested with
  | none => exact le_min hpage (hpage.trans hmax)
  | some n => exact le_min (hpos n rfl) (hpage.trans hmax)

theorem pageSize_none : l.pageSize none = l.defaultPageSize := min_eq_left h.page_le

theorem maxSimilar_pos : 1 ≤ l.maxSimilar := h.similar_pos.trans h.similar_le

end PageLimits.Ordered

variable {l : PageLimits}

theorem PageLimits.pageSize_le (requested : Option ℤ) : l.pageSize requested ≤ l.maxPageSize :=
  min_le_right _ _

theorem PostFilter.withPageSize_eq (h : l.Ordered) {f : PostFilter} (hf : f.Constructed) :
    f.withPageSize l.defaultPageSize l.maxPageSize = f.within l := by
  have hpos : 0 < l.pageSize f.limit := h.pageSize_pos hf.limit_pos
  rw [PageLimits.pageSize] at hpos
  rw [PostFilter.withPageSize, PostFilter.within, PageLimits.pageSize, if_pos hpos]

theorem SimilarityFilter.withMaxLimit_eq (h : l.Ordered) (f : SimilarityFilter) :
    f.withMaxLimit l.maxSimilar = f.within l := by
  have hpos : 0 < l.maxSimilar := h.maxSimilar_pos
  rw [SimilarityFilter.withMaxLimit, SimilarityFilter.within, if_pos hpos]

/-- Listings that differ in their limits alone are one request if these come to one size. -/
theorem PostFilter.within_eq {f g : PostFilter}
    (hrest : { f with limit := none } = { g with limit := none })
    (hlimit : (f.within l).limit = (g.within l).limit) : f.within l = g.within l :=
  congrArg₂ (fun (rest : PostFilter) n => { rest with limit := n }) hrest hlimit

/-- The same of similarity requests. -/
theorem SimilarityFilter.within_eq {f g : SimilarityFilter}
    (hrest : { f with limit := 0 } = { g with limit := 0 })
    (hlimit : (f.within l).limit = (g.within l).limit) : f.within l = g.within l :=
  congrArg₂ (fun (rest : SimilarityFilter) n => { rest with limit := n }) hrest hlimit

/-! ## Requests -/

namespace Catalog

variable {m : Type → Type} [Monad m] {c : Catalog m}

/-- A listing asks the store once, for a page of the settled size. -/
theorem findPosts_eq (h : c.limits.Ordered) {f : PostFilter} (hf : f.Constructed) :
    c.findPosts f = (do
      let page ← ofStore (c.reader.findPosts (f.within c.limits))
      pure ⟨page.posts, PageMeta.ofPage (f.within c.limits) page.posts page.total⟩) := by
  rw [findPosts, PostFilter.withPageSize_eq h hf]

/-- A similarity request asks the source once, with the settled limit. -/
theorem findSimilar_eq (h : c.limits.Ordered) {source : SimilaritySource m}
    (hsource : c.similarity = some source) (f : SimilarityFilter) :
    c.findSimilar f = ofStore (source.findSimilar (f.within c.limits)) := by
  rw [findSimilar, hsource, SimilarityFilter.withMaxLimit_eq h]

/-- With accepted settings every listing and every similarity request reaches its store with a
limit in the range of the settings, and those that come to the same limit have one cache key. -/
theorem pages_bounded {d : SettingsDraft} {s : Settings} (hs : d.resolve = .ok s)
    (hc : c.limits = s.limits) :
    (∀ f : PostFilter, f.Constructed → ∃ n,
      f.within s.limits = { f with limit := some n } ∧
      1 ≤ n ∧ n ≤ s.limits.maxPageSize ∧
      (∀ k, f.limit = some k → k ≤ s.limits.maxPageSize → n = k) ∧
      (∀ k, f.limit = some k → s.limits.maxPageSize < k → n = s.limits.maxPageSize) ∧
      (f.limit = none → n = s.limits.defaultPageSize) ∧
      c.findPosts f = (do
        let page ← ofStore (c.reader.findPosts (f.within s.limits))
        pure ⟨page.posts, PageMeta.ofPage (f.within s.limits) page.posts page.total⟩) ∧
      ∀ posts total, (PageMeta.ofPage (f.within s.limits) posts total).pageSize = n) ∧
    (∀ f : SimilarityFilter, f.Constructed → ∃ n,
      f.within s.limits = { f with limit := n } ∧ 1 ≤ n ∧ n ≤ s.limits.maxSimilar ∧
      ∀ source, c.similarity = some source →
        c.findSimilar f = ofStore (source.findSimilar (f.within s.limits))) ∧
    (∀ f g : PostFilter, { f with limit := none } = { g with limit := none } →
      (f.within s.limits).limit = (g.within s.limits).limit →
      (CachedRequest.listing (f.within s.limits)).key =
        (CachedRequest.listing (g.within s.limits)).key) ∧
    (∀ f g : SimilarityFilter, { f with limit := 0 } = { g with limit := 0 } →
      (f.within s.limits).limit = (g.within s.limits).limit →
      (CachedRequest.similar (f.within s.limits)).key =
        (CachedRequest.similar (g.within s.limits)).key) := by
  have hordered : s.limits.Ordered := SettingsDraft.limits_ordered hs
  have hlimits : c.limits.Ordered := hc ▸ hordered
  refine ⟨fun f hf => ?_, fun f hf => ?_, fun f g hrest hlimit => ?_, fun f g hrest hlimit => ?_⟩
  · refine ⟨_, rfl, hordered.pageSize_pos hf.limit_pos, PageLimits.pageSize_le _,
      fun k hk hle => ?_, fun k hk hlt => ?_, fun hnone => ?_, hc ▸ findPosts_eq hlimits hf,
      fun posts total => rfl⟩
    · rw [hk]
      exact min_eq_left hle
    · rw [hk]
      exact min_eq_right hlt.le
    · rw [hnone, hordered.pageSize_none]
  · refine ⟨_, rfl, le_min hf.normal.limit_pos hordered.maxSimilar_pos, min_le_right _ _,
      fun source hsource => hc ▸ findSimilar_eq hlimits hsource f⟩
  · rw [PostFilter.within_eq hrest hlimit]
  · rw [SimilarityFilter.within_eq hrest hlimit]

/-- A draft for small pages. -/
def smallPages : SettingsDraft where
  pages := { defaultPageSize := some 5, maxPageSize := some 9 }

/-- The settings of that draft. -/
def smallSettings : Settings where
  level := .info
  json := false
  databaseUrl := none
  maxConnections := 8
  cache := {}
  limits := { defaultPageSize := 5, maxPageSize := 9 }

theorem fifty_come_to_nine :
    smallPages.resolve = .ok smallSettings ∧
      (PostFilter.everything.withPageSize 50 50).limit = some 50 ∧
      (Bench.catalog smallSettings.limits none .plain).findPosts
          (PostFilter.everything.withPageSize 50 50) = (do
        let page ← ofStore (Bench.reader.findPosts { PostFilter.everything with limit := some 9 })
        pure ⟨page.posts, PageMeta.ofPage { PostFilter.everything with limit := some 9 }
          page.posts page.total⟩) ∧
      ((SimilarityFilter.around 7).withLimit 1000).within smallSettings.limits =
        { SimilarityFilter.around 7 with limit := 50 } := by
  have hresolve : smallPages.resolve = .ok smallSettings := by rfl
  have hlimits : (Bench.catalog smallSettings.limits none .plain).limits =
      smallSettings.limits := rfl
  obtain ⟨hposts, -⟩ := pages_bounded hresolve hlimits
  obtain ⟨n, hwithin, -, -, -, hmax, -, hfind, -⟩ :=
    hposts _ (PostFilter.Constructed.everything.withPageSize 50 50)
  obtain rfl : n = 9 := hmax 50 rfl (by decide)
  refine ⟨hresolve, rfl, ?_, by decide⟩
  rw [hfind, hwithin]
  rfl

end Catalog
end FilmCatalog
