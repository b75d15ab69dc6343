import FilmCatalog.Proofs.Result
import FilmCatalog.Settings.Draft

/-!
# Settings that were accepted

A draft that becomes settings kept the rules, and so do the settings: the sizes of
the caches and their times to live are positive, and of both kinds of page the
default is at least one, at most its maximum, and the maximum fits 32 bits.

Key definitions: `PageLimits.Ordered`, `CacheConfig.Positive`.
Key theorems: `SettingsDraft.resolve_sections`, `SettingsDraft.limits_ordered`,
`SettingsDraft.cache_positive`.
-/

namespace FilmCatalog

/-- Whether each default is at least one and at most its maximum, and that fits 32 bits. -/
structure PageLimits.Ordered (l : PageLimits) : Prop where
  page_pos : 1 ≤ l.defaultPageSize
  page_le : l.defaultPageSize ≤ l.maxPageSize
  page_word : l.maxPageSize ≤ 4294967295
  similar_pos : 1 ≤ l.defaultSimilar
  similar_le : l.defaultSimilar ≤ l.maxSimilar
  similar_word : l.maxSimilar ≤ 4294967295

namespace CacheConfig

/-- The times to live, in seconds, of what a cache of these settings holds. -/
def lifetimes (c : CacheConfig) : List ℕ :=
  [c.postsTtl, c.authorsTtl, c.similarTtl, c.similarIdsTtl]

/-- Whether nothing that is counted or timed is zero. -/
structure Positive (c : CacheConfig) : Prop where
  lifetimes_pos : ∀ ttl ∈ c.lifetimes, 0 < ttl
  capacity_pos : 0 < c.memoryCapacity
  timeout_pos : 0 < c.writeTimeout
  workers_pos : 0 < c.workers
  queue_pos : 0 < c.queue

end CacheConfig

/-! ## Rules -/

theorem positive_eq_ok_iff {key : String} {n k : ℕ} : positive key n = .ok k ↔ 0 < n ∧ n = k := by
  unfold positive
  by_cases hn : n = 0 <;> simp [hn, Nat.pos_iff_ne_zero]

theorem positiveWord_eq_ok_iff {key : String} {n k : ℕ} :
    positiveWord key n = .ok k ↔ 0 < n ∧ n ≤ 4294967295 ∧ n = k := by
  have hword : IntRange.word.holds n = true ↔ n ≤ 4294967295 := by
    simp [IntRange.holds, IntRange.word]
  unfold positiveWord
  by_cases hn : n = 0
  · simp [hn]
  · by_cases hw : n ≤ 4294967295 <;> simp [hn, hword, hw, Nat.pos_iff_ne_zero]

/-- Two sizes are accepted if they are positive, fit 32 bits and are in order. -/
theorem sizePair_eq_ok_iff {key maxKey : String} {size maximum : ℕ} {pair : ℕ × ℕ} :
    sizePair key maxKey size maximum = .ok pair ↔
      0 < size ∧ size ≤ maximum ∧ maximum ≤ 4294967295 ∧ pair = (size, maximum) := by
  unfold sizePair
  simp only [bind_eq_ok_iff, positiveWord_eq_ok_iff]
  constructor
  · rintro ⟨_, ⟨hsize, -, rfl⟩, _, ⟨-, hword, rfl⟩, h⟩
    split at h
    · cases h
    · rename_i hle
      cases h
      exact ⟨hsize, not_lt.1 hle, hword, rfl⟩
  · rintro ⟨hsize, hle, hword, rfl⟩
    refine ⟨size, ⟨hsize, hle.trans hword, rfl⟩, maximum, ⟨hsize.trans_le hle, hword, rfl⟩, ?_⟩
    rw [if_neg (not_lt.2 hle)]
    rfl

/-! ## Sections -/

theorem PagesDraft.ordered {d : PagesDraft} {l : PageLimits} (h : d.resolve = .ok l) :
    l.Ordered := by
  unfold PagesDraft.resolve at h
  simp only [bind_eq_ok_iff, sizePair_eq_ok_iff] at h
  obtain ⟨_, ⟨hpos, hle, hword, rfl⟩, _, ⟨hpos', hle', hword', rfl⟩, h⟩ := h
  cases h
  constructor <;> dsimp only <;> omega

theorem CacheDraft.positive {d : CacheDraft} {c : CacheConfig} (h : d.resolve = .ok c) :
    c.Positive := by
  unfold CacheDraft.resolve at h
  simp only [bind_eq_ok_iff, positive_eq_ok_iff] at h
  obtain ⟨backend, -, url, -, _, ⟨htimeout, rfl⟩, _, ⟨hcapacity, rfl⟩, _, ⟨hposts, rfl⟩, _,
    ⟨hauthors, rfl⟩, _, ⟨hsimilar, rfl⟩, _, ⟨hids, rfl⟩, _, ⟨hworkers, rfl⟩, _, ⟨hqueue, rfl⟩,
    h⟩ := h
  cases h
  refine ⟨?_, hcapacity, htimeout, hworkers, hqueue⟩
  simpa only [CacheConfig.lifetimes, List.forall_mem_cons, List.not_mem_nil, false_implies,
    implies_true, and_true] using ⟨hposts, hauthors, hsimilar, hids⟩

namespace SettingsDraft

variable {d : SettingsDraft} {s : Settings} (h : d.resolve = .ok s)

include h

/-- The sections of settings are those of their draft. -/
theorem resolve_sections : d.cache.resolve = .ok s.cache ∧ d.pages.resolve = .ok s.limits := by
  unfold resolve at h
  obtain ⟨level, -, h⟩ := bind_eq_ok_iff.1 h
  obtain ⟨connections, -, h⟩ := bind_eq_ok_iff.1 h
  obtain ⟨cache, hcache, h⟩ := bind_eq_ok_iff.1 h
  obtain ⟨limits, hlimits, h⟩ := bind_eq_ok_iff.1 h
  cases h
  exact ⟨hcache, hlimits⟩

theorem limits_ordered : s.limits.Ordered := PagesDraft.ordered (resolve_sections h).2

theorem cache_positive : s.cache.Positive := CacheDraft.positive (resolve_sections h).1

end SettingsDraft
end FilmCatalog
