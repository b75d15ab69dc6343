import FilmCatalog.Proofs.Sql.Database

/-!
# What commands do to a database

Each command that writes does one thing to a database in which its post is
stored (`perform_*`), said without columns and arrays. No action breaks what a
database keeps to: ids stay behind their counter, and every child row belongs to
a stored post (`continues_perform`).

Key definitions: `Database.withPost`, `Database.withKeywords`, `Database.withColors`,
`Database.revised`, `Database.stamped`, `Database.Continues`.
Key theorems: `Database.perform_insertPost`, `Database.perform_updatePost`,
`Database.perform_stampUpdates`, `Database.continues_perform`.
-/

namespace FilmCatalog.Sql.Database

variable {d d' : Database}

/-! ## Effects -/

/-- The database with a new post. -/
def withPost (d : Database) (p : NewPost) : Database :=
  { d with posts := d.posts ++ [p.record d.nextPost], nextPost := d.nextPost + 1 }

/-- The database with new keywords of a post. -/
def withKeywords (d : Database) (post : Int) (keywords : List Keyword) : Database :=
  { d with
    keywords := d.keywords ++ keywordRows post d.nextKeyword keywords
    nextKeyword := d.nextKeyword + (keywordRows post d.nextKeyword keywords).length }

/-- The database with new colors of a post. -/
def withColors (d : Database) (post : Int) (colors : List Color) : Database :=
  { d with
    colors := d.colors ++ colorRows post d.nextColor colors
    nextColor := d.nextColor + (colorRows post d.nextColor colors).length }

/-- The database without the keywords of a post. -/
def withoutKeywords (d : Database) (post : Int) : Database :=
  { d with keywords := d.keywords.filter (·.post ≠ post) }

/-- The database without the colors of a post. -/
def withoutColors (d : Database) (post : Int) : Database :=
  { d with colors := d.colors.filter (·.post ≠ post) }

/-- The database with what a patch carries for the row of a post. -/
def revised (d : Database) (post : Int) (p : Patch) : Database :=
  { d with posts := d.posts.map fun r => if r.id = post then p.onRecord r else r }

/-- The times of last changes where some categories of a post were touched. -/
def stampedRow (post now : Int) (touched : List UpdateCategory)
    (old : UpdateCategory → Option Int) : UpdateRecord :=
  ⟨post, fun c => if c ∈ touched then some now else old c⟩

/-- The database with new times of last changes of a post. -/
def stamped (d : Database) (post now : Int) (touched : List UpdateCategory) : Database :=
  { d with
    updates :=
      if ∃ r ∈ d.updates, r.post = post then
        d.updates.map fun r => if r.post = post then stampedRow post now touched r.times else r
      else d.updates ++ [stampedRow post now touched fun _ => none] }

theorem perform_lockPost (d : Database) (post : Int) :
    d.perform (.findPost (.id post) true) =
      .ok ((d.posts.filter (·.id = post)).map idRow, d) := rfl

theorem perform_insertPost (p : NewPost) :
    d.perform (.insertPost p.columns) =
      if d.Linked p.permalink then .ok ([], { d with nextPost := d.nextPost + 1 })
      else .ok ([[("id", .int d.nextPost)]], d.withPost p) := by
  rw [perform, postLayout_row, ok_bind]
  exact if_congr Iff.rfl rfl rfl

theorem perform_insertKeywords {post : Int} (h : d.Stored post) (keywords : List Keyword) :
    d.perform (.insertChildren .keywords post (keywordArrays keywords)) =
      .ok ([], d.withKeywords post keywords) := by
  have hstored : ∀ k ∈ keywordRows post d.nextKeyword keywords, d.Stored k.post := fun k hk =>
    post_of_mem_keywordRows k hk ▸ h
  rw [perform, addChildren, childRows_keywords, ok_bind, if_pos hstored]
  rfl

theorem perform_insertColors {post : Int} (h : d.Stored post) (colors : List Color) :
    d.perform (.insertChildren .colors post (colorArrays colors)) =
      .ok ([], d.withColors post colors) := by
  have hstored : ∀ c ∈ colorRows post d.nextColor colors, d.Stored c.post := fun c hc =>
    post_of_mem_colorRows c hc ▸ h
  rw [perform, addChildren, childRows_colors, ok_bind, if_pos hstored]
  rfl

theorem rowChanges_ne_nil {p : Patch} (h : p.touchesRow = true) : p.rowChanges ≠ [] := by
  obtain ⟨score, nsfw, grayscale, sprocket, colors, keywords⟩ := p
  cases score <;> cases nsfw <;> cases grayscale <;> cases sprocket <;>
    simp_all [Patch.touchesRow, Patch.rowChanges]

theorem perform_updatePost {p : Patch} (h : p.touchesRow = true) (d : Database) (post : Int) :
    d.perform (.updatePost (p.rowChanges.map fun c => (c.column, c.value)) post) =
      .ok ([], d.revised post p) := by
  have hread : ∀ r : PostRecord, (if r.id = post then
      postLayout.assign r (p.rowChanges.map fun c => (c.column, c.value)) else pure r) =
        .ok (if r.id = post then p.onRecord r else r) := by
    intro r
    split
    · exact postLayout_assign p r
    · rfl
  have hposts := mapM_ok (g := fun r => r) hread d.posts
  rw [List.map_id'] at hposts
  rw [perform, if_neg (by simpa using rowChanges_ne_nil h), hposts]
  rfl

theorem perform_stampUpdates {post : Int} (h : d.Stored post) (now : Int)
    (touched : List UpdateCategory) :
    d.perform (.upsertTimes (timesRow post now touched) keepOldTimes) =
      .ok ([], d.stamped post now touched) := by
  have hread : ∀ r : UpdateRecord, (if r.post = post then
      UpdateRecord.merged ⟨post, fun c => if c ∈ touched then some now else none⟩ r keepOldTimes
        else pure r) =
          .ok (if r.post = post then stampedRow post now touched r.times else r) := by
    intro r
    split
    · rename_i hr
      rw [merged_keepOldTimes, stampedRow, hr]
      refine congrArg (fun times => Except.ok (UpdateRecord.mk post times)) (funext fun c => ?_)
      by_cases hc : c ∈ touched <;> simp [hc]
    · rfl
  have hupdates := mapM_ok (g := fun r => r) hread d.updates
  rw [List.map_id'] at hupdates
  have hupserted : d.upserted ⟨post, fun c => if c ∈ touched then some now else none⟩ keepOldTimes =
      .ok (d.stamped post now touched).updates := by
    rw [upserted, hupdates]
    unfold stamped
    split <;> rfl
  rw [perform, updateLayout_row, ok_bind, if_pos h, hupserted]
  rfl

/-! ## Soundness -/

theorem stored_iff (d : Database) (post : Int) : d.Stored post ↔ post ∈ d.posts.map (·.id) := by
  simp [Tables.Stored]

theorem id_of_put? {r r' : PostRecord} {column : String} {v : SqlValue}
    (h : r.put? column v = some r') : r'.id = r.id := by
  unfold PostRecord.put? at h
  split at h <;> simp only [Option.map_eq_some_iff, reduceCtorEq] at h
  all_goals
    obtain ⟨_, -, rfl⟩ := h
    rfl

theorem id_of_assign {r r' : PostRecord} {columns : Assignments}
    (h : postLayout.assign r columns = .ok r') : r'.id = r.id := by
  induction columns generalizing r with
  | nil =>
    rw [Layout.assign, Except.ok.injEq] at h
    rw [h]
  | cons a rest ih =>
    rw [Layout.assign] at h
    split at h
    · rename_i s hs
      rw [ih h, id_of_put? hs]
    · cases h

theorem id_of_row {r : PostRecord} {id : Int} {columns : Assignments}
    (h : postLayout.row id columns = .ok r) : r.id = id := by
  rw [Layout.row] at h
  split at h
  · exact id_of_assign h
  · cases h

/-- What every action keeps to: it makes no sound database unsound, and the counter
of the posts never goes back. -/
structure Continues (d d' : Database) : Prop where
  sound : d.Sound → d'.Sound
  counted : d.nextPost ≤ d'.nextPost

theorem Continues.refl (d : Database) : d.Continues d := ⟨id, le_rfl⟩

/-- Soundness speaks of the ids of the posts and of the child tables alone. -/
theorem Continues.of_same (hposts : d'.posts.map (·.id) = d.posts.map (·.id))
    (hnext : d'.nextPost = d.nextPost) (hcolors : d'.colors = d.colors)
    (hkeywords : d'.keywords = d.keywords) : d.Continues d' := by
  have hstored : ∀ post, d'.Stored post ↔ d.Stored post := fun post => by
    rw [stored_iff, stored_iff, hposts]
  refine ⟨fun h => ⟨fun r hr => ?_, fun c hc => ?_, fun k hk => ?_⟩, hnext.ge⟩
  · obtain ⟨s, hs, hid⟩ := (stored_iff d r.id).2 (hposts ▸ List.mem_map_of_mem hr)
    rw [hnext, ← hid]
    exact h.ids s hs
  · exact (hstored _).2 (h.colors c (hcolors ▸ hc))
  · exact (hstored _).2 (h.keywords k (hkeywords ▸ hk))

theorem Continues.insertPost (columns : Assignments) {rows : List Row}
    (hd : d.perform (.insertPost columns) = .ok (rows, d')) : d.Continues d' := by
  obtain ⟨r, hr, hd⟩ := bind_eq_ok_iff.1 hd
  have hnext : d.nextPost < d.nextPost + 1 := lt_add_one _
  split at hd
  · -- an id is used up although no row is inserted
    cases hd
    exact ⟨fun h => ⟨fun s hs => (h.ids s hs).trans hnext, h.colors, h.keywords⟩, hnext.le⟩
  · cases hd
    have hkept : ∀ x, d.Stored x → ∃ s ∈ d.posts ++ [r], s.id = x := by
      rintro x ⟨s, hs, hid⟩
      exact ⟨s, List.mem_append_left _ hs, hid⟩
    refine ⟨fun h => ⟨fun s hs => ?_, fun c hc => hkept _ (h.colors c hc),
      fun k hk => hkept _ (h.keywords k hk)⟩, hnext.le⟩
    rcases List.mem_append.1 hs with hs | hs
    · exact (h.ids s hs).trans hnext
    · rw [List.mem_singleton.1 hs, id_of_row hr]
      exact hnext

theorem Continues.addChildren {post : Int} {arrays : Assignments} {table : ChildTable}
    (hd : d.addChildren post arrays table = .ok d') : d.Continues d' := by
  cases table with
  | colors =>
    obtain ⟨new, -, hd⟩ := bind_eq_ok_iff.1 hd
    split at hd
    · rename_i hnew
      cases hd
      refine ⟨fun h => ⟨h.ids, fun c hc => ?_, h.keywords⟩, le_rfl⟩
      exact (List.mem_append.1 hc).elim (h.colors c) (hnew c)
    · cases hd
  | keywords =>
    obtain ⟨new, -, hd⟩ := bind_eq_ok_iff.1 hd
    split at hd
    · rename_i hnew
      cases hd
      refine ⟨fun h => ⟨h.ids, h.colors, fun k hk => ?_⟩, le_rfl⟩
      exact (List.mem_append.1 hk).elim (h.keywords k) (hnew k)
    · cases hd

theorem Continues.deletePost (post : Int) {rows : List Row}
    (hd : d.perform (.deletePost post) = .ok (rows, d')) : d.Continues d' := by
  cases hd
  have hkept : ∀ x ≠ post, d.Stored x → ∃ r ∈ d.posts.filter (·.id ≠ post), r.id = x := by
    rintro x hx ⟨r, hr, rfl⟩
    exact ⟨r, List.mem_filter.2 ⟨hr, by simpa using hx⟩, rfl⟩
  refine ⟨fun h => ⟨fun r hr => h.ids r (List.mem_filter.1 hr).1, fun c hc => ?_,
    fun k hk => ?_⟩, le_rfl⟩
  · obtain ⟨hc, hne⟩ := List.mem_filter.1 hc
    exact hkept _ (by simpa using hne) (h.colors c hc)
  · obtain ⟨hk, hne⟩ := List.mem_filter.1 hk
    exact hkept _ (by simpa using hne) (h.keywords k hk)

theorem continues_perform {a : Action} {rows : List Row} (hd : d.perform a = .ok (rows, d')) :
    d.Continues d' := by
  cases a with
  | findPost key lock =>
    cases hd
    exact .refl d
  | insertPost columns => exact .insertPost columns hd
  | insertChildren table post arrays =>
    obtain ⟨d₁, hadd, hd⟩ := bind_eq_ok_iff.1 hd
    cases hd
    exact .addChildren hadd
  | updatePost changes post =>
    rw [perform] at hd
    split at hd
    · cases hd
    · obtain ⟨posts, hposts, hd⟩ := bind_eq_ok_iff.1 hd
      cases hd
      refine .of_same (map_of_mapM_ok (fun r s hs => ?_) hposts) rfl rfl rfl
      split at hs
      · exact id_of_assign hs
      · cases hs
        rfl
  | deleteChildren table post =>
    cases table with
    | colors =>
      cases hd
      exact ⟨fun h => ⟨h.ids, fun c hc => h.colors c (List.mem_filter.1 hc).1, h.keywords⟩, le_rfl⟩
    | keywords =>
      cases hd
      exact ⟨fun h => ⟨h.ids, h.colors, fun k hk => h.keywords k (List.mem_filter.1 hk).1⟩, le_rfl⟩
  | upsertTimes columns merges =>
    obtain ⟨new, -, hd⟩ := bind_eq_ok_iff.1 hd
    split at hd
    · obtain ⟨updates, -, hd⟩ := bind_eq_ok_iff.1 hd
      cases hd
      exact .of_same rfl rfl rfl rfl
    · cases hd
  | deletePost post => exact .deletePost post hd

end FilmCatalog.Sql.Database
