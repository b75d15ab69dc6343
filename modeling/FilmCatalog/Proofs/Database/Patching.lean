import FilmCatalog.Proofs.Database.Session

/-!
# What patches leave behind

A patch of a stored post gives the fields that it carries their new values,
replaces the colors or the keywords if it carries any, and notes the time for
these fields alone; nothing else in the tables changes (`Patch.Changes`). After
any number of patches every field has the value of the last patch of its post
that carried it (`Revised`).

Key definitions: `Patch.Changes`, `Revision`, `latest`, `Revised`, `Session.patchAll`.
Key theorems: `changes_patched`, `Revised.trans`, `patches_apply`.
-/

namespace FilmCatalog

open Sql

/-! ## What is known of a post -/

namespace Sql

/-- The colors of a post in the order in which they were stored. -/
def Tables.storedColors (t : Tables) (post : Int) : List Color :=
  (t.colorsOf post).map (·.color)

/-- The keywords of a post in the order in which they were stored. -/
def Tables.storedKeywords (t : Tables) (post : Int) : List Keyword :=
  (t.keywordsOf post).map (·.keyword)

namespace Database

/-- The rows of a post with its times of last changes. -/
def updatesOf (d : Database) (post : Int) : List UpdateRecord := d.updates.filter (·.post = post)

/-- When a category of a post was last changed. -/
def changedAt (d : Database) (post : Int) (c : UpdateCategory) : Option Int :=
  (d.updatesOf post).head?.bind (·.times c)

end Database
end Sql

/-- What a patch of a post does to a database, and what it leaves as it was. -/
structure Patch.Changes (p : Patch) (post now : Int) (before after : Database) : Prop where
  posts : after.posts = before.posts.map fun r => if r.id = post then p.onRecord r else r
  colors : after.storedColors post = p.colors.getD (before.storedColors post)
  keywords : after.storedKeywords post = p.keywords.getD (before.storedKeywords post)
  times : ∀ c, after.changedAt post c = if p.carries c then some now else before.changedAt post c
  colorsKept : p.colors = none → after.colors = before.colors
  keywordsKept : p.keywords = none → after.keywords = before.keywords
  otherColors : ∀ other ≠ post, after.colorsOf other = before.colorsOf other
  otherKeywords : ∀ other ≠ post, after.keywordsOf other = before.keywordsOf other
  otherTimes : ∀ other ≠ post, after.updatesOf other = before.updatesOf other

/-! ## The effect of a patch -/

namespace Sql.Database

variable {D : Dialect} {d : Database} {post : Int}

/-- The database with other keywords of a post, if some are given. -/
def reworded (d : Database) (post : Int) : Option (List Keyword) → Database
  | some keywords => (d.withoutKeywords post).withKeywords post keywords
  | none => d

/-- The database with other colors of a post, if some are given. -/
def recolored (d : Database) (post : Int) : Option (List Color) → Database
  | some colors => (d.withoutColors post).withColors post colors
  | none => d

/-- The database after a patch. -/
def patched (d : Database) (post now : Int) (p : Patch) : Database :=
  (((d.revised post p).reworded post p.keywords).recolored post p.colors).stamped post now
    p.categories

theorem revised_of_untouched {p : Patch} (h : p.touchesRow = false) (d : Database) (post : Int) :
    d.revised post p = d := by
  simp only [Patch.touchesRow, Bool.or_eq_false_iff, Option.isSome_eq_false_iff,
    Option.isNone_iff_eq_none] at h
  obtain ⟨⟨⟨hscore, hnsfw⟩, hgrayscale⟩, hsprocket⟩ := h
  have hrow : ∀ r : PostRecord, p.onRecord r = r := fun r => by
    simp [Patch.onRecord, hscore, hnsfw, hgrayscale, hsprocket]
  simp [revised, hrow]

theorem stored_revised (h : d.Stored post) (p : Patch) : (d.revised post p).Stored post := by
  obtain ⟨r, hr, hid⟩ := h
  exact ⟨p.onRecord r, List.mem_map.2 ⟨r, hr, if_pos hid⟩, hid⟩

theorem stored_reworded (h : d.Stored post) (keywords : Option (List Keyword)) :
    (d.reworded post keywords).Stored post := by
  cases keywords <;> exact h

theorem stored_recolored (h : d.Stored post) (colors : Option (List Color)) :
    (d.recolored post colors).Stored post := by
  cases colors <;> exact h

/-! ## Programs of a patch -/

theorem play_replaceKeywords (h : d.Stored post) (keywords : Option (List Keyword)) :
    (keywords.forM (Program.replaceKeywords post)).play D d =
      (.ok (), d.reworded post keywords) := by
  cases keywords with
  | none => rfl
  | some ks =>
    have hdelete : (Program.execute (.deleteKeywords post)).play D d =
        (.ok (), d.withoutKeywords post) := Program.play_execute rfl rfl
    have hstored : (d.withoutKeywords post).Stored post := h
    exact (Program.play_bind hdelete).trans (play_writeKeywords hstored ks)

theorem play_replaceColors (h : d.Stored post) (colors : Option (List Color)) :
    (colors.forM (Program.replaceColors post)).play D d = (.ok (), d.recolored post colors) := by
  cases colors with
  | none => rfl
  | some cs =>
    have hdelete : (Program.execute (.deleteColors post)).play D d =
        (.ok (), d.withoutColors post) := Program.play_execute rfl rfl
    have hstored : (d.withoutColors post).Stored post := h
    exact (Program.play_bind hdelete).trans (play_writeColors hstored cs)

/-- The row is changed if the patch touches it, then the children, then the times. -/
theorem play_patch (h : d.Stored post) (now : Int) (p : Patch) :
    (Program.patch post now p).play D d = (.ok (), d.patched post now p) := by
  obtain ⟨r, rest, hrows⟩ : ∃ r rest, d.posts.filter (·.id = post) = r :: rest := by
    obtain ⟨r, hr, hid⟩ := h
    exact List.exists_cons_of_ne_nil
      (List.ne_nil_of_mem (List.mem_filter.2 ⟨hr, by simpa using hid⟩))
  have hlock : (Program.rows (.lockPost post)).play D d = (.ok ((r :: rest).map idRow), d) :=
    Program.play_rows (reply_action rfl (hrows ▸ perform_lockPost d post))
  have hrevised := stored_revised h p
  have hreworded := stored_reworded hrevised p.keywords
  have hrecolored := stored_recolored hreworded p.colors
  have hstamp := Program.play_execute (D := D) (c := .stampUpdates post now p.categories) rfl
    (perform_stampUpdates hrecolored now p.categories)
  have hchildren := (Program.play_bind (f := fun _ =>
      p.colors.forM (Program.replaceColors post) >>= fun _ =>
        Program.execute (.stampUpdates post now p.categories))
    (play_replaceKeywords (D := D) hrevised p.keywords)).trans
      ((Program.play_bind (play_replaceColors hreworded p.colors)).trans hstamp)
  refine (Program.play_bind hlock).trans ?_
  show (if p.touchesRow then _ else _ : Program Unit).play D d = _
  split
  · rename_i htouches
    exact (Program.play_bind (Program.play_execute rfl
      (perform_updatePost htouches d post))).trans hchildren
  · -- no row is updated, and none would change
    rename_i huntouched
    have hsame := revised_of_untouched (by simpa using huntouched) d post
    rw [patched, hsame]
    rw [hsame] at hchildren
    exact hchildren

/-! ## What has changed -/

/-- Where the rows of one key are replaced, those of the others stay. -/
theorem filter_replaced {α : Type} {key : α → Int} {new : List α} (hnew : ∀ r ∈ new, key r = post)
    (rows : List α) (other : Int) :
    (rows.filter (key · ≠ post) ++ new).filter (key · = other) =
      if other = post then new else rows.filter (key · = other) := by
  rw [List.filter_append, List.filter_filter]
  split
  · rename_i ho
    have hold : rows.filter (fun r => decide (key r = other) && decide (key r ≠ post)) = [] := by
      simp [ho]
    have hall : new.filter (key · = other) = new :=
      List.filter_eq_self.2 fun r hr => by simpa [ho] using hnew r hr
    rw [hold, hall, List.nil_append]
  · rename_i ho
    have hnone : new.filter (key · = other) = [] :=
      List.filter_eq_nil_iff.2 fun r hr => by simpa [hnew r hr] using Ne.symm ho
    rw [hnone, List.append_nil]
    refine List.filter_congr fun r _ => ?_
    by_cases hr : key r = other
    · simp [hr, ho]
    · simp [hr]

theorem keywordsOf_reworded (d : Database) (post other : Int) (keywords : List Keyword) :
    (d.reworded post (some keywords)).keywordsOf other =
      if other = post then keywordRows post d.nextKeyword keywords else d.keywordsOf other :=
  filter_replaced post_of_mem_keywordRows d.keywords other

theorem colorsOf_recolored (d : Database) (post other : Int) (colors : List Color) :
    (d.recolored post (some colors)).colorsOf other =
      if other = post then colorRows post d.nextColor colors else d.colorsOf other :=
  filter_replaced post_of_mem_colorRows d.colors other

theorem updatesOf_eq_nil_iff (d : Database) (post : Int) :
    d.updatesOf post = [] ↔ ¬∃ r ∈ d.updates, r.post = post := by
  simp [updatesOf]

theorem post_restamped (post now : Int) (touched : List UpdateCategory) (r : UpdateRecord) :
    (if r.post = post then stampedRow post now touched r.times else r).post = r.post := by
  split
  · exact Eq.symm ‹_›
  · rfl

/-- Stamps change the row of the post, or add one if there is none. -/
theorem updatesOf_stamped_self (d : Database) (post now : Int) (touched : List UpdateCategory) :
    (d.stamped post now touched).updatesOf post =
      if d.updatesOf post = [] then [stampedRow post now touched fun _ => none]
      else (d.updatesOf post).map fun r => stampedRow post now touched r.times := by
  simp only [updatesOf_eq_nil_iff, ite_not]
  unfold updatesOf stamped
  split
  · rw [List.filter_map]
    simp only [Function.comp_def, post_restamped]
    refine List.map_congr_left fun r hr => if_pos ?_
    simpa using (List.mem_filter.1 hr).2
  · rename_i hnone
    have hold : d.updates.filter (·.post = post) = [] := by simpa using hnone
    rw [List.filter_append, hold]
    simp [stampedRow]

theorem updatesOf_stamped_other (d : Database) {post other : Int} (h : other ≠ post) (now : Int)
    (touched : List UpdateCategory) :
    (d.stamped post now touched).updatesOf other = d.updatesOf other := by
  unfold updatesOf stamped
  split
  · rw [List.filter_map]
    simp only [Function.comp_def, post_restamped]
    conv_rhs => rw [← List.map_id (d.updates.filter _)]
    refine List.map_congr_left fun r hr => if_neg ?_
    rw [show r.post = other by simpa using (List.mem_filter.1 hr).2]
    exact h
  · rw [List.filter_append]
    simp [stampedRow, h.symm]

theorem changedAt_stamped (d : Database) (post now : Int) (touched : List UpdateCategory)
    (c : UpdateCategory) :
    (d.stamped post now touched).changedAt post c =
      if c ∈ touched then some now else d.changedAt post c := by
  rw [changedAt, changedAt, updatesOf_stamped_self]
  cases d.updatesOf post <;> simp [stampedRow]

theorem mem_categories (p : Patch) (c : UpdateCategory) :
    c ∈ p.categories ↔ p.carries c = true := by
  simp [Patch.categories, UpdateCategory.mem_all]

theorem changes_patched (d : Database) (post now : Int) (p : Patch) :
    p.Changes post now d (d.patched post now p) := by
  have hposts : (d.patched post now p).posts =
      d.posts.map fun r => if r.id = post then p.onRecord r else r := by
    unfold patched
    cases p.keywords <;> cases p.colors <;> rfl
  have hcolors : ∀ other, (d.patched post now p).colorsOf other =
      (d.recolored post p.colors).colorsOf other := by
    unfold patched
    cases p.keywords <;> cases p.colors <;> exact fun _ => rfl
  have hkeywords : ∀ other, (d.patched post now p).keywordsOf other =
      (d.reworded post p.keywords).keywordsOf other := by
    unfold patched
    cases p.keywords <;> cases p.colors <;> exact fun _ => rfl
  have hupdates : ∀ other, (d.patched post now p).updatesOf other =
      (d.stamped post now p.categories).updatesOf other := by
    unfold patched
    cases p.keywords <;> cases p.colors <;> exact fun _ => rfl
  refine {
    posts := hposts
    colors := ?_
    keywords := ?_
    times := fun c => ?_
    colorsKept := fun h => ?_
    keywordsKept := fun h => ?_
    otherColors := fun other h => ?_
    otherKeywords := fun other h => ?_
    otherTimes := fun other h => (hupdates other).trans (updatesOf_stamped_other d h now _) }
  · rw [Tables.storedColors, hcolors]
    cases p.colors with
    | none => rfl
    | some colors => rw [colorsOf_recolored, if_pos rfl, map_colorRows, Option.getD_some]
  · rw [Tables.storedKeywords, hkeywords]
    cases p.keywords with
    | none => rfl
    | some keywords => rw [keywordsOf_reworded, if_pos rfl, map_keywordRows, Option.getD_some]
  · rw [changedAt, hupdates, ← changedAt, changedAt_stamped]
    exact if_congr (mem_categories p c) rfl rfl
  · unfold patched
    rw [h]
    cases p.keywords <;> rfl
  · unfold patched
    rw [h]
    cases p.colors <;> rfl
  · rw [hcolors]
    cases p.colors with
    | none => rfl
    | some colors => rw [colorsOf_recolored, if_neg h]
  · rw [hkeywords]
    cases p.keywords with
    | none => rfl
    | some keywords => rw [keywordsOf_reworded, if_neg h]

end Sql.Database

/-! ## One patch after the other -/

theorem Patch.eq_none_of_isEmpty {p : Patch} (h : p.isEmpty = true) :
    p = ⟨none, none, none, none, none, none⟩ := by
  obtain ⟨score, nsfw, grayscale, sprocket, colors, keywords⟩ := p
  simp_all [Patch.isEmpty, Patch.touchesRow]

/-- A patch that is sent for a post at some time. -/
structure Revision where
  post : Int
  now : Int
  patch : Patch

/-- The time that a revision notes for a category. -/
def Revision.stamp? (r : Revision) (c : UpdateCategory) : Option Int :=
  if r.patch.carries c then some r.now else none

/-- What the last revision of a post that carries a field carries for it. -/
def latest {α : Type} (field : Revision → Option α) (post : Int) (rs : List Revision) : Option α :=
  ((rs.filter (·.post = post)).filterMap field).getLast?

/-- What is left after revisions: every field of a stored post has its latest
value, or the one from before if there is none. -/
structure Revised (rs : List Revision) (before after : Database) : Prop where
  posts : after.posts = before.posts.map fun r => { r with
    score := (latest (·.patch.score) r.id rs).getD r.score
    nsfw := (latest (·.patch.nsfw) r.id rs).getD r.nsfw
    grayscale := (latest (·.patch.grayscale) r.id rs).getD r.grayscale
    sprocket := (latest (·.patch.sprocket) r.id rs).getD r.sprocket }
  colors : ∀ post, before.Stored post →
    after.storedColors post = (latest (·.patch.colors) post rs).getD (before.storedColors post)
  keywords : ∀ post, before.Stored post →
    after.storedKeywords post =
      (latest (·.patch.keywords) post rs).getD (before.storedKeywords post)
  times : ∀ post, before.Stored post → ∀ c,
    after.changedAt post c = (latest (·.stamp? c) post rs).or (before.changedAt post c)

theorem latest_singleton {α : Type} (field : Revision → Option α) (post : Int) (r : Revision) :
    latest field post [r] = if r.post = post then field r else none := by
  by_cases h : r.post = post
  · cases hf : field r <;> simp [latest, h, hf]
  · simp [latest, h]

theorem latest_append {α : Type} (field : Revision → Option α) (post : Int)
    (rs more : List Revision) :
    latest field post (rs ++ more) = (latest field post more).or (latest field post rs) := by
  rw [latest, List.filter_append, List.filterMap_append, List.getLast?_append]
  rfl

/-- A revision that carries nothing, or is of no stored post, has no value for one. -/
theorem latest_idle {α : Type} {field : Revision → Option α} {r : Revision} {d : Database}
    {post : Int}
    (hfield : ∀ post now, field ⟨post, now, ⟨none, none, none, none, none, none⟩⟩ = none)
    (h : r.patch.isEmpty = true ∨ ¬d.Stored r.post) (hp : d.Stored post) :
    latest field post [r] = none := by
  rw [latest_singleton]
  split
  · rename_i hpost
    have hempty := h.resolve_right fun hr => hr (hpost ▸ hp)
    obtain ⟨p, now, patch⟩ := r
    obtain rfl := Patch.eq_none_of_isEmpty hempty
    exact hfield p now
  · rfl

namespace Revised

variable {rs more : List Revision} {a b c : Database}

theorem stored_iff (h : Revised rs a b) (post : Int) : b.Stored post ↔ a.Stored post := by
  rw [Database.stored_iff, Database.stored_iff, h.posts, List.map_map]
  rfl

theorem refl (a : Database) : Revised [] a a where
  posts := (List.map_id' a.posts).symm
  colors _ _ := rfl
  keywords _ _ := rfl
  times _ _ _ := rfl

/-- Revisions after others count for more. -/
theorem trans (h : Revised rs a b) (h' : Revised more b c) : Revised (rs ++ more) a c where
  posts := by
    rw [h'.posts, h.posts, List.map_map]
    simp only [Function.comp_def, latest_append, Option.getD_or]
  colors post hp := by
    rw [h'.colors post ((h.stored_iff post).2 hp), h.colors post hp, latest_append, Option.getD_or]
  keywords post hp := by
    rw [h'.keywords post ((h.stored_iff post).2 hp), h.keywords post hp, latest_append,
      Option.getD_or]
  times post hp c := by
    rw [h'.times post ((h.stored_iff post).2 hp), h.times post hp, latest_append, Option.or_assoc]

/-- A revision that carries nothing, or is of no stored post, leaves everything. -/
theorem idle {r : Revision} (h : r.patch.isEmpty = true ∨ ¬a.Stored r.post) :
    Revised [r] a a where
  posts := by
    conv_lhs => rw [← List.map_id' a.posts]
    refine List.map_congr_left fun row hrow => ?_
    have hp : a.Stored row.id := ⟨row, hrow, rfl⟩
    rw [latest_idle (fun _ _ => rfl) h hp, latest_idle (fun _ _ => rfl) h hp,
      latest_idle (fun _ _ => rfl) h hp, latest_idle (fun _ _ => rfl) h hp]
    rfl
  colors post hp := by
    rw [latest_idle (fun _ _ => rfl) h hp]
    rfl
  keywords post hp := by
    rw [latest_idle (fun _ _ => rfl) h hp]
    rfl
  times post hp c := by
    rw [latest_idle (fun _ _ => by cases c <;> rfl) h hp]
    rfl

theorem of_changes {r : Revision} (h : r.patch.Changes r.post r.now a b) : Revised [r] a b where
  posts := by
    rw [h.posts]
    refine List.map_congr_left fun row _ => ?_
    simp only [latest_singleton, eq_comm (a := r.post)]
    split <;> rfl
  colors post hp := by
    rw [latest_singleton]
    split
    · rename_i hpost
      rw [← hpost, h.colors]
    · rename_i hpost
      rw [Tables.storedColors, h.otherColors post (Ne.symm hpost)]
      rfl
  keywords post hp := by
    rw [latest_singleton]
    split
    · rename_i hpost
      rw [← hpost, h.keywords]
    · rename_i hpost
      rw [Tables.storedKeywords, h.otherKeywords post (Ne.symm hpost)]
      rfl
  times post hp c := by
    rw [latest_singleton]
    split
    · rename_i hpost
      rw [← hpost, h.times, Revision.stamp?]
      split <;> rfl
    · rename_i hpost
      rw [Database.changedAt, h.otherTimes post (Ne.symm hpost)]
      rfl

end Revised

/-! ## Sessions -/

namespace Session

variable {D : Dialect} {s : Session} {log : Transcript}

/-- Sends revisions one after the other. -/
def patchAll (D : Dialect) (s : Session) (log : Transcript) : List Revision → Transcript
  | [] => log
  | r :: rest =>
    s.patchAll D (((s.server D).link r.now).writer.patch r.post r.patch log).2 rest

/-- What a patch sends, if it carries something. -/
theorem patch_eq {p : Patch} (h : p.isEmpty = false) (post now : Int) :
    ((s.server D).link now).writer.patch post p =
      ((s.server D).link now).transaction (Program.patch post now p) :=
  Operation.perform_eq (s.server D) now (.patch post p h)

theorem patch_stored (hidle : (s.after D log).saved = none) {post : Int}
    (h : (s.after D log).database.Stored post) (now : Int) {p : Patch} (hp : p.isEmpty = false) :
    ∃ log', ((s.server D).link now).writer.patch post p log = (.ok (), log') ∧
      s.after D log' = ⟨(s.after D log).database.patched post now p, none⟩ := by
  rw [patch_eq hp]
  exact transaction_play now hidle (Database.play_patch h now p)

theorem patch_unknown (hidle : (s.after D log).saved = none) {post : Int}
    (h : ¬(s.after D log).database.Stored post) (now : Int) {p : Patch} (hp : p.isEmpty = false) :
    ((s.server D).link now).writer.patch post p log =
        (.error .notFound, log ++ Transcript.fruitless (.lockPost post)) ∧
      s.after D (log ++ Transcript.fruitless (.lockPost post)) = s.after D log := by
  have hrows : (s.after D log).database.posts.filter (·.id = post) = [] := by
    simpa [Tables.Stored] using h
  have hlock : (s.after D log).database.reply D (.lockPost post) =
      (.ok [], (s.after D log).database) := by
    have hfound := Database.perform_lockPost (s.after D log).database post
    rw [hrows] at hfound
    exact Database.reply_action rfl hfound
  rw [patch_eq hp]
  exact transaction_refused now hidle rfl hlock

/-- A patch that is refused is no exception: it has nothing for any stored post. -/
theorem revised_patch (hidle : (s.after D log).saved = none) (r : Revision) :
    (s.after D (((s.server D).link r.now).writer.patch r.post r.patch log).2).saved = none ∧
      Revised [r] (s.after D log).database
        (s.after D (((s.server D).link r.now).writer.patch r.post r.patch log).2).database := by
  by_cases hp : r.patch.isEmpty = true
  · have hrefused : ((s.server D).link r.now).writer.patch r.post r.patch log =
        (.error (.invalidInput Patch.emptyReason), log) := by
      simp only [Link.writer, hp, if_true]
      rfl
    rw [hrefused]
    exact ⟨hidle, .idle (.inl hp)⟩
  · by_cases hstored : (s.after D log).database.Stored r.post
    · obtain ⟨log', hpatch, hafter⟩ := patch_stored hidle hstored r.now (by simpa using hp)
      rw [hpatch, hafter]
      exact ⟨rfl, .of_changes (Database.changes_patched _ r.post r.now r.patch)⟩
    · obtain ⟨hpatch, hafter⟩ := patch_unknown hidle hstored r.now (by simpa using hp)
      rw [hpatch, hafter]
      exact ⟨hidle, .idle (.inr hstored)⟩

theorem revised_patchAll (hidle : (s.after D log).saved = none) (rs : List Revision) :
    Revised rs (s.after D log).database (s.after D (s.patchAll D log rs)).database := by
  induction rs generalizing log with
  | nil => exact .refl _
  | cons r rest ih =>
    obtain ⟨hnext, hr⟩ := revised_patch (D := D) hidle r
    exact hr.trans (ih hnext)

end Session

/-- Over a session without an open transaction a patch of a stored post changes
what it carries and nothing else, a patch of another post writes nothing, and any
number of patches leave the latest values. The statements are written as the
actions whose effects these are. -/
theorem patches_apply (D : Dialect) (s : Session) (log : Transcript)
    (hidle : (s.after D log).saved = none) :
    (∀ (post now : Int) (p : Patch), p.isEmpty = false → (s.after D log).database.Stored post →
      ∃ log', ((s.server D).link now).writer.patch post p log = (.ok (), log') ∧
        (s.after D log').saved = none ∧
        p.Changes post now (s.after D log).database (s.after D log').database) ∧
    (∀ (post now : Int) (p : Patch), p.isEmpty = false → ¬(s.after D log).database.Stored post →
      ((s.server D).link now).writer.patch post p log =
          (.error .notFound, log ++ Transcript.fruitless (.lockPost post)) ∧
        s.after D (log ++ Transcript.fruitless (.lockPost post)) = s.after D log) ∧
    (∀ rs : List Revision,
      Revised rs (s.after D log).database (s.after D (s.patchAll D log rs)).database) ∧
    ∀ (c : Command) (a : Action), c.action? = some a →
      a.fragment = c.fragment ∧ c.statement.Carries a.fragment.tokens := by
  refine ⟨fun post now p hp h => ?_, fun post now p hp h => Session.patch_unknown hidle h now hp,
    Session.revised_patchAll hidle, fun c a h => ⟨fragment_action h, carries_action h⟩⟩
  obtain ⟨log', hpatch, hafter⟩ := Session.patch_stored hidle h now hp
  refine ⟨log', hpatch, ?_, ?_⟩
  · rw [hafter]
  · rw [hafter]
    exact Database.changes_patched _ post now p

/-- The three posts of the sample, none of them changed so far. -/
def Sql.Database.sample : Database :=
  { Tables.sample with updates := [], nextPost := 4, nextColor := 4, nextKeyword := 2 }

/-- The session of a sample without an open transaction. -/
def Session.sample : Session := ⟨.sample, none⟩

/-- A new score, and no keywords any more. -/
def Patch.sample : Patch := ⟨some 9, none, none, none, none, some []⟩

theorem patches_of_sample :
    (Session.sample.after .plain []).saved = none ∧
      (∃ log', ((Session.sample.server .plain).link 100).writer.patch 1 .sample [] =
          (.ok (), log') ∧
        (Session.sample.after .plain log').database.storedKeywords 1 = [] ∧
        (Session.sample.after .plain log').database.changedAt 1 .score = some 100 ∧
        (Session.sample.after .plain log').database.changedAt 1 .nsfw = none) ∧
      (((Session.sample.server .plain).link 100).writer.patch 9 .sample []).1 =
        .error .notFound ∧
      (Session.sample.after .plain (Session.sample.patchAll .plain []
        [⟨1, 100, .sample⟩, ⟨9, 150, .sample⟩,
          ⟨1, 200, { Patch.sample with score := none }⟩])).database.changedAt 1 .score =
        some 100 := by
  obtain ⟨hstored, hunknown, hall, -⟩ := patches_apply .plain .sample [] rfl
  have hone : Database.sample.Stored 1 := by decide
  refine ⟨rfl, ?_, ?_, ?_⟩
  · obtain ⟨log', hpatch, -, hchanges⟩ := hstored 1 100 .sample rfl hone
    exact ⟨log', hpatch, hchanges.keywords, hchanges.times .score, hchanges.times .nsfw⟩
  · rw [(hunknown 9 100 .sample rfl (by decide)).1]
  · exact (hall _).times 1 hone .score

end FilmCatalog
