import FilmCatalog.Proofs.Database.ReadBack
import FilmCatalog.Proofs.Database.Session

/-!
# Created posts are found

A post is created as it was submitted, and found again with its children in the
order of listings. So a reader sees what the creator was told if and only if the
colors and the keywords were given in that order (`found_as_created_iff`).

Key definitions: `Database.created`, `SharesDescend`, `WeightsDescend`.
Key theorems: `play_find`, `play_insert`, `post_created`, `Session.create_then_find`,
`found_as_created_iff`.
-/

namespace FilmCatalog

open Sql

/-! ## Looking for one post -/

theorem idSet_singleton (id : Int) : idSet [id] = [id] := by
  simp [idSet, dropRepeats, dropRepeats.go]

theorem seeded_byIds (ids : List Int) : (PostFilter.byIds ids).Seeded := nofun

/-- The filter for one id matches the post with that id. -/
theorem matches_byIds_iff (D : Dialect) (t : Tables) (id : Int) (r : PostRecord) :
    (PostFilter.byIds [id]).Matches D t r ↔ r.id = id := by
  constructor
  · intro h
    simpa [idSet_singleton] using h.ids _ rfl
  · intro h
    refine {
      nsfw := nofun
      grayscale := nofun
      sprocket := nofun
      ids := ?_
      title := nofun
      author := nofun
      width := ⟨nofun, nofun⟩
      height := ⟨nofun, nofun⟩
      ratio := fun hratio => absurd rfl hratio
      colors := fun c hc => absurd hc List.not_mem_nil
      keywords := fun w hw => absurd hw List.not_mem_nil
      cursor := nofun }
    rintro _ ⟨⟩
    simp [idSet_singleton, h]

/-- Looking for the id of a single row finds its post. -/
theorem play_find {D : Dialect} {d : Database} {r : PostRecord} {id : Int}
    (h : d.posts.filter (·.id = id) = [r]) :
    (Program.listing (PostFilter.byIds [id])).play D d = (.ok ⟨[d.post r], 1⟩, d) := by
  have hrows : d.matchingRows D (PostFilter.byIds [id]) = [r] := by
    simp only [Tables.matchingRows, matches_byIds_iff, h, List.mergeSort_singleton]
  have hanswer := ListingQuery.answer_eq D d.toTables (seeded_byIds [id])
  rw [hrows] at hanswer
  have hpage := pageOf_cells d.toTables 1 [r]
  rw [Operation.listing_eq]
  refine (Program.play_bind (Program.play_rows (Database.reply_listing hanswer))).trans ?_
  show (Operation.pageOf ([r].map fun r => (d.joinedRow r).cells 1)).play D d = _
  rw [hpage]
  rfl

/-! ## Creating a post -/

namespace Sql.Database

variable {D : Dialect} {d : Database} {p : NewPost}

/-- The database with a new post and its children. -/
def created (d : Database) (p : NewPost) : Database :=
  ((d.withPost p).withKeywords d.nextPost p.keywords).withColors d.nextPost p.colors

theorem stored_withPost (d : Database) (p : NewPost) : (d.withPost p).Stored d.nextPost :=
  ⟨p.record d.nextPost, List.mem_append_right _ List.mem_cons_self, rfl⟩

/-- The row is inserted, then the keywords and the colors under its id. -/
theorem play_insert (h : ¬d.Linked p.permalink) :
    (Program.insert p).play D d = (.ok (p.toPost d.nextPost), d.created p) := by
  have hperform : d.perform (.insertPost p.columns) =
      .ok ([[("id", .int d.nextPost)]], d.withPost p) := by
    rw [perform_insertPost, if_neg h]
  have hinsert : (Program.rows (.insertPost p)).play D d =
      (.ok [[("id", .int d.nextPost)]], d.withPost p) :=
    Program.play_rows (reply_action rfl hperform)
  -- children are accepted because their post is stored by then
  have hstored := stored_withPost d p
  have hstored' : ((d.withPost p).withKeywords d.nextPost p.keywords).Stored d.nextPost := hstored
  refine (Program.play_bind hinsert).trans ?_
  refine (Program.play_bind (f := fun _ => Program.writeColors d.nextPost p.colors >>= fun _ =>
    pure (p.toPost d.nextPost)) (play_writeKeywords hstored p.keywords)).trans ?_
  exact Program.play_bind (play_writeColors hstored' p.colors)

theorem ne_nextPost_of_stored (h : d.Sound) {post : Int} (hp : d.Stored post) :
    post ≠ d.nextPost := by
  obtain ⟨r, hr, rfl⟩ := hp
  exact (h.ids r hr).ne

/-- A new id is in no row that is there already. -/
theorem filter_append_new {α : Type} {key : α → Int} {id : Int} {rows new : List α}
    (hrows : ∀ r ∈ rows, key r ≠ id) (hnew : ∀ r ∈ new, key r = id) :
    (rows ++ new).filter (key · = id) = new := by
  rw [List.filter_append, List.filter_eq_nil_iff.2 fun r hr => by simpa using hrows r hr,
    List.nil_append]
  exact List.filter_eq_self.2 fun r hr => by simpa using hnew r hr

/-- The new row is the only one of its id. -/
theorem filter_created (h : d.Sound) (p : NewPost) :
    (d.created p).posts.filter (·.id = d.nextPost) = [p.record d.nextPost] :=
  filter_append_new (fun r hr => (h.ids r hr).ne) fun r hr => by rw [List.mem_singleton.1 hr]; rfl

/-- All children under the new id are those of the new post. -/
theorem post_created (h : d.Sound) (p : NewPost) :
    (d.created p).post (p.record d.nextPost) = p.readBack d.nextPost := by
  have hcolors : (d.created p).colorsOf d.nextPost = colorRows d.nextPost d.nextColor p.colors :=
    filter_append_new (fun c hc => ne_nextPost_of_stored h (h.colors c hc)) post_of_mem_colorRows
  have hkeywords : (d.created p).keywordsOf d.nextPost =
      keywordRows d.nextPost d.nextKeyword p.keywords :=
    filter_append_new (fun k hk => ne_nextPost_of_stored h (h.keywords k hk))
      post_of_mem_keywordRows
  exact post_inserted _ p hcolors hkeywords

end Sql.Database

namespace Session

variable {D : Dialect} {s : Session} {log : Transcript} {p : NewPost}

theorem findPost_eq (link : Link (StateM Transcript)) (id : Int) (log : Transcript) :
    link.reader.findPost id log =
      match link.transaction (Program.listing (PostFilter.byIds [id])) log with
      | (.ok page, log) => (.ok page.posts.head?, log)
      | (.error e, log) => (.error e, log) := by
  show (link.transaction _ >>= fun page : PostPage => pure page.posts.head? :
    ExceptT StoreError (StateM Transcript) (Option Post)) log = _
  simp only [bind, ExceptT.bind, ExceptT.mk, StateT.bind]
  rcases link.transaction (Program.listing (PostFilter.byIds [id])) log with ⟨_ | page, log'⟩ <;>
    rfl

/-- A post with a new permalink is created under a new id. It is found with its
children in the order of listings. -/
theorem create_then_find (hs : s.Sound) (hidle : (s.after D log).saved = none)
    (hnew : ¬(s.after D log).database.Linked p.permalink) (now later : Int) :
    ∃ log₁ log₂,
      ((s.server D).link now).writer.create p log =
        (.ok (p.toPost (s.after D log).database.nextPost), log₁) ∧
      ((s.server D).link later).reader.findPost (s.after D log).database.nextPost log₁ =
        (.ok (some (p.readBack (s.after D log).database.nextPost)), log₂) := by
  have hsound := (sound_after (D := D) hs log).database
  set d := (s.after D log).database with hd
  obtain ⟨log₁, hcreate, hafter⟩ :=
    transaction_play now hidle (D := D) (hd ▸ Database.play_insert (D := D) hnew)
  have hidle₁ : (s.after D log₁).saved = none := by rw [hafter]
  have hfind := play_find (D := D) (Database.filter_created hsound p)
  rw [Database.post_created hsound p] at hfind
  obtain ⟨log₂, hpage, -⟩ := transaction_play later hidle₁ (D := D) (p := Program.listing
    (PostFilter.byIds [d.nextPost])) (by rw [hafter]; exact hfind)
  refine ⟨log₁, log₂, hcreate, ?_⟩
  rw [findPost_eq, hpage]
  rfl

end Session

/-! ## What is created and what is found -/

/-- Whether colors are given by their share, the greatest first. -/
def SharesDescend (colors : List Color) : Prop :=
  colors.Pairwise fun a b => b.percent.standing ≤ a.percent.standing

/-- Whether keywords are given by their weight, the greatest first. -/
def WeightsDescend (keywords : List Keyword) : Prop :=
  keywords.Pairwise fun a b => b.weight.standing ≤ a.weight.standing

instance (colors : List Color) : Decidable (SharesDescend colors) :=
  inferInstanceAs (Decidable (colors.Pairwise _))

instance (keywords : List Keyword) : Decidable (WeightsDescend keywords) :=
  inferInstanceAs (Decidable (keywords.Pairwise _))

/-- Sorting by a score leaves alone what descends already, and nothing else. -/
theorem mergeSort_eq_self_iff {α : Type} (score : α → Int) (as : List α) :
    (as.mergeSort fun a b => decide (score b ≤ score a)) = as ↔
      as.Pairwise fun a b => score b ≤ score a := by
  constructor
  · intro h
    rw [← h]
    have hsorted : (as.mergeSort fun a b => decide (score b ≤ score a)).Pairwise
        fun a b => decide (score b ≤ score a) :=
      List.pairwise_mergeSort
        (fun a b c hab hbc => by
          simp only [decide_eq_true_eq] at *
          exact hbc.trans hab)
        (fun a b => by simpa using le_total (score b) (score a)) as
    exact hsorted.imp fun h => by simpa using h
  · intro h
    exact List.mergeSort_of_pairwise (h.imp fun h => by simpa using h)

theorem readBack_eq_iff (p : NewPost) (id : Int) :
    p.readBack id = p.toPost id ↔ SharesDescend p.colors ∧ WeightsDescend p.keywords := by
  rw [SharesDescend, WeightsDescend, ← mergeSort_eq_self_iff, ← mergeSort_eq_self_iff]
  simp [NewPost.readBack, NewPost.toPost, byShare, byWeight]

/-- A submission that is accepted and has a new permalink is created as it was
given, and found with its children in the order of listings. The two posts are
equal if its colors and its keywords descend, and only then. -/
theorem found_as_created_iff (D : Dialect) (s : Session) (hs : s.Sound) (log : Transcript)
    (hidle : (s.after D log).saved = none) (given : Submission) (p : NewPost)
    (hvalid : given.validate = .ok p) (hnew : ¬(s.after D log).database.Linked p.permalink)
    (now later : Int) :
    ∃ created found log₁ log₂,
      ((s.server D).link now).writer.create p log = (.ok created, log₁) ∧
      ((s.server D).link later).reader.findPost created.id log₁ = (.ok (some found), log₂) ∧
      created = p.toPost (s.after D log).database.nextPost ∧
      found = { created with colors := byShare given.colors, keywords := byWeight given.keywords } ∧
      (found = created ↔ SharesDescend given.colors ∧ WeightsDescend given.keywords) := by
  obtain ⟨log₁, log₂, hcreate, hfind⟩ := Session.create_then_find hs hidle hnew now later
  have haccepted := Submission.accepted hvalid
  rw [← haccepted.colors, ← haccepted.keywords]
  exact ⟨_, _, log₁, log₂, hcreate, hfind, rfl, rfl, readBack_eq_iff p _⟩

/-- A session on empty tables. -/
def Session.empty : Session := ⟨⟨⟨[], [], []⟩, [], 1, 1, 1⟩, none⟩

theorem Session.sound_empty : Session.empty.Sound where
  database := ⟨by simp [Session.empty], by simp [Session.empty], by simp [Session.empty]⟩
  saved := by simp [Session.empty]
  counted := by simp [Session.empty]

/-- The sample with its children the other way round. -/
def Submission.descending : Submission :=
  { Submission.sample with
    colors := Submission.sample.colors.reverse, keywords := Submission.sample.keywords.reverse }

/-- What is stored of it. -/
def NewPost.descending : NewPost :=
  { NewPost.sample with
    colors := NewPost.sample.colors.reverse, keywords := NewPost.sample.keywords.reverse }

theorem descending_found_as_created :
    Submission.descending.validate = .ok .descending ∧
      ∃ created log₁ log₂,
        ((Session.empty.server .plain).link 7).writer.create .descending [] = (.ok created, log₁) ∧
        ((Session.empty.server .plain).link 8).reader.findPost created.id log₁ =
          (.ok (some created), log₂) := by
  have hvalid : Submission.descending.validate = .ok .descending := by decide
  obtain ⟨created, found, log₁, log₂, hcreate, hfind, -, -, hiff⟩ :=
    found_as_created_iff .plain .empty Session.sound_empty [] rfl .descending .descending hvalid
      (by decide) 7 8
  rw [hiff.2 ⟨by decide, by decide⟩] at hfind
  exact ⟨hvalid, created, log₁, log₂, hcreate, hfind⟩

/-- The sample is created with the smallest color first and found with the
greatest one first. -/
theorem sample_found_otherwise :
    Submission.sample.validate = .ok .sample ∧
      ¬(Session.empty.after .plain []).database.Linked NewPost.sample.permalink ∧
      ∃ created found log₁ log₂,
        ((Session.empty.server .plain).link 7).writer.create .sample [] = (.ok created, log₁) ∧
        ((Session.empty.server .plain).link 8).reader.findPost created.id log₁ =
          (.ok (some found), log₂) ∧
        created.colors.map (·.html) = ["black", "teal", "gray", "red", "white"] ∧
        found.colors.map (·.html) = ["white", "red", "teal", "gray", "black"] ∧
        found ≠ created := by
  have hnew : ¬(Session.empty.after .plain []).database.Linked NewPost.sample.permalink := by
    decide
  obtain ⟨log₁, log₂, hcreate, hfind⟩ :=
    Session.create_then_find Session.sound_empty rfl hnew 7 8
  refine ⟨by decide, hnew, _, _, log₁, log₂, hcreate, hfind, rfl, by cbv, ?_⟩
  rw [ne_eq, readBack_eq_iff]
  decide

end FilmCatalog
