import FilmCatalog.Proofs.Database.ReadBack
import FilmCatalog.Proofs.Database.Session
import FilmCatalog.Proofs.Listing.Decoding

/-!
# Submissions of stored and of new permalinks

The command that inserts a post tells by its rows whether the permalink is new.
If it is not, the stored post is read back by its permalink and its id, and no
other command is sent (`Reread`); what comes of it is decided by the replies alone.
If it is, the children of the submission are written under the new id, each of them
once (`childWrites`). The server may answer anything.

What is sent is said of the exchanges of a program (`Program.Trace`). A
transaction adds nothing to them, and its commit decides whether a value counts
(`transaction_trace`).

Key definitions: `Transcript.exchanges`, `Program.Trace`, `Program.Settled`,
`Program.SentAll`, `childWrites`, `AddsExactly`, `Listed`, `Reread`.
Key theorems: `run_trace`, `transaction_trace`, `trace_sendAll`, `trace_storedPost`,
`Reread.notFound_iff`, `adds_childWrites`, `reread_or_written`.
-/

namespace FilmCatalog

open Sql

/-! ## Exchanges -/

/-- The commands of a transcript with their replies. -/
def Transcript.exchanges (log : Transcript) : List Exchange :=
  log.filterMap fun entry =>
    match entry.1 with
    | .run c => some (c, entry.2)
    | _ => none

theorem exchanges_append (log more : Transcript) :
    Transcript.exchanges (log ++ more) = log.exchanges ++ more.exchanges :=
  List.filterMap_append

theorem exchanges_map_entry (xs : List Exchange) :
    Transcript.exchanges (xs.map Exchange.entry) = xs := by
  induction xs with
  | nil => rfl
  | cons x rest ih => exact congrArg (x :: ·) ih

namespace Program

variable {α : Type}

/-- Whether some exchanges are all that a program makes, and what it ends with then. -/
def Trace : Program α → List Exchange → Except StoreError α → Prop
  | .done a, xs, r => xs = [] ∧ r = .ok a
  | .fail e, xs, r => xs = [] ∧ r = .error e
  | .send c next, xs, r =>
    (∃ e, xs = [(c, .error e)] ∧ r = .error e.toStoreError) ∨
      ∃ rows rest, xs = (c, .ok rows) :: rest ∧ (next rows).Trace rest r

/-- Over any server a program makes exchanges of its own and ends as they say. -/
theorem run_trace (server : Server) (now : Int) (p : Program α) (log : Transcript) :
    ∃ xs r, p.Trace xs r ∧
      p.run (server.link now) log = (r, log ++ xs.map Exchange.entry) := by
  induction p generalizing log with
  | done a => exact ⟨[], .ok a, ⟨rfl, rfl⟩, by simp [run]; rfl⟩
  | fail e => exact ⟨[], .error e, ⟨rfl, rfl⟩, by simp [run]; rfl⟩
  | send c next ih =>
    rw [run_send]
    cases server log (.run c) with
    | error e => exact ⟨_, _, .inl ⟨e, rfl, rfl⟩, rfl⟩
    | ok rows =>
      obtain ⟨xs, r, htrace, hrun⟩ := ih rows (log ++ [(.run c, .ok rows)])
      refine ⟨_, r, .inr ⟨rows, xs, rfl, htrace⟩, ?_⟩
      simp [hrun, Exchange.entry]

/-- How a transaction ends after its program, given all that was sent: a value
counts if the commit succeeds, an error is the one of the program. -/
inductive Settled (log : Transcript) : Except StoreError α → Except StoreError α → Prop where
  | committed {a : α} {rows : List Row} (h : (.commit, .ok rows) ∈ log) :
      Settled log (.ok a) (.ok a)
  | uncommitted {a : α} {e : DatabaseFault} (h : (.commit, .error e) ∈ log) :
      Settled log (.ok a) (.error e.toStoreError)
  | failed (e : StoreError) : Settled log (.error e) (.error e)

theorem settle_exchanges (server : Server) (now : Int) (a : α) (log : Transcript) :
    ∃ (ending : Transcript) (result : Except StoreError α), ending.exchanges = [] ∧
      (server.link now).settle a log = (result, log ++ ending) ∧
        Settled (log ++ ending) (.ok a) result := by
  rw [Server.settle_eq]
  cases server log .commit with
  | ok done =>
    have hsent : (Request.commit, Except.ok done) ∈ log ++ [(.commit, .ok done)] := by simp
    exact ⟨[(.commit, .ok done)], .ok a, rfl, rfl, .committed hsent⟩
  | error e =>
    refine ⟨[(.commit, .error e), (.rollback, server (log ++ [(.commit, .error e)]) .rollback)],
      .error e.toStoreError, rfl, by simp, .uncommitted (by simp)⟩

theorem abandon_exchanges (server : Server) (now : Int) (log : Transcript) :
    ∃ ending : Transcript, ending.exchanges = [] ∧
      ((server.link now).abandon log).2 = log ++ ending := by
  rw [Server.abandon_eq]
  cases server log .rollback with
  | ok done => exact ⟨_, rfl, rfl⟩
  | error e =>
    exact ⟨[(.rollback, .error e), (.rollback, server (log ++ [(.rollback, .error e)]) .rollback)],
      rfl, by simp⟩

/-- Between requests that are no commands stand the exchanges of a program alone. -/
theorem exchanges_between {start ending : Transcript} (hstart : start.exchanges = [])
    (hending : ending.exchanges = []) (xs : List Exchange) :
    Transcript.exchanges (start ++ xs.map Exchange.entry ++ ending) = xs := by
  rw [exchanges_append, exchanges_append, exchanges_map_entry, hstart, hending, List.nil_append,
    List.append_nil]

/-- A transaction makes the exchanges of its program and ends after it, unless
it does not even begin. -/
theorem transaction_trace (server : Server) (now : Int) (p : Program α) :
    ∃ result log, (server.link now).transaction p [] = (result, log) ∧
      ((∃ e, log = [(.begin, .error e)] ∧ result = .error e.toStoreError) ∨
        ∃ r, p.Trace log.exchanges r ∧ Settled log r result) := by
  rw [Server.transaction_eq]
  cases server [] .begin with
  | error e => exact ⟨_, _, rfl, .inl ⟨e, rfl, rfl⟩⟩
  | ok begun =>
    obtain ⟨start, hlog⟩ : ∃ start : Transcript, start = [(.begin, .ok begun)] := ⟨_, rfl⟩
    have hstart : start.exchanges = [] := by
      rw [hlog]
      rfl
    simp only [List.nil_append, ← hlog]
    obtain ⟨xs, r, htrace, hrun⟩ := run_trace server now p start
    simp only [hrun]
    cases r with
    | ok a =>
      obtain ⟨ending, result, hending, hsettle, hsettled⟩ := settle_exchanges server now a
        (start ++ xs.map Exchange.entry)
      exact ⟨_, _, hsettle, .inr ⟨_, by rwa [exchanges_between hstart hending], hsettled⟩⟩
    | error e =>
      obtain ⟨ending, hending, habandon⟩ := abandon_exchanges server now
        (start ++ xs.map Exchange.entry)
      exact ⟨_, _, rfl,
        .inr ⟨_, by rwa [habandon, exchanges_between hstart hending], .failed e⟩⟩

/-- Sends commands one after the other and ends with a value. -/
def sendAll (a : α) : List Command → Program α
  | [] => .done a
  | c :: rest => .send c fun _ => sendAll a rest

/-- What comes of commands one after the other: all are sent if all are answered,
and the first fault ends them. -/
structure SentAll (a : α) (cs : List Command) (xs : List Exchange) (r : Except StoreError α) :
    Prop where
  commands : xs.map Prod.fst <+: cs
  answered : (∀ x ∈ xs, ∃ rows, x.2 = .ok rows) → xs.map Prod.fst = cs ∧ r = .ok a
  failed : ∀ x ∈ xs, ∀ e, x.2 = .error e → r = .error e.toStoreError

theorem trace_sendAll {a : α} {cs : List Command} {xs : List Exchange} {r : Except StoreError α}
    (h : (sendAll a cs).Trace xs r) : SentAll a cs xs r := by
  induction cs generalizing xs with
  | nil =>
    obtain ⟨rfl, rfl⟩ := h
    exact ⟨List.prefix_rfl, fun _ => ⟨rfl, rfl⟩, fun x hx => absurd hx List.not_mem_nil⟩
  | cons c rest ih =>
    rcases h with ⟨e, rfl, rfl⟩ | ⟨rows, ys, rfl, h⟩
    · refine ⟨⟨rest, rfl⟩, fun hok => ?_, ?_⟩
      · obtain ⟨rows, hrows⟩ := hok _ List.mem_cons_self
        cases hrows
      · rintro x hx e' he
        rw [List.mem_singleton.1 hx] at he
        rw [Except.error.inj he]
    · obtain ⟨hcommands, hanswered, hfailed⟩ := ih h
      refine ⟨(List.prefix_cons_inj c).2 hcommands, fun hok => ?_, ?_⟩
      · obtain ⟨hall, hr⟩ := hanswered fun x hx => hok x (List.mem_cons_of_mem _ hx)
        exact ⟨congrArg (c :: ·) hall, hr⟩
      · rintro x hx e he
        rcases List.mem_cons.1 hx with rfl | hx
        · cases he
        · exact hfailed x hx e he

end Program

/-! ## Submissions -/

/-- The commands that write the children of a new post; colors are always there. -/
def childWrites (id : Int) (keywords : List Keyword) (colors : List Color) : List Command :=
  (if keywords.isEmpty then [] else [.insertKeywords id keywords]) ++ [.insertColors id colors]

/-- Whether commands add some keywords and colors of a post to every database
that stores it, each once and in their order, and nothing else. -/
def AddsExactly (cs : List Command) (id : Int) (keywords : List Keyword) (colors : List Color) :
    Prop :=
  ∀ (D : Dialect) (d : Database), d.Stored id →
    ∃ ks ls, ks.map KeywordRecord.keyword = keywords ∧ (∀ k ∈ ks, k.post = id) ∧
      ls.map ColorRecord.color = colors ∧ (∀ l ∈ ls, l.post = id) ∧
      (cs.foldl (fun d c => (d.reply D c).2) d).toTables =
        ⟨d.posts, d.colors ++ ls, d.keywords ++ ks⟩ ∧
      (cs.foldl (fun d c => (d.reply D c).2) d).updates = d.updates

/-- What the reply to a listing of one id comes to. -/
inductive Listed : Reply → Except StoreError Post → Prop where
  | failed (e : DatabaseFault) : Listed (.error e) (.error e.toStoreError)
  | gone : Listed (.ok []) (.error .notFound)
  /-- A row cannot be read. -/
  | spoiled {rows : List Row} {e : StoreError} (h : listingObjection? rows = some e) :
      Listed (.ok rows) (.error e)
  | stored {row : Row} {rows : List Row} {read : PostRow} {post : Post}
      (h : listingObjection? (row :: rows) = none) (hread : PostRow.ofRow row = .ok read)
      (hpost : read.toPost = .ok post) : Listed (.ok (row :: rows)) (.ok post)

/-- What is sent if the permalink is stored already, and what comes of it: the id
is looked for, and when there is one the post of this id. -/
inductive Reread (permalink : String) : List Exchange → Except StoreError Post → Prop where
  | failed (e : DatabaseFault) :
      Reread permalink [(.idOfPermalink permalink, .error e)] (.error e.toStoreError)
  | unlinked : Reread permalink [(.idOfPermalink permalink, .ok [])] (.error .notFound)
  /-- The first row has no id. -/
  | untyped {row : Row} {rows : List Row} {e : DatabaseFault}
      (h : row.single Cell.asInt = .error e) :
      Reread permalink [(.idOfPermalink permalink, .ok (row :: rows))] (.error e.toStoreError)
  | found {row : Row} {rows : List Row} {id : Int} {reply : Reply} {r : Except StoreError Post}
      (h : row.single Cell.asInt = .ok id) (hr : Listed reply r) :
      Reread permalink [(.idOfPermalink permalink, .ok (row :: rows)),
        (.listing (.ofFilter (.byIds [id])), reply)] r

/-- What follows on the first id of an answer: a fault, an answer without rows,
one whose first row has no id, or one with an id. -/
theorem trace_firstId {α : Type} {c : Command} {k : Option Int → Program α} {xs : List Exchange}
    {r : Except StoreError α} (h : (do k (← Program.firstId (← Program.rows c))).Trace xs r) :
    (∃ e, xs = [(c, .error e)] ∧ r = .error e.toStoreError) ∨
    (∃ rest, xs = (c, .ok []) :: rest ∧ (k none).Trace rest r) ∨
    (∃ row rows e, xs = [(c, .ok (row :: rows))] ∧ row.single Cell.asInt = .error e ∧
      r = .error e.toStoreError) ∨
    ∃ row rows id rest, xs = (c, .ok (row :: rows)) :: rest ∧ row.single Cell.asInt = .ok id ∧
      (k (some id)).Trace rest r := by
  rcases h with hfault | ⟨rows, rest, rfl, h⟩
  · exact .inl hfault
  · right
    cases rows with
    | nil => exact .inl ⟨rest, rfl, h⟩
    | cons row rows =>
      right
      replace h : (Program.firstId (row :: rows) >>= k).Trace rest r := h
      cases hid : row.single Cell.asInt with
      | error e =>
        rw [Operation.firstId_of_error hid] at h
        obtain ⟨rfl, rfl⟩ := h
        exact .inl ⟨row, rows, e, rfl, hid, rfl⟩
      | ok id =>
        rw [Operation.firstId_of_ok hid] at h
        exact .inr ⟨row, rows, id, rest, rfl, hid, h⟩

/-- The first post of a page is that of the first row. -/
theorem pageOf_cons {row : Row} {rest : List Row} {post : Post} {posts : List Post} {total : Int}
    (h : Operation.pageOf (row :: rest) = .done ⟨post :: posts, total⟩) :
    ∃ read, PostRow.ofRow row = .ok read ∧ read.toPost = .ok post := by
  unfold Operation.pageOf at h
  cases hreads : (row :: rest).mapM PostRow.ofRow with
  | error e =>
    rw [hreads] at h
    cases h
  | ok reads =>
    rw [hreads] at h
    replace h : (Program.ofStore (reads.mapM PostRow.toPost) >>= fun posts =>
      pure ⟨posts, (reads.head?.map (·.totalCount)).getD 0⟩ : Program PostPage) =
        .done ⟨post :: posts, total⟩ := h
    cases hall : reads.mapM PostRow.toPost with
    | error e =>
      rw [hall] at h
      cases h
    | ok all =>
      rw [hall] at h
      cases h
      rw [List.mapM_cons] at hreads
      obtain ⟨read, hread, hreads⟩ := bind_eq_ok_iff.1 hreads
      obtain ⟨more, -, hreads⟩ := bind_eq_ok_iff.1 hreads
      cases hreads
      rw [List.mapM_cons] at hall
      obtain ⟨first, hfirst, hall⟩ := bind_eq_ok_iff.1 hall
      obtain ⟨others, -, hall⟩ := bind_eq_ok_iff.1 hall
      cases hall
      exact ⟨read, hread, hfirst⟩

/-- The post of an id is that of the first row of its listing. -/
theorem trace_find {id : Int} {xs : List Exchange} {r : Except StoreError Post}
    (h : (do
      let page ← Program.listing (PostFilter.byIds [id])
      match page.posts with
      | [] => Program.fail .notFound
      | p :: _ => pure p : Program Post).Trace xs r) :
    ∃ reply, xs = [(.listing (.ofFilter (.byIds [id])), reply)] ∧ Listed reply r := by
  rcases h with ⟨e, rfl, rfl⟩ | ⟨rows, rest, rfl, h⟩
  · exact ⟨_, rfl, .failed e⟩
  · replace h : (Operation.pageOf rows >>= fun page => match page.posts with
      | [] => Program.fail .notFound
      | p :: _ => pure p : Program Post).Trace rest r := h
    have hspec := Operation.pageOf_spec rows
    cases ho : listingObjection? rows with
    | some e =>
      simp only [ho] at hspec
      rw [hspec] at h
      obtain ⟨rfl, rfl⟩ := h
      exact ⟨_, rfl, .spoiled ho⟩
    | none =>
      simp only [ho] at hspec
      obtain ⟨⟨_ | ⟨post, posts⟩, total⟩, hlength, hpage⟩ := hspec
      · rw [hpage] at h
        obtain ⟨rfl, rfl⟩ := h
        obtain rfl := List.eq_nil_of_length_eq_zero hlength.symm
        exact ⟨_, rfl, .gone⟩
      · rw [hpage] at h
        obtain ⟨rfl, rfl⟩ := h
        cases rows with
        | nil => simp at hlength
        | cons row rows =>
          obtain ⟨read, hread, hpost⟩ := pageOf_cons hpage
          exact ⟨_, rfl, .stored ho hread hpost⟩

theorem trace_storedPost {permalink : String} {xs : List Exchange} {r : Except StoreError Post}
    (h : (Program.storedPost permalink).Trace xs r) : Reread permalink xs r := by
  rcases trace_firstId h with ⟨e, rfl, rfl⟩ | ⟨rest, rfl, hrest⟩ | ⟨row, rows, e, rfl, hid, rfl⟩ |
    ⟨row, rows, id, rest, rfl, hid, hrest⟩
  · exact .failed e
  · obtain ⟨rfl, rfl⟩ : rest = [] ∧ r = .error .notFound := hrest
    exact .unlinked
  · exact .untyped hid
  · obtain ⟨reply, rfl, hlisted⟩ := trace_find hrest
    exact .found hid hlisted

/-- The reply to the second command decides. -/
theorem Reread.listed {permalink : String} {first : Exchange} {c : Command} {reply : Reply}
    {r : Except StoreError Post} (h : Reread permalink [first, (c, reply)] r) : Listed reply r := by
  cases h with
  | found _ hr => exact hr

/-! ## Missing rows -/

theorem toStoreError_eq_notFound_iff (e : DatabaseFault) :
    e.toStoreError = .notFound ↔ e = .rowNotFound := by
  cases e with
  | reported f =>
    simp only [DatabaseFault.toStoreError, ReportedFault.toStoreError, reduceCtorEq, iff_false]
    split_ifs <;> simp
  | _ => simp [DatabaseFault.toStoreError]

theorem check_ne_rowNotFound {α : Type} (label : String) (x : Cell.Reading α) :
    Row.check label x ≠ .error .rowNotFound := by
  cases x <;> simp [Row.check]

theorem column_ne_rowNotFound {α : Type} (row : Row) (read : Cell → Cell.Reading α)
    (name : String) : row.column read name ≠ .error .rowNotFound := by
  rw [Row.column]
  split
  · exact check_ne_rowNotFound _ _
  · simp

theorem single_ne_rowNotFound {α : Type} (row : Row) (read : Cell → Cell.Reading α) :
    row.single read ≠ .error .rowNotFound := by
  rw [Row.single.eq_def]
  split
  · exact check_ne_rowNotFound _ _
  · simp

/-- No row of a listing is read as a missing one. -/
theorem ofRow_ne_rowNotFound (row : Row) : PostRow.ofRow row ≠ .error .rowNotFound := by
  have hbind : ∀ {α β : Type} {x : Except DatabaseFault α} {f : α → Except DatabaseFault β},
      x ≠ .error .rowNotFound → (∀ a, f a ≠ .error .rowNotFound) →
        (x >>= f) ≠ .error .rowNotFound := by
    intro α β x f hx hf
    cases x with
    | ok a => exact hf a
    | error e => exact fun h => hx (by cases h; rfl)
  rw [PostRow.ofRow]
  repeat refine hbind (column_ne_rowNotFound row _ _) fun _ => ?_
  simp

theorem listingObjection?_ne_notFound (rows : List Row) :
    listingObjection? rows ≠ some .notFound := by
  rw [listingObjection?]
  split
  · rename_i e he
    obtain ⟨row, -, hrow⟩ := exists_of_mapM_error he
    rw [Ne, Option.some.injEq, toStoreError_eq_notFound_iff]
    exact fun h => ofRow_ne_rowNotFound row (h ▸ hrow)
  · split
    · rename_i e he
      obtain ⟨read, -, hread⟩ := exists_of_mapM_error he
      obtain ⟨text, rfl⟩ := PostRow.toPost_error hread
      simp
    · simp

/-- Whether a reply says that a row is missing. -/
def Reply.Missing (reply : Reply) : Prop := reply = .ok [] ∨ reply = .error .rowNotFound

theorem Listed.notFound_iff {reply : Reply} {r : Except StoreError Post} (h : Listed reply r) :
    r = .error .notFound ↔ reply.Missing := by
  cases h with
  | failed e => simp [Reply.Missing, toStoreError_eq_notFound_iff]
  | gone => simp [Reply.Missing]
  | @spoiled rows e h =>
    refine iff_of_false ?_ ?_
    · rintro ⟨⟩
      exact listingObjection?_ne_notFound rows h
    · rintro (hnil | hfault)
      · rw [Except.ok.inj hnil] at h
        cases h
      · cases hfault
  | stored h hread hpost => simp [Reply.Missing]

/-- A stored post is reported as missing if a reply says so, and only then. -/
theorem Reread.notFound_iff {permalink : String} {xs : List Exchange} {r : Except StoreError Post}
    (h : Reread permalink xs r) : r = .error .notFound ↔ ∃ x ∈ xs, Reply.Missing x.2 := by
  cases h with
  | failed e => simp [Reply.Missing, toStoreError_eq_notFound_iff]
  | unlinked => simp [Reply.Missing]
  | @untyped row rows e h =>
    have hne : e ≠ .rowNotFound := fun he => single_ne_rowNotFound row _ (he ▸ h)
    simp [Reply.Missing, toStoreError_eq_notFound_iff, hne]
  | found h hr =>
    rw [hr.notFound_iff]
    simp [Reply.Missing]

/-- The children of a new post are written one list after the other. -/
theorem insert_eq_sendAll {p : NewPost} (h : p.colors ≠ []) (id : Int) :
    (do
      Program.writeKeywords id p.keywords
      Program.writeColors id p.colors
      pure (p.toPost id) : Program Post) =
      Program.sendAll (p.toPost id) (childWrites id p.keywords p.colors) := by
  obtain ⟨c, cs, hcolors⟩ := List.exists_cons_of_ne_nil h
  rw [hcolors]
  cases p.keywords <;> rfl

theorem adds_childWrites (id : Int) (keywords : List Keyword) (colors : List Color) :
    AddsExactly (childWrites id keywords colors) id keywords colors := by
  intro D d h
  refine ⟨keywordRows id d.nextKeyword keywords, colorRows id d.nextColor colors,
    map_keywordRows _ _ _, post_of_mem_keywordRows, map_colorRows _ _ _, post_of_mem_colorRows, ?_⟩
  have hcolors : ∀ d : Database, d.Stored id →
      (d.reply D (.insertColors id colors)).2 = d.withColors id colors := fun d hd => by
    rw [Database.reply_action rfl (Database.perform_insertColors hd colors)]
  have hwritten : (childWrites id keywords colors).foldl (fun d c => (d.reply D c).2) d =
      (d.withKeywords id keywords).withColors id colors := by
    cases keywords with
    | nil =>
      rw [Database.withKeywords_nil]
      exact hcolors d h
    | cons k ks =>
      have hkeywords : (d.reply D (.insertKeywords id (k :: ks))).2 =
          d.withKeywords id (k :: ks) := by
        rw [Database.reply_action rfl (Database.perform_insertKeywords h (k :: ks))]
      show ((d.reply D (.insertKeywords id (k :: ks))).2.reply D (.insertColors id colors)).2 = _
      rw [hkeywords]
      exact hcolors _ h
  rw [hwritten]
  exact ⟨rfl, rfl⟩

/-- The first exchange tells whether the post is read back or written. -/
theorem trace_insert {p : NewPost} (hcolors : p.colors ≠ []) {xs : List Exchange}
    {r : Except StoreError Post} (h : (Program.insert p).Trace xs r) :
    ∃ reply rest, xs = (.insertPost p, reply) :: rest ∧
      (reply = .ok [] → Reread p.permalink rest r) ∧
      (∀ row rows id, reply = .ok (row :: rows) → row.single Cell.asInt = .ok id →
        Program.SentAll (p.toPost id) (childWrites id p.keywords p.colors) rest r) ∧
      ∀ e, reply = .error e ∨
          (∃ row rows, reply = .ok (row :: rows) ∧ row.single Cell.asInt = .error e) →
        rest = [] ∧ r = .error e.toStoreError := by
  rcases trace_firstId h with ⟨e, rfl, rfl⟩ | ⟨rest, rfl, hrest⟩ | ⟨row, rows, e, rfl, hid, rfl⟩ |
    ⟨row, rows, id, rest, rfl, hid, hrest⟩
  · refine ⟨_, _, rfl, nofun, nofun, ?_⟩
    rintro e' (he | ⟨_, _, he, -⟩)
    · exact ⟨rfl, by rw [Except.error.inj he]⟩
    · cases he
  · refine ⟨_, _, rfl, fun _ => trace_storedPost hrest, nofun, ?_⟩
    rintro e' (he | ⟨_, _, he, -⟩) <;> cases he
  · refine ⟨_, _, rfl, nofun, ?_, ?_⟩
    · rintro _ _ id ⟨⟩ hid'
      rw [hid] at hid'
      cases hid'
    · rintro e' (he | ⟨_, _, he, hid'⟩)
      · cases he
      · cases he
        exact ⟨rfl, by rw [Except.error.inj (hid.symm.trans hid')]⟩
  · refine ⟨_, _, rfl, nofun, ?_, ?_⟩
    · rintro _ _ id' ⟨⟩ hid'
      -- a row has only one first id
      rw [hid, Except.ok.injEq] at hid'
      subst hid'
      exact Program.trace_sendAll (insert_eq_sendAll hcolors id ▸ hrest)
    · rintro e' (he | ⟨_, _, he, hid'⟩)
      · cases he
      · cases he
        rw [hid] at hid'
        cases hid'

/-- Whatever the server answers, a submission that is accepted is either read back
or written, in a transaction that is sent nothing else. If the first command, which
inserts the post, is answered without a row, the id of the permalink is looked for
and then the post of this id: nothing is written, the stored post is the answer, and
it is reported as missing if a reply says so. If the first command is answered with
an id, the children are written under this id, each of them once, and the answer is
the submission itself. -/
theorem reread_or_written (server : Server) (now : Int) (given : Submission) (p : NewPost)
    (h : given.validate = .ok p) :
    (∃ result log, (server.link now).writer.create p [] = (result, log) ∧
      ((∃ e, log = [(.begin, .error e)] ∧ result = .error e.toStoreError) ∨
        ∃ reply rest r, log.exchanges = (.insertPost p, reply) :: rest ∧
          Program.Settled log r result ∧
          (reply = .ok [] → Reread given.permalink rest r ∧
            (r = .error .notFound ↔ ∃ x ∈ rest, Reply.Missing x.2)) ∧
          (∀ row rows id, reply = .ok (row :: rows) → row.single Cell.asInt = .ok id →
            Program.SentAll (p.toPost id) (childWrites id given.keywords given.colors) rest r) ∧
          -- a fault, or a row without an id, ends it at once
          ∀ e, reply = .error e ∨
              (∃ row rows, reply = .ok (row :: rows) ∧ row.single Cell.asInt = .error e) →
            rest = [] ∧ r = .error e.toStoreError)) ∧
    ∀ id, AddsExactly (childWrites id given.keywords given.colors) id given.keywords
      given.colors := by
  have haccepted := Submission.accepted h
  have hcolors : p.colors ≠ [] := by
    intro hnil
    have henough := haccepted.enough
    rw [hnil] at henough
    cases henough
  rw [← haccepted.permalink, ← haccepted.keywords, ← haccepted.colors]
  refine ⟨?_, fun id => adds_childWrites id _ _⟩
  obtain ⟨result, log, hcreate, hrefused | ⟨r, htrace, hsettled⟩⟩ :=
    Program.transaction_trace server now (Program.insert p)
  · exact ⟨result, log, hcreate, .inl hrefused⟩
  · obtain ⟨reply, rest, hfirst, hreread, hwritten, hended⟩ := trace_insert hcolors htrace
    exact ⟨result, log, hcreate, .inr ⟨reply, rest, r, hfirst, hsettled,
      fun hnone => ⟨hreread hnone, (hreread hnone).notFound_iff⟩, hwritten, hended⟩⟩

/-- A server that has every permalink under one id, and some rows for its listing. -/
def Server.known (id : Int) (rows : List Row) : Server := fun _ r =>
  match r with
  | .run (.idOfPermalink _) => .ok [[("id", .int id)]]
  | .run (.listing _) => .ok rows
  | _ => .ok []

/-- A server that has no permalink yet and gives one id. -/
def Server.fresh (id : Int) : Server := fun _ r =>
  match r with
  | .run (.insertPost _) => .ok [[("id", .int id)]]
  | _ => .ok []

/-- The result row of a post without children. -/
def bareRow : Row := (⟨.bare 3 8 30, none, none⟩ : JoinedRow).cells 1

/-- Where the stored post has a row it is the answer, where it has none it is
missing, and what is new is written. -/
theorem sample_reread_or_written :
    Submission.sample.validate = .ok .sample ∧
      (∃ post, (((Server.known 3 [bareRow]).link 7).writer.create .sample []).1 = .ok post) ∧
      (((Server.known 3 []).link 7).writer.create .sample []).1 = .error .notFound ∧
      ∃ rest, Transcript.exchanges (((Server.fresh 5).link 7).writer.create .sample []).2 =
          (.insertPost .sample, .ok [[("id", .int 5)]]) :: rest ∧
        rest.map Prod.fst = childWrites 5 NewPost.sample.keywords NewPost.sample.colors := by
  have hvalid : Submission.sample.validate = .ok .sample := by decide
  have hstored : (((Server.known 3 [bareRow]).link 7).writer.create .sample []).2 =
      [(.begin, .ok []), (.run (.insertPost .sample), .ok []),
        (.run (.idOfPermalink "/r/analog/4"), .ok [[("id", .int 3)]]),
        (.run (.listing (.ofFilter (.byIds [3]))), .ok [bareRow]), (.commit, .ok [])] := by
    decide +kernel
  have hgone : Transcript.exchanges (((Server.known 3 []).link 7).writer.create .sample []).2 =
      [(.insertPost .sample, .ok []), (.idOfPermalink "/r/analog/4", .ok [[("id", .int 3)]]),
        (.listing (.ofFilter (.byIds [3])), .ok [])] := by
    decide +kernel
  have hfresh : Transcript.exchanges (((Server.fresh 5).link 7).writer.create .sample []).2 =
      [(.insertPost .sample, .ok [[("id", .int 5)]]),
        (.insertKeywords 5 NewPost.sample.keywords, .ok []),
        (.insertColors 5 NewPost.sample.colors, .ok [])] := by
    decide +kernel
  have hread : listingObjection? [bareRow] = none := by decide +kernel
  refine ⟨hvalid, ?_, ?_, _, hfresh, ?_⟩
  · obtain ⟨⟨result, log, hcreate, hends⟩, -⟩ :=
      reread_or_written (.known 3 [bareRow]) 7 .sample .sample hvalid
    rw [hcreate] at hstored ⊢
    obtain rfl : log = _ := hstored
    obtain ⟨e, hlog, -⟩ | ⟨reply, rest, r, hfirst, hsettled, hreread, -⟩ := hends
    · simp at hlog
    · cases hfirst
      cases (hreread rfl).1.listed with
      | spoiled h => simp [hread] at h
      | stored _ _ _ =>
        cases hsettled with
        | committed h => exact ⟨_, rfl⟩
        | uncommitted h => simp at h
  · obtain ⟨⟨result, log, hcreate, hends⟩, -⟩ :=
      reread_or_written (.known 3 []) 7 .sample .sample hvalid
    rw [hcreate] at hgone ⊢
    obtain ⟨e, rfl, -⟩ | ⟨reply, rest, r, hfirst, hsettled, hreread, -⟩ := hends
    · cases hgone
    · cases hfirst.symm.trans hgone
      rw [(hreread rfl).2.2 ⟨_, List.mem_cons_of_mem _ List.mem_cons_self, .inl rfl⟩] at hsettled
      cases hsettled
      rfl
  · obtain ⟨⟨result, log, hcreate, hends⟩, -⟩ :=
      reread_or_written (.fresh 5) 7 .sample .sample hvalid
    rw [hcreate] at hfresh
    obtain ⟨e, rfl, -⟩ | ⟨reply, rest, r, hfirst, -, -, hwritten, -⟩ := hends
    · cases hfresh
    · cases hfirst.symm.trans hfresh
      exact ((hwritten _ _ 5 rfl rfl).answered (by simp)).1

end FilmCatalog
