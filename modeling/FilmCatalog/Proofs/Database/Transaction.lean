import FilmCatalog.Database.Posts
import FilmCatalog.Proofs.Result

/-!
# Transactions

A listing and every write are one transaction: after `BEGIN` they send their
statements, and the first statement that is answered with a fault, or with rows
that the operation objects to, is the last one. `COMMIT` follows if there was
none, else `ROLLBACK`, and the caller hears of the first thing that went wrong.

The server may answer anything (`Server`). What an operation objects to is said
by `Operation.objection?`, apart from the programs that are run.

Key definitions: `Server`, `Server.link`, `Operation`, `Operation.objection?`,
`Operation.Outcome`, `Program.Heeds`.
Key theorems: `Program.Heeds.run_spec`, `Operation.heeds`, `transaction_outcome`.
-/

namespace FilmCatalog

/-! ## Servers -/

/-- What was sent and what came back, in order. -/
abbrev Transcript := List (Request × Reply)

/-- What a server replies to a request after those before. -/
abbrev Server := Transcript → Request → Reply

/-- The link to a server that keeps the transcript. -/
def Server.link (server : Server) (now : Int) : Link (StateM Transcript) where
  send r := fun log => (server log r, log ++ [(r, server log r)])
  clock := pure now

/-! ## Operations -/

/-- The operations that run in a transaction. A patch has something in it. -/
inductive Operation where
  | find (f : PostFilter)
  | create (p : NewPost)
  | patch (post : Int) (p : Patch) (h : p.isEmpty = false)
  | delete (post : Int)

namespace Operation

/-- What an operation gives its caller. -/
def Value : Operation → Type
  | find _ => PostPage
  | create _ => Post
  | patch _ _ _ => Unit
  | delete _ => Unit

/-- Performs an operation over a link. -/
def perform {m : Type → Type} [Monad m] (link : Link m) :
    (o : Operation) → ExceptT StoreError m o.Value
  | find f => link.reader.findPosts f
  | create p => link.writer.create p
  | patch post p _ => link.writer.patch post p
  | delete post => link.writer.delete post

end Operation

/-! ## Objections -/

/-- Why rows are no listing: a row that cannot be read comes before arrays that
do not fit together. -/
def listingObjection? (rows : List Row) : Option StoreError :=
  match rows.mapM PostRow.ofRow with
  | .error e => some e.toStoreError
  | .ok read =>
    match read.mapM PostRow.toPost with
    | .error e => some e
    | .ok _ => none

/-- Why no id can be taken from the first row; `missing` if there must be one. -/
def idObjection? (missing : Option StoreError) : List Row → Option StoreError
  | [] => missing
  | r :: _ =>
    match r.single Cell.asInt with
    | .error e => some e.toStoreError
    | .ok _ => none

/-- Why rows do not confirm that a post was deleted. -/
def deletionObjection? (post : Int) : List Row → Option StoreError
  | [] => some .notFound
  | r :: _ =>
    match r.single Cell.asInt with
    | .error e => some e.toStoreError
    | .ok id =>
      if id = post then none
      else some (.integrity
        ("delete of post " ++ toString post ++ " reported post " ++ toString id))

namespace Operation

/-- What an operation objects to in the rows that answer one of its commands.
When a post is created, a listing looks for the stored one, which must be there. -/
def objection? : Operation → Command → List Row → Option StoreError
  | create _, .listing _, [] => some .notFound
  | _, .listing _, rows => listingObjection? rows
  | _, .insertPost _, rows => idObjection? none rows
  | _, .idOfPermalink _, rows => idObjection? (some .notFound) rows
  | _, .lockPost _, rows => idObjection? (some .notFound) rows
  | _, .deletePost post, rows => deletionObjection? post rows
  | _, _, _ => none

end Operation

/-! ## Programs that heed objections -/

/-- A command and its reply. -/
abbrev Exchange := Command × Reply

/-- An exchange in a transcript. -/
def Exchange.entry (x : Exchange) : Request × Reply := (.run x.1, x.2)

/-- What goes wrong with an exchange: the server's fault, or an objection. -/
def Exchange.failure? (objection? : Command → List Row → Option StoreError) (x : Exchange) :
    Option StoreError :=
  match x.2 with
  | .error e => some e.toStoreError
  | .ok rows => objection? x.1 rows

namespace Program

variable {α β : Type} {objection? : Command → List Row → Option StoreError}

/-- Whether a program ends with each objection at once, and with no other error. -/
def Heeds (objection? : Command → List Row → Option StoreError) : Program α → Prop
  | .done _ => True
  | .fail _ => False
  | .send c next => ∀ rows,
    match objection? c rows with
    | some e => next rows = .fail e
    | none => (next rows).Heeds objection?

/-- Whether a program is what has to follow on rows, given the objection to them. -/
def Meets (objection? : Command → List Row → Option StoreError) (p : Program α) :
    Option StoreError → Prop
  | some e => p = .fail e
  | none => p.Heeds objection?

theorem heeds_send {c : Command} {next : List Row → Program α} :
    (send c next).Heeds objection? ↔
      ∀ rows, (next rows).Meets objection? (objection? c rows) := by
  refine forall_congr' fun rows => ?_
  cases objection? c rows <;> rfl

theorem Heeds.bind {p : Program α} {f : α → Program β} (hp : p.Heeds objection?)
    (hf : ∀ a, (f a).Heeds objection?) : (p >>= f).Heeds objection? := by
  induction p with
  | done a => exact hf a
  | fail e => exact hp.elim
  | send c next ih =>
    refine heeds_send.mpr fun rows => ?_
    have hrows := heeds_send.mp hp rows
    cases ho : objection? c rows with
    | some e =>
      rw [ho] at hrows
      show (next rows).bind f = .fail e
      rw [show next rows = .fail e from hrows]
      rfl
    | none =>
      rw [ho] at hrows
      exact ih rows hrows

/-- The command that a program sends first. -/
def opening? : Program α → Option Command
  | .send c _ => some c
  | _ => none

/-- How a command is sent and its reply taken. -/
theorem run_send (server : Server) (now : Int) (c : Command) (next : List Row → Program α)
    (log : Transcript) :
    (send c next).run (server.link now) log =
      match server log (.run c) with
      | .ok rows => (next rows).run (server.link now) (log ++ [(.run c, .ok rows)])
      | .error e => (.error e.toStoreError, log ++ [(.run c, .error e)]) := by
  have hsend : (server.link now).send (.run c) log =
      (server log (.run c), log ++ [(.run c, server log (.run c))]) := rfl
  -- a reply is taken out of the transcript before it is looked at
  have htaken : ∀ f : Reply → ExceptT StoreError (StateM Transcript) α,
      (liftM ((server.link now).send (.run c)) >>= f : ExceptT StoreError (StateM Transcript) α)
        log = f ((server.link now).send (.run c) log).1 ((server.link now).send (.run c) log).2 :=
    fun f => rfl
  rw [run]
  refine (htaken _).trans ?_
  rw [hsend]
  cases server log (.run c) <;> rfl

/-- A program sends commands until one goes wrong, and fails with that. -/
theorem Heeds.run_spec (server : Server) (now : Int) {p : Program α} (h : p.Heeds objection?)
    (log : Transcript) :
    ∃ steps : List Exchange, (∀ x ∈ steps, x.failure? objection? = none) ∧
      ((∃ a, p.opening? = steps.head?.map Prod.fst ∧
          p.run (server.link now) log = (.ok a, log ++ steps.map Exchange.entry)) ∨
        ∃ (last : Exchange) (e : StoreError), last.failure? objection? = some e ∧
          p.opening? = (steps ++ [last]).head?.map Prod.fst ∧
          p.run (server.link now) log =
            (.error e, log ++ (steps ++ [last]).map Exchange.entry)) := by
  induction p generalizing log with
  | done a => exact ⟨[], by simp, .inl ⟨a, rfl, by simp [run]; rfl⟩⟩
  | fail e => exact h.elim
  | send c next ih =>
    rw [run_send]
    cases hreply : server log (.run c) with
    | error e =>
      exact ⟨[], by simp, .inr ⟨(c, .error e), e.toStoreError, rfl, rfl, rfl⟩⟩
    | ok rows =>
      have hrows := heeds_send.mp h rows
      cases ho : objection? c rows with
      | some e =>
        rw [ho] at hrows
        refine ⟨[], by simp, .inr ⟨(c, .ok rows), e, ho, rfl, ?_⟩⟩
        simp only [show next rows = .fail e from hrows]
        rfl
      | none =>
        rw [ho] at hrows
        obtain ⟨steps, hsteps, hend⟩ := ih rows hrows (log ++ [(.run c, .ok rows)])
        refine ⟨(c, .ok rows) :: steps, ?_, ?_⟩
        · rintro x (_ | ⟨_, hx⟩)
          · exact ho
          · exact hsteps x hx
        · rcases hend with ⟨a, -, ha⟩ | ⟨last, e, hlast, -, he⟩
          · exact .inl ⟨a, rfl, by simp [ha, Exchange.entry]⟩
          · exact .inr ⟨last, e, hlast, rfl, by simp [he, Exchange.entry]⟩

end Program

/-! ## The ends of a transaction -/

namespace Server

variable {α : Type} (server : Server) (now : Int)

theorem transaction_eq (p : Program α) (log : Transcript) :
    (server.link now).transaction p log =
      match server log .begin with
      | .error e => (.error e.toStoreError, log ++ [(.begin, .error e)])
      | .ok rows =>
        match p.run (server.link now) (log ++ [(.begin, .ok rows)]) with
        | (.ok a, log) => (server.link now).settle a log
        | (.error e, log) => (.error e, ((server.link now).abandon log).2) := by
  have hbegin : (server.link now).send .begin log =
      (server log .begin, log ++ [(.begin, server log .begin)]) := rfl
  unfold Link.transaction
  simp only [bind, StateT.bind, ExceptT.mk, hbegin]
  cases server log .begin with
  | error e => rfl
  | ok rows =>
    simp only [ExceptT.run, StateT.bind]
    cases p.run (server.link now) (log ++ [(.begin, .ok rows)]) with
    | mk result log' => cases result <;> rfl

/-- After a commit that fails the client rolls back. -/
theorem settle_eq (a : α) (log : Transcript) :
    (server.link now).settle a log =
      match server log .commit with
      | .ok rows => (.ok a, log ++ [(.commit, .ok rows)])
      | .error e => (.error e.toStoreError,
          log ++ [(.commit, .error e)] ++
            [(.rollback, server (log ++ [(.commit, .error e)]) .rollback)]) := by
  have hcommit : (server.link now).send .commit log =
      (server log .commit, log ++ [(.commit, server log .commit)]) := rfl
  unfold Link.settle
  simp only [bind, StateT.bind, hcommit]
  cases server log .commit <;> rfl

/-- After a rollback that fails the client rolls back once more. -/
theorem abandon_eq (log : Transcript) :
    ((server.link now).abandon log).2 =
      match server log .rollback with
      | .ok rows => log ++ [(.rollback, .ok rows)]
      | .error e =>
        log ++ [(.rollback, .error e)] ++
          [(.rollback, server (log ++ [(.rollback, .error e)]) .rollback)] := by
  have hrollback : (server.link now).send .rollback log =
      (server log .rollback, log ++ [(.rollback, server log .rollback)]) := rfl
  unfold Link.abandon
  simp only [bind, StateT.bind, hrollback]
  cases server log .rollback <;> rfl

end Server

/-! ## Operations heed their objections -/

namespace Operation

/-- What goes wrong with an exchange of an operation. -/
def failure? (o : Operation) (x : Exchange) : Option StoreError := x.failure? o.objection?

/-- The program of an operation; a patch is made at a time. -/
def program (now : Int) : (o : Operation) → Program o.Value
  | find f => Program.listing f
  | create p => Program.insert p
  | patch post p _ => Program.patch post now p
  | delete post => Program.delete post

theorem perform_eq (server : Server) (now : Int) (o : Operation) :
    o.perform (server.link now) = (server.link now).transaction (o.program now) := by
  cases o with
  | patch post p h =>
    simp only [perform, Link.writer, h, Bool.false_eq_true, if_false]
    rfl
  | _ => rfl

/-- The command that every transaction of an operation sends first. -/
def opening : Operation → Command
  | find f => .listing (.ofFilter f)
  | create p => .insertPost p
  | patch post _ _ => .lockPost post
  | delete post => .deletePost post

theorem program_opening (now : Int) (o : Operation) :
    (o.program now).opening? = some o.opening := by
  cases o <;> rfl

/-- How an operation may end, given what was sent and what the caller gets. -/
inductive Outcome (o : Operation) : Transcript → Except StoreError o.Value → Prop where
  /-- The transaction cannot begin, and nothing is sent. -/
  | refused (e : DatabaseFault) : Outcome o [(.begin, .error e)] (.error e.toStoreError)
  /-- All went well. -/
  | committed {steps : List Exchange} (hfirst : steps.head?.map Prod.fst = some o.opening)
      (h : ∀ x ∈ steps, o.failure? x = none) (begun done : List Row) (a : o.Value) :
      Outcome o ((.begin, .ok begun) :: steps.map Exchange.entry ++ [(.commit, .ok done)]) (.ok a)
  /-- All went well but the commit. -/
  | uncommitted {steps : List Exchange} (hfirst : steps.head?.map Prod.fst = some o.opening)
      (h : ∀ x ∈ steps, o.failure? x = none) (begun : List Row) (e : DatabaseFault) (last : Reply) :
      Outcome o ((.begin, .ok begun) :: steps.map Exchange.entry ++
        [(.commit, .error e), (.rollback, last)]) (.error e.toStoreError)
  /-- One exchange went wrong, after which nothing but the rollback is sent. -/
  | abandoned {steps : List Exchange} {failed : Exchange} {e : StoreError}
      (hfirst : (steps ++ [failed]).head?.map Prod.fst = some o.opening)
      (h : ∀ x ∈ steps, o.failure? x = none) (he : o.failure? failed = some e)
      (begun done : List Row) :
      Outcome o ((.begin, .ok begun) :: (steps ++ [failed]).map Exchange.entry ++
        [(.rollback, .ok done)]) (.error e)
  /-- One exchange went wrong, and so does the rollback. -/
  | stranded {steps : List Exchange} {failed : Exchange} {e : StoreError}
      (hfirst : (steps ++ [failed]).head?.map Prod.fst = some o.opening)
      (h : ∀ x ∈ steps, o.failure? x = none) (he : o.failure? failed = some e)
      (begun : List Row) (f : DatabaseFault) (last : Reply) :
      Outcome o ((.begin, .ok begun) :: (steps ++ [failed]).map Exchange.entry ++
        [(.rollback, .error f), (.rollback, last)]) (.error e)

/-- A transaction ends in one of these ways if its program heeds the objections. -/
theorem outcome_of_heeds (server : Server) (now : Int) (o : Operation)
    (h : (o.program now).Heeds o.objection?) :
    o.Outcome (o.perform (server.link now) []).2 (o.perform (server.link now) []).1 := by
  rw [perform_eq, Server.transaction_eq]
  cases hbegin : server [] .begin with
  | error e => exact .refused e
  | ok begun =>
    obtain ⟨steps, hsteps, ⟨a, hfirst, hrun⟩ | ⟨failed, e, hfailed, hfirst, hrun⟩⟩ :=
      h.run_spec server now ([] ++ [(.begin, .ok begun)])
    · rw [program_opening] at hfirst
      simp only [hrun, Server.settle_eq]
      cases server _ .commit with
      | ok done => exact .committed hfirst.symm hsteps begun done a
      | error e =>
        simpa using Outcome.uncommitted hfirst.symm hsteps begun e _
    · rw [program_opening] at hfirst
      simp only [hrun, Server.abandon_eq]
      cases server _ .rollback with
      | ok done => exact .abandoned hfirst.symm hsteps hfailed begun done
      | error f =>
        simpa using Outcome.stranded hfirst.symm hsteps hfailed begun f _

/-! ## Each program heeds its objections -/

variable {α : Type} {objection? : Command → List Row → Option StoreError} {c : Command}

theorem heeds_rows_bind {f : List Row → Program α}
    (h : ∀ rows, (f rows).Meets objection? (objection? c rows)) :
    (Program.rows c >>= f).Heeds objection? := Program.heeds_send.mpr h

theorem heeds_execute (h : ∀ rows, objection? c rows = none) :
    (Program.execute c).Heeds objection? :=
  Program.heeds_send.mpr fun rows => h rows ▸ trivial

theorem firstId_of_ok {r : Row} {id : Int} (h : r.single Cell.asInt = .ok id) (rest : List Row) :
    Program.firstId (r :: rest) = .done (some id) := by
  rw [Program.firstId, h]
  rfl

theorem firstId_of_error {r : Row} {e : DatabaseFault} (h : r.single Cell.asInt = .error e)
    (rest : List Row) : Program.firstId (r :: rest) = .fail e.toStoreError := by
  rw [Program.firstId, h]
  rfl

/-- What follows on the first id of an answer. -/
theorem heeds_firstId_bind {k : Option Int → Program α}
    (hread : ∀ r rest e, r.single Cell.asInt = .error e →
      objection? c (r :: rest) = some e.toStoreError)
    (hnone : (k none).Meets objection? (objection? c []))
    (hsome : ∀ r rest id, r.single Cell.asInt = .ok id →
      (k (some id)).Meets objection? (objection? c (r :: rest))) :
    (do k (← Program.firstId (← Program.rows c))).Heeds objection? := by
  refine heeds_rows_bind fun rows => ?_
  cases rows with
  | nil => exact hnone
  | cons r rest =>
    cases hid : r.single Cell.asInt with
    | ok id =>
      rw [firstId_of_ok hid]
      exact hsome r rest id hid
    | error e =>
      rw [firstId_of_error hid, hread r rest e hid]
      rfl

/-- What a listing makes of its rows. -/
def pageOf (rows : List Row) : Program PostPage := do
  let read ← Program.ofRead (rows.mapM PostRow.ofRow)
  let posts ← Program.ofStore (read.mapM PostRow.toPost)
  pure ⟨posts, (read.head?.map (·.totalCount)).getD 0⟩

theorem listing_eq (f : PostFilter) :
    Program.listing f = Program.rows (.listing (.ofFilter f)) >>= pageOf := rfl

/-- Rows without objection make a page with one post for each. -/
theorem pageOf_spec (rows : List Row) :
    match listingObjection? rows with
    | some e => pageOf rows = .fail e
    | none => ∃ page, page.posts.length = rows.length ∧ pageOf rows = .done page := by
  unfold listingObjection? pageOf
  cases hread : rows.mapM PostRow.ofRow with
  | error e => rfl
  | ok read =>
    simp only [Program.ofRead, bind, Program.bind]
    cases hpost : read.mapM PostRow.toPost with
    | error e => rfl
    | ok posts => exact ⟨_, (length_of_mapM_ok hpost).trans (length_of_mapM_ok hread), rfl⟩

theorem heeds_find (f : PostFilter) : (Program.listing f).Heeds (find f).objection? := by
  rw [listing_eq]
  refine heeds_rows_bind fun rows => ?_
  show (pageOf rows).Meets _ (listingObjection? rows)
  have hspec := pageOf_spec rows
  cases ho : listingObjection? rows with
  | some e =>
    rw [ho] at hspec
    exact hspec
  | none =>
    rw [ho] at hspec
    obtain ⟨page, -, hpage⟩ := hspec
    rw [hpage]
    trivial

/-- The stored post is looked for by its permalink and then by its id. -/
theorem heeds_storedPost (p : NewPost) (permalink : String) :
    (Program.storedPost permalink).Heeds (create p).objection? := by
  refine heeds_firstId_bind ?_ rfl ?_
  · intro r rest e he
    simp [objection?, idObjection?, he]
  · intro r rest id hid
    rw [show (create p).objection? (.idOfPermalink permalink) (r :: rest) = none by
      simp [objection?, idObjection?, hid]]
    refine heeds_rows_bind fun rows => ?_
    have hspec := pageOf_spec rows
    cases rows with
    | nil => rfl
    | cons r rest =>
      show Program.Meets _ _ (listingObjection? (r :: rest))
      cases ho : listingObjection? (r :: rest) with
      | some e =>
        rw [ho] at hspec
        show (pageOf (r :: rest)).bind _ = _
        rw [show pageOf (r :: rest) = .fail e from hspec]
        rfl
      | none =>
        rw [ho] at hspec
        obtain ⟨page, hlength, hpage⟩ := hspec
        show ((pageOf (r :: rest)).bind _).Heeds _
        rw [hpage]
        obtain ⟨_ | ⟨post, posts⟩, count⟩ := page
        · simp at hlength
        · trivial

theorem heeds_writeKeywords {objection? : Command → List Row → Option StoreError}
    (h : ∀ post words rows, objection? (.insertKeywords post words) rows = none)
    (post : Int) (words : List Keyword) :
    (Program.writeKeywords post words).Heeds objection? := by
  unfold Program.writeKeywords
  split
  · trivial
  · exact heeds_execute (h post words)

theorem heeds_writeColors {objection? : Command → List Row → Option StoreError}
    (h : ∀ post colors rows, objection? (.insertColors post colors) rows = none)
    (post : Int) (colors : List Color) :
    (Program.writeColors post colors).Heeds objection? := by
  unfold Program.writeColors
  split
  · trivial
  · exact heeds_execute (h post colors)

theorem heeds_create (p : NewPost) : (Program.insert p).Heeds (create p).objection? := by
  refine heeds_firstId_bind ?_ ?_ ?_
  · intro r rest e he
    simp [objection?, idObjection?, he]
  · exact heeds_storedPost p p.permalink
  · intro r rest id hid
    rw [show (create p).objection? (.insertPost p) (r :: rest) = none by
      simp [objection?, idObjection?, hid]]
    exact (heeds_writeKeywords (fun _ _ _ => rfl) _ _).bind fun _ =>
      (heeds_writeColors (fun _ _ _ => rfl) _ _).bind fun _ => trivial

theorem heeds_optionForM {β : Type} {f : β → Program Unit} (h : ∀ b, (f b).Heeds objection?) :
    ∀ o : Option β, (o.forM f).Heeds objection?
  | none => trivial
  | some b => h b

theorem heeds_patch (post now : Int) (p : Patch) (h : p.isEmpty = false) :
    (Program.patch post now p).Heeds (patch post p h).objection? := by
  refine heeds_firstId_bind ?_ rfl ?_
  · intro r rest e he
    simp [objection?, idObjection?, he]
  · intro r rest id hid
    rw [show (patch post p h).objection? (.lockPost post) (r :: rest) = none by
      simp [objection?, idObjection?, hid]]
    have hwords : ∀ words, (Program.replaceKeywords post words).Heeds
        (patch post p h).objection? := fun words =>
      (heeds_execute fun _ => rfl).bind fun _ => heeds_writeKeywords (fun _ _ _ => rfl) _ _
    have hcolors : ∀ colors, (Program.replaceColors post colors).Heeds
        (patch post p h).objection? := fun colors =>
      (heeds_execute fun _ => rfl).bind fun _ => heeds_writeColors (fun _ _ _ => rfl) _ _
    have hstamp : (Program.execute (.stampUpdates post now p.categories)).Heeds
        (patch post p h).objection? := heeds_execute fun _ => rfl
    have hrest := (heeds_optionForM hwords p.keywords).bind fun _ =>
      (heeds_optionForM hcolors p.colors).bind fun _ => hstamp
    show Program.Heeds _ (if p.touchesRow then _ else _)
    split
    · exact Program.Heeds.bind (heeds_execute fun _ => rfl) fun _ => hrest
    · exact hrest

theorem heeds_delete (post : Int) : (Program.delete post).Heeds (delete post).objection? := by
  refine heeds_firstId_bind ?_ rfl ?_
  · intro r rest e he
    simp [objection?, deletionObjection?, he]
  · intro r rest id hid
    rw [show (delete post).objection? (.deletePost post) (r :: rest) =
        if id = post then none
        else some (.integrity
          ("delete of post " ++ toString post ++ " reported post " ++ toString id)) by
      simp [objection?, deletionObjection?, hid]]
    show Program.Meets _ (if id = post then _ else _) _
    split
    · trivial
    · rfl

/-- Every operation heeds its objections. -/
theorem heeds (now : Int) : ∀ o : Operation, (o.program now).Heeds o.objection?
  | find f => heeds_find f
  | create p => heeds_create p
  | patch post p h => heeds_patch post now p h
  | delete post => heeds_delete post

end Operation

/-- Whatever the server answers, an operation ends in one of the ways of
`Operation.Outcome`: what it sends, what it commits and what its caller gets fit
together. -/
theorem transaction_outcome (server : Server) (now : Int) (o : Operation) :
    o.Outcome (o.perform (server.link now) []).2 (o.perform (server.link now) []).1 :=
  o.outcome_of_heeds server now (o.heeds now)

end FilmCatalog
