import FilmCatalog.Proofs.Listing.Page
import FilmCatalog.Proofs.Sql.Effect

/-!
# Sessions

A session is a server that keeps a database: its replies to a request follow
from everything that was sent before (`Session.server`). A transaction that is
rolled back leaves the tables as they were when it began; only the counters of
the ids go on.

What a program does to a database can be said without the session around it
(`Program.play`). In a transaction of a session it does just that if it ends with
a value, and nothing if it ends with an error (`transaction_play`).

Key definitions: `Database.reply`, `Session`, `Session.step`, `Session.after`,
`Session.server`, `Program.play`, `Transcript.fruitless`.
Key theorems: `Session.sound_after`, `Program.play_bind`, `run_play`,
`transaction_play`, `transaction_refused`.
-/

namespace FilmCatalog

open Sql

/-! ## Replies -/

namespace Sql.Database

/-- What a database replies to a command, and the database after it. The reads
that are neither listings nor look for one post are not served. -/
def reply (D : Dialect) (d : Database) (c : Command) : Reply × Database :=
  match c.action? with
  | some a =>
    match d.perform a with
    | .ok (rows, d) => (.ok rows, d)
    | .error e => (.error e.fault, d)
  | none =>
    match c with
    | .listing q =>
      match q.answer D d.toTables with
      | .ok rows => (.ok rows, d)
      | .error e => (.error e.fault, d)
    | _ => (.error (.protocol "not served"), d)

/-- The tables of one database with the counters of another. -/
def restored (d old : Database) : Database :=
  { old with nextPost := d.nextPost, nextColor := d.nextColor, nextKeyword := d.nextKeyword }

variable {D : Dialect} {d d' : Database}

theorem reply_action {c : Command} {a : Action} {rows : List Row} (hc : c.action? = some a)
    (hd : d.perform a = .ok (rows, d')) : d.reply D c = (.ok rows, d') := by
  simp only [reply, hc, hd]

theorem reply_listing {q : ListingQuery} {rows : List Row}
    (h : q.answer D d.toTables = .ok rows) : d.reply D (.listing q) = (.ok rows, d) := by
  simp only [reply, Command.action?, h]

theorem restored_self (d : Database) : d.restored d = d := rfl

/-- What is refused changes nothing, and what is performed is an action. -/
theorem continues_reply (D : Dialect) (d : Database) (c : Command) :
    d.Continues (d.reply D c).2 := by
  cases hc : c.action? with
  | some a =>
    cases hd : d.perform a with
    | ok result =>
      have hreply : d.reply D c = (.ok result.1, result.2) := reply_action hc hd
      rw [hreply]
      exact continues_perform hd
    | error e =>
      have hreply : (d.reply D c).2 = d := by simp only [reply, hc, hd]
      rw [hreply]
      exact .refl d
  | none =>
    have hreply : (d.reply D c).2 = d := by
      simp only [reply, hc]
      split
      · split <;> rfl
      · rfl
    rw [hreply]
    exact .refl d

end Sql.Database

/-! ## Sessions -/

/-- A database, and the one to go back to if a transaction is open. -/
structure Session where
  database : Database
  saved : Option Database

namespace Session

/-- What a session replies to a request, and the session after it. -/
def step (D : Dialect) (s : Session) : Request → Reply × Session
  | .begin => (.ok [], ⟨s.database, some (s.saved.getD s.database)⟩)
  | .commit => (.ok [], ⟨s.database, none⟩)
  | .rollback => (.ok [], ⟨s.database.restored (s.saved.getD s.database), none⟩)
  | .run c => ((s.database.reply D c).1, ⟨(s.database.reply D c).2, s.saved⟩)

/-- A session after what was sent. -/
def after (D : Dialect) (s : Session) (log : Transcript) : Session :=
  log.foldl (fun s entry => (s.step D entry.1).2) s

/-- A session as a server. -/
def server (D : Dialect) (s : Session) : Server := fun log r => ((s.after D log).step D r).1

variable {D : Dialect} {s : Session} {log : Transcript}

@[simp] theorem after_append (log more : Transcript) :
    s.after D (log ++ more) = (s.after D log).after D more := List.foldl_append

@[simp] theorem after_cons (r : Request) (reply : Reply) (log : Transcript) :
    s.after D ((r, reply) :: log) = (s.step D r).2.after D log := rfl

@[simp] theorem after_nil : s.after D [] = s := rfl

/-- What a session keeps to, whether its transaction is committed or not. -/
structure Sound (s : Session) : Prop where
  database : s.database.Sound
  saved : ∀ old ∈ s.saved, old.Sound
  counted : ∀ old ∈ s.saved, old.nextPost ≤ s.database.nextPost

theorem Sound.begun (h : s.Sound) : (s.step D .begin).2.Sound := by
  obtain ⟨d, saved⟩ := s
  refine ⟨h.database, ?_, ?_⟩
  · rintro _ ⟨⟩
    cases saved with
    | none => exact h.database
    | some old => exact h.saved old rfl
  · rintro _ ⟨⟩
    cases saved with
    | none => exact le_rfl
    | some old => exact h.counted old rfl

theorem Sound.rolledBack (h : s.Sound) : (s.step D .rollback).2.Sound := by
  obtain ⟨d, saved⟩ := s
  refine ⟨?_, nofun, nofun⟩
  cases saved with
  | none => exact h.database
  | some old =>
    -- the old rows stand behind the new counters
    have hold := h.saved old rfl
    exact ⟨fun r hr => (hold.ids r hr).trans_le (h.counted old rfl), hold.colors, hold.keywords⟩

/-- No request makes a sound session unsound. -/
theorem Sound.step (h : s.Sound) (r : Request) : (s.step D r).2.Sound := by
  cases r with
  | begin => exact h.begun
  | commit => exact ⟨h.database, nofun, nofun⟩
  | rollback => exact h.rolledBack
  | run c =>
    have hcontinues := s.database.continues_reply D c
    exact ⟨hcontinues.sound h.database, h.saved,
      fun old hold => (h.counted old hold).trans hcontinues.counted⟩

/-- A session that was sound is so after everything that is sent. -/
theorem sound_after (h : s.Sound) (log : Transcript) : (s.after D log).Sound := by
  induction log generalizing s with
  | nil => exact h
  | cons entry log ih => exact ih (h.step entry.1)

end Session

/-! ## Programs -/

namespace Program

variable {α β : Type} {D : Dialect} {d d' : Database}

/-- What a program makes of a database that nobody else uses. -/
def play (D : Dialect) : Program α → Database → Except StoreError α × Database
  | .done a, d => (.ok a, d)
  | .fail e, d => (.error e, d)
  | .send c next, d =>
    match d.reply D c with
    | (.ok rows, d) => (next rows).play D d
    | (.error e, d) => (.error e.toStoreError, d)

theorem play_bind {p : Program α} {f : α → Program β} {a : α} (h : p.play D d = (.ok a, d')) :
    (p >>= f).play D d = (f a).play D d' := by
  induction p generalizing d with
  | done b => cases h; rfl
  | fail e => cases h
  | send c next ih =>
    show ((send c next).bind f).play D d = _
    rw [play] at h
    rw [bind, play]
    rcases hc : d.reply D c with ⟨_ | rows, d₁⟩
    · rw [hc] at h; cases h
    · rw [hc] at h; exact ih rows h

theorem play_rows {c : Command} {rows : List Row} (h : d.reply D c = (.ok rows, d')) :
    (Program.rows c).play D d = (.ok rows, d') := by
  rw [Program.rows, play, h]
  rfl

theorem play_execute {c : Command} {a : Action} {rows : List Row} (hc : c.action? = some a)
    (hd : d.perform a = .ok (rows, d')) : (execute c).play D d = (.ok (), d') := by
  rw [execute, play, Database.reply_action hc hd]
  rfl

end Program

namespace Sql.Database

variable {D : Dialect} {d : Database} {post : Int}

theorem withKeywords_nil (d : Database) (post : Int) : d.withKeywords post [] = d := by
  simp [withKeywords, keywordRows, numbered]

theorem withColors_nil (d : Database) (post : Int) : d.withColors post [] = d := by
  simp [withColors, colorRows, numbered]

theorem play_writeKeywords (h : d.Stored post) (keywords : List Keyword) :
    (Program.writeKeywords post keywords).play D d = (.ok (), d.withKeywords post keywords) := by
  unfold Program.writeKeywords
  cases keywords with
  | nil => rw [withKeywords_nil]; rfl
  | cons k ks => exact Program.play_execute rfl (perform_insertKeywords h (k :: ks))

theorem play_writeColors (h : d.Stored post) (colors : List Color) :
    (Program.writeColors post colors).play D d = (.ok (), d.withColors post colors) := by
  unfold Program.writeColors
  cases colors with
  | nil => rw [withColors_nil]; rfl
  | cons c cs => exact Program.play_execute rfl (perform_insertColors h (c :: cs))

end Sql.Database

/-! ## Transactions -/

section Transactions

variable {α : Type} {D : Dialect} {s : Session} {log : Transcript} (now : Int)

/-- A program over a session is played on its database. -/
theorem run_play (p : Program α) (s : Session) (log : Transcript) :
    ∃ log', p.run ((s.server D).link now) log = ((p.play D (s.after D log).database).1, log') ∧
      s.after D log' = ⟨(p.play D (s.after D log).database).2, (s.after D log).saved⟩ := by
  induction p generalizing log with
  | done a => exact ⟨log, rfl, rfl⟩
  | fail e => exact ⟨log, rfl, rfl⟩
  | send c next ih =>
    have hserver : s.server D log (.run c) = ((s.after D log).database.reply D c).1 := rfl
    rw [Program.run_send, Program.play, hserver]
    rcases hc : (s.after D log).database.reply D c with ⟨e | rows, d⟩
    · exact ⟨log ++ [(.run c, .error e)], rfl, by simp [Session.step, hc]⟩
    · obtain ⟨log', hrun, hafter⟩ := ih rows (log ++ [(.run c, .ok rows)])
      have hd : s.after D (log ++ [(.run c, .ok rows)]) = ⟨d, (s.after D log).saved⟩ := by
        simp [Session.step, hc]
      rw [hd] at hrun hafter
      exact ⟨log', hrun, hafter⟩

/-- A transaction that begins when none is open goes back to where it began. -/
theorem after_begin (hidle : (s.after D log).saved = none) :
    s.after D (log ++ [(.begin, .ok [])]) =
      ⟨(s.after D log).database, some (s.after D log).database⟩ := by
  simp [Session.step, hidle]

/-- A program that ends with a value in a transaction is played and committed. -/
theorem transaction_play (hidle : (s.after D log).saved = none) {p : Program α} {a : α}
    {d : Database} (h : p.play D (s.after D log).database = (.ok a, d)) :
    ∃ log', ((s.server D).link now).transaction p log = (.ok a, log') ∧
      s.after D log' = ⟨d, none⟩ := by
  have hbegin : s.server D log .begin = .ok [] := rfl
  obtain ⟨log', hrun, hafter⟩ := run_play now p s (log ++ [(.begin, .ok [])])
  rw [after_begin hidle] at hrun hafter
  simp only [h] at hrun hafter
  have hcommit : s.server D log' .commit = .ok [] := rfl
  refine ⟨log' ++ [(.commit, .ok [])], ?_, ?_⟩
  · simp only [Server.transaction_eq, hbegin, hrun, Server.settle_eq, hcommit]
  · simp [hafter, Session.step]

/-- What is sent in a transaction that is given up after one command without rows. -/
def Transcript.fruitless (c : Command) : Transcript :=
  [(.begin, .ok []), (.run c, .ok []), (.rollback, .ok [])]

/-- A transaction whose first command has no row that its program can do without
is rolled back, and nothing else is sent. -/
theorem transaction_refused (hidle : (s.after D log).saved = none) {c : Command} {e : StoreError}
    {next : List Row → Program α} (hnext : next [] = .fail e)
    (hc : (s.after D log).database.reply D c = (.ok [], (s.after D log).database)) :
    ((s.server D).link now).transaction (.send c next) log =
        (.error e, log ++ Transcript.fruitless c) ∧
      s.after D (log ++ Transcript.fruitless c) = s.after D log := by
  have hbegin : s.server D log .begin = .ok [] := rfl
  have hreply : s.server D (log ++ [(.begin, .ok [])]) (.run c) = .ok [] := by
    rw [Session.server, after_begin hidle, Session.step, hc]
  have hfail : ∀ log' : Transcript, (Program.fail e : Program α).run ((s.server D).link now) log' =
      (.error e, log') := fun _ => rfl
  have hrollback : ∀ log', s.server D log' .rollback = .ok [] := fun _ => rfl
  refine ⟨?_, ?_⟩
  · simp only [Server.transaction_eq, hbegin, Program.run_send, hreply, hnext, hfail,
      Server.abandon_eq, hrollback, List.append_assoc, List.cons_append, List.nil_append]
    rfl
  · have hsession : s.after D log = ⟨(s.after D log).database, none⟩ := by rw [← hidle]
    rw [Session.after_append, hsession]
    simp [Transcript.fruitless, Session.step, hc, Database.restored_self]

end Transactions

end FilmCatalog
