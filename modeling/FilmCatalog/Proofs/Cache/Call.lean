import FilmCatalog.Cache.Posts
import FilmCatalog.Cache.Similar
import FilmCatalog.Proofs.Cache.Keys
import FilmCatalog.Proofs.Json.Decoding

/-!
# Calls of the cached stores

A call as the tree of what it asks for: entries of the backend, a place in the
pool, answers of the store behind the caches. Each of them is followed by
what the call does with the answer, whatever that is. The trees are those of
the cached reader and of the cached similarity source, over one layer.

Three kinds of questions are read through the cache, all in one way
(`call_read`): the entry of the request's key if there is one that can be
decoded, else the answer of the store, which is submitted to be kept unless it
is an error.

Key definitions: `CachedRead`, `Question`, `Answer`, `Call`, `call`, `Call.readThrough`.
Key theorems: `call_read`, `CachedRead.text?_eq_of_key_eq`, `CachedRead.ofBytes?_encoded`.
-/

namespace FilmCatalog

/-! ## What is read through the cache -/

/-- The reads that go through the cache. -/
inductive CachedRead where
  | pages
  | authors
  | similar
  deriving DecidableEq, Repr

namespace CachedRead

/-- What a read is asked for. -/
def Filter : CachedRead → Type
  | pages => PostFilter
  | authors => Unit
  | similar => SimilarityFilter

/-- What a read answers. -/
def Value : CachedRead → Type
  | pages => PostPage
  | authors => List String
  | similar => List Post

/-- Where the answers of a read are kept. -/
def ns : CachedRead → Namespace
  | pages => .posts
  | authors => .authors
  | similar => .similar

/-- The canonical text of a filter, if there is something to filter by. -/
def text? : (o : CachedRead) → o.Filter → Option String
  | pages, f => some (PostFilter.toJson f).canonical
  | authors, _ => none
  | similar, f => some (SimilarityFilter.toJson f).canonical

/-- The key under which the answer to a filter is kept. -/
def key (o : CachedRead) (f : o.Filter) : String :=
  o.ns.key ((o.text? f).elim authorsId Digest.sha256Hex)

/-- An answer in JSON. -/
def toJson : (o : CachedRead) → o.Value → Json
  | pages, page => PostPage.toJson page
  | authors, names => Json.ofList .text names
  | similar, posts => Json.ofList Post.toJson posts

/-- Reads an answer. -/
def decode : (o : CachedRead) → Json.Decoder o.Value
  | pages => PostPage.decode
  | authors => Json.Decoder.list Json.Decoder.text
  | similar => Json.Decoder.list Post.decode

/-- The bytes that are kept for an answer. -/
def encoded (o : CachedRead) (v : o.Value) : ByteArray := (o.toJson v).encoded

/-- The answer in some bytes. -/
def ofBytes? (o : CachedRead) (bytes : ByteArray) : Option o.Value :=
  Json.Decoder.ofBytes? o.decode bytes

/-- The task that keeps an answer. -/
def task (c : CacheConfig) : (o : CachedRead) → o.Filter → o.Value → Task
  | pages, f, page =>
    let key := pages.key f
    ⟨.posts, key, Job.store .posts key (pages.encoded page) c.postsTtl⟩
  | authors, f, names =>
    let key := authors.key f
    ⟨.authors, key, Job.store .authors key (authors.encoded names) c.authorsTtl⟩
  | similar, f, posts =>
    let key := similar.key f
    ⟨.similar, key, Job.keepResult (Fingerprint.of (SimilarityFilter.toJson f))
      (similar.encoded posts) (contributors f posts) c.similarTtl c.similarIdsTtl⟩

theorem ns_injective : Function.Injective ns := by
  intro o o' h
  cases o <;> cases o' <;> first | rfl | cases h

theorem key_ne_indexKey (o : CachedRead) (f : o.Filter) (id : Int) : o.key f ≠ indexKey id := by
  intro h
  have hns := (Namespace.key_inj.1 h).1
  cases o <;> cases hns

/-- Filters with one key have one canonical text, if their digests tell texts apart. -/
theorem text?_eq_of_key_eq {o : CachedRead} {f g : o.Filter} (h : o.key f = o.key g)
    (hdigest : ∀ s ∈ o.text? f, ∀ t ∈ o.text? g, Digest.sha256Hex s = Digest.sha256Hex t → s = t) :
    o.text? f = o.text? g := by
  have hid := (Namespace.key_inj.1 h).2
  cases o with
  | authors => rfl
  | pages => exact congrArg some (hdigest _ rfl _ rfl hid)
  | similar => exact congrArg some (hdigest _ rfl _ rfl hid)

/-- Whether an answer is read back from its bytes. -/
def storable : (o : CachedRead) → o.Value → Bool
  | pages, page => PostPage.storable page
  | authors, _ => true
  | similar, posts => List.all posts Post.storable

/-- The bytes of an answer are that answer or nothing that can be read. -/
theorem ofBytes?_encoded {o : CachedRead} {v : o.Value} (h : (o.toJson v).ReadsBack) :
    o.ofBytes? (o.encoded v) = if o.storable v then some v else none := by
  have hdocument : o.ofBytes? (o.encoded v) = o.decode (o.toJson v).document := h.ofBytes? o.decode
  rw [hdocument]
  cases o with
  | pages => exact PostPage.decode_document h
  | authors => exact Json.Decoder.texts_document v
  | similar => exact posts_decode_document h

theorem eq_of_ofBytes?_encoded {o : CachedRead} {v v' : o.Value} (h : (o.toJson v).ReadsBack)
    (hread : o.ofBytes? (o.encoded v) = some v') : v' = v := by
  rw [ofBytes?_encoded h] at hread
  by_cases hgood : o.storable v = true
  · rw [if_pos hgood] at hread
    exact (Option.some.inj hread).symm
  · rw [if_neg hgood] at hread
    cases hread

end CachedRead

/-! ## Calls -/

/-- What the store behind the caches can be asked. -/
inductive Question where
  | read (o : CachedRead) (f : o.Filter)
  | post (id : Int)
  | ids
  | keywords (limit : Int)
  | forget (id : Int)

/-- What a question asks for. -/
def Question.Value : Question → Type
  | .read o _ => o.Value
  | .post _ => Option Post
  | .ids => List Int
  | .keywords _ => List KeywordSummary
  | .forget _ => Unit

/-- A question with its answer. -/
abbrev Answer := (q : Question) × Except StoreError q.Value

/-- A call: what it asks for next, and how it goes on then. -/
inductive Call (α : Type) : Type where
  | done (a : α)
  | get (key : String) (next : Fetched → Call α)
  | delete (key : String) (next : Changed → Call α)
  | count (c : Counter) (ns : Namespace) (next : Call α)
  | submit (t : Task) (next : Bool → Call α)
  | consult (q : Question) (next : Except StoreError q.Value → Call α)

namespace Call

variable {α β : Type}

/-- A call that goes on with another one. -/
def bind : Call α → (α → Call β) → Call β
  | done a, f => f a
  | get key next, f => get key fun found => (next found).bind f
  | delete key next, f => delete key fun answer => (next answer).bind f
  | count c ns next, f => count c ns (next.bind f)
  | submit t next, f => submit t fun queued => (next queued).bind f
  | consult q next, f => consult q fun answer => (next answer).bind f

instance : Monad Call where
  pure := done
  bind := bind

/-- The layer that calls have. -/
def layer : CacheLayer Call where
  get key := get key done
  delete key := delete key done
  submit t := submit t done
  count c ns := count c ns (done ())

/-- Asks the store behind the caches. -/
def ask (q : Question) : ExceptT StoreError Call q.Value := consult q done

/-- The reader behind the cache. -/
def reader : PostReader Call where
  findPosts f := ask (.read .pages f)
  findPost id := ask (.post id)
  allIds := ask .ids
  authors := ask (.read .authors ())
  keywordSummary limit := ask (.keywords limit)

/-- The similarity source behind the cache. -/
def source : SimilaritySource Call where
  findSimilar f := ask (.read .similar f)
  forget id := ask (.forget id)

end Call

/-- The call of the cached stores for a question. -/
def call (c : CacheConfig) : (q : Question) → Call (Except StoreError q.Value)
  | .read .pages f => (Call.reader.cached Call.layer c).findPosts f
  | .read .authors _ => (Call.reader.cached Call.layer c).authors
  | .read .similar f => (Call.source.cached Call.layer c).findSimilar f
  | .post id => (Call.reader.cached Call.layer c).findPost id
  | .ids => (Call.reader.cached Call.layer c).allIds
  | .keywords limit => (Call.reader.cached Call.layer c).keywordSummary limit
  | .forget id => (Call.source.cached Call.layer c).forget id

namespace Call

variable {c : CacheConfig} {o : CachedRead} {f : o.Filter}

/-- Asks the store and has an answer kept that is no error. -/
def fetch (c : CacheConfig) (o : CachedRead) (f : o.Filter) : Call (Except StoreError o.Value) :=
  .consult (.read o f) fun
    | .ok v => .submit (o.task c f v) fun _ => .done (.ok v)
    | .error e => .done (.error e)

/-- Looks for the entry of a key, which is of use if it can be decoded. -/
def look {α β : Type} (ns : Namespace) (key : String) (decode : Json.Decoder α)
    (next : Option α → Call β) : Call β :=
  .get key fun
    | .error _ => .count .error ns (next none)
    | .ok none => .count .miss ns (next none)
    | .ok (some bytes) =>
      match Json.Decoder.ofBytes? decode bytes with
      | some a => .count .hit ns (next (some a))
      | none => .count .error ns (next none)

/-- Answers from the entry of a filter, else from the store. -/
def readThrough (c : CacheConfig) (o : CachedRead) (f : o.Filter) :
    Call (Except StoreError o.Value) :=
  look o.ns (o.key f) o.decode fun
    | some v => .done (.ok v)
    | none => fetch c o f

theorem look_bind {α β γ : Type} (ns : Namespace) (key : String) (decode : Json.Decoder α)
    (next : Option α → Call β) (after : β → Call γ) :
    (look ns key decode next).bind after =
      look ns key decode fun found => (next found).bind after := by
  refine congrArg (get key) (funext fun found => ?_)
  rcases found with e | _ | bytes
  · rfl
  · rfl
  · dsimp only
    cases Json.Decoder.ofBytes? decode bytes with
    | some a => rfl
    | none => rfl

theorem lookup_eq {α : Type} (ns : Namespace) (key : String) (decode : Json.Decoder α) :
    layer.lookup ns key decode = look ns key decode done := by
  refine congrArg (get key) (funext fun found => ?_)
  rcases found with e | _ | bytes
  · rfl
  · rfl
  · simp only [bind]
    cases Json.Decoder.ofBytes? decode bytes with
    | some a => rfl
    | none => rfl

/-- A lookup in a call that may fail. -/
theorem lift_lookup_bind {α β : Type} (ns : Namespace) (key : String) (decode : Json.Decoder α)
    (next : Option α → ExceptT StoreError Call β) :
    (ExceptT.lift (layer.lookup ns key decode) >>= next : ExceptT StoreError Call β) =
      look ns key decode next := by
  have hlift : ExceptT.lift (layer.lookup ns key decode) =
      look ns key decode fun found => done (.ok found : Except StoreError (Option α)) := by
    rw [lookup_eq]
    exact look_bind ns key decode done fun found => done (.ok found : Except StoreError (Option α))
  rw [hlift]
  exact look_bind ns key decode (fun found => done (.ok found : Except StoreError (Option α)))
    (ExceptT.bindCont next)

theorem fetch_of_consult (next : Except StoreError o.Value → Call (Except StoreError o.Value))
    (hok : ∀ v, next (.ok v) = .submit (o.task c f v) fun _ => .done (.ok v))
    (herror : ∀ e, next (.error e) = .done (.error e)) :
    consult (.read o f) next = fetch c o f := by
  refine congrArg (consult (.read o f)) (funext fun answer => ?_)
  cases answer with
  | ok v => exact hok v
  | error e => exact herror e

theorem readThrough_of_look (next : Option o.Value → Call (Except StoreError o.Value))
    (hfound : ∀ v, next (some v) = .done (.ok v)) (hmissing : next none = fetch c o f) :
    look o.ns (o.key f) o.decode next = readThrough c o f := by
  refine congrArg (look o.ns (o.key f) o.decode) (funext fun found => ?_)
  cases found with
  | some v => exact hfound v
  | none => exact hmissing

end Call

/-- The three cached reads go through the cache in one way. -/
theorem call_read (c : CacheConfig) (o : CachedRead) (f : o.Filter) :
    call c (.read o f) = Call.readThrough c o f := by
  cases o with
  | pages =>
    refine (Call.lift_lookup_bind .posts (CachedRead.pages.key f) PostPage.decode _).trans ?_
    exact Call.readThrough_of_look (c := c) (o := .pages) (f := f) _ (fun v => rfl)
      (Call.fetch_of_consult _ (fun v => rfl) fun e => rfl)
  | authors =>
    refine (Call.lift_lookup_bind .authors (CachedRead.authors.key f) _ _).trans ?_
    exact Call.readThrough_of_look (c := c) (o := .authors) (f := f) _ (fun v => rfl)
      (Call.fetch_of_consult _ (fun v => rfl) fun e => rfl)
  | similar =>
    refine (Call.lift_lookup_bind .similar (CachedRead.similar.key f) _ _).trans ?_
    exact Call.readThrough_of_look (c := c) (o := .similar) (f := f) _ (fun v => rfl)
      (Call.fetch_of_consult _ (fun v => rfl) fun e => rfl)

end FilmCatalog
