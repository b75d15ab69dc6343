import FilmCatalog.Cache.Layer
import FilmCatalog.Proofs.Json.Canonical
import FilmCatalog.Proofs.Json.Decoding
import FilmCatalog.Proofs.Json.Schema

/-!
# Values as they are stored

A format says how values of a kind are written, how they are read, and by
which schema. The formats of posts, of pages and of lists of posts are
faithful. A value is read from its bytes, and what was read from any bytes is
read from its own again, if its doubles are read back from their texts
(`Double.Returns`). Bytes are read as the value that their document stands
for: other names and the order of names do not matter, and where a name is
missing or comes again, or a double is not finite, nothing is read.

Key definitions: `Double.Returns`, `Json.Schema.Describes`, `Format`, `Format.Faithful`.
Key theorems: `Json.Schema.Describes.allFinite`, `Post.reads`, `PostPage.reads`,
`Format.Sound.faithful`, `stored_posts_faithful`.
-/

namespace FilmCatalog

/-! ## Doubles that are read back -/

/-- Whether a double is read back from what is written for it. -/
def Double.Returns (x : Double) : Prop :=
  Json.Decoder.ofText? Json.Decoder.double (Json.double x).compact = some x

namespace Json

/-- Whether all doubles of a value are read back from what is written for them. -/
def Returns (v : Json) : Prop := ∀ x ∈ v.doubles, x.Returns

theorem compact_double (x : Double) :
    (Json.double x).compact = if x.isFinite then x.jsonText else "null" := rfl

/-- A number that is not finite is written as none. -/
theorem not_returns {x : Double} (h : x.isFinite = false) : ¬x.Returns := by
  intro hx
  rw [Double.Returns, compact_double, if_neg (by simp [h])] at hx
  cases hx

theorem Returns.allFinite {v : Json} (h : v.Returns) : v.AllFinite := by
  intro x hx
  by_contra hnot
  exact not_returns (Bool.not_eq_true _ ▸ hnot) (h x hx)

theorem Returns.readsBack {v : Json} (h : v.Returns) : v.ReadsBack := by
  intro x hx hfinite
  have hreturns := h x hx
  rwa [Double.Returns, compact_double, if_pos hfinite] at hreturns

/-! ## Values of a schema -/

namespace Schema

/-- Whether a value has the parts that a schema names, in their order and no others. -/
inductive Describes : Schema → Json → Prop where
  | text (s : String) : Describes text (.text s)
  | bool (b : Bool) : Describes bool (.bool b)
  | int (range : IntRange) (n : ℤ) : Describes (int range) (.int n)
  | double (x : Double) : Describes double (.double x)
  | list {item : Schema} {items : List Json} (h : ∀ v ∈ items, Describes item v) :
      Describes (list item) (.array items)
  | record {parts : List (String × Schema × Json)} (hnames : (parts.map Prod.fst).Nodup)
      (h : ∀ p ∈ parts, Describes p.2.1 p.2.2) :
      Describes (record (parts.map fun p => (p.1, p.2.1)))
        (.object (parts.map fun p => (p.1, p.2.2)))

attribute [simp] Describes.text Describes.bool Describes.int Describes.double

/-- A value whose own document stands for something has finite doubles only. -/
theorem Describes.allFinite {s : Schema} {v w : Json} (h : s.Describes v)
    (hstands : s.Stands v.document w) : v.AllFinite := by
  induction h generalizing w with
  | text s => exact allFinite_text s
  | bool b => exact allFinite_bool b
  | int range n => exact allFinite_int n
  | double x =>
    refine allFinite_double ?_
    by_contra hx
    rw [document, if_neg hx] at hstands
    cases hstands
  | list _ ih =>
    rw [document, documents_eq] at hstands
    intro x hx
    rw [doubles, itemDoubles_eq] at hx
    obtain ⟨v, hv, hxv⟩ := List.mem_flatMap.1 hx
    obtain ⟨w, hw⟩ := hstands.item (List.mem_map_of_mem hv)
    exact ih v hv hw x hxv
  | @record parts hnames _ ih =>
    rw [document] at hstands
    refine allFinite_object fun m hm => ?_
    obtain ⟨p, hp, rfl⟩ := List.mem_map.1 hm
    obtain ⟨d, w, hd, hw⟩ := hstands.named (List.mem_map_of_mem hp)
    rw [Decoder.named_documents (by rwa [List.map_map]) hm, List.singleton_inj] at hd
    exact ih p hp (hd ▸ hw)

theorem describes_ofList {α : Type} {s : Schema} {write : α → Json} {as : List α}
    (h : ∀ a ∈ as, s.Describes (write a)) : (list s).Describes (ofList write as) := by
  refine .list fun v hv => ?_
  obtain ⟨a, ha, rfl⟩ := List.mem_map.1 hv
  exact h a ha

end Schema

namespace Decoder

theorem holds_of_intIn {range : IntRange} {d : Document} {n : ℤ}
    (h : intIn range d = some n) : range.holds n = true := by
  obtain ⟨_, -, -, hrange⟩ := intIn_eq_some_iff.1 h
  exact hrange

/-- What is read in a list is read from one of its items. -/
theorem exists_of_mem_list {α : Type} {decode : Decoder α} {d : Document} {as : List α}
    (h : list decode d = some as) {a : α} (ha : a ∈ as) : ∃ e, decode e = some a := by
  obtain ⟨items, rfl, hitems⟩ := list_eq_some_iff.1 h
  obtain ⟨xs, rfl, rfl, hxs⟩ := forall₂_iff_pairs.1 hitems
  obtain ⟨x, hx, rfl⟩ := List.mem_map.1 ha
  exact ⟨x.1, hxs x hx⟩

end Decoder
end Json

open Json Json.Decoder

/-! ## Parts of posts -/

/-- The schema of an image. -/
def Image.schema : Schema :=
  .record [("url", .text), ("width", .int .short), ("height", .int .short)]

theorem Image.reads : Image.decode.Reads Image.schema Image.toJson := by
  refine reads_record (fun _ => rfl) fun found hfound => ?_
  -- as many parts are found as the schema names, so there is one for each
  repeat rcases hfound with _ | ⟨-, hfound⟩
  exact reads_part reads_text fun url => reads_part (reads_intIn .short) fun width =>
    reads_part (reads_intIn .short) fun height => rfl

theorem Image.describes (i : Image) : Image.schema.Describes i.toJson :=
  @Schema.Describes.record [("url", .text, .text i.url), ("width", .int .short, .int i.width),
    ("height", .int .short, .int i.height)] (by simp) (by simp)

theorem Image.storable_of_decode {d : Document} {i : Image} (h : Image.decode d = some i) :
    i.storable = true := by
  obtain ⟨found, -, hbuild⟩ := Option.bind_eq_some_iff.1 h
  split at hbuild
  · simp only [Option.bind_eq_bind, Option.bind_eq_some_iff] at hbuild
    obtain ⟨_, -, _, hwidth, _, hheight, ⟨⟩⟩ := hbuild
    rw [Image.storable, holds_of_intIn hwidth, holds_of_intIn hheight, Bool.and_true]
  · cases hbuild

/-- The schema of an image set. -/
def ImageSet.schema : Schema :=
  .record (ImageVariant.all.map fun v => (v.name, Image.schema))

theorem ImageSet.reads : ImageSet.decode.Reads ImageSet.schema ImageSet.toJson := by
  refine reads_record (fun _ => rfl) fun found hfound => ?_
  repeat rcases hfound with _ | ⟨-, hfound⟩
  exact reads_part Image.reads fun low => reads_part Image.reads fun medium =>
    reads_part Image.reads fun high => reads_part Image.reads fun raw => rfl

theorem ImageSet.describes (s : ImageSet) : ImageSet.schema.Describes s.toJson :=
  @Schema.Describes.record [("low", Image.schema, s.low.toJson),
    ("medium", Image.schema, s.medium.toJson), ("high", Image.schema, s.high.toJson),
    ("raw", Image.schema, s.raw.toJson)] (by simp) (by simp [Image.describes])

theorem ImageSet.storable_of_decode {d : Document} {s : ImageSet} (h : ImageSet.decode d = some s) :
    s.storable = true := by
  obtain ⟨found, -, hbuild⟩ := Option.bind_eq_some_iff.1 h
  split at hbuild
  · simp only [Option.bind_eq_bind, Option.bind_eq_some_iff] at hbuild
    obtain ⟨_, hlow, _, hmedium, _, hhigh, _, hraw, ⟨⟩⟩ := hbuild
    rw [ImageSet.storable, Image.storable_of_decode hlow, Image.storable_of_decode hmedium,
      Image.storable_of_decode hhigh, Image.storable_of_decode hraw]
    rfl
  · cases hbuild

/-- The schema of a color. -/
def Color.schema : Schema :=
  .record [("hex", .text), ("css", .text), ("html", .text), ("percent", .double)]

theorem Color.reads : Color.decode.Reads Color.schema Color.toJson := by
  refine reads_record (fun _ => rfl) fun found hfound => ?_
  repeat rcases hfound with _ | ⟨-, hfound⟩
  exact reads_part reads_text fun hex => reads_part reads_text fun css =>
    reads_part reads_text fun html => reads_part reads_double fun percent => rfl

theorem Color.describes (c : Color) : Color.schema.Describes c.toJson :=
  @Schema.Describes.record [("hex", .text, .text c.hex), ("css", .text, .text c.css),
    ("html", .text, .text c.html), ("percent", .double, .double c.percent)] (by simp) (by simp)

/-- The schema of a keyword. -/
def Keyword.schema : Schema := .record [("word", .text), ("weight", .double)]

theorem Keyword.reads : Keyword.decode.Reads Keyword.schema Keyword.toJson := by
  refine reads_record (fun _ => rfl) fun found hfound => ?_
  repeat rcases hfound with _ | ⟨-, hfound⟩
  exact reads_part reads_text fun word => reads_part reads_double fun weight => rfl

theorem Keyword.describes (k : Keyword) : Keyword.schema.Describes k.toJson :=
  @Schema.Describes.record [("word", .text, .text k.word), ("weight", .double, .double k.weight)]
    (by simp) (by simp)

/-! ## Posts and pages -/

/-- The schema of a post. -/
def Post.schema : Schema :=
  .record [("id", .int .long), ("title", .text), ("author", .text), ("permalink", .text),
    ("score", .int .short), ("nsfw", .bool), ("grayscale", .bool), ("sprocket", .bool),
    ("time", .int .long), ("images", ImageSet.schema), ("colors", .list Color.schema),
    ("keywords", .list Keyword.schema)]

theorem Post.reads : Post.decode.Reads Post.schema Post.toJson := by
  refine reads_record (fun _ => rfl) fun found hfound => ?_
  repeat rcases hfound with _ | ⟨-, hfound⟩
  exact reads_part (reads_intIn .long) fun id => reads_part reads_text fun title =>
    reads_part reads_text fun author => reads_part reads_text fun permalink =>
    reads_part (reads_intIn .short) fun score => reads_part reads_bool fun nsfw =>
    reads_part reads_bool fun grayscale => reads_part reads_bool fun sprocket =>
    reads_part (reads_intIn .long) fun time => reads_part ImageSet.reads fun images =>
    reads_part (reads_list Color.reads) fun colors =>
    reads_part (reads_list Keyword.reads) fun keywords => rfl

theorem Post.describes (p : Post) : Post.schema.Describes p.toJson :=
  @Schema.Describes.record [("id", .int .long, .int p.id), ("title", .text, .text p.title),
    ("author", .text, .text p.author), ("permalink", .text, .text p.permalink),
    ("score", .int .short, .int p.score), ("nsfw", .bool, .bool p.nsfw),
    ("grayscale", .bool, .bool p.grayscale), ("sprocket", .bool, .bool p.sprocket),
    ("time", .int .long, .int p.time), ("images", ImageSet.schema, p.images.toJson),
    ("colors", .list Color.schema, Json.ofList Color.toJson p.colors),
    ("keywords", .list Keyword.schema, Json.ofList Keyword.toJson p.keywords)]
    (by simp) (by
      simp [ImageSet.describes, Schema.describes_ofList, Color.describes, Keyword.describes])

/-- Whether the integers of a post fit their widths. -/
def Post.inRange (p : Post) : Bool :=
  IntRange.long.holds p.id && IntRange.short.holds p.score && IntRange.long.holds p.time &&
    p.images.storable

theorem Post.inRange_of_decode {d : Document} {p : Post} (h : Post.decode d = some p) :
    p.inRange = true := by
  obtain ⟨found, -, hbuild⟩ := Option.bind_eq_some_iff.1 h
  split at hbuild
  · simp only [Option.bind_eq_bind, Option.bind_eq_some_iff] at hbuild
    obtain ⟨_, hid, _, -, _, -, _, -, _, hscore, _, -, _, -, _, -, _, htime, _, himages, _, -, _, -,
      ⟨⟩⟩ := hbuild
    rw [Post.inRange, holds_of_intIn hid, holds_of_intIn hscore, holds_of_intIn htime,
      ImageSet.storable_of_decode himages]
    rfl
  · cases hbuild

theorem Post.storable_of_inRange {p : Post} (h : p.inRange = true) (hfinite : p.toJson.AllFinite) :
    p.storable = true := by
  have hcolors : p.colors.all (·.percent.isFinite) = true := by
    have hall : (Json.ofList Color.toJson p.colors).AllFinite :=
      hfinite.member (m := ("colors", Json.ofList Color.toJson p.colors)) (by simp)
    refine List.all_eq_true.2 fun c hc => ?_
    have hc' : c.toJson.AllFinite := hall.item (List.mem_map_of_mem hc)
    exact hc'.member (m := ("percent", .double c.percent)) (by simp) _ List.mem_cons_self
  have hkeywords : p.keywords.all (·.weight.isFinite) = true := by
    have hall : (Json.ofList Keyword.toJson p.keywords).AllFinite :=
      hfinite.member (m := ("keywords", Json.ofList Keyword.toJson p.keywords)) (by simp)
    refine List.all_eq_true.2 fun k hk => ?_
    have hk' : k.toJson.AllFinite := hall.item (List.mem_map_of_mem hk)
    exact hk'.member (m := ("weight", .double k.weight)) (by simp) _ List.mem_cons_self
  rw [Post.storable, hcolors, hkeywords, Bool.and_true, Bool.and_true]
  exact h

theorem posts_inRange_of_decode {d : Document} {ps : List Post} (h : list Post.decode d = some ps) :
    ps.all Post.inRange = true := by
  refine List.all_eq_true.2 fun p hp => ?_
  obtain ⟨e, he⟩ := exists_of_mem_list h hp
  exact Post.inRange_of_decode he

theorem posts_storable_of_inRange {ps : List Post} (h : ps.all Post.inRange = true)
    (hfinite : (Json.ofList Post.toJson ps).AllFinite) : ps.all Post.storable = true :=
  List.all_eq_true.2 fun p hp => Post.storable_of_inRange (List.all_eq_true.1 h p hp)
    (hfinite.item (List.mem_map_of_mem hp))

/-- The schema of a page of posts. -/
def PostPage.schema : Schema := .record [("posts", .list Post.schema), ("total", .int .long)]

theorem PostPage.reads : PostPage.decode.Reads PostPage.schema PostPage.toJson := by
  refine reads_record (fun _ => rfl) fun found hfound => ?_
  repeat rcases hfound with _ | ⟨-, hfound⟩
  exact reads_part (reads_list Post.reads) fun posts =>
    reads_part (reads_intIn .long) fun total => rfl

theorem PostPage.describes (p : PostPage) : PostPage.schema.Describes p.toJson :=
  @Schema.Describes.record [("posts", .list Post.schema, Json.ofList Post.toJson p.posts),
    ("total", .int .long, .int p.total)] (by simp)
    (by simp [Schema.describes_ofList, Post.describes])

/-- Whether the integers of a page fit their widths. -/
def PostPage.inRange (p : PostPage) : Bool :=
  p.posts.all Post.inRange && IntRange.long.holds p.total

theorem PostPage.inRange_of_decode {d : Document} {p : PostPage} (h : PostPage.decode d = some p) :
    p.inRange = true := by
  obtain ⟨found, -, hbuild⟩ := Option.bind_eq_some_iff.1 h
  split at hbuild
  · simp only [Option.bind_eq_bind, Option.bind_eq_some_iff] at hbuild
    obtain ⟨_, hposts, _, htotal, ⟨⟩⟩ := hbuild
    rw [PostPage.inRange, posts_inRange_of_decode hposts, holds_of_intIn htotal, Bool.and_true]
  · cases hbuild

theorem PostPage.storable_of_inRange {p : PostPage} (h : p.inRange = true)
    (hfinite : p.toJson.AllFinite) : p.storable = true := by
  obtain ⟨hposts, htotal⟩ := (Bool.and_eq_true_iff).1 h
  have hall : (Json.ofList Post.toJson p.posts).AllFinite :=
    hfinite.member (m := ("posts", Json.ofList Post.toJson p.posts)) (by simp)
  rw [PostPage.storable, posts_storable_of_inRange hposts hall, htotal, Bool.and_true]

/-! ## Formats -/

/-- How values of a kind are kept: what is written for them, what is read, and which
values the kind has. -/
structure Format (α : Type) where
  toJson : α → Json
  decode : Json.Decoder α
  schema : Schema
  /-- Whether the integers of a value fit their widths. -/
  inRange : α → Bool

namespace Format

variable {α : Type}

/-- The bytes that are kept for a value. -/
def encoded (f : Format α) (v : α) : ByteArray := (f.toJson v).encoded

/-- The value in some bytes. -/
def ofBytes? (f : Format α) (bytes : ByteArray) : Option α := Json.Decoder.ofBytes? f.decode bytes

/-- Whether what is written and what is read belong together. -/
structure Faithful (f : Format α) : Prop where
  /-- A value is read from its bytes. -/
  returned : ∀ v, f.inRange v = true → (f.toJson v).Returns → f.ofBytes? (f.encoded v) = some v
  /-- Bytes are read as the value that their document stands for, and only then. -/
  read : ∀ bytes w, (∃ v, f.ofBytes? bytes = some v ∧ f.toJson v = w) ↔
    ∃ d, Document.ofBytes? bytes = some d ∧ f.schema.Stands d w
  /-- Whatever was read is read from its own bytes again. -/
  stable : ∀ bytes v, f.ofBytes? bytes = some v → (f.toJson v).Returns →
    f.ofBytes? (f.encoded v) = some v
  /-- Where a part is missing or comes again, nothing is read. -/
  broken : ∀ bytes d, Document.ofBytes? bytes = some d → f.schema.Breaks d →
    f.ofBytes? bytes = none
  /-- Where a double is not finite, nothing is read. -/
  finite : ∀ v, ∀ x ∈ (f.toJson v).doubles, x.isFinite = false → f.ofBytes? (f.encoded v) = none

/-- What makes a format faithful. -/
structure Sound (f : Format α) : Prop where
  decode_document : ∀ v, f.inRange v = true → (f.toJson v).Returns →
    f.decode (f.toJson v).document = some v
  inRange_of_decode : ∀ d v, f.decode d = some v → f.inRange v = true
  reads : f.decode.Reads f.schema f.toJson
  describes : ∀ v, f.schema.Describes (f.toJson v)

theorem ofBytes?_encoded (f : Format α) (v : α) :
    f.ofBytes? (f.encoded v) = f.decode (f.toJson v).document := by
  rw [ofBytes?, encoded, Json.encoded, Json.Decoder.ofBytes?,
    Json.ofBytes?_compact (Json.legible _), Option.bind_some]

theorem Sound.stands {f : Format α} (h : f.Sound) {d : Document} {w : Json} :
    (∃ v, f.decode d = some v ∧ f.toJson v = w) ↔ f.schema.Stands d w := by
  rw [← Option.map_eq_some_iff, h.reads d, Schema.value?_eq_some_iff]

theorem Sound.faithful {f : Format α} (h : f.Sound) : f.Faithful where
  returned v hrange hreturns := (f.ofBytes?_encoded v).trans (h.decode_document v hrange hreturns)
  read bytes w := by
    rw [← Option.map_eq_some_iff, ofBytes?, Json.Decoder.ofBytes?, Option.map_bind,
      Option.bind_eq_some_iff]
    exact exists_congr fun d => and_congr_right fun _ => Option.map_eq_some_iff.trans h.stands
  stable bytes v hread hreturns := by
    obtain ⟨d, -, hd⟩ := Option.bind_eq_some_iff.1 hread
    rw [ofBytes?_encoded]
    exact h.decode_document v (h.inRange_of_decode d v hd) hreturns
  broken bytes d hd hbreaks := by
    rw [ofBytes?, Json.Decoder.ofBytes?, hd, Option.bind_some, Option.eq_none_iff_forall_ne_some]
    exact fun v hv => hbreaks.not_stands _ (h.stands.1 ⟨v, hv, rfl⟩)
  finite v x hx hinfinite := by
    rw [ofBytes?_encoded, Option.eq_none_iff_forall_ne_some]
    intro w hw
    have hfinite := (h.describes v).allFinite (h.stands.1 ⟨w, hw, rfl⟩) x hx
    rw [hinfinite] at hfinite
    cases hfinite

/-- A post as it is kept. -/
def post : Format Post := ⟨Post.toJson, Post.decode, Post.schema, Post.inRange⟩

/-- A list of posts as it is kept. -/
def posts : Format (List Post) :=
  ⟨Json.ofList Post.toJson, list Post.decode, .list Post.schema, (List.all · Post.inRange)⟩

/-- A page of posts as it is kept. -/
def page : Format PostPage :=
  ⟨PostPage.toJson, PostPage.decode, PostPage.schema, PostPage.inRange⟩

theorem sound_post : post.Sound where
  decode_document _ hrange hreturns := (Post.decode_document hreturns.readsBack).trans
    (if_pos (Post.storable_of_inRange hrange hreturns.allFinite))
  inRange_of_decode _ _ := Post.inRange_of_decode
  reads := Post.reads
  describes := Post.describes

theorem sound_posts : posts.Sound where
  decode_document _ hrange hreturns := (posts_decode_document hreturns.readsBack).trans
    (if_pos (posts_storable_of_inRange hrange hreturns.allFinite))
  inRange_of_decode _ _ := posts_inRange_of_decode
  reads := reads_list Post.reads
  describes _ := Schema.describes_ofList fun p _ => p.describes

theorem sound_page : page.Sound where
  decode_document _ hrange hreturns := (PostPage.decode_document hreturns.readsBack).trans
    (if_pos (PostPage.storable_of_inRange hrange hreturns.allFinite))
  inRange_of_decode _ _ := PostPage.inRange_of_decode
  reads := PostPage.reads
  describes := PostPage.describes

end Format

/-- Posts, pages and lists of posts are kept faithfully. -/
theorem stored_posts_faithful :
    Format.post.Faithful ∧ Format.page.Faithful ∧ Format.posts.Faithful :=
  ⟨Format.sound_post.faithful, Format.sound_page.faithful, Format.sound_posts.faithful⟩

/-- A page with a photograph that has a keyword of weight one half. -/
def PostPage.dusk : PostPage where
  posts := [{
    id := 2
    title := "Harbour"
    author := "ada"
    permalink := "https://example.org/2"
    score := 1
    nsfw := false
    grayscale := true
    sprocket := false
    time := 1000
    images := ⟨⟨"a", 1, 1⟩, ⟨"a", 1, 1⟩, ⟨"a", 1, 1⟩, ⟨"a", 1, 1⟩⟩
    colors := []
    keywords := [⟨"dusk", Double.ofRatio false 1 2⟩] }]
  total := 1

theorem PostPage.returns_dusk : PostPage.dusk.toJson.Returns := by
  have hdoubles : PostPage.dusk.toJson.doubles = [Double.ofRatio false 1 2] := by decide +kernel
  intro x hx
  rw [hdoubles, List.mem_singleton] at hx
  subst hx
  unfold Double.Returns
  decide +kernel

/-- The page is read from its bytes, and so are its posts, together and one by
one. Without its total, or with a weight that is not finite, nothing is read. -/
theorem dusk_stored_faithfully :
    Format.page.ofBytes? (Format.page.encoded .dusk) = some .dusk ∧
      Format.posts.ofBytes? (Format.posts.encoded PostPage.dusk.posts) =
        some PostPage.dusk.posts ∧
      (∀ p ∈ PostPage.dusk.posts, Format.post.ofBytes? (Format.post.encoded p) = some p) ∧
      Format.page.ofBytes? (Json.object [("posts", .array [])]).encoded = none ∧
      ∀ p ∈ PostPage.dusk.posts, Format.post.ofBytes? (Format.post.encoded
        { p with keywords := [⟨"dusk", Double.infinity false⟩] }) = none := by
  obtain ⟨hpost, hpage, hposts⟩ := stored_posts_faithful
  have hreturns : (Json.ofList Post.toJson PostPage.dusk.posts).Returns := PostPage.returns_dusk
  have htotal : Document.ofBytes? (Json.object [("posts", .array [])]).encoded =
      some (.object [(some "posts", .array [])]) := Json.ofBytes?_compact (Json.legible _)
  refine ⟨hpage.returned _ (by decide +kernel) PostPage.returns_dusk,
    hposts.returned _ (by decide +kernel) hreturns, fun p hp => hpost.returned p ?_ ?_,
    hpage.broken _ _ htotal (.name (List.mem_cons_of_mem _ List.mem_cons_self) (by decide)),
    fun p hp => hpost.finite _ (Double.infinity false) ?_ (by decide +kernel)⟩
  · revert p
    decide +kernel
  · rw [List.mem_singleton.1 hp]
    exact hreturns
  · revert p
    decide +kernel

end FilmCatalog
