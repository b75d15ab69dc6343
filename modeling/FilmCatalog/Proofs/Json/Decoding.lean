import FilmCatalog.Post.Codec
import FilmCatalog.Proofs.Json.Reading

/-!
# Posts read back from JSON

What a decoder makes of the document of a value: the value itself, if its
integers are in range and its doubles finite, else nothing. Doubles are taken
to be read back from their texts (`Json.ReadsBack`).

Key definitions: `Json.ReadsBack`, `Post.storable`, `PostPage.storable`.
Key theorems: `Json.Decoder.fields_document`, `Post.decode_document`, `PostPage.decode_document`.
-/

namespace FilmCatalog

namespace Json

/-- Whether the finite doubles of a value are read back from their texts. -/
def ReadsBack (v : Json) : Prop := ∀ x ∈ v.doubles, x.isFinite = true → x.ReadsBack

theorem ReadsBack.legible {v : Json} (h : v.ReadsBack) : v.Legible := fun x hx hfinite => by
  obtain ⟨n, hn, -⟩ := (h x hx hfinite).numeral
  rw [hn]
  rfl

theorem ReadsBack.item {items : List Json} (h : (Json.array items).ReadsBack) {v : Json}
    (hv : v ∈ items) : v.ReadsBack := fun x hx => h x (mem_doubles_array hv hx)

theorem ReadsBack.member {members : List (String × Json)} (h : (Json.object members).ReadsBack)
    {m : String × Json} (hm : m ∈ members) : m.2.ReadsBack :=
  fun x hx => h x (mem_doubles_object hm hx)

namespace Decoder

/-! ## Values without parts -/

theorem text_document (s : String) : text (Json.text s).document = some s := rfl

theorem bool_document (b : Bool) : bool (Json.bool b).document = some b := rfl

/-- An integer is read if it is in the range. -/
theorem intIn_document {range : IntRange} (hlow : IntRange.long.low ≤ range.low)
    (hhigh : range.high ≤ IntRange.long.high) (n : ℤ) :
    intIn range (Json.int n).document = if range.holds n then some n else none := by
  have hread : intIn range (Json.int n).document = (Numeral.ofInt n).integer?.bind range.check? :=
    rfl
  -- what a numeral may stand for at all is no restriction
  have hwide : ∀ wide : IntRange, (range.holds n = true → wide.holds n = true) →
      (wide.check? n).bind range.check? = if range.holds n then some n else none := by
    intro wide h
    rw [IntRange.check?]
    split_ifs with hwide hrange hrange
    · exact if_pos hrange
    · exact if_neg hrange
    · exact absurd (h hrange) hwide
    · rfl
  rw [hread, Numeral.integer?_ofInt]
  have hword : IntRange.longWord.low = 0 ∧ IntRange.long.high ≤ IntRange.longWord.high := by decide
  by_cases hn : n < 0
  · rw [if_pos hn]
    refine hwide _ fun h => ?_
    simp only [IntRange.holds, Bool.and_eq_true, decide_eq_true_eq] at h ⊢
    omega
  · rw [if_neg hn]
    refine hwide _ fun h => ?_
    simp only [IntRange.holds, Bool.and_eq_true, decide_eq_true_eq] at h ⊢
    omega

theorem int64_document (n : ℤ) :
    int64 (Json.int n).document = if IntRange.long.holds n then some n else none :=
  intIn_document (le_refl _) (le_refl _) n

theorem int32_document (n : ℤ) :
    int32 (Json.int n).document = if IntRange.short.holds n then some n else none :=
  intIn_document (by decide) (by decide) n

/-- A double is read if it is finite. -/
theorem double_document {x : Double} (h : (Json.double x).ReadsBack) :
    double (Json.double x).document = if x.isFinite then some x else none := by
  by_cases hx : x.isFinite = true
  · obtain ⟨n, hn, hdouble⟩ := (h x List.mem_cons_self hx).numeral
    rw [document, if_pos hx, if_pos hx, hn]
    exact hdouble
  · rw [document, if_neg hx, if_neg hx]
    rfl

/-! ## Lists and records -/

/-- A list is read if all its items are. -/
theorem list_document {α : Type} {decode : Decoder α} {toJson : α → Json} {good : α → Bool}
    {xs : List α} (h : ∀ a ∈ xs, decode (toJson a).document = if good a then some a else none) :
    list decode (Json.ofList toJson xs).document = if xs.all good then some xs else none := by
  have hlist : list decode (Json.ofList toJson xs).document =
      xs.mapM fun a => decode (toJson a).document := by
    rw [ofList, document, documents_eq, list, List.map_map, List.mapM_map]
    rfl
  rw [hlist]
  clear hlist
  induction xs with
  | nil => rfl
  | cons a xs ih =>
    rw [List.mapM_cons, h a List.mem_cons_self, ih fun b hb => h b (List.mem_cons_of_mem _ hb),
      List.all_cons]
    cases good a <;> cases xs.all good <;> rfl

theorem texts_document (ss : List String) :
    list text (Json.ofList Json.text ss).document = some ss := by
  have hread : list text (Json.ofList Json.text ss).document =
      if ss.all (fun _ => true) then some ss else none :=
    list_document fun s _ => (text_document s).trans (if_pos rfl).symm
  simpa using hread

theorem named_of_not_mem {members : List (String × Json)} {name : String}
    (h : name ∉ members.map Prod.fst) : named name (memberDocuments members) = [] := by
  rw [named, memberDocuments_eq, List.filterMap_map, List.filterMap_eq_nil_iff]
  intro m hm
  refine if_neg fun heq => h ?_
  rw [← Option.some.inj heq]
  exact List.mem_map_of_mem hm

/-- The one member of a name. -/
theorem named_documents {members : List (String × Json)} (h : (members.map Prod.fst).Nodup)
    {m : String × Json} (hm : m ∈ members) :
    named m.1 (memberDocuments members) = [m.2.document] := by
  induction members with
  | nil => cases hm
  | cons first rest ih =>
    rw [List.map_cons, List.nodup_cons] at h
    have hstep : named m.1 (memberDocuments (first :: rest)) =
        if first.1 = m.1 then first.2.document :: named m.1 (memberDocuments rest)
        else named m.1 (memberDocuments rest) := by
      rw [memberDocuments, named, List.filterMap_cons]
      by_cases hname : first.1 = m.1 <;> simp [hname, named]
    rw [hstep]
    rcases List.mem_cons.1 hm with rfl | hm
    · rw [if_pos rfl, named_of_not_mem h.1]
    · have hname : first.1 ≠ m.1 := fun hname => h.1 (hname ▸ List.mem_map_of_mem hm)
      rw [if_neg hname, ih h.2 hm]

/-- The documents of some members of a record, found by their names. -/
theorem mapM_named {members : List (String × Json)} (h : (members.map Prod.fst).Nodup)
    {ms : List (String × Json)} (hsub : ms ⊆ members) :
    (ms.map Prod.fst).mapM (fun name =>
      match named name (memberDocuments members) with
      | [d] => some d
      | _ => none) = some (ms.map fun m => m.2.document) := by
  induction ms with
  | nil => rfl
  | cons m ms ih =>
    rw [List.map_cons, List.mapM_cons, named_documents h (hsub List.mem_cons_self),
      ih fun m hm => hsub (List.mem_cons_of_mem _ hm)]
    rfl

/-- The parts of a record whose names are distinct. -/
theorem fields_document {members : List (String × Json)} (h : (members.map Prod.fst).Nodup) :
    fields (members.map Prod.fst) (Json.object members).document =
      some (members.map fun m => m.2.document) := by
  have hnames : (memberDocuments members).all (·.1.isSome) = true := by
    rw [memberDocuments_eq, List.all_map, List.all_eq_true]
    exact fun _ _ => rfl
  rw [document, fields, if_pos hnames]
  exact mapM_named h (List.Subset.refl _)

end Decoder
end Json

open Json.Decoder

/-! ## Parts of posts -/

/-- What goes on with a part that may be refused. -/
theorem checked_bind {α β : Type} (b : Bool) (a : α) (f : α → Option β) :
    (if b = true then some a else none).bind f = if b = true then f a else none := by
  cases b <;> rfl

/-- Two parts that may be refused. -/
theorem checked_checked {α : Type} (b c : Bool) (x : Option α) :
    (if b = true then if c = true then x else none else none) =
      if (b && c) = true then x else none := by
  cases b <;> cases c <;> rfl

/-- Whether the sizes of an image fit 32 bits. -/
def Image.storable (i : Image) : Bool :=
  IntRange.short.holds i.width && IntRange.short.holds i.height

theorem Image.decode_document (i : Image) :
    Image.decode i.toJson.document = if i.storable then some i else none := by
  have hfields : fields ["url", "width", "height"] i.toJson.document =
      some [(Json.text i.url).document, (Json.int i.width).document,
        (Json.int i.height).document] :=
    fields_document (by simp)
  rw [Image.decode, hfields]
  simp only [Option.bind_eq_bind, Option.bind_some, text_document, int32_document, checked_bind,
    checked_checked]
  rfl

/-- Whether all four images can be stored. -/
def ImageSet.storable (s : ImageSet) : Bool :=
  s.low.storable && s.medium.storable && s.high.storable && s.raw.storable

theorem ImageSet.decode_document (s : ImageSet) :
    ImageSet.decode s.toJson.document = if s.storable then some s else none := by
  have hfields : fields (ImageVariant.all.map ImageVariant.name) s.toJson.document =
      some [s.low.toJson.document, s.medium.toJson.document, s.high.toJson.document,
        s.raw.toJson.document] :=
    fields_document (show (ImageVariant.all.map ImageVariant.name).Nodup by decide)
  rw [ImageSet.decode, hfields]
  simp only [Option.bind_eq_bind, Option.bind_some, Image.decode_document, checked_bind,
    checked_checked, ImageSet.storable, Bool.and_assoc]
  rfl

theorem Color.decode_document {c : Color} (h : c.toJson.ReadsBack) :
    Color.decode c.toJson.document = if c.percent.isFinite then some c else none := by
  have hfields : fields ["hex", "css", "html", "percent"] c.toJson.document =
      some [(Json.text c.hex).document, (Json.text c.css).document, (Json.text c.html).document,
        (Json.double c.percent).document] :=
    fields_document (by simp)
  have hpercent : (Json.double c.percent).ReadsBack := h.member (m := ("percent", _)) (by simp)
  rw [Color.decode, hfields]
  simp only [Option.bind_eq_bind, Option.bind_some, text_document, double_document hpercent,
    checked_bind]
  rfl

theorem Keyword.decode_document {k : Keyword} (h : k.toJson.ReadsBack) :
    Keyword.decode k.toJson.document = if k.weight.isFinite then some k else none := by
  have hfields : fields ["word", "weight"] k.toJson.document =
      some [(Json.text k.word).document, (Json.double k.weight).document] :=
    fields_document (by simp)
  have hweight : (Json.double k.weight).ReadsBack := h.member (m := ("weight", _)) (by simp)
  rw [Keyword.decode, hfields]
  simp only [Option.bind_eq_bind, Option.bind_some, text_document, double_document hweight,
    checked_bind]
  rfl

/-! ## Posts and pages -/

/-- Whether a post is read back: its integers fit and its doubles are finite. -/
def Post.storable (p : Post) : Bool :=
  IntRange.long.holds p.id && IntRange.short.holds p.score && IntRange.long.holds p.time &&
    p.images.storable && p.colors.all (·.percent.isFinite) && p.keywords.all (·.weight.isFinite)

theorem Post.decode_document {p : Post} (h : p.toJson.ReadsBack) :
    Post.decode p.toJson.document = if p.storable then some p else none := by
  have hfields : fields ["id", "title", "author", "permalink", "score", "nsfw", "grayscale",
      "sprocket", "time", "images", "colors", "keywords"] p.toJson.document =
      some [(Json.int p.id).document, (Json.text p.title).document, (Json.text p.author).document,
        (Json.text p.permalink).document, (Json.int p.score).document, (Json.bool p.nsfw).document,
        (Json.bool p.grayscale).document, (Json.bool p.sprocket).document,
        (Json.int p.time).document, p.images.toJson.document,
        (Json.ofList Color.toJson p.colors).document,
        (Json.ofList Keyword.toJson p.keywords).document] :=
    fields_document (by simp)
  have hcolors : list Color.decode (Json.ofList Color.toJson p.colors).document =
      if p.colors.all (·.percent.isFinite) then some p.colors else none := by
    have hall : (Json.ofList Color.toJson p.colors).ReadsBack :=
      h.member (m := ("colors", Json.ofList Color.toJson p.colors)) (by simp)
    exact list_document fun c hc => Color.decode_document (hall.item (List.mem_map_of_mem hc))
  have hkeywords : list Keyword.decode (Json.ofList Keyword.toJson p.keywords).document =
      if p.keywords.all (·.weight.isFinite) then some p.keywords else none := by
    have hall : (Json.ofList Keyword.toJson p.keywords).ReadsBack :=
      h.member (m := ("keywords", Json.ofList Keyword.toJson p.keywords)) (by simp)
    exact list_document fun k hk => Keyword.decode_document (hall.item (List.mem_map_of_mem hk))
  rw [Post.decode, hfields]
  simp only [Option.bind_eq_bind, Option.bind_some, text_document, bool_document, int64_document,
    int32_document, ImageSet.decode_document, hcolors, hkeywords, checked_bind, checked_checked,
    Post.storable, Bool.and_assoc]
  rfl

/-- Whether a page is read back. -/
def PostPage.storable (p : PostPage) : Bool :=
  p.posts.all Post.storable && IntRange.long.holds p.total

theorem posts_decode_document {ps : List Post} (h : (Json.ofList Post.toJson ps).ReadsBack) :
    list Post.decode (Json.ofList Post.toJson ps).document =
      if ps.all Post.storable then some ps else none :=
  list_document fun _ hp => Post.decode_document (h.item (List.mem_map_of_mem hp))

theorem PostPage.decode_document {p : PostPage} (h : p.toJson.ReadsBack) :
    PostPage.decode p.toJson.document = if p.storable then some p else none := by
  have hfields : fields ["posts", "total"] p.toJson.document =
      some [(Json.ofList Post.toJson p.posts).document, (Json.int p.total).document] :=
    fields_document (by simp)
  have hposts : (Json.ofList Post.toJson p.posts).ReadsBack :=
    h.member (m := ("posts", Json.ofList Post.toJson p.posts)) (by simp)
  rw [PostPage.decode, hfields]
  simp only [Option.bind_eq_bind, Option.bind_some, posts_decode_document hposts, int64_document,
    checked_bind, checked_checked]
  rfl

/-! ## Bytes -/

/-- What a decoder makes of the bytes of a value. -/
theorem Json.ReadsBack.ofBytes? {v : Json} (h : v.ReadsBack) {α : Type}
    (decode : Json.Decoder α) :
    Json.Decoder.ofBytes? decode v.compact.toUTF8 = decode v.document := by
  rw [Json.Decoder.ofBytes?, Json.ofBytes?_compact h.legible]
  rfl

end FilmCatalog
