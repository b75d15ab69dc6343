import FilmCatalog.Proofs.Listing.Selection
import FilmCatalog.Proofs.Page.Address

/-!
# Asking for the author that is shown

The author of a post is shown where the post is listed, in the answer to its
submission, and in the addresses of the pages of a listing that asks for it. What is
shown is no promise that a listing that asks for it finds the same author: the mark
is taken from a stored author without a look at what is behind it. So a second mark
is taken for the missing one, blanks are cut off, and nothing at all asks for every
post.

Key definitions: `Author.Seen`.
Key theorems: `shown_author_asks_back_iff`.
-/

namespace FilmCatalog

open Sql

namespace Query

theorem mem_valuesOf {name value : String} {pairs : List (String × String)} :
    value ∈ valuesOf name pairs ↔ (name, value) ∈ pairs := by
  induction pairs with
  | nil => simp
  | cons pair pairs ih =>
    obtain ⟨other, text⟩ := pair
    rw [valuesOf_cons, List.mem_cons, Prod.mk.injEq, ← ih]
    by_cases h : name = other <;> simp [h, eq_comm]

end Query

namespace Author

/-- What a reader sees of a stored author. -/
inductive Seen (author : String) : String → Prop where
  | listed {r : PostRow} {p : Post} (h : r.author = author) (hp : r.toPost = .ok p) :
      Seen author p.author
  | created {p : NewPost} (h : p.author = author) (id : Int) : Seen author (p.toPost id).author
  | address {f : PostFilter} {cursor : Int} {query value : String} (h : f.author = some author)
      (hurl : f.pageUrl cursor = "/posts?" ++ query)
      (hpair : ("author", value) ∈ Query.read query) :
      Seen author value

theorem Seen.eq_shown {author seen : String} (h : Seen author seen) : seen = shown author := by
  cases h with
  | @listed r p h hp =>
    rw [← h]
    unfold PostRow.toPost at hp
    split at hp
    · cases hp
    · split at hp <;> cases hp
      rfl
  | created h id => rw [← h, NewPost.toPost]
  | @address f cursor query value h hurl hpair =>
    rw [PostFilter.read_query hurl, ← Query.mem_valuesOf] at hpair
    simpa [PostFilter.pagePairs, h] using hpair

/-- What is seen is the author without the mark, and this is seen in an address. -/
theorem seen_iff_eq_shown {author seen : String} : Seen author seen ↔ seen = shown author := by
  refine ⟨Seen.eq_shown, ?_⟩
  rintro rfl
  let f : PostFilter := { PostFilter.everything with author := some author }
  have hurl : f.pageUrl 0 = "/posts?" ++ Query.ofPairs (f.pagePairs 0) := rfl
  refine .address rfl hurl ?_
  rw [PostFilter.read_query hurl, ← Query.mem_valuesOf]
  simp [f, PostFilter.pagePairs]

end Author

/-- The author that a filter asks for is the one that its parameters name. -/
theorem PostFilter.author_of_build {seedSource : Unit → Int} {p : FilterParams} {f : PostFilter}
    (h : build seedSource p = .ok f) :
    f.author = (p.author.bind Text.nonBlank?).map Author.stored := by
  rw [← (build_eq_ok_iff.1 h).2, FilterParams.toFilter]

/-- A request for an author alone is accepted. -/
theorem FilterParams.accepted_author (author : String) :
    ({ author := some author } : FilterParams).Accepted where
  seed_pos := nofun
  ratio_finite := by simp
  paired := le_rfl
  shares := by simp
  width_le := by simp
  height_le := by simp
  ratio_le := by simp

theorem PostFilter.build_author (seedSource : Unit → Int) (author : String) :
    build seedSource { author := some author } =
      .ok { everything with author := (Text.nonBlank? author).map Author.stored } := by
  refine build_eq_ok_iff.2 ⟨FilterParams.accepted_author author, ?_⟩
  simp [FilterParams.toFilter, FilterParams.order, FilterParams.pairs, keywordSet, colorSet,
    padPercents, dropRepeats, everything, Bounds.unbounded]

/-- A filter that is about the author alone selects by the author. -/
theorem PostFilter.matches_author_iff (author : Option String) (D : Dialect) (t : Tables)
    (r : PostRecord) :
    { everything with author := author }.Matches D t r ↔ ∀ a ∈ author, r.author = a := by
  refine ⟨fun h => h.author, fun h => ?_⟩
  exact
    { nsfw := nofun, grayscale := nofun, sprocket := nofun, ids := nofun, title := nofun
      author := h
      width := ⟨nofun, nofun⟩
      height := ⟨nofun, nofun⟩
      ratio := fun hne => absurd rfl hne
      colors := nofun, keywords := nofun, cursor := nofun }

/-- What is seen of a stored author asks for that author exactly if the name that it
was stored from is regular. A filter of what is seen is about no author exactly if
there is nothing behind the mark, and then a request for it alone selects every post;
else it selects the posts of the author that what is seen is stored as. -/
theorem shown_author_asks_back_iff {name seen : String}
    (h : Author.Seen (Author.stored name) seen) :
    (Author.stored seen = Author.stored name ↔ Author.Regular name) ∧
    (∀ (seedSource : Unit → Int) (p : FilterParams) (f : PostFilter), p.author = some seen →
      PostFilter.build seedSource p = .ok f →
        (f.author = some (Author.stored name) ↔
          Author.stored name ≠ Author.mark ∧ Author.Regular name) ∧
        (f.author = none ↔ Author.stored name = Author.mark)) ∧
    ∀ seedSource : Unit → Int, ∃ f, PostFilter.build seedSource { author := some seen } = .ok f ∧
      ∀ (D : Dialect) (t : Tables) (r : PostRecord),
        f.Matches D t r ↔ Author.stored name = Author.mark ∨ r.author = Author.stored seen := by
  rw [h.eq_shown]
  refine ⟨Author.stored_shown_eq_iff name, fun seedSource p f hp hbuild => ?_, fun seedSource => ?_⟩
  · have hauthor : f.author = if Author.stored name = Author.mark then none else
        some (Author.stored (Author.shown (Author.stored name))) := by
      rw [PostFilter.author_of_build hbuild, hp, Option.bind_some, Author.map_stored_shown]
    rw [hauthor, ← Author.stored_shown_eq_iff]
    by_cases hmark : Author.stored name = Author.mark <;> simp [hmark]
  · refine ⟨_, PostFilter.build_author seedSource _, fun D t r => ?_⟩
    rw [PostFilter.matches_author_iff, Author.map_stored_shown]
    by_cases hmark : Author.stored name = Author.mark <;> simp [hmark]

theorem ada_asks_back :
    Author.Seen (Author.stored " u/ada ") "ada" ∧ Author.stored "ada" = Author.stored " u/ada " ∧
      ∃ f, PostFilter.build (fun _ => firstSeed) { author := some "ada" } = .ok f ∧
        f.author = some (Author.stored " u/ada ") := by
  have hseen : Author.Seen (Author.stored " u/ada ") "ada" :=
    Author.seen_iff_eq_shown.2 (by decide)
  have hregular : Author.Regular " u/ada " :=
    (Author.handle_shown_iff _).1 (Author.stored_eq_append_iff.1 (by decide))
  obtain ⟨hback, hfilter, halone⟩ := shown_author_asks_back_iff hseen
  obtain ⟨f, hf, -⟩ := halone fun _ => firstSeed
  exact ⟨hseen, hback.2 hregular, f, hf, (hfilter _ _ f rfl hf).1.2 ⟨by decide, hregular⟩⟩

/-- What is shown of an author with a second mark is another author, and the mark
alone is shown as nothing, which asks for every post. -/
theorem marks_ask_for_others :
    ¬Text.Blank "u/u/ada" ∧ Author.stored "u/u/ada" = "u/u/ada" ∧
      Author.stored (Author.shown (Author.stored "u/u/ada")) = "u/ada" ∧
      ¬Text.Blank "u/" ∧
      PostFilter.build (fun _ => firstSeed)
        { author := some (Author.shown (Author.stored "u/")) } = .ok .everything := by
  have hvisible : ∀ name, Text.trim name ≠ "" → ¬Text.Blank name := fun name h hblank =>
    h (Text.trim_eq_empty_iff.2 hblank)
  refine ⟨hvisible _ (by decide), by decide, by decide, hvisible _ (by decide), ?_⟩
  rw [PostFilter.build_author, Author.map_stored_shown, if_pos (by decide)]
  rfl

end FilmCatalog
