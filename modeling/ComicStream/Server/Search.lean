import ComicStream.Server.Routes
import ComicStream.Foundation.Like

/-!
# What a search finds

A query becomes a pattern of SQL's `LIKE`. The pattern matches the names that contain
what stands between the stars of the query, in its order, up to the case of ASCII
letters; no other character of the query is a wildcard.
-/

namespace ComicStream.Server

open Rust Catalog

/-- The same character up to ASCII case. -/
def SameLetter (c d : Char) : Prop := toAsciiLowercase c = toAsciiLowercase d

instance : DecidableRel SameLetter := fun c d ↦
  inferInstanceAs (Decidable (toAsciiLowercase c = toAsciiLowercase d))

/-- What the pattern of `LIKE … ESCAPE '\'` means. -/
def likePieces (pattern : List Char) : Option (List (Like.Piece Char)) :=
  Like.parse '%' '_' '\\' pattern

/-- The pieces of the pattern for a query: its segments, and a wildcard around each of them. -/
def searchPieces (q : List Char) : List (Like.Piece Char) :=
  .many :: (q.splitOn '*').flatMap fun segment ↦ segment.map .literal ++ [.many]

theorem searchPieces_star (q : List Char) :
    searchPieces ('*' :: q) = .many :: searchPieces q := by
  rw [searchPieces, List.splitOn, List.splitOnP_cons_eq_if_modifyHead]
  rfl

theorem searchPieces_cons {c : Char} (hc : c ≠ '*') {q : List Char} {pieces : List (Like.Piece Char)}
    (h : searchPieces q = .many :: pieces) :
    searchPieces (c :: q) = .many :: .literal c :: pieces := by
  obtain ⟨segment, segments, hsplit⟩ := List.exists_cons_of_ne_nil (List.splitOnP_ne_nil (· == '*') q)
  have hpieces : segment.map .literal ++ [.many] ++
      segments.flatMap (fun segment ↦ segment.map .literal ++ [.many]) = pieces := by
    rw [searchPieces, List.splitOn, hsplit] at h
    exact (List.cons.inj h).2
  rw [searchPieces, List.splitOn, List.splitOnP_cons_eq_if_modifyHead, hsplit,
    if_neg (by simpa using hc), ← hpieces]
  rfl

/-- What a character of a query becomes. -/
def likeChar (c : Char) : List Char :=
  if c = '\\' then ['\\', '\\']
  else if c = '%' then ['\\', '%']
  else if c = '_' then ['\\', '_']
  else if c = '*' then ['%']
  else [c]

theorem likePieces_percent (rest : List Char) :
    likePieces ('%' :: rest) = (likePieces rest).map (.many :: ·) :=
  Like.parse_many rest (by decide)

theorem likePieces_likeChar {c : Char} (hc : c ≠ '*') (rest : List Char) :
    likePieces (likeChar c ++ rest) = (likePieces rest).map (.literal c :: ·) := by
  unfold likeChar
  split
  · next heq => rw [heq]; exact Like.parse_escape rest _
  · next hescape =>
    split
    · next heq => rw [heq]; exact Like.parse_escape rest _
    · next hmany =>
      split
      · next heq => rw [heq]; exact Like.parse_escape rest _
      · next hone => exact Like.parse_literal rest hescape hmany hone

/-- The pattern of a query is read as what the query says, and no escape is left dangling. -/
theorem likePieces_toLikePattern (q : List Char) :
    likePieces (toLikePattern q) = some (searchPieces q) := by
  have hrest : ∃ pieces, likePieces (q.flatMap likeChar ++ ['%']) = some pieces ∧
      searchPieces q = .many :: pieces := by
    induction q with
    | nil => exact ⟨[.many], rfl, rfl⟩
    | cons c q ih =>
      obtain ⟨pieces, hpieces, hsearch⟩ := ih
      rw [List.flatMap_cons, List.append_assoc]
      by_cases hc : c = '*'
      · subst hc
        have hstar : likeChar '*' = ['%'] := by decide
        refine ⟨.many :: pieces, ?_, by rw [searchPieces_star, hsearch]⟩
        rw [hstar, List.singleton_append, likePieces_percent, hpieces]
        rfl
      · exact ⟨.literal c :: pieces, by rw [likePieces_likeChar hc, hpieces]; rfl,
          searchPieces_cons hc hsearch⟩
  obtain ⟨pieces, hpieces, hsearch⟩ := hrest
  have hpattern : toLikePattern q = '%' :: (q.flatMap likeChar ++ ['%']) := rfl
  rw [hpattern, likePieces_percent, hpieces, hsearch]
  rfl

theorem sameLetter_iff_eq {c d : Char}
    (hc : ¬(65 ≤ c.toNat ∧ c.toNat ≤ 90) ∧ ¬(97 ≤ c.toNat ∧ c.toNat ≤ 122)) :
    SameLetter c d ↔ d = c := by
  rw [SameLetter, (toAsciiLowercase_eq_iff hc).mpr rfl, eq_comm]
  exact toAsciiLowercase_eq_iff hc

theorem sameLetter_special {c d : Char} (hc : c ∈ ['%', '_', '\\']) : SameLetter c d ↔ d = c := by
  obtain rfl | rfl | rfl : c = '%' ∨ c = '_' ∨ c = '\\' := by simpa using hc
  · exact sameLetter_iff_eq (by decide)
  · exact sameLetter_iff_eq (by decide)
  · exact sameLetter_iff_eq (by decide)

section Found

variable {like : List Char → List Char → Bool}
  (hlike : ∀ pattern pieces, likePieces pattern = some pieces →
    ∀ name, like pattern name = true ↔ Like.Matches SameLetter pieces name)
include hlike

theorem like_iff_contains (q name : List Char) :
    like (toLikePattern q) name = true ↔ Like.Contains SameLetter (q.splitOn '*') name := by
  rw [hlike _ _ (likePieces_toLikePattern q), searchPieces, Like.matches_segments]

end Found

/-- **Search.** Where `LIKE` has its documented meaning, the pattern of a query matches exactly the
names that contain the segments between its stars, in their order and without overlap, up to the
case of ASCII letters. The special characters of `LIKE` match themselves only, and the escape
sequences of the pattern are complete. -/
theorem like_toLikePattern_iff (like : List Char → List Char → Bool)
    (hlike : ∀ pattern pieces, likePieces pattern = some pieces →
      ∀ name, like pattern name = true ↔ Like.Matches SameLetter pieces name)
    (q name : List Char) :
    (like (toLikePattern q) name = true ↔ Like.Contains SameLetter (q.splitOn '*') name) ∧
      (∀ c ∈ ['%', '_', '\\'], ∀ d, SameLetter c d ↔ d = c) ∧
      likePieces (toLikePattern q) ≠ none := by
  refine ⟨like_iff_contains hlike q name, fun c hc d ↦ sameLetter_special hc, ?_⟩
  rw [likePieces_toLikePattern]
  exact Option.some_ne_none _

/-- `LIKE`, evaluated. -/
def evalLike (pattern name : List Char) : Bool :=
  (likePieces pattern).any fun pieces ↦ Like.accepts (fun c d ↦ decide (SameLetter c d)) pieces name

theorem evalLike_iff {pattern : List Char} {pieces : List (Like.Piece Char)}
    (h : likePieces pattern = some pieces) (name : List Char) :
    evalLike pattern name = true ↔ Like.Matches SameLetter pieces name := by
  rw [evalLike, h, Option.any_some, Like.accepts_iff]
  simp only [decide_eq_true_eq]

theorem like_mirror_war : Like.Contains SameLetter ["star".toList, "war".toList]
    "Star Trek: The Mirror War".toList :=
  (like_toLikePattern_iff evalLike (fun _ _ h ↦ evalLike_iff h) "star*war".toList
    "Star Trek: The Mirror War".toList).1.mp (by decide +kernel)

end ComicStream.Server
