import Mathlib.Data.List.Forall2
import Mathlib.Data.List.Infix

/-!
# Patterns with wildcards

A pattern is a sequence of wildcards and literal items, spelled as a sequence of items
in which an escape makes the next item a literal one. Between wildcards for any
sequence, a pattern finds its literal parts one after the other.
-/

namespace ComicStream.Like

variable {α : Type*}

/-- An element of a pattern: any sequence, any one item, or the item given. -/
inductive Piece (α : Type*) where
  | many
  | one
  | literal (item : α)
deriving DecidableEq

/-- The texts that a pattern matches, where items may stand for similar ones. -/
inductive Matches (same : α → α → Prop) : List (Piece α) → List α → Prop
  | nil : Matches same [] []
  | many (initial : List α) {pattern : List (Piece α)} {text : List α}
      (hrest : Matches same pattern text) : Matches same (.many :: pattern) (initial ++ text)
  | one (item : α) {pattern : List (Piece α)} {text : List α}
      (hrest : Matches same pattern text) : Matches same (.one :: pattern) (item :: text)
  | literal {item item' : α} {pattern : List (Piece α)} {text : List α} (hsame : same item item')
      (hrest : Matches same pattern text) : Matches same (.literal item :: pattern) (item' :: text)

/-- The segments lie in the text in their order, none of them overlapping another. -/
inductive Contains (same : α → α → Prop) : List (List α) → List α → Prop
  | nil (text : List α) : Contains same [] text
  | cons (before : List α) {segment found text : List α} {segments : List (List α)}
      (hfound : List.Forall₂ same segment found) (hrest : Contains same segments text) :
      Contains same (segment :: segments) (before ++ found ++ text)

/-- The pattern that the items spell; an escape at the end escapes nothing. -/
def parse [DecidableEq α] (many one escape : α) : List α → Option (List (Piece α))
  | [] => some []
  | item :: rest =>
    if item = escape then
      match rest with
      | [] => none
      | next :: rest => (parse many one escape rest).map (.literal next :: ·)
    else if item = many then (parse many one escape rest).map (.many :: ·)
    else if item = one then (parse many one escape rest).map (.one :: ·)
    else (parse many one escape rest).map (.literal item :: ·)

/-- Whether a pattern matches, tried at every end of the text after a wildcard. -/
def accepts (same : α → α → Bool) : List (Piece α) → List α → Bool
  | [], text => text.isEmpty
  | .many :: pattern, text => text.tails.any (accepts same pattern)
  | .one :: pattern, _ :: text => accepts same pattern text
  | .literal item :: pattern, item' :: text => same item item' && accepts same pattern text
  | _ :: _, [] => false

variable {same : α → α → Prop} {pattern : List (Piece α)} {text : List α}

section Parse

variable [DecidableEq α] {many one escape item : α} (rest : List α)

theorem parse_escape (next : α) : parse many one escape (escape :: next :: rest) =
    (parse many one escape rest).map (.literal next :: ·) := by
  rw [parse.eq_def]
  exact if_pos rfl

theorem parse_many (hescape : many ≠ escape) :
    parse many one escape (many :: rest) = (parse many one escape rest).map (.many :: ·) := by
  rw [parse.eq_def]
  exact (if_neg hescape).trans (if_pos rfl)

theorem parse_literal (hescape : item ≠ escape) (hmany : item ≠ many) (hone : item ≠ one) :
    parse many one escape (item :: rest) =
      (parse many one escape rest).map (.literal item :: ·) := by
  rw [parse.eq_def]
  exact (if_neg hescape).trans ((if_neg hmany).trans (if_neg hone))

end Parse

theorem matches_many : Matches same (.many :: pattern) text ↔
    ∃ initial rest, text = initial ++ rest ∧ Matches same pattern rest := by
  constructor
  · intro h
    cases h with
    | many initial hrest => exact ⟨initial, _, rfl, hrest⟩
  · rintro ⟨initial, rest, rfl, hrest⟩
    exact .many initial hrest

theorem accepts_iff {same : α → α → Bool} :
    accepts same pattern text = true ↔ Matches (fun x y ↦ same x y = true) pattern text := by
  induction pattern generalizing text with
  | nil =>
    rw [accepts, List.isEmpty_iff]
    constructor
    · rintro rfl
      exact .nil
    · rintro ⟨⟩
      rfl
  | cons piece pattern ih =>
    cases piece with
    | many =>
      simp only [accepts, List.any_eq_true, List.mem_tails, matches_many, ih]
      constructor
      · rintro ⟨rest, ⟨initial, rfl⟩, hrest⟩
        exact ⟨initial, rest, rfl, hrest⟩
      · rintro ⟨initial, rest, rfl, hrest⟩
        exact ⟨rest, List.suffix_append .., hrest⟩
    | one =>
      cases text with
      | nil => exact iff_of_false (by simp [accepts]) (by rintro ⟨⟩)
      | cons item text =>
        rw [accepts, ih]
        exact ⟨.one item, by rintro ⟨⟩; assumption⟩
    | literal item =>
      cases text with
      | nil => exact iff_of_false (by simp [accepts]) (by rintro ⟨⟩)
      | cons item' text =>
        rw [accepts, Bool.and_eq_true, ih]
        exact ⟨fun h ↦ .literal h.1 h.2, by rintro ⟨⟩; exact ⟨by assumption, by assumption⟩⟩

theorem matches_literals {segment : List α} : Matches same (segment.map .literal ++ pattern) text ↔
    ∃ found rest, text = found ++ rest ∧ List.Forall₂ same segment found ∧
      Matches same pattern rest := by
  induction segment generalizing text with
  | nil => simp
  | cons item segment ih =>
    constructor
    · intro h
      cases h with
      | literal hsame hrest =>
        obtain ⟨found, rest, rfl, hfound, hpattern⟩ := ih.mp hrest
        exact ⟨_ :: found, rest, rfl, .cons hsame hfound, hpattern⟩
    · rintro ⟨found, rest, rfl, hfound, hpattern⟩
      cases hfound with
      | cons hsame hfound => exact .literal hsame (ih.mpr ⟨_, rest, rfl, hfound, hpattern⟩)

/-- Segments with a wildcard around each of them match the texts that contain them. -/
theorem matches_segments {segments : List (List α)} :
    Matches same (.many :: segments.flatMap fun segment ↦ segment.map .literal ++ [.many]) text ↔
      Contains same segments text := by
  induction segments generalizing text with
  | nil => exact ⟨fun _ ↦ .nil text, fun _ ↦ matches_many.mpr ⟨text, [], by simp, .nil⟩⟩
  | cons segment segments ih =>
    rw [List.flatMap_cons, List.append_assoc, List.singleton_append, matches_many]
    simp only [matches_literals, ih]
    constructor
    · rintro ⟨before, _, rfl, found, rest, rfl, hfound, hrest⟩
      rw [← List.append_assoc]
      exact .cons before hfound hrest
    · intro h
      cases h with
      | cons before hfound hrest =>
        exact ⟨before, _, List.append_assoc .., _, _, rfl, hfound, hrest⟩

end ComicStream.Like
