import Mathlib.Tactic.TypeStar

/-!
# Lexicographic comparison of sequences

Two sequences are compared item by item. Common beginnings do not matter, items
that differ decide, and an encoding of the items that keeps their order keeps the
order of the sequences.
-/

namespace ComicStream.Lex

variable {α β : Type*} {cmp : α → α → Ordering}

@[simp]
theorem compareLex_append_left [Std.ReflCmp cmp] (initial first second : List α) :
    List.compareLex cmp (initial ++ first) (initial ++ second) =
      List.compareLex cmp first second := by
  induction initial with
  | nil => rfl
  | cons x initial ih =>
    have hself : cmp x x = .eq := Std.ReflCmp.compare_self
    rw [List.cons_append, List.cons_append, List.compareLex_cons_cons, hself, ih]
    rfl

/-- Beginnings of one length are compared before what follows them. -/
theorem compareLex_append {initial initial' : List α} (h : initial.length = initial'.length)
    (first second : List α) :
    List.compareLex cmp (initial ++ first) (initial' ++ second) =
      (List.compareLex cmp initial initial').then (List.compareLex cmp first second) := by
  induction initial generalizing initial' with
  | nil =>
    obtain rfl := List.eq_nil_of_length_eq_zero h.symm
    rfl
  | cons x initial ih =>
    cases initial' with
    | nil => simp at h
    | cons y initial' =>
      rw [List.cons_append, List.cons_append, List.compareLex_cons_cons, List.compareLex_cons_cons,
        ih (Nat.succ_inj.mp h), Ordering.then_assoc]

theorem then_of_ne {o : Ordering} (h : o ≠ .eq) (first second : Ordering) :
    o.then first = o.then second := by
  cases o with
  | eq => exact absurd rfl h
  | lt => rfl
  | gt => rfl

/-- Items may be encoded as long as the encoding, whatever follows it, keeps their order. -/
theorem compareLex_flatMap {code : α → List β} {cmp' : β → β → Ordering}
    (hne : ∀ x, code x ≠ [])
    (hcode : ∀ x y first second, List.compareLex cmp' (code x ++ first) (code y ++ second) =
      (cmp x y).then (List.compareLex cmp' first second)) (first second : List α) :
    List.compareLex cmp' (first.flatMap code) (second.flatMap code) =
      List.compareLex cmp first second := by
  induction first generalizing second with
  | nil =>
    cases second with
    | nil => rfl
    | cons y second =>
      obtain ⟨b, bs, hy⟩ := List.exists_cons_of_ne_nil (hne y)
      rw [List.flatMap_cons, hy]
      rfl
  | cons x first ih =>
    cases second with
    | nil =>
      obtain ⟨b, bs, hx⟩ := List.exists_cons_of_ne_nil (hne x)
      rw [List.flatMap_cons, hx]
      rfl
    | cons y second =>
      rw [List.flatMap_cons, List.flatMap_cons, hcode, ih, List.compareLex_cons_cons]

end ComicStream.Lex
