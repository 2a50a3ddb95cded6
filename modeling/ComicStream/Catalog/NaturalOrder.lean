import ComicStream.Catalog.Natsort
import ComicStream.Rust.Number
import Mathlib.Data.List.TakeWhile

/-!
# The natural order

A name is read as a sequence of tokens, the numbers and the characters in it, and
the comparator orders names as the sequences are ordered lexicographically. So it
is a total preorder, whatever the names and however long their runs of digits.
-/

namespace ComicStream.Natsort

open Rust

/-- A piece of a name: a run of digits as a number, any other character as its code point. -/
inductive Token where
  | number (value : ℕ)
  | character (code : ℕ)

/-- Every number lies between the characters below `'0'` and the others. -/
def Token.side : Token → ℕ
  | .character code => if code < '0'.toNat then 0 else 2
  | .number _ => 1

def Token.weight : Token → ℕ
  | .number value => value
  | .character code => code

def Token.cmp : Token → Token → Ordering :=
  compareLex (compareOn Token.side) (compareOn Token.weight)

/-- The number that a text starts with. -/
def leadingNumber (text : List Char) : ℕ :=
  min (Nat.ofDigitChars 10 (text.takeWhile Char.isDigit) 0) maxNumber

/-- The tokens of a name: the longest runs of digits in it, and what stands between them in
lower case. -/
def tokens : List Char → List Token
  | [] => []
  | c :: rest =>
    if c.isDigit then .number (leadingNumber (c :: rest)) :: tokens (rest.dropWhile Char.isDigit)
    else .character (toAsciiLowercase c).toNat :: tokens rest
termination_by text => text.length
decreasing_by
  · exact Nat.lt_succ_of_le (List.length_dropWhile_le ..)
  · exact Nat.lt_succ_self _

/-- Names in the order of their tokens. -/
def tokenOrder (a b : List Char) : Ordering := List.compareLex Token.cmp (tokens a) (tokens b)

variable {c d : Char} {rest other a b : List Char}

@[simp]
theorem tokens_nil : tokens [] = [] := by rw [tokens]

theorem tokens_of_isDigit (hc : c.isDigit = true) : tokens (c :: rest) =
    .number (leadingNumber (c :: rest)) :: tokens (rest.dropWhile Char.isDigit) := by
  rw [tokens, if_pos hc]

theorem tokens_of_not_isDigit (hc : c.isDigit = false) :
    tokens (c :: rest) = .character (toAsciiLowercase c).toNat :: tokens rest := by
  rw [tokens, if_neg (by rw [hc]; decide)]

instance : Std.TransCmp Token.cmp :=
  inferInstanceAs (Std.TransCmp (compareLex (compareOn Token.side) (compareOn Token.weight)))

instance : Std.TransCmp tokenOrder where
  eq_swap {a b} := @Std.OrientedCmp.eq_swap _ (List.compareLex Token.cmp) _ (tokens a) (tokens b)
  isLE_trans {a b c} :=
    @Std.TransCmp.isLE_trans _ (List.compareLex Token.cmp) _ (tokens a) (tokens b) (tokens c)

theorem Token.cmp_number (m n : ℕ) : Token.cmp (.number m) (.number n) = compare m n := by
  simp [Token.cmp, compareLex, compareOn, Token.side, Token.weight]

theorem Token.cmp_character (m n : ℕ) :
    Token.cmp (.character m) (.character n) = compare m n := by
  simp only [Token.cmp, compareLex, compareOn, Token.side, Token.weight]
  split
  · split
    · simp
    · have hlt : m < n := by omega
      rw [Nat.compare_eq_lt.mpr hlt]
      rfl
  · split
    · have hlt : n < m := by omega
      rw [Nat.compare_eq_gt.mpr hlt]
      rfl
    · simp

theorem Token.cmp_number_character {digit code : ℕ} (hdigit : 48 ≤ digit ∧ digit ≤ 57)
    (hcode : ¬(48 ≤ code ∧ code ≤ 57)) (n : ℕ) :
    Token.cmp (.number n) (.character code) = compare digit code := by
  have hzero : '0'.toNat = 48 := rfl
  simp only [Token.cmp, compareLex, compareOn, Token.side, hzero]
  split
  · have hlt : code < digit := by omega
    rw [Nat.compare_eq_gt.mpr hlt]
    rfl
  · have hlt : digit < code := by omega
    rw [Nat.compare_eq_lt.mpr hlt]
    rfl

theorem Token.cmp_character_number {digit code : ℕ} (hdigit : 48 ≤ digit ∧ digit ≤ 57)
    (hcode : ¬(48 ≤ code ∧ code ≤ 57)) (n : ℕ) :
    Token.cmp (.character code) (.number n) = compare code digit := by
  rw [@Std.OrientedCmp.eq_swap _ Token.cmp, Token.cmp_number_character hdigit hcode,
    ← Std.OrientedOrd.eq_swap]

/-- The digits are taken as a number that stops growing at the largest one. -/
theorem takeNumberFrom_eq (n : ℕ) (text : List Char) :
    takeNumberFrom (min n maxNumber) text =
      (min (Nat.ofDigitChars 10 (text.takeWhile Char.isDigit) n) maxNumber,
        text.dropWhile Char.isDigit) := by
  induction text generalizing n with
  | nil => simp [takeNumberFrom]
  | cons c rest ih =>
    cases hc : c.isDigit with
    | true =>
      have hstep : min (min (min n maxNumber * 10) maxNumber + (c.toNat - '0'.toNat)) maxNumber =
          min (10 * n + (c.toNat - '0'.toNat)) maxNumber := by omega
      calc
        takeNumberFrom (min n maxNumber) (c :: rest) =
            takeNumberFrom (min (10 * n + (c.toNat - '0'.toNat)) maxNumber) rest := by
          rw [takeNumberFrom, toDigit_of_isDigit hc, ← hstep]
        _ = (min (Nat.ofDigitChars 10 (rest.takeWhile Char.isDigit)
              (10 * n + (c.toNat - '0'.toNat))) maxNumber, rest.dropWhile Char.isDigit) := ih _
        _ = (min (Nat.ofDigitChars 10 ((c :: rest).takeWhile Char.isDigit) n) maxNumber,
              (c :: rest).dropWhile Char.isDigit) := by
          rw [List.takeWhile_cons_of_pos hc, List.dropWhile_cons_of_pos hc, Nat.ofDigitChars_cons]
    | false =>
      rw [takeNumberFrom, toDigit_of_not_isDigit hc,
        List.takeWhile_cons_of_neg (by rw [hc]; decide),
        List.dropWhile_cons_of_neg (by rw [hc]; decide), Nat.ofDigitChars_nil]

theorem takeNumber_eq (text : List Char) :
    takeNumber text = (leadingNumber text, text.dropWhile Char.isDigit) :=
  takeNumberFrom_eq 0 text

@[simp]
theorem tokenOrder_nil_cons : tokenOrder [] (d :: other) = .lt := by
  rw [tokenOrder, tokens_nil, tokens]
  split <;> rfl

@[simp]
theorem tokenOrder_cons_nil : tokenOrder (c :: rest) [] = .gt := by
  rw [tokenOrder, tokens_nil, tokens]
  split <;> rfl

theorem tokenOrder_of_isDigit (hc : c.isDigit = true) (hd : d.isDigit = true) :
    tokenOrder (c :: rest) (d :: other) =
      (compare (leadingNumber (c :: rest)) (leadingNumber (d :: other))).then
        (tokenOrder (rest.dropWhile Char.isDigit) (other.dropWhile Char.isDigit)) := by
  rw [tokenOrder, tokens_of_isDigit hc, tokens_of_isDigit hd, List.compareLex_cons_cons,
    Token.cmp_number]
  rfl

theorem tokenOrder_of_not_isDigit (h : (c.isDigit && d.isDigit) = false) :
    tokenOrder (c :: rest) (d :: other) =
      (compare (toAsciiLowercase c).toNat (toAsciiLowercase d).toNat).then
        (tokenOrder rest other) := by
  have hlowercase := isDigit_toAsciiLowercase
  have hnever {m n : ℕ} (hne : m ≠ n) (first second : Ordering) :
      (compare m n).then first = (compare m n).then second := by
    rcases lt_or_gt_of_ne hne with hlt | hlt
    · rw [Nat.compare_eq_lt.mpr hlt]
      rfl
    · rw [Nat.compare_eq_gt.mpr hlt]
      rfl
  cases hc : c.isDigit with
  | false =>
    have hcode := mt isDigit_iff.mpr (by rw [hlowercase, hc]; decide)
    cases hd : d.isDigit with
    | false =>
      rw [tokenOrder, tokens_of_not_isDigit hc, tokens_of_not_isDigit hd,
        List.compareLex_cons_cons, Token.cmp_character]
      rfl
    | true =>
      have hdigit := isDigit_iff.mp ((hlowercase d).trans hd)
      rw [tokenOrder, tokens_of_not_isDigit hc, tokens_of_isDigit hd, List.compareLex_cons_cons,
        Token.cmp_character_number hdigit hcode]
      exact hnever (by omega) _ _
  | true =>
    have hd : d.isDigit = false := by simpa [hc] using h
    have hdigit := isDigit_iff.mp ((hlowercase c).trans hc)
    have hcode := mt isDigit_iff.mpr (by rw [hlowercase, hd]; decide)
    rw [tokenOrder, tokens_of_isDigit hc, tokens_of_not_isDigit hd, List.compareLex_cons_cons,
      Token.cmp_number_character hdigit hcode]
    exact hnever (by omega) _ _

theorem cmpRounds_eq_tokenOrder {rounds : ℕ} (h : a.length ≤ rounds) :
    cmpRounds rounds a b = tokenOrder a b := by
  induction rounds generalizing a b with
  | zero =>
    obtain rfl := List.eq_nil_of_length_eq_zero (Nat.le_zero.mp h)
    cases b with
    | nil => simp [cmpRounds, tokenOrder, List.compareLex]
    | cons d other => rw [cmpRounds, tokenOrder_nil_cons]
  | succ rounds ih =>
    rcases a with _ | ⟨c, rest⟩ <;> rcases b with _ | ⟨d, other⟩
    · simp [cmpRounds, tokenOrder, List.compareLex]
    · rw [cmpRounds, tokenOrder_nil_cons]
    · rw [cmpRounds, tokenOrder_cons_nil]
    · rw [List.length_cons, Nat.add_le_add_iff_right] at h
      rw [cmpRounds]
      split
      · next hdigits =>
        rw [Bool.and_eq_true] at hdigits
        have hshorter : (rest.dropWhile Char.isDigit).length ≤ rounds :=
          (List.length_dropWhile_le ..).trans h
        rw [tokenOrder_of_isDigit hdigits.1 hdigits.2, takeNumber_eq, takeNumber_eq,
          List.dropWhile_cons_of_pos hdigits.1, List.dropWhile_cons_of_pos hdigits.2,
          ih hshorter]
        cases compare (leadingNumber (c :: rest)) (leadingNumber (d :: other)) <;> rfl
      · next hdigits =>
        rw [Bool.not_eq_true] at hdigits
        rw [tokenOrder_of_not_isDigit hdigits, ih h]
        cases compare (toAsciiLowercase c).toNat (toAsciiLowercase d).toNat <;> rfl

/-- The comparator orders names as their tokens are ordered. -/
theorem cmp_eq_tokenOrder (a b : List Char) : cmp a b = tokenOrder a b :=
  cmpRounds_eq_tokenOrder (Nat.le_refl _)

instance : Std.TransCmp cmp := by
  rw [funext fun a ↦ funext (cmp_eq_tokenOrder a)]
  infer_instance

/-- **Natural sorting.** The comparator is the lexicographic order of the tokens, and a total
preorder on all names. -/
theorem cmp_totalPreorder :
    (∀ a b, cmp a b = List.compareLex Token.cmp (tokens a) (tokens b)) ∧
      (∀ a, cmp a a = .eq) ∧ (∀ a b, cmp b a = (cmp a b).swap) ∧
      ∀ a b c, cmp a b ≠ .gt → cmp b c ≠ .gt → cmp a c ≠ .gt := by
  refine ⟨cmp_eq_tokenOrder, fun a ↦ Std.ReflCmp.compare_self,
    fun a b ↦ Std.OrientedCmp.eq_swap, fun a b c hab hbc ↦ ?_⟩
  rw [ne_eq, ← Ordering.isLE_iff_ne_gt] at hab hbc ⊢
  exact Std.TransCmp.isLE_trans hab hbc

theorem cmp_chapters : cmp "Chapter 2".toList "chapter 010".toList ≠ .gt :=
  cmp_totalPreorder.2.2.2 _ "CHAPTER 9b".toList _ (by decide) (by decide)

end ComicStream.Natsort
