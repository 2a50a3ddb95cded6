import ComicStream.Rust.Text
import Mathlib.Algebra.Group.Nat.Defs

/-!
# Numbers of the Rust standard library

A `u64` is a natural number below `2 ^ 64`. Arithmetic that would leave this range
gives nothing. Numbers are written in decimal and read back with any number of
leading zeros.
-/

namespace ComicStream.Rust

/-- `a - b` of two `u64`. -/
def subU64 (a b : ℕ) : Option ℕ := if b ≤ a then some (a - b) else none

/-- `a + b` of two `u64`. -/
def addU64 (a b : ℕ) : Option ℕ := if a + b < 2 ^ 64 then some (a + b) else none

/-- One more digit of a number that is read. -/
def pushDigit (n : ℕ) (c : Char) : Option ℕ :=
  (toDigit 10 c).bind fun d ↦ if n * 10 + d < 2 ^ 64 then some (n * 10 + d) else none

/-- `str::parse::<u64>`. -/
def parseU64 (text : List Char) : Option ℕ :=
  let digits := if text.head? = some '+' then text.tail else text
  if digits = [] then none else digits.foldlM pushDigit 0

/-- `str::parse::<u32>`. -/
def parseU32 (text : List Char) : Option ℕ := (parseU64 text).filter (· < 2 ^ 32)

/-- `str::parse::<i64>`. -/
def parseI64 (text : List Char) : Option ℤ :=
  if text.head? = some '-' then
    if text.tail.head? = some '+' then none
    else ((parseU64 text.tail).filter (· ≤ 2 ^ 63)).map fun n : ℕ ↦ -(n : ℤ)
  else ((parseU64 text).filter (· < 2 ^ 63)).map fun n : ℕ ↦ (n : ℤ)

/-- How a number is displayed. -/
def decimal (n : ℕ) : List Char := Nat.toDigits 10 n

/-- How a signed number is displayed. -/
def decimalInt : ℤ → List Char
  | .ofNat n => decimal n
  | .negSucc n => '-' :: decimal (n + 1)

/-- A number in decimal, perhaps with leading zeros. -/
structure IsDecimal (text : List Char) (n : ℕ) : Prop where
  ne_nil : text ≠ []
  isDigit : ∀ c ∈ text, c.isDigit = true
  value : Nat.ofDigitChars 10 text 0 = n

theorem isDecimal_decimal (n : ℕ) : IsDecimal (decimal n) n where
  ne_nil := Nat.toDigits_ne_nil
  isDigit := fun _ hc ↦ Nat.isDigit_of_mem_toDigits (by decide) (by decide) hc
  value := Nat.ofDigitChars_ten_toDigits

theorem isDigit_iff {c : Char} : c.isDigit = true ↔ 48 ≤ c.toNat ∧ c.toNat ≤ 57 := by
  simp [Char.isDigit, UInt32.le_iff_toNat_le]

theorem isWhitespace_of_isDigit {c : Char} (h : c.isDigit = true) : isWhitespace c = false := by
  have hrange := isDigit_iff.mp h
  simp only [isWhitespace, Bool.or_eq_false_iff, Bool.and_eq_false_iff, decide_eq_false_iff_not,
    beq_eq_false_iff_ne]
  omega

theorem toDigit_of_isDigit {c : Char} (h : c.isDigit = true) :
    toDigit 10 c = some (c.toNat - '0'.toNat) := by
  have hrange := isDigit_iff.mp h
  have hzero : '0'.toNat = 48 := rfl
  have hlt : c.toNat - 48 < 10 := by omega
  simp [toDigit, hrange, hzero, hlt]

theorem toDigit_of_not_isDigit {c : Char} (h : c.isDigit = false) : toDigit 10 c = none := by
  have hrange : ¬(48 ≤ c.toNat ∧ c.toNat ≤ 57) := by rw [← isDigit_iff, h]; decide
  unfold toDigit
  simp only [Option.filter_eq_none_iff, decide_eq_true_eq, Nat.not_lt]
  intro value hvalue
  split at hvalue
  · next hdigit => exact absurd (by simpa using hdigit) hrange
  · split at hvalue
    · rw [← Option.some.inj hvalue]
      omega
    · split at hvalue
      · rw [← Option.some.inj hvalue]
        omega
      · simp at hvalue

theorem toAsciiLowercase_of_isDigit {c : Char} (hc : c.isDigit = true) :
    toAsciiLowercase c = c := by
  have hrange := isDigit_iff.mp hc
  unfold toAsciiLowercase
  rw [if_neg]
  simp only [Bool.and_eq_true, decide_eq_true_eq]
  omega

theorem isDigit_toAsciiLowercase (c : Char) : (toAsciiLowercase c).isDigit = c.isDigit := by
  rw [Bool.eq_iff_iff, isDigit_iff, isDigit_iff, toNat_toAsciiLowercase]
  split
  · next hupper =>
    simp only [Bool.and_eq_true, decide_eq_true_eq] at hupper
    omega
  · rfl

theorem toDigit_toAsciiLowercase (c : Char) : toDigit 10 (toAsciiLowercase c) = toDigit 10 c := by
  cases hc : c.isDigit with
  | true => rw [toAsciiLowercase_of_isDigit hc]
  | false =>
    rw [toDigit_of_not_isDigit hc, toDigit_of_not_isDigit ((isDigit_toAsciiLowercase c).trans hc)]

theorem parseU64_map_toAsciiLowercase (text : List Char) :
    parseU64 (text.map toAsciiLowercase) = parseU64 text := by
  have hfold (digits : List Char) :
      (digits.map toAsciiLowercase).foldlM pushDigit 0 = digits.foldlM pushDigit 0 := by
    simp only [List.foldlM_map, pushDigit, toDigit_toAsciiLowercase]
    rfl
  cases text with
  | nil => rfl
  | cons c text =>
    have hplus : toAsciiLowercase c = '+' ↔ c = '+' := toAsciiLowercase_eq_iff (by decide)
    simp only [parseU64, List.map_cons, List.head?_cons, Option.some.injEq, hplus, List.tail_cons]
    by_cases hc : c = '+'
    · simp only [if_pos hc, List.map_eq_nil_iff, hfold]
    · simp only [if_neg hc, reduceCtorEq, if_false]
      exact hfold (c :: text)

theorem le_ofDigitChars (text : List Char) (n : ℕ) : n ≤ Nat.ofDigitChars 10 text n := by
  induction text generalizing n with
  | nil => exact Nat.le_refl n
  | cons c rest ih =>
    rw [Nat.ofDigitChars_cons]
    have hle := ih (10 * n + (c.toNat - '0'.toNat))
    omega

theorem foldlM_pushDigit {text : List Char} {n : ℕ} (hdigits : ∀ c ∈ text, c.isDigit = true)
    (hvalue : Nat.ofDigitChars 10 text n < 2 ^ 64) :
    text.foldlM pushDigit n = some (Nat.ofDigitChars 10 text n) := by
  induction text generalizing n with
  | nil => rw [Nat.ofDigitChars_nil]; rfl
  | cons c rest ih =>
    rw [Nat.ofDigitChars_cons] at hvalue ⊢
    have hpush : pushDigit n c = some (10 * n + (c.toNat - '0'.toNat)) := by
      have hle := le_ofDigitChars rest (10 * n + (c.toNat - '0'.toNat))
      rw [pushDigit, toDigit_of_isDigit (hdigits c List.mem_cons_self), Option.bind_some,
        if_pos (by omega), Nat.mul_comm]
    rw [List.foldlM_cons, hpush]
    exact ih (fun c hc ↦ hdigits c (List.mem_cons_of_mem _ hc)) hvalue

/-- A number that fits is read as what it is. -/
theorem IsDecimal.parseU64 {text : List Char} {n : ℕ} (h : IsDecimal text n) (hn : n < 2 ^ 64) :
    parseU64 text = some n := by
  have hhead : text.head? ≠ some '+' := by
    intro hplus
    have hdigit := h.isDigit '+' (List.mem_of_mem_head? hplus)
    simp at hdigit
  rw [Rust.parseU64, if_neg hhead]
  simp only [if_neg h.ne_nil]
  rw [foldlM_pushDigit h.isDigit (by rw [h.value]; exact hn), h.value]

theorem IsDecimal.parseI64 {text : List Char} {n : ℕ} (h : IsDecimal text n) (hn : n < 2 ^ 63) :
    parseI64 text = some (n : ℤ) := by
  have hhead : text.head? ≠ some '-' := by
    intro hminus
    have hdigit := h.isDigit '-' (List.mem_of_mem_head? hminus)
    simp at hdigit
  rw [Rust.parseI64, if_neg hhead, h.parseU64 (by omega), Option.filter_some,
    if_pos (by simpa using hn), Option.map_some]

end ComicStream.Rust
