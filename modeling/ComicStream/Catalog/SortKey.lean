import ComicStream.Catalog.NaturalOrder
import ComicStream.Foundation.Lex

/-!
# The stored sort key

The database orders the rows of a folder by the bytes of their keys, the walk and
the pages by the comparator. The key has every run of digits filled with zeros to
twenty places, so the two agree on names without a longer run, and not on others.
-/

namespace ComicStream.Natsort

open Rust

/-- The order of `ORDER BY` on text. -/
def byteOrder : List UInt8 → List UInt8 → Ordering := List.compareLex (compareOn UInt8.toNat)

/-- Texts in the order of their code points. -/
def textOrder : List Char → List Char → Ordering := List.compareLex (compareOn Char.toNat)

instance : Std.TransCmp textOrder :=
  inferInstanceAs (Std.TransCmp (List.compareLex (compareOn Char.toNat)))

instance lawfulEqCmp_toNat : Std.LawfulEqCmp (compareOn Char.toNat) where
  eq_of_compare h := Char.toNat_inj.mp (Nat.compare_eq_eq.mp h)

instance : Std.LawfulEqCmp textOrder :=
  inferInstanceAs (Std.LawfulEqCmp (List.compareLex (compareOn Char.toNat)))

theorem byteOrder_encode_of_lt {c d : Char} (h : c.toNat < d.toNat) (first second : List UInt8) :
    byteOrder (String.utf8EncodeChar c ++ first) (String.utf8EncodeChar d ++ second) = .lt := by
  have hc : c.val.toNat < 0x110000 := by
    rcases c.valid with hvalid | hvalid <;> omega
  have hd : d.val.toNat < 0x110000 := by
    rcases d.valid with hvalid | hvalid <;> omega
  change c.val.toNat < d.val.toNat at h
  unfold byteOrder String.utf8EncodeChar
  generalize c.val.toNat = m at *
  generalize d.val.toNat = n at *
  have hbyte {k : ℕ} (hk : k < 256) : (UInt8.ofNat k).toNat = k := by
    rw [UInt8.toNat_ofNat', Nat.mod_eq_of_lt hk]
  have hfirst : m / 64 < n / 64 ∨ m / 64 = n / 64 ∧ m % 64 < n % 64 := by omega
  have hsecond : m / 64 < n / 64 →
      m / 4096 < n / 4096 ∨ m / 4096 = n / 4096 ∧ m / 64 % 64 < n / 64 % 64 := by omega
  have hthird : m / 4096 < n / 4096 →
      m / 262144 < n / 262144 ∨ m / 262144 = n / 262144 ∧ m / 4096 % 64 < n / 4096 % 64 := by omega
  have hlead {k : ℕ} (hk : k < 0x110000) : k / 262144 % 8 = k / 262144 := by omega
  dsimp only
  split_ifs <;>
    simp (disch := omega) only [List.cons_append, List.nil_append, List.compareLex_cons_cons,
      compareOn, Ordering.then_eq_lt, Nat.compare_eq_lt, Nat.compare_eq_eq, hlead, hbyte] <;> omega

/-- The bytes of texts are in the order of the code points. -/
theorem byteOrder_utf8 (first second : List Char) :
    byteOrder (utf8 first) (utf8 second) = textOrder first second := by
  refine Lex.compareLex_flatMap (fun _ ↦ String.utf8EncodeChar_ne_nil) (fun c d bytes bytes' ↦ ?_) _ _
  rcases Nat.lt_trichotomy c.toNat d.toNat with hlt | heq | hlt
  · rw [compareOn, Nat.compare_eq_lt.mpr hlt]
    exact byteOrder_encode_of_lt hlt ..
  · obtain rfl := Char.toNat_inj.mp heq
    rw [Lex.compareLex_append_left, compareOn, Nat.compare_eq_eq.mpr rfl]
    rfl
  · rw [compareOn, Nat.compare_eq_gt.mpr hlt,
      @Std.OrientedCmp.eq_swap _ (List.compareLex (compareOn UInt8.toNat))]
    exact congrArg Ordering.swap (byteOrder_encode_of_lt hlt ..)

/-- A run of digits, filled with zeros to twenty places. -/
def filled (digits : List Char) : List Char := List.leftpad 20 '0' digits

variable {c d : Char} {rest other digits digits' : List Char}

theorem keyFrom_eq (digits text : List Char) :
    keyFrom digits text =
      pad (digits ++ text.takeWhile Char.isDigit) ++ key (text.dropWhile Char.isDigit) := by
  induction text generalizing digits with
  | nil => simp [keyFrom, key, pad]
  | cons c rest ih =>
    cases hc : c.isDigit with
    | true =>
      rw [keyFrom, if_pos hc, ih, List.takeWhile_cons_of_pos hc, List.dropWhile_cons_of_pos hc,
        List.append_assoc]
      rfl
    | false =>
      have hneg : ¬c.isDigit = true := by rw [hc]; decide
      rw [keyFrom, if_neg hneg, List.takeWhile_cons_of_neg hneg, List.dropWhile_cons_of_neg hneg,
        List.append_nil, key, keyFrom, if_neg hneg]
      rfl

@[simp]
theorem key_nil : key [] = [] := rfl

theorem key_of_isDigit (hc : c.isDigit = true) :
    key (c :: rest) =
      filled ((c :: rest).takeWhile Char.isDigit) ++ key (rest.dropWhile Char.isDigit) := by
  rw [key, keyFrom_eq, List.nil_append, List.dropWhile_cons_of_pos hc,
    List.takeWhile_cons_of_pos hc]
  rfl

theorem key_of_not_isDigit (hc : c.isDigit = false) :
    key (c :: rest) = toAsciiLowercase c :: key rest := by
  rw [key, keyFrom, if_neg (by rw [hc]; decide)]
  rfl

theorem isDigit_of_mem_filled (hdigits : ∀ c ∈ digits, c.isDigit = true) :
    ∀ c ∈ filled digits, c.isDigit = true := by
  intro c hc
  rcases List.mem_append.mp hc with hc | hc
  · rw [List.eq_of_mem_replicate hc]
    rfl
  · exact hdigits c hc

theorem ofDigitChars_filled (digits : List Char) :
    Nat.ofDigitChars 10 (filled digits) 0 = Nat.ofDigitChars 10 digits 0 := by
  rw [filled, List.leftpad, Nat.ofDigitChars_append, Nat.ofDigitChars_replicate_zero, Nat.mul_zero]

theorem compare_then_textOrder (hlength : digits.length = digits'.length)
    (hdigits : ∀ c ∈ digits, c.isDigit = true) (hdigits' : ∀ c ∈ digits', c.isDigit = true)
    (m n : ℕ) :
    (compare m n).then (textOrder digits digits') =
      compare (Nat.ofDigitChars 10 digits m) (Nat.ofDigitChars 10 digits' n) := by
  induction digits generalizing digits' m n with
  | nil =>
    obtain rfl := List.eq_nil_of_length_eq_zero hlength.symm
    exact Ordering.then_eq
  | cons c digits ih =>
    cases digits' with
    | nil => simp at hlength
    | cons d digits' =>
      have hc := isDigit_iff.mp (hdigits c List.mem_cons_self)
      have hd := isDigit_iff.mp (hdigits' d List.mem_cons_self)
      have hzero : '0'.toNat = 48 := rfl
      have hstep : (compare m n).then (compare c.toNat d.toNat) =
          compare (10 * m + (c.toNat - '0'.toNat)) (10 * n + (d.toNat - '0'.toNat)) := by
        rcases Nat.lt_trichotomy m n with hlt | rfl | hlt
        · have hlater : 10 * m + (c.toNat - 48) < 10 * n + (d.toNat - 48) := by omega
          rw [Nat.compare_eq_lt.mpr hlt, hzero, Nat.compare_eq_lt.mpr hlater]
          rfl
        · have hlater : 10 * m + (c.toNat - 48) < 10 * m + (d.toNat - 48) ↔ c.toNat < d.toNat := by
            omega
          have hearlier : 10 * m + (d.toNat - 48) < 10 * m + (c.toNat - 48) ↔
              d.toNat < c.toNat := by omega
          rw [Nat.compare_eq_eq.mpr rfl, hzero, Nat.compare_eq_ite_lt, Nat.compare_eq_ite_lt]
          simp only [hlater, hearlier]
          rfl
        · have hlater : 10 * n + (d.toNat - 48) < 10 * m + (c.toNat - 48) := by omega
          rw [Nat.compare_eq_gt.mpr hlt, hzero, Nat.compare_eq_gt.mpr hlater]
          rfl
      calc
        (compare m n).then (textOrder (c :: digits) (d :: digits')) =
            ((compare m n).then (compare c.toNat d.toNat)).then (textOrder digits digits') := by
          rw [textOrder, List.compareLex_cons_cons, ← Ordering.then_assoc, compareOn]
        _ = (compare (10 * m + (c.toNat - '0'.toNat)) (10 * n + (d.toNat - '0'.toNat))).then
            (textOrder digits digits') := by
          rw [hstep]
        _ = compare (Nat.ofDigitChars 10 digits (10 * m + (c.toNat - '0'.toNat)))
            (Nat.ofDigitChars 10 digits' (10 * n + (d.toNat - '0'.toNat))) :=
          ih (Nat.succ_inj.mp hlength) (fun c hc ↦ hdigits c (List.mem_cons_of_mem _ hc))
            (fun c hc ↦ hdigits' c (List.mem_cons_of_mem _ hc)) _ _
        _ = compare (Nat.ofDigitChars 10 (c :: digits) m) (Nat.ofDigitChars 10 (d :: digits') n) := by
          rw [Nat.ofDigitChars_cons, Nat.ofDigitChars_cons]

theorem compare_ofDigitChars (hlength : digits.length = digits'.length)
    (hdigits : ∀ c ∈ digits, c.isDigit = true) (hdigits' : ∀ c ∈ digits', c.isDigit = true) :
    textOrder digits digits' =
      compare (Nat.ofDigitChars 10 digits 0) (Nat.ofDigitChars 10 digits' 0) :=
  compare_then_textOrder hlength hdigits hdigits' 0 0

/-- What follows two different runs is compared with a digit of the longer one at most. -/
theorem textOrder_runs {first first' second second' : List Char}
    (hdigits : ∀ c ∈ digits, c.isDigit = true) (hdigits' : ∀ c ∈ digits', c.isDigit = true)
    (hne : digits ≠ digits')
    (hfirst : ∀ c later later', c.isDigit = true →
      textOrder first (c :: later) = textOrder first' (c :: later'))
    (hsecond : ∀ c later later', c.isDigit = true →
      textOrder (c :: later) second = textOrder (c :: later') second') :
    textOrder (digits ++ first) (digits' ++ second) =
      textOrder (digits ++ first') (digits' ++ second') := by
  induction digits generalizing digits' with
  | nil =>
    cases digits' with
    | nil => exact absurd rfl hne
    | cons d digits' => exact hfirst d _ _ (hdigits' d List.mem_cons_self)
  | cons c digits ih =>
    cases digits' with
    | nil => exact hsecond c _ _ (hdigits c List.mem_cons_self)
    | cons d digits' =>
      simp only [textOrder, List.cons_append, List.compareLex_cons_cons]
      by_cases hcd : c = d
      · subst hcd
        have hrest := ih (fun c hc ↦ hdigits c (List.mem_cons_of_mem _ hc))
          (fun c hc ↦ hdigits' c (List.mem_cons_of_mem _ hc))
          (fun heq ↦ hne (heq ▸ rfl))
        exact congrArg (Ordering.then _) hrest
      · exact Lex.then_of_ne (fun heq ↦ hcd (Char.toNat_inj.mp (Nat.compare_eq_eq.mp heq))) _ _

theorem textOrder_key_cons (hrest : ∀ d ∈ rest.head?, d.isDigit = false) (hc : c.isDigit = true)
    (later later' : List Char) :
    textOrder (key rest) (c :: later) = textOrder (rest.take 1) (c :: later') := by
  cases rest with
  | nil => rfl
  | cons d other =>
    have hd : d.isDigit = false := hrest d rfl
    have hdigit := isDigit_iff.mp hc
    have hother := mt isDigit_iff.mpr (by rw [hd]; decide)
    have hlower : (toAsciiLowercase d).toNat = d.toNat ∨
        65 ≤ d.toNat ∧ (toAsciiLowercase d).toNat = d.toNat + 32 := by
      rw [toNat_toAsciiLowercase]
      split
      · next hupper =>
        simp only [Bool.and_eq_true, decide_eq_true_eq] at hupper
        exact .inr ⟨hupper.1, rfl⟩
      · exact .inl rfl
    have hbelow : (toAsciiLowercase d).toNat < c.toNat ↔ d.toNat < c.toNat := by omega
    have habove : c.toNat < (toAsciiLowercase d).toNat ↔ c.toNat < d.toNat := by omega
    have hcompare : compare (toAsciiLowercase d).toNat c.toNat = compare d.toNat c.toNat := by
      simp only [Nat.compare_eq_ite_lt, hbelow, habove]
    have hne : compare d.toNat c.toNat ≠ .eq := by
      rw [ne_eq, Nat.compare_eq_eq]
      omega
    rw [key_of_not_isDigit hd, List.take_succ_cons]
    simp only [textOrder, List.compareLex_cons_cons, compareOn, hcompare]
    exact Lex.then_of_ne hne _ _

theorem textOrder_cons_key (hrest : ∀ d ∈ rest.head?, d.isDigit = false) (hc : c.isDigit = true)
    (later later' : List Char) :
    textOrder (c :: later) (key rest) = textOrder (c :: later') (rest.take 1) := by
  calc
    textOrder (c :: later) (key rest) = (textOrder (key rest) (c :: later)).swap :=
      Std.OrientedCmp.eq_swap
    _ = (textOrder (rest.take 1) (c :: later')).swap := by
      rw [textOrder_key_cons hrest hc later later']
    _ = textOrder (c :: later') (rest.take 1) := Std.OrientedCmp.eq_swap.symm

/-! ## Agreement -/

/-- No run of more than twenty digits. -/
def Short (name : List Char) : Prop :=
  ∀ digits, digits <:+: name → (∀ c ∈ digits, c.isDigit = true) → digits.length ≤ 20

theorem Short.of_suffix {a b : List Char} (h : Short a) (hsuffix : b <:+ a) : Short b :=
  fun digits hrun ↦ h digits (hrun.trans hsuffix.isInfix)

theorem isDigit_of_mem_takeWhile (text : List Char) :
    ∀ c ∈ text.takeWhile Char.isDigit, c.isDigit = true := fun _ hc ↦ List.mem_takeWhile_imp hc

theorem isDigit_of_mem_head?_dropWhile (text : List Char) :
    ∀ c ∈ (text.dropWhile Char.isDigit).head?, c.isDigit = false := by
  intro c hc
  have hhead := List.head?_dropWhile_not Char.isDigit text
  rw [Option.mem_def.mp hc] at hhead
  simpa using hhead

/-- The keys of two texts that start with different runs are in the order of these. -/
theorem textOrder_key_of_ne (hc : c.isDigit = true) (hd : d.isDigit = true)
    (hne : filled ((c :: rest).takeWhile Char.isDigit) ≠
      filled ((d :: other).takeWhile Char.isDigit)) :
    textOrder (key (c :: rest)) (key (d :: other)) =
      textOrder (filled ((c :: rest).takeWhile Char.isDigit) ++ (rest.dropWhile Char.isDigit).take 1)
        (filled ((d :: other).takeWhile Char.isDigit) ++
          (other.dropWhile Char.isDigit).take 1) := by
  rw [key_of_isDigit hc, key_of_isDigit hd]
  exact textOrder_runs (isDigit_of_mem_filled (isDigit_of_mem_takeWhile _))
    (isDigit_of_mem_filled (isDigit_of_mem_takeWhile _)) hne
    (fun _ later later' hdigit ↦
      textOrder_key_cons (isDigit_of_mem_head?_dropWhile _) hdigit later later')
    (fun _ later later' hdigit ↦
      textOrder_cons_key (isDigit_of_mem_head?_dropWhile _) hdigit later later')

theorem length_filled (h : digits.length ≤ 20) : (filled digits).length = 20 := by
  rw [filled, List.length_leftpad, Nat.max_eq_left h]

theorem ofDigitChars_lt (hdigits : ∀ c ∈ digits, c.isDigit = true) (n : ℕ) :
    Nat.ofDigitChars 10 digits n < (n + 1) * 10 ^ digits.length := by
  induction digits generalizing n with
  | nil => simp
  | cons c digits ih =>
    have hc := isDigit_iff.mp (hdigits c List.mem_cons_self)
    have hzero : '0'.toNat = 48 := rfl
    have hle : 10 * n + (c.toNat - '0'.toNat) + 1 ≤ 10 * (n + 1) := by omega
    rw [Nat.ofDigitChars_cons, List.length_cons]
    calc
      Nat.ofDigitChars 10 digits (10 * n + (c.toNat - '0'.toNat)) <
          (10 * n + (c.toNat - '0'.toNat) + 1) * 10 ^ digits.length :=
        ih (fun c hc ↦ hdigits c (List.mem_cons_of_mem _ hc)) _
      _ ≤ 10 * (n + 1) * 10 ^ digits.length := Nat.mul_le_mul_right _ hle
      _ = (n + 1) * 10 ^ (digits.length + 1) := by
        rw [Nat.pow_succ, Nat.mul_comm 10, Nat.mul_assoc, Nat.mul_comm 10]

theorem leadingNumber_eq {text : List Char} (h : (text.takeWhile Char.isDigit).length ≤ 20) :
    leadingNumber text = Nat.ofDigitChars 10 (text.takeWhile Char.isDigit) 0 := by
  refine Nat.min_eq_left ?_
  have hlt := ofDigitChars_lt (isDigit_of_mem_takeWhile text) 0
  have hpow : 10 ^ (text.takeWhile Char.isDigit).length ≤ 10 ^ 20 :=
    Nat.pow_le_pow_right (by decide) h
  have hmax : 10 ^ 20 ≤ maxNumber := by decide
  omega

/-- Different runs of at most twenty digits are in the order of their values, which differ. -/
theorem textOrder_of_short {a b : List Char} (ha : (a.takeWhile Char.isDigit).length ≤ 20)
    (hb : (b.takeWhile Char.isDigit).length ≤ 20)
    (hne : filled (a.takeWhile Char.isDigit) ≠ filled (b.takeWhile Char.isDigit))
    (first second : List Char) (later : Ordering) :
    textOrder (filled (a.takeWhile Char.isDigit) ++ first)
        (filled (b.takeWhile Char.isDigit) ++ second) =
      (compare (leadingNumber a) (leadingNumber b)).then later := by
  have hlength : (filled (a.takeWhile Char.isDigit)).length =
      (filled (b.takeWhile Char.isDigit)).length := by rw [length_filled ha, length_filled hb]
  have horder := compare_ofDigitChars hlength (isDigit_of_mem_filled (isDigit_of_mem_takeWhile a))
    (isDigit_of_mem_filled (isDigit_of_mem_takeWhile b))
  rw [ofDigitChars_filled, ofDigitChars_filled, ← leadingNumber_eq ha, ← leadingNumber_eq hb]
    at horder
  rw [← horder, textOrder, Lex.compareLex_append hlength]
  exact Lex.then_of_ne (fun heq ↦ hne (Std.LawfulEqCmp.eq_of_compare heq)) _ _

theorem exists_key_cons (c : Char) (rest : List Char) : ∃ x later, key (c :: rest) = x :: later ∧
    (x = toAsciiLowercase c ∨ (toAsciiLowercase c).isDigit = true ∧ x.isDigit = true) := by
  cases hc : c.isDigit with
  | false => exact ⟨_, _, key_of_not_isDigit hc, .inl rfl⟩
  | true =>
    have hne : filled ((c :: rest).takeWhile Char.isDigit) ≠ [] := by
      rw [List.takeWhile_cons_of_pos hc]
      exact List.append_ne_nil_of_right_ne_nil _ (List.cons_ne_nil _ _)
    obtain ⟨x, later, hx⟩ := List.exists_cons_of_ne_nil hne
    refine ⟨x, later ++ key (rest.dropWhile Char.isDigit), ?_,
      .inr ⟨(isDigit_toAsciiLowercase c).trans hc, ?_⟩⟩
    · rw [key_of_isDigit hc, hx, List.cons_append]
    · refine isDigit_of_mem_filled (isDigit_of_mem_takeWhile (c :: rest)) x ?_
      rw [hx]
      exact List.mem_cons_self

theorem compare_of_isDigit {x x' y y' : Char} (h : (x.isDigit && y.isDigit) = false)
    (hx : x' = x ∨ x.isDigit = true ∧ x'.isDigit = true)
    (hy : y' = y ∨ y.isDigit = true ∧ y'.isDigit = true) :
    compare x'.toNat y'.toNat = compare x.toNat y.toNat := by
  simp only [isDigit_iff] at hx hy
  rw [← Bool.not_eq_true, Bool.and_eq_true, isDigit_iff, isDigit_iff] at h
  rcases hx with rfl | hx <;> rcases hy with rfl | hy
  · rfl
  · have hbelow : x'.toNat < y'.toNat ↔ x'.toNat < y.toNat := by omega
    have habove : y'.toNat < x'.toNat ↔ y.toNat < x'.toNat := by omega
    simp only [Nat.compare_eq_ite_lt, hbelow, habove]
  · have hbelow : x'.toNat < y'.toNat ↔ x.toNat < y'.toNat := by omega
    have habove : y'.toNat < x'.toNat ↔ y'.toNat < x.toNat := by omega
    simp only [Nat.compare_eq_ite_lt, hbelow, habove]
  · omega

theorem Short.takeWhile_le {name : List Char} (h : Short name) :
    (name.takeWhile Char.isDigit).length ≤ 20 :=
  h _ (List.takeWhile_prefix _).isInfix (isDigit_of_mem_takeWhile name)

theorem Short.dropWhile (h : Short (c :: rest)) : Short (rest.dropWhile Char.isDigit) :=
  h.of_suffix ((List.dropWhile_suffix _).trans (List.suffix_cons ..))

theorem textOrder_key_of_isDigit (hc : c.isDigit = true) (hd : d.isDigit = true)
    (ha : Short (c :: rest)) (hb : Short (d :: other))
    (ih : textOrder (key (rest.dropWhile Char.isDigit)) (key (other.dropWhile Char.isDigit)) =
      tokenOrder (rest.dropWhile Char.isDigit) (other.dropWhile Char.isDigit)) :
    textOrder (key (c :: rest)) (key (d :: other)) = tokenOrder (c :: rest) (d :: other) := by
  by_cases hsame : filled ((c :: rest).takeWhile Char.isDigit) =
      filled ((d :: other).takeWhile Char.isDigit)
  · have hnumber : leadingNumber (c :: rest) = leadingNumber (d :: other) := by
      rw [leadingNumber, leadingNumber, ← ofDigitChars_filled, hsame, ofDigitChars_filled]
    calc
      textOrder (key (c :: rest)) (key (d :: other)) =
          textOrder (key (rest.dropWhile Char.isDigit)) (key (other.dropWhile Char.isDigit)) := by
        rw [key_of_isDigit hc, key_of_isDigit hd, hsame]
        exact Lex.compareLex_append_left _ _ _
      _ = tokenOrder (rest.dropWhile Char.isDigit) (other.dropWhile Char.isDigit) := ih
      _ = tokenOrder (c :: rest) (d :: other) := by
        rw [tokenOrder_of_isDigit hc hd, hnumber, Nat.compare_eq_eq.mpr rfl]
        rfl
  · rw [textOrder_key_of_ne hc hd hsame, tokenOrder_of_isDigit hc hd]
    exact textOrder_of_short ha.takeWhile_le hb.takeWhile_le hsame _ _ _

theorem textOrder_key_of_not_isDigit (hdigits : (c.isDigit && d.isDigit) = false)
    (ih : textOrder (key rest) (key other) = tokenOrder rest other) :
    textOrder (key (c :: rest)) (key (d :: other)) = tokenOrder (c :: rest) (d :: other) := by
  have hlower : ((toAsciiLowercase c).isDigit && (toAsciiLowercase d).isDigit) = false := by
    rw [isDigit_toAsciiLowercase, isDigit_toAsciiLowercase, hdigits]
  rw [tokenOrder_of_not_isDigit hdigits]
  by_cases heq : toAsciiLowercase c = toAsciiLowercase d
  · have hc : c.isDigit = false := by
      rw [heq, Bool.and_self] at hlower
      rw [← isDigit_toAsciiLowercase, heq, hlower]
    have hd : d.isDigit = false := by
      rw [← isDigit_toAsciiLowercase, ← heq, isDigit_toAsciiLowercase, hc]
    have hkeys : textOrder (key (c :: rest)) (key (d :: other)) =
        textOrder (key rest) (key other) := by
      rw [key_of_not_isDigit hc, key_of_not_isDigit hd, heq]
      exact Lex.compareLex_append_left [_] _ _
    rw [hkeys, heq, Nat.compare_eq_eq.mpr rfl, ih]
    rfl
  · obtain ⟨x, later, hx, hxc⟩ := exists_key_cons c rest
    obtain ⟨y, later', hy, hyd⟩ := exists_key_cons d other
    have hne : compare (toAsciiLowercase c).toNat (toAsciiLowercase d).toNat ≠ .eq :=
      fun h ↦ heq (Char.toNat_inj.mp (Nat.compare_eq_eq.mp h))
    rw [hx, hy, textOrder, List.compareLex_cons_cons, compareOn,
      compare_of_isDigit hlower hxc hyd]
    exact Lex.then_of_ne hne _ _

theorem textOrder_key_of_short {a b : List Char} (ha : Short a) (hb : Short b) :
    textOrder (key a) (key b) = tokenOrder a b := by
  match a, b with
  | [], [] =>
    rw [key_nil, @Std.ReflCmp.compare_self _ textOrder, @Std.ReflCmp.compare_self _ tokenOrder]
  | [], d :: other =>
    obtain ⟨y, later, hy, -⟩ := exists_key_cons d other
    rw [key_nil, hy, tokenOrder_nil_cons]
    rfl
  | c :: rest, [] =>
    obtain ⟨x, later, hx, -⟩ := exists_key_cons c rest
    rw [key_nil, hx, tokenOrder_cons_nil]
    rfl
  | c :: rest, d :: other =>
    cases hdigits : c.isDigit && d.isDigit with
    | true =>
      obtain ⟨hc, hd⟩ := Bool.and_eq_true_iff.mp hdigits
      exact textOrder_key_of_isDigit hc hd ha hb (textOrder_key_of_short ha.dropWhile hb.dropWhile)
    | false =>
      exact textOrder_key_of_not_isDigit hdigits (textOrder_key_of_short
        (ha.of_suffix (List.suffix_cons ..)) (hb.of_suffix (List.suffix_cons ..)))
termination_by a.length
decreasing_by
  · exact Nat.lt_succ_self _
  · exact Nat.lt_succ_of_le (List.length_dropWhile_le ..)

theorem short_of_length_le {name : List Char} (h : name.length ≤ 20) : Short name :=
  fun _ hrun _ ↦ hrun.length_le.trans h

theorem Short.cons (hrun : ((c :: rest).takeWhile Char.isDigit).length ≤ 20) (h : Short rest) :
    Short (c :: rest) := by
  intro digits hinfix hdigits
  rcases List.infix_cons_iff.mp hinfix with ⟨later, heq⟩ | hinfix
  · rw [← heq, List.takeWhile_append_of_pos hdigits, List.length_append] at hrun
    omega
  · exact h digits hinfix hdigits

theorem short_of_dropWhile {name : List Char} (hrun : (name.takeWhile Char.isDigit).length ≤ 20)
    (h : Short (name.dropWhile Char.isDigit)) : Short name := by
  induction name with
  | nil => exact h
  | cons c rest ih =>
    cases hc : c.isDigit with
    | true =>
      refine Short.cons hrun (ih ?_ ?_)
      · rw [List.takeWhile_cons_of_pos hc, List.length_cons] at hrun
        omega
      · rwa [List.dropWhile_cons_of_pos hc] at h
    | false => rwa [List.dropWhile_cons_of_neg (by rw [hc]; decide)] at h

/-- A zero more before the longer run leaves the tokens as they are and makes the key longer. -/
theorem exists_longer_key {name : List Char} (h : ¬Short name) :
    ∃ twin, tokens twin = tokens name ∧ (key twin).length = (key name).length + 1 ∧
      twin.head?.any Char.isDigit = name.head?.any Char.isDigit := by
  match name with
  | [] => exact absurd (short_of_dropWhile (Nat.zero_le _) (short_of_length_le (Nat.zero_le _))) h
  | c :: rest =>
    cases hc : c.isDigit with
    | false =>
      have hrest : ¬Short rest := fun hrest ↦ h (hrest.cons (by
        rw [List.takeWhile_cons_of_neg (by rw [hc]; decide)]
        exact Nat.zero_le _))
      obtain ⟨twin, htokens, hlength, -⟩ := exists_longer_key hrest
      refine ⟨c :: twin, ?_, ?_, rfl⟩
      · rw [tokens_of_not_isDigit hc, tokens_of_not_isDigit hc, htokens]
      · rw [key_of_not_isDigit hc, key_of_not_isDigit hc, List.length_cons, hlength,
          List.length_cons]
    | true =>
      have hzero : '0'.isDigit = true := by decide
      by_cases hrun : ((c :: rest).takeWhile Char.isDigit).length ≤ 20
      · have htail : ¬Short (rest.dropWhile Char.isDigit) := fun htail ↦
          h (short_of_dropWhile hrun (by rwa [List.dropWhile_cons_of_pos hc]))
        obtain ⟨twin, htokens, hlength, hhead⟩ := exists_longer_key htail
        have hfirst : twin.head?.any Char.isDigit = false := by
          rw [hhead, Option.any_eq_false]
          exact fun d hd ↦ by simpa using isDigit_of_mem_head?_dropWhile rest d hd
        have hdigits := isDigit_of_mem_takeWhile rest
        have hnone : twin.takeWhile Char.isDigit = [] ∧ twin.dropWhile Char.isDigit = twin := by
          cases twin with
          | nil => exact ⟨rfl, rfl⟩
          | cons d other =>
            have hd : ¬d.isDigit = true := by simpa using hfirst
            exact ⟨List.takeWhile_cons_of_neg hd, List.dropWhile_cons_of_neg hd⟩
        have htake : (c :: (rest.takeWhile Char.isDigit ++ twin)).takeWhile Char.isDigit =
            (c :: rest).takeWhile Char.isDigit := by
          rw [List.takeWhile_cons_of_pos hc, List.takeWhile_cons_of_pos hc,
            List.takeWhile_append_of_pos hdigits, hnone.1, List.append_nil]
        have hdrop : (rest.takeWhile Char.isDigit ++ twin).dropWhile Char.isDigit = twin := by
          rw [List.dropWhile_append_of_pos hdigits, hnone.2]
        refine ⟨c :: (rest.takeWhile Char.isDigit ++ twin), ?_, ?_, rfl⟩
        · rw [tokens_of_isDigit hc, tokens_of_isDigit hc, hdrop, leadingNumber, leadingNumber, htake,
            htokens]
        · rw [key_of_isDigit hc, key_of_isDigit hc, htake, hdrop, List.length_append,
            List.length_append, hlength, Nat.add_assoc]
      · refine ⟨'0' :: c :: rest, ?_, ?_, hzero.trans hc.symm⟩
        · have hnumber : leadingNumber ('0' :: c :: rest) = leadingNumber (c :: rest) := by
            rw [leadingNumber, List.takeWhile_cons_of_pos hzero, Nat.ofDigitChars_cons]
            rfl
          rw [tokens_of_isDigit hzero, tokens_of_isDigit hc, hnumber, List.dropWhile_cons_of_pos hc]
        · rw [key_of_isDigit hzero, key_of_isDigit hc, List.takeWhile_cons_of_pos hzero,
            List.dropWhile_cons_of_pos hc, List.length_append, List.length_append, filled, filled,
            List.length_leftpad, List.length_leftpad, List.length_cons]
          omega
termination_by name.length
decreasing_by
  · exact Nat.lt_succ_self _
  · exact Nat.lt_succ_of_le (List.length_dropWhile_le ..)

/-- **The stored order.** The bytes of the keys of two names compare as the names do, as long as no
run of digits in either name is longer than the twenty places of the key. A name with a longer run is
stored out of order beside another name. -/
theorem byteOrder_key (a : List Char) :
    (Short a → ∀ b, Short b → byteOrder (utf8 (key a)) (utf8 (key b)) = cmp a b) ∧
    (¬Short a → ∃ b, byteOrder (utf8 (key a)) (utf8 (key b)) ≠ cmp a b) := by
  constructor
  · intro ha b hb
    rw [byteOrder_utf8, cmp_eq_tokenOrder]
    exact textOrder_key_of_short ha hb
  · intro ha
    obtain ⟨twin, htokens, hlength, -⟩ := exists_longer_key ha
    have hequal : cmp a twin = .eq := by
      rw [cmp_eq_tokenOrder, tokenOrder, htokens]
      exact Std.ReflCmp.compare_self
    refine ⟨twin, fun hsame ↦ ?_⟩
    rw [byteOrder_utf8, hequal] at hsame
    have hkeys : key a = key twin := Std.LawfulEqCmp.eq_of_compare hsame
    rw [hkeys] at hlength
    omega

theorem byteOrder_key_pages :
    byteOrder (utf8 (key "P9.png".toList)) (utf8 (key "p10.jpg".toList)) = .lt :=
  ((byteOrder_key _).1 (short_of_length_le (by decide)) _ (short_of_length_le (by decide))).trans
    (by decide)

/-- Ten to the twentieth is stored before twice ten to the nineteenth. -/
theorem key_disagrees :
    byteOrder (utf8 (key "100000000000000000000".toList))
        (utf8 (key "20000000000000000000".toList)) = .lt ∧
      cmp "100000000000000000000".toList "20000000000000000000".toList = .gt := by
  decide +kernel

end ComicStream.Natsort
