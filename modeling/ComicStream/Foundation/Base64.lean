import Mathlib.Data.List.Basic

/-!
# Base64

The standard alphabet with padding. Decoding accepts exactly what encoding
produces: the padding has to be there, and the bits that it stands for are zero.
-/

namespace ComicStream.Base64

/-- The digits, by their value. -/
def alphabet : List Char := "ABCDEFGHIJKLMNOPQRSTUVWXYZabcdefghijklmnopqrstuvwxyz0123456789+/".toList

def digit (n : ℕ) : Char := alphabet.getD n '='

/-- The value of a digit. -/
def value (c : Char) : Option ℕ := alphabet.idxOf? c

/-- Three bytes are four digits; a last group of fewer bytes is padded. -/
def encode : List UInt8 → List Char
  | [] => []
  | [a] => [digit (a.toNat / 4), digit (a.toNat % 4 * 16), '=', '=']
  | [a, b] => [digit (a.toNat / 4), digit (a.toNat % 4 * 16 + b.toNat / 16),
      digit (b.toNat % 16 * 4), '=']
  | a :: b :: c :: rest =>
    digit (a.toNat / 4) :: digit (a.toNat % 4 * 16 + b.toNat / 16) ::
      digit (b.toNat % 16 * 4 + c.toNat / 64) :: digit (c.toNat % 64) :: encode rest

/-- The bytes of a group of four digits. -/
def decodeGroup (w x y z : ℕ) : List UInt8 :=
  [UInt8.ofNat (w * 4 + x / 16), UInt8.ofNat (x % 16 * 16 + y / 4), UInt8.ofNat (y % 4 * 64 + z)]

/-- The bytes of a last group with one or two padding characters. -/
def decodeLast (w x y z : Char) : Option (List UInt8) := do
  let w ← value w
  let x ← value x
  if z = '=' then
    if y = '=' then
      if x % 16 = 0 then some ((decodeGroup w x 0 0).take 1) else none
    else
      let y ← value y
      if y % 4 = 0 then some ((decodeGroup w x y 0).take 2) else none
  else
    let y ← value y
    let z ← value z
    some (decodeGroup w x y z)

def decode : List Char → Option (List UInt8)
  | [] => some []
  | [w, x, y, z] => decodeLast w x y z
  | w :: x :: y :: z :: rest => do
    let w ← value w
    let x ← value x
    let y ← value y
    let z ← value z
    (decode rest).map (decodeGroup w x y z ++ ·)
  | _ => none

example : encode [109, 101, 58] = "bWU6".toList ∧ encode [109, 101] = "bWU=".toList ∧
    encode [109] = "bQ==".toList := by decide

theorem value_digit {n : ℕ} (h : n < 64) : value (digit n) = some n := by
  have hall : ∀ n : Fin 64, value (digit n) = some n.val := by decide +kernel
  exact hall ⟨n, h⟩

theorem digit_ne_pad {n : ℕ} (h : n < 64) : digit n ≠ '=' := by
  have hall : ∀ n : Fin 64, digit n ≠ '=' := by decide +kernel
  exact hall ⟨n, h⟩

theorem digit_of_value {c : Char} {n : ℕ} (h : value c = some n) : n < 64 ∧ digit n = c := by
  obtain ⟨hlt, hget, -⟩ := List.idxOf?_eq_some_iff.mp h
  have hlength : alphabet.length = 64 := by decide +kernel
  refine ⟨hlength ▸ hlt, ?_⟩
  rw [digit, List.getD_eq_getElem?_getD, List.getElem?_eq_getElem hlt, Option.getD_some, hget]

theorem mem_encode {bytes : List UInt8} {c : Char} (h : c ∈ encode bytes) :
    c ∈ '=' :: alphabet := by
  have hdigit (n : ℕ) : digit n ∈ '=' :: alphabet := by
    rw [digit, List.getD_eq_getElem?_getD]
    cases hget : alphabet[n]? with
    | none => exact List.mem_cons_self
    | some d => exact List.mem_cons_of_mem _ (List.mem_of_getElem? hget)
  fun_induction encode bytes with
  | case1 => simp at h
  | case2 a =>
    simp only [List.mem_cons, List.not_mem_nil, or_false] at h
    rcases h with rfl | rfl | rfl | rfl
    all_goals first | exact hdigit _ | exact List.mem_cons_self
  | case3 a b =>
    simp only [List.mem_cons, List.not_mem_nil, or_false] at h
    rcases h with rfl | rfl | rfl | rfl
    all_goals first | exact hdigit _ | exact List.mem_cons_self
  | case4 a b c rest ih =>
    simp only [List.mem_cons] at h
    rcases h with rfl | rfl | rfl | rfl | h
    · exact hdigit _
    · exact hdigit _
    · exact hdigit _
    · exact hdigit _
    · exact ih h

theorem decodeGroup_digits (a b c : UInt8) :
    decodeGroup (a.toNat / 4) (a.toNat % 4 * 16 + b.toNat / 16)
      (b.toNat % 16 * 4 + c.toNat / 64) (c.toNat % 64) = [a, b, c] := by
  have ha := a.toNat_lt
  have hb := b.toNat_lt
  have hc := c.toNat_lt
  have h₁ : a.toNat / 4 * 4 + (a.toNat % 4 * 16 + b.toNat / 16) / 16 = a.toNat := by omega
  have h₂ : (a.toNat % 4 * 16 + b.toNat / 16) % 16 * 16 +
      (b.toNat % 16 * 4 + c.toNat / 64) / 4 = b.toNat := by omega
  have h₃ : (b.toNat % 16 * 4 + c.toNat / 64) % 4 * 64 + c.toNat % 64 = c.toNat := by omega
  rw [decodeGroup, h₁, h₂, h₃, UInt8.ofNat_toNat, UInt8.ofNat_toNat, UInt8.ofNat_toNat]

theorem digits_decodeGroup {w x y z : ℕ} (hw : w < 64) (hx : x < 64) (hy : y < 64) (hz : z < 64) :
    ∃ a b c : UInt8, decodeGroup w x y z = [a, b, c] ∧ a.toNat / 4 = w ∧
      a.toNat % 4 * 16 + b.toNat / 16 = x ∧ b.toNat % 16 * 4 + c.toNat / 64 = y ∧
      c.toNat % 64 = z := by
  refine ⟨_, _, _, rfl, ?_⟩
  simp only [UInt8.toNat_ofNat']
  omega

theorem decodeLast_digits {w x y z : ℕ} (hw : w < 64) (hx : x < 64) (hy : y < 64) (hz : z < 64) :
    decodeLast (digit w) (digit x) (digit y) (digit z) = some (decodeGroup w x y z) := by
  simp [decodeLast, value_digit hw, value_digit hx, value_digit hy, value_digit hz, digit_ne_pad hz]

theorem decode_encode (bytes : List UInt8) : decode (encode bytes) = some bytes := by
  fun_induction encode bytes with
  | case1 => rfl
  | case2 a =>
    have ha := a.toNat_lt
    have hgroup := decodeGroup_digits a 0 0
    simp only [UInt8.toNat_zero, Nat.zero_div, Nat.add_zero, Nat.zero_mod, Nat.zero_mul] at hgroup
    rw [decode, decodeLast, value_digit (by omega), value_digit (by omega)]
    simp [hgroup, Nat.mul_mod_left]
  | case3 a b =>
    have ha := a.toNat_lt
    have hb := b.toNat_lt
    have hgroup := decodeGroup_digits a b 0
    simp only [UInt8.toNat_zero, Nat.zero_div, Nat.add_zero, Nat.zero_mod] at hgroup
    rw [decode, decodeLast, value_digit (by omega), value_digit (by omega)]
    simp [digit_ne_pad (show b.toNat % 16 * 4 < 64 by omega),
      value_digit (show b.toNat % 16 * 4 < 64 by omega), hgroup, Nat.mul_mod_left]
  | case4 a b c rest ih =>
    have ha := a.toNat_lt
    have hb := b.toNat_lt
    have hc := c.toNat_lt
    cases hrest : encode rest with
    | nil =>
      rw [hrest] at ih
      obtain rfl : rest = [] := (Option.some.inj ih).symm
      rw [decode, decodeLast_digits (by omega) (by omega) (by omega) (by omega), decodeGroup_digits]
    | cons d others =>
      rw [decode, value_digit (by omega), value_digit (by omega), value_digit (by omega),
        value_digit (by omega), ← hrest, ih]
      · simp [decodeGroup_digits]
      · simp

theorem encode_of_decodeLast {w x y z : Char} {bytes : List UInt8}
    (h : decodeLast w x y z = some bytes) : [w, x, y, z] = encode bytes := by
  rw [decodeLast] at h
  obtain ⟨w', hw, hnext⟩ := Option.bind_eq_some_iff.mp h
  obtain ⟨x', hx, hlast⟩ := Option.bind_eq_some_iff.mp hnext
  obtain ⟨hwlt, rfl⟩ := digit_of_value hw
  obtain ⟨hxlt, rfl⟩ := digit_of_value hx
  have hzero : 0 < 64 := by decide
  by_cases hz : z = '='
  · rw [if_pos hz] at hlast
    by_cases hy : y = '='
    · simp only [if_pos hy, Option.ite_none_right_eq_some, Option.some.injEq] at hlast
      obtain ⟨hbits, rfl⟩ := hlast
      obtain ⟨a, b, c, hgroup, h₁, h₂, -, -⟩ := digits_decodeGroup hwlt hxlt hzero hzero
      have hlow : a.toNat % 4 * 16 = x' := by
        have hb := b.toNat_lt
        omega
      rw [hgroup, List.take_succ_cons, List.take_zero, encode, h₁, hlow, hy, hz]
    · rw [if_neg hy] at hlast
      obtain ⟨y', hvalue, hpair⟩ := Option.bind_eq_some_iff.mp hlast
      obtain ⟨hylt, rfl⟩ := digit_of_value hvalue
      rw [Option.ite_none_right_eq_some, Option.some.injEq] at hpair
      obtain ⟨hbits, rfl⟩ := hpair
      obtain ⟨a, b, c, hgroup, h₁, h₂, h₃, -⟩ := digits_decodeGroup hwlt hxlt hylt hzero
      have hlow : b.toNat % 16 * 4 = y' := by
        have hc := c.toNat_lt
        omega
      rw [hgroup, List.take_succ_cons, List.take_succ_cons, List.take_zero, encode, h₁, h₂, hlow, hz]
  · rw [if_neg hz] at hlast
    obtain ⟨y', hy, hgroup⟩ := Option.bind_eq_some_iff.mp hlast
    obtain ⟨z', hz, hbytes⟩ := Option.bind_eq_some_iff.mp hgroup
    obtain ⟨hylt, rfl⟩ := digit_of_value hy
    obtain ⟨hzlt, rfl⟩ := digit_of_value hz
    obtain ⟨a, b, c, hgroup, h₁, h₂, h₃, h₄⟩ := digits_decodeGroup hwlt hxlt hylt hzlt
    rw [← Option.some.inj hbytes, hgroup, encode, encode, h₁, h₂, h₃, h₄]

theorem encode_of_decode {text : List Char} {bytes : List UInt8} (h : decode text = some bytes) :
    text = encode bytes := by
  fun_induction decode text generalizing bytes with
  | case1 =>
    obtain rfl := Option.some.inj h
    rfl
  | case2 w x y z => exact encode_of_decodeLast h
  | case3 w x y z rest hrest ih =>
    obtain ⟨w', hw, hafter⟩ := Option.bind_eq_some_iff.mp h
    obtain ⟨x', hx, hafter⟩ := Option.bind_eq_some_iff.mp hafter
    obtain ⟨y', hy, hafter⟩ := Option.bind_eq_some_iff.mp hafter
    obtain ⟨z', hz, hafter⟩ := Option.bind_eq_some_iff.mp hafter
    obtain ⟨others, hothers, rfl⟩ := Option.map_eq_some_iff.mp hafter
    obtain ⟨hwlt, rfl⟩ := digit_of_value hw
    obtain ⟨hxlt, rfl⟩ := digit_of_value hx
    obtain ⟨hylt, rfl⟩ := digit_of_value hy
    obtain ⟨hzlt, rfl⟩ := digit_of_value hz
    obtain ⟨a, b, c, hgroup, h₁, h₂, h₃, h₄⟩ := digits_decodeGroup hwlt hxlt hylt hzlt
    rw [hgroup, ih hothers]
    simp only [List.cons_append, List.nil_append, encode, h₁, h₂, h₃, h₄]
  | case4 => simp at h

/-- Decoding is the partial inverse of encoding. -/
theorem decode_eq_some {text : List Char} {bytes : List UInt8} :
    decode text = some bytes ↔ text = encode bytes :=
  ⟨encode_of_decode, fun h ↦ h ▸ decode_encode bytes⟩

end ComicStream.Base64
