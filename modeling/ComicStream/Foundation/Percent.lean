import Mathlib.Data.List.Forall2
import Mathlib.Data.List.TakeWhile

/-!
# Percent encoding

An escape is a percent sign with two hexadecimal digits, and a percent sign without
them stands for itself. Whoever writes a text may choose which bytes to escape and
in what case to write the digits: it is read back as long as a byte that is not
escaped is read as it is meant. The form encoding of queries joins pairs of such
texts, and in it a plus sign stands for a blank.
-/

namespace ComicStream.Percent

def percent : UInt8 := 37

/-- The value of a hexadecimal digit, in either case. -/
def hexValue (b : UInt8) : Option ℕ :=
  let n := b.toNat
  if 48 ≤ n ∧ n ≤ 57 then some (n - 48)
  else if 65 ≤ n ∧ n ≤ 70 then some (n - 55)
  else if 97 ≤ n ∧ n ≤ 102 then some (n - 87)
  else none

/-- The byte that three bytes stand for, if they are an escape. -/
def escaped (first high low : UInt8) : Option UInt8 :=
  if first = percent then
    (hexValue high).bind fun h ↦ (hexValue low).map fun l ↦ UInt8.ofNat (h * 16 + l)
  else none

def decode : List UInt8 → List UInt8
  | first :: high :: low :: rest =>
    match escaped first high low with
    | some b => b :: decode rest
    | none => first :: decode (high :: low :: rest)
  | short => short

/-- The bytes are written as the text: each as a byte that `writes` allows for it, or escaped. -/
inductive Encodes (writes : UInt8 → UInt8 → Prop) : List UInt8 → List UInt8 → Prop
  | nil : Encodes writes [] []
  | plain {b written : UInt8} {bytes text : List UInt8} (hwrites : writes b written)
      (h : Encodes writes bytes text) : Encodes writes (b :: bytes) (written :: text)
  | escape {b high low : UInt8} {bytes text : List UInt8} (hhigh : hexValue high = some (b.toNat / 16))
      (hlow : hexValue low = some (b.toNat % 16)) (h : Encodes writes bytes text) :
      Encodes writes (b :: bytes) (percent :: high :: low :: text)

variable {writes : UInt8 → UInt8 → Prop} {bytes text : List UInt8}

theorem escaped_of_ne {first : UInt8} (h : first ≠ percent) (high low : UInt8) :
    escaped first high low = none := if_neg h

theorem decode_cons_of_ne {first : UInt8} (h : first ≠ percent) (rest : List UInt8) :
    decode (first :: rest) = first :: decode rest := by
  match rest with
  | [] => rfl
  | [b] => rfl
  | high :: low :: rest => rw [decode, escaped_of_ne h]

theorem decode_of_notMem {text : List UInt8} (h : percent ∉ text) : decode text = text := by
  induction text with
  | nil => rfl
  | cons b text ih =>
    rw [List.mem_cons, not_or] at h
    rw [decode_cons_of_ne (Ne.symm h.1), ih h.2]

theorem decode_escape {b high low : UInt8} (hhigh : hexValue high = some (b.toNat / 16))
    (hlow : hexValue low = some (b.toNat % 16)) (rest : List UInt8) :
    decode (percent :: high :: low :: rest) = b :: decode rest := by
  have hbyte : escaped percent high low = some b := by
    rw [escaped, if_pos rfl, hhigh, hlow, Option.bind_some, Option.map_some, Nat.div_add_mod',
      UInt8.ofNat_toNat]
  rw [decode, hbyte]

theorem Encodes.append {others more : List UInt8} (h : Encodes writes bytes text)
    (hmore : Encodes writes others more) : Encodes writes (bytes ++ others) (text ++ more) := by
  induction h with
  | nil => exact hmore
  | plain hwritten h ih => exact .plain hwritten ih
  | escape hhigh hlow h ih => exact .escape hhigh hlow ih

def ampersand : UInt8 := 38

def equals : UInt8 := 61

def plus : UInt8 := 43

def blank : UInt8 := 32

/-- A plus sign stands for a blank. -/
def unplus (b : UInt8) : UInt8 := if b = plus then blank else b

/-- A name or a value of a form. -/
def decodeForm (text : List UInt8) : List UInt8 := decode (text.map unplus)

/-- What stands before and after the first separator; nothing after it where there is none. -/
def cut (separator : UInt8) (text : List UInt8) : List UInt8 × List UInt8 :=
  (text.takeWhile (· ≠ separator), (text.dropWhile (· ≠ separator)).tail)

/-- The pairs of a form; an empty one does not count. -/
def formPairs (text : List UInt8) : List (List UInt8 × List UInt8) :=
  ((text.splitOn ampersand).filter (· ≠ [])).map fun pair ↦
    (decodeForm (cut equals pair).1, decodeForm (cut equals pair).2)

/-- Letters, digits, and the marks that may stand in the query of an address and that mean nothing
in a form. -/
def isQueryByte (b : UInt8) : Bool :=
  let n := b.toNat
  (48 ≤ n && n ≤ 59) || (63 ≤ n && n ≤ 90) || (97 ≤ n && n ≤ 122) ||
    n ∈ [33, 36, 39, 40, 41, 42, 44, 45, 46, 47, 95, 126]

/-- A form leaves some bytes as they are, and writes a blank as a plus sign. -/
def WritesForm (b written : UInt8) : Prop :=
  (b = blank ∧ written = plus) ∨ (written = b ∧ isQueryByte b = true)

theorem cut_of_forall {separator : UInt8} {text : List UInt8} (h : ∀ b ∈ text, b ≠ separator) :
    cut separator text = (text, []) := by
  have hall : ∀ b ∈ text, decide (b ≠ separator) = true := fun b hb ↦ decide_eq_true (h b hb)
  rw [cut, List.takeWhile_eq_self_iff.mpr hall, List.dropWhile_eq_nil_iff.mpr hall, List.tail_nil]

/-- A pair as it stands in a form. -/
inductive EncodesPair : List UInt8 × List UInt8 → List UInt8 → Prop
  | joined {name value nameText valueText : List UInt8} (hname : Encodes WritesForm name nameText)
      (hvalue : Encodes WritesForm value valueText) :
      EncodesPair (name, value) (nameText ++ equals :: valueText)

section Pair

variable {pair : List UInt8 × List UInt8} {text : List UInt8}

theorem EncodesPair.ne_nil (h : EncodesPair pair text) : text ≠ [] := by
  cases h with
  | joined hname hvalue => simp

end Pair

end ComicStream.Percent
