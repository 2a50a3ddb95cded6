import ComicStream.Rust.Text
import Mathlib.Algebra.Group.Nat.Defs

/-!
# Natural sorting

Names are compared with the runs of digits in them as numbers and without regard
to ASCII case. The database orders by a key instead: the name in lower case with
every run of digits padded to twenty places.
-/

namespace ComicStream.Natsort

open Rust

/-- A run of digits, padded with zeros on the left; an empty run is no run. -/
def pad (digits : List Char) : List Char :=
  if digits = [] then [] else List.replicate (20 - digits.length) '0' ++ digits

/-- The key of a text that follows the digits given. -/
def keyFrom (digits : List Char) : List Char → List Char
  | [] => pad digits
  | c :: rest =>
    if c.isDigit then keyFrom (digits ++ [c]) rest
    else pad digits ++ toAsciiLowercase c :: keyFrom [] rest

def key (text : List Char) : List Char := keyFrom [] text

example : key "Vol 7b".toList = "vol 00000000000000000007b".toList := by decide

/-- The largest `u128`. -/
def maxNumber : ℕ := 2 ^ 128 - 1

/-- `take_number`: the value of the digits a text starts with, after digits worth `n`, and the
rest of the text. Both operations saturate. -/
def takeNumberFrom (n : ℕ) : List Char → ℕ × List Char
  | [] => (n, [])
  | c :: rest =>
    match toDigit 10 c with
    | some d => takeNumberFrom (min (min (n * 10) maxNumber + d) maxNumber) rest
    | none => (n, c :: rest)

def takeNumber (text : List Char) : ℕ × List Char := takeNumberFrom 0 text

/-- The rounds of `cmp`. Each takes at least one character off both texts. -/
def cmpRounds : ℕ → List Char → List Char → Ordering
  | _, [], [] => .eq
  | _, [], _ :: _ => .lt
  | _, _ :: _, [] => .gt
  | 0, _ :: _, _ :: _ => .eq
  | rounds + 1, a :: as, b :: bs =>
    if a.isDigit && b.isDigit then
      match compare (takeNumber (a :: as)).1 (takeNumber (b :: bs)).1 with
      | .eq => cmpRounds rounds (takeNumber (a :: as)).2 (takeNumber (b :: bs)).2
      | other => other
    else
      match compare (toAsciiLowercase a).toNat (toAsciiLowercase b).toNat with
      | .eq => cmpRounds rounds as bs
      | other => other

/-- `natsort::cmp`. -/
def cmp (a b : List Char) : Ordering := cmpRounds a.length a b

example : cmp "Page 2.jpg".toList "page 10.jpg".toList = .lt := by decide

end ComicStream.Natsort
