import ComicStream.Server.Range

/-!
# Malformed range headers

A header that is not a single range is meant to be ignored. It is, unless the
bound that is read first is a number: then the length of the file is looked at
before the rest of the header, and a file that ends too early answers 416.
-/

namespace ComicStream.Server

open Rust

/-- A header that asks for a single range, with decimal bounds of any size, at least one of them. -/
inductive IsSingleRange : List Char → Prop
  | written {unit start stop before afterUnit afterStart beforeStop after : List Char}
      (hunit : unit.map toAsciiLowercase = "bytes=".toList)
      (hdigit : ∀ c ∈ start ++ stop, c.isDigit = true) (hne : start ++ stop ≠ [])
      (hblank : ∀ c ∈ before ++ afterUnit ++ afterStart ++ beforeStop ++ after,
        isWhitespace c = true) :
      IsSingleRange
        (before ++ unit ++ (afterUnit ++ start ++ afterStart) ++
          '-' :: (beforeStop ++ stop ++ after))

def IsMalformed (raw : List Char) : Prop := ¬IsSingleRange raw

/-- The bound that is read first: the second one when nothing stands before the dash. -/
def leadingBound (parts : List Char × List Char) : List Char :=
  if parts.1 = [] then parts.2 else parts.1

/-- The header has a bound that is read first and is a number. -/
def LeadsWithNumber (raw : List Char) : Prop :=
  ∃ parts, bounds raw = some parts ∧ (parseU64 (leadingBound parts)).isSome

/-- A number before the dash lies in the file, and what stands after the dash is not one. -/
def StopsInside (raw : List Char) (len : ℕ) : Prop :=
  ∃ start stop first, bounds raw = some (start, stop) ∧ start ≠ [] ∧ parseU64 start = some first ∧
    first < len ∧ stop ≠ [] ∧ parseU64 stop = none

variable {raw start stop : List Char} {len : ℕ}

theorem IsSingleRange.bounds (h : IsSingleRange raw) :
    ∃ start stop, bounds raw = some (start, stop) ∧ ∀ c ∈ start ++ stop, c.isDigit = true := by
  obtain ⟨hunit, hdigit, -, hblank⟩ := h
  exact ⟨_, _, bounds_written hunit hdigit hblank, hdigit⟩

theorem subU64_isSome_of_lt {first : ℕ} (h : first < len) : ∃ last, subU64 len 1 = some last :=
  ⟨len - 1, subU64_one (Nat.zero_lt_of_lt h)⟩

theorem closeRange_ne_full (first last : ℕ) : closeRange first last ≠ .full := by
  unfold closeRange
  split <;> simp

theorem resolveBounds_nil_eq_full :
    resolveBounds [] stop len = some .full ↔ parseU64 stop = none := by
  rw [resolveBounds, if_pos rfl]
  cases parseU64 stop with
  | none => simp
  | some n =>
    dsimp only
    split
    · simp
    · next hpos =>
      rw [subU64_one (by omega)]
      simp

/-- The length of the file is asked for as soon as the first bound is a number. -/
theorem resolveBounds_eq_full (hstart : start ≠ []) :
    resolveBounds start stop len = some .full ↔
      ∀ first, parseU64 start = some first → first < len ∧ stop ≠ [] ∧ parseU64 stop = none := by
  rw [resolveBounds, if_neg hstart]
  cases parseU64 start with
  | none => simp
  | some first =>
    simp only [Option.some.injEq, forall_eq']
    split
    · next hle => simp [Nat.not_lt_of_le hle]
    · next hlt =>
      obtain ⟨last, hlast⟩ := subU64_isSome_of_lt (Nat.lt_of_not_le hlt)
      rw [hlast]
      split
      · next hstop => simp [hstop, closeRange_ne_full]
      · next hstop =>
        cases parseU64 stop with
        | none => simp [hstop, Nat.lt_of_not_le hlt]
        | some stop => simp [closeRange_ne_full]

/-- When a header is ignored for a file of the length given. -/
theorem parseRange_eq_full_iff :
    parseRange (some raw) len = some .full ↔ (LeadsWithNumber raw → StopsInside raw len) := by
  rw [parseRange_eq]
  cases hbounds : bounds raw with
  | none => simp [LeadsWithNumber, hbounds]
  | some parts =>
    obtain ⟨start, stop⟩ := parts
    rw [Option.elim_some]
    by_cases hstart : start = []
    · subst hstart
      rw [resolveBounds_nil_eq_full]
      simp [LeadsWithNumber, StopsInside, leadingBound, hbounds]
    · rw [resolveBounds_eq_full hstart]
      cases hfirst : parseU64 start with
      | none => simp [LeadsWithNumber, leadingBound, hbounds, hstart, hfirst]
      | some first => simp [LeadsWithNumber, StopsInside, leadingBound, hbounds, hstart, hfirst]

/-- **Malformed ranges.** For a file of a given length, a malformed header is ignored exactly when
no number leads it, or when that number lies in the file and something else than a number follows
the dash. It is ignored for files of every length exactly when no number leads it. -/
theorem malformed_ignored_iff (raw : List Char) : IsMalformed raw →
    (∀ len, parseRange (some raw) len = some .full ↔
      (LeadsWithNumber raw → StopsInside raw len)) ∧
    ((∀ len, parseRange (some raw) len = some .full) ↔ ¬LeadsWithNumber raw) := by
  intro _
  refine ⟨fun len ↦ parseRange_eq_full_iff, ?_⟩
  constructor
  · intro hall hleads
    obtain ⟨_, _, first, -, -, -, hlt, -⟩ := parseRange_eq_full_iff.mp (hall 0) hleads
    exact Nat.not_lt_zero first hlt
  · intro hleads len
    exact parseRange_eq_full_iff.mpr fun hnumber ↦ absurd hnumber hleads

theorem isMalformed_letters : IsMalformed "bytes=10-xyz".toList := by
  intro h
  obtain ⟨start, stop, hbounds, hdigit⟩ := h.bounds
  have hparts : bounds "bytes=10-xyz".toList = some ("10".toList, "xyz".toList) := by decide
  rw [hparts, Option.some.injEq, Prod.mk.injEq] at hbounds
  obtain ⟨rfl, rfl⟩ := hbounds
  exact absurd (hdigit 'x' (by simp)) (by decide)

/-- The second bound is no number, and a file of ten bytes is said to be too short for it. -/
theorem malformed_unsatisfiable :
    IsMalformed "bytes=10-xyz".toList ∧
      parseRange (some "bytes=10-xyz".toList) 1000 = some .full ∧
      parseRange (some "bytes=10-xyz".toList) 10 = some .unsatisfiable :=
  ⟨isMalformed_letters, by decide, by decide⟩

theorem malformed_ignored_letters :
    parseRange (some "bytes=10-xyz".toList) 1000 = some .full :=
  ((malformed_ignored_iff "bytes=10-xyz".toList isMalformed_letters).1 1000).mpr fun _ ↦
    ⟨"10".toList, "xyz".toList, 10, by decide, by decide, by decide, by decide, by decide,
      by decide⟩

end ComicStream.Server
