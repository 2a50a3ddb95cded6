import ComicStream.Rust.Number
import ComicStream.Server.Routes
import Mathlib.Logic.Function.Basic
import Mathlib.Order.Interval.Set.Basic

/-!
# Range requests

The answer to a download that may ask for a part of the file. Bounds and lengths
are `u64`; what would leave their range gives no answer at all, and this is shown
never to happen. A range denotes the set of the positions it asks for, whatever
way it is written in the header.
-/

namespace ComicStream.Server

open Rust Archive Catalog

/-- `RangeSpec`. -/
inductive RangeSpec where
  | full
  | partialRange (start endInclusive : ℕ)
  | unsatisfiable
  deriving DecidableEq, Repr

inductive HeaderName where
  | contentType
  | contentLength
  | contentRange
  | acceptRanges
  | cacheControl
  | vary
  | xContentTypeOptions
  deriving DecidableEq, Repr

abbrev HeaderMap := HeaderName → Option (List Char)

namespace HeaderMap

variable (headers : HeaderMap) (name : HeaderName) (value : List Char)

def empty : HeaderMap := fun _ ↦ none

/-- `HeaderMap::insert`. -/
def insert : HeaderMap := Function.update headers name (some value)

/-- `HeaderMap::remove`. -/
def remove : HeaderMap := Function.update headers name none

@[simp]
theorem insert_self : headers.insert name value name = some value := Function.update_self ..

@[simp]
theorem insert_of_ne {other : HeaderName} (h : other ≠ name) :
    headers.insert name value other = headers other := Function.update_of_ne h ..

end HeaderMap

/-- What may stand in the value of a header. The bytes of a character outside ASCII may. -/
def isHeaderChar (c : Char) : Bool := (32 ≤ c.toNat && c.toNat != 127) || c == '\t'

/-- `HeaderValue::from_str`. -/
def headerValue (text : List Char) : Option (List Char) :=
  if text.all isHeaderChar then some text else none

structure FileResponse where
  status : ℕ
  headers : HeaderMap
  body : List UInt8

/-- The range from `start` on, unless it ends before. -/
def closeRange (start endInclusive : ℕ) : RangeSpec :=
  if endInclusive < start then .unsatisfiable else .partialRange start endInclusive

/-- `parse_range` of what stands before and after the dash. -/
def resolveBounds (start stop : List Char) (len : ℕ) : Option RangeSpec :=
  if start = [] then
    match parseU64 stop with
    | none => some .full
    | some n =>
      if n = 0 ∨ len = 0 then some .unsatisfiable
      -- `saturating_sub` is the subtraction of natural numbers
      else (subU64 len 1).map (.partialRange (len - n))
  else
    match parseU64 start with
    | none => some .full
    | some start =>
      if len ≤ start then some .unsatisfiable
      else if stop = [] then (subU64 len 1).map (closeRange start)
      else
        match parseU64 stop with
        | none => some .full
        | some stop => (subU64 len 1).map fun last ↦ closeRange start (min stop last)

/-- `parse_range` after the unit. -/
def parseBounds (spec : List Char) (len : ℕ) : Option RangeSpec :=
  if ',' ∈ spec then some .full
  else
    match splitOnce '-' spec with
    | some (start, stop) => resolveBounds (trim start) (trim stop) len
    | none => some .full

/-- `parse_range`, unless a number leaves its range. -/
def parseRange (raw : Option (List Char)) (len : ℕ) : Option RangeSpec :=
  match raw.map trim with
  | none => some .full
  | some raw =>
    match splitAtChecked 6 raw with
    | some (unit, rest) =>
      if unit.map toAsciiLowercase = "bytes=".toList then parseBounds (trim rest) len
      else some .full
    | none => some .full

/-- What stands before and after the dash, in what follows the unit of a single range. -/
def splitBounds (spec : List Char) : Option (List Char × List Char) :=
  if ',' ∈ spec then none
  else (splitOnce '-' spec).map fun parts ↦ (trim parts.1, trim parts.2)

/-- The two bounds of a header that asks for bytes, whatever they are. -/
def bounds (raw : List Char) : Option (List Char × List Char) :=
  match splitAtChecked 6 (trim raw) with
  | some (unit, rest) =>
    if unit.map toAsciiLowercase = "bytes=".toList then splitBounds (trim rest) else none
  | none => none

theorem parseBounds_eq (spec : List Char) (len : ℕ) :
    parseBounds spec len = (splitBounds spec).elim (some .full) fun parts ↦
      resolveBounds parts.1 parts.2 len := by
  unfold parseBounds splitBounds
  split
  · rfl
  · cases splitOnce '-' spec <;> rfl

theorem parseRange_eq (raw : List Char) (len : ℕ) :
    parseRange (some raw) len = (bounds raw).elim (some .full) fun parts ↦
      resolveBounds parts.1 parts.2 len := by
  unfold parseRange bounds
  rw [Option.map_some]
  dsimp only
  split
  · split
    · exact parseBounds_eq _ len
    · rfl
  · rfl

/-- `apply_immutable_response_headers`. -/
def applyImmutableResponseHeaders (headers : HeaderMap) : HeaderMap :=
  ((headers.insert .cacheControl "private, max-age=86400".toList).insert
    .vary "Authorization".toList).insert .xContentTypeOptions "nosniff".toList

/-- `content_type_value`. -/
def contentTypeValue (contentType : List Char) : List Char :=
  (headerValue contentType).getD "application/octet-stream".toList

/-- `format!("bytes {}-{}/{}", start, end_inclusive, len)`. -/
def contentRange (start endInclusive len : ℕ) : List Char :=
  "bytes ".toList ++ decimal start ++ '-' :: decimal endInclusive ++ '/' :: decimal len

/-- `format!("bytes */{}", len)`. -/
def unsatisfiedRange (len : ℕ) : List Char := "bytes */".toList ++ decimal len

/-- A header with the value given, if it is one. -/
def insertIfValid (headers : HeaderMap) (name : HeaderName) (text : List Char) : HeaderMap :=
  (headerValue text).elim headers (headers.insert name)

/-- The answer for a file of this content. -/
def rangeResponse (content : List UInt8) (headers : HeaderMap) :
    RangeSpec → Option FileResponse
  | .full => some ⟨200, headers.insert .contentLength (decimal content.length), content⟩
  | .partialRange start endInclusive =>
    ((subU64 endInclusive start).bind (addU64 · 1)).map fun count ↦
      { status := 206
        headers := (insertIfValid headers .contentRange
          (contentRange start endInclusive content.length)).insert .contentLength (decimal count)
        body := (content.drop start).take count }
  | .unsatisfiable => some
      { status := 416
        headers := insertIfValid (headers.remove .contentType) .contentRange
          (unsatisfiedRange content.length)
        body := [] }

/-- `serve_file_with_range`, of the file that is opened if it can be. Nothing is answered when a
number leaves its range. -/
def serveFileWithRange (file : Option (List UInt8)) (contentType : List Char)
    (range : Option (List Char)) : Option (Except Response FileResponse) :=
  match file with
  | none => some (.error .internal)
  | some content =>
    let headers := applyImmutableResponseHeaders
      ((HeaderMap.empty.insert .contentType (contentTypeValue contentType)).insert
        .acceptRanges "bytes".toList)
    ((parseRange range content.length).bind (rangeResponse content headers)).map .ok

/-- `book_file`, with the `Range` header of the request. -/
def bookFileWithRange (config : Config) (state : State) (hash : List Char)
    (range : Option (List Char)) : Option (Except Response FileResponse) :=
  match lookupBook state.db hash with
  | none => some (.error .notFound)
  | some book =>
    match state.fs.under config.libraryRoot book.path.osPath with
    | none => some (.error .notFound)
    | some safe =>
      serveFileWithRange ((state.fs.read safe).map (·.value)) (bookMime book.format) range

/-- What is sent lies in the file. -/
def RangeSpec.IsWithin (len : ℕ) : RangeSpec → Prop
  | .partialRange start endInclusive => start ≤ endInclusive ∧ endInclusive < len
  | _ => True

variable {len : ℕ}

theorem subU64_one (h : 0 < len) : subU64 len 1 = some (len - 1) := if_pos h

theorem closeRange_isWithin {start endInclusive : ℕ} (h : endInclusive < len) :
    (closeRange start endInclusive).IsWithin len := by
  unfold closeRange
  split
  · trivial
  · next hle => exact ⟨Nat.le_of_not_lt hle, h⟩

/-- Every subtraction of `parse_range` is guarded. -/
theorem resolveBounds_isWithin (start stop : List Char) (len : ℕ) :
    ∃ spec, resolveBounds start stop len = some spec ∧ spec.IsWithin len := by
  unfold resolveBounds
  split
  · cases parseU64 stop with
    | none => exact ⟨.full, rfl, trivial⟩
    | some n =>
      dsimp only
      split
      · exact ⟨.unsatisfiable, rfl, trivial⟩
      · next hpos =>
        rw [subU64_one (by omega)]
        exact ⟨_, rfl, by omega, by omega⟩
  · cases parseU64 start with
    | none => exact ⟨.full, rfl, trivial⟩
    | some start =>
      dsimp only
      split
      · exact ⟨.unsatisfiable, rfl, trivial⟩
      · next hlt =>
        rw [subU64_one (by omega)]
        split
        · exact ⟨_, rfl, closeRange_isWithin (by omega)⟩
        · cases parseU64 stop with
          | none => exact ⟨.full, rfl, trivial⟩
          | some stop => exact ⟨_, rfl, closeRange_isWithin (by omega)⟩

theorem parseRange_isWithin (raw : Option (List Char)) (len : ℕ) :
    ∃ spec, parseRange raw len = some spec ∧ spec.IsWithin len := by
  cases raw with
  | none => exact ⟨.full, rfl, trivial⟩
  | some raw =>
    rw [parseRange_eq]
    cases bounds raw with
    | none => exact ⟨.full, rfl, trivial⟩
    | some parts => exact resolveBounds_isWithin parts.1 parts.2 len

variable {content : List UInt8} {headers : HeaderMap}

/-- The part of a file from `start` up to and with `endInclusive`. -/
def slice (content : List UInt8) (start endInclusive : ℕ) : List UInt8 :=
  (content.drop start).take (endInclusive - start + 1)

theorem isHeaderChar_decimal (n : ℕ) : (decimal n).all isHeaderChar = true := by
  rw [List.all_eq_true]
  intro c hc
  have hrange := isDigit_iff.mp ((isDecimal_decimal n).isDigit c hc)
  have hne : c.toNat ≠ 127 := by omega
  simp [isHeaderChar, hne, Nat.le_trans (by decide : 32 ≤ 48) hrange.1]

theorem headerValue_contentRange (start endInclusive len : ℕ) :
    headerValue (contentRange start endInclusive len) =
      some (contentRange start endInclusive len) := by
  have hall : (contentRange start endInclusive len).all isHeaderChar = true := by
    unfold contentRange
    simp only [List.all_append, List.all_cons, Bool.and_eq_true]
    have hunit : "bytes ".toList.all isHeaderChar = true := by simp [isHeaderChar]
    exact ⟨⟨⟨hunit, isHeaderChar_decimal start⟩, by decide, isHeaderChar_decimal endInclusive⟩,
      by decide, isHeaderChar_decimal len⟩
  exact if_pos hall

theorem headerValue_unsatisfiedRange (len : ℕ) :
    headerValue (unsatisfiedRange len) = some (unsatisfiedRange len) := by
  have hall : (unsatisfiedRange len).all isHeaderChar = true := by
    unfold unsatisfiedRange
    rw [List.all_append, Bool.and_eq_true]
    have hunit : "bytes */".toList.all isHeaderChar = true := by simp [isHeaderChar]
    exact ⟨hunit, isHeaderChar_decimal len⟩
  exact if_pos hall

theorem rangeResponse_partialRange {start endInclusive : ℕ} (hle : start ≤ endInclusive)
    (hlt : endInclusive < content.length) (hlength : content.length < 2 ^ 64) :
    rangeResponse content headers (.partialRange start endInclusive) = some
      { status := 206
        headers := (headers.insert .contentRange
          (contentRange start endInclusive content.length)).insert .contentLength
            (decimal (endInclusive - start + 1))
        body := slice content start endInclusive } := by
  have hcount : (subU64 endInclusive start).bind (addU64 · 1) = some (endInclusive - start + 1) := by
    rw [subU64, if_pos hle, Option.bind_some, addU64, if_pos (by omega)]
  rw [rangeResponse, hcount, Option.map_some, insertIfValid, headerValue_contentRange,
    Option.elim_some, slice]

theorem rangeResponse_unsatisfiable :
    rangeResponse content headers .unsatisfiable = some
      { status := 416
        headers := (headers.remove .contentType).insert .contentRange
          (unsatisfiedRange content.length)
        body := [] } := by
  rw [rangeResponse, insertIfValid, headerValue_unsatisfiedRange, Option.elim_some]

theorem RangeSpec.IsWithin.rangeResponse {spec : RangeSpec} (h : spec.IsWithin content.length)
    (hlength : content.length < 2 ^ 64) :
    ∃ response, rangeResponse content headers spec = some response := by
  cases spec with
  | full => exact ⟨_, rfl⟩
  | partialRange start endInclusive => exact ⟨_, rangeResponse_partialRange h.1 h.2 hlength⟩
  | unsatisfiable => exact ⟨_, rfl⟩

/-! ## Well-formed ranges -/

/-- What the header of a request for a part of a file asks for. -/
inductive ByteRange where
  | closed (first last : ℕ)
  | fromFirst (first : ℕ)
  | suffix (length : ℕ)

/-- The positions of a file that a range denotes. -/
def ByteRange.positions (len : ℕ) : ByteRange → Set ℕ
  | .closed first last => {p | p < len ∧ first ≤ p ∧ p ≤ last}
  | .fromFirst first => {p | p < len ∧ first ≤ p}
  | .suffix length => {p | p < len ∧ len ≤ p + length}

/-- How the numbers of a range are written before and after the dash. -/
inductive Bounds : ByteRange → List Char → List Char → Prop
  | closed {first last : ℕ} {start stop : List Char} (hstart : IsDecimal start first)
      (hfirst : first < 2 ^ 64) (hstop : IsDecimal stop last) (hlast : last < 2 ^ 64) :
      Bounds (.closed first last) start stop
  | fromFirst {first : ℕ} {start : List Char} (hstart : IsDecimal start first)
      (hfirst : first < 2 ^ 64) : Bounds (.fromFirst first) start []
  | suffix {length : ℕ} {stop : List Char} (hstop : IsDecimal stop length)
      (hlast : length < 2 ^ 64) : Bounds (.suffix length) [] stop

/-- A header that asks for a range: the unit in any case, and space around each of its parts. -/
inductive IsRangeHeader (range : ByteRange) : List Char → Prop
  | written {unit start stop before afterUnit afterStart beforeStop after : List Char}
      (hunit : unit.map toAsciiLowercase = "bytes=".toList) (hbounds : Bounds range start stop)
      (hblank : ∀ c ∈ before ++ afterUnit ++ afterStart ++ beforeStop ++ after,
        isWhitespace c = true) :
      IsRangeHeader range
        (before ++ unit ++ (afterUnit ++ start ++ afterStart) ++
          '-' :: (beforeStop ++ stop ++ after))

/-- What a resolved range sends is what was asked for. -/
def RangeSpec.Denotes (len : ℕ) (positions : Set ℕ) : RangeSpec → Prop
  | .full => False
  | .partialRange start endInclusive =>
    start ≤ endInclusive ∧ endInclusive < len ∧ positions = Set.Icc start endInclusive
  | .unsatisfiable => positions = ∅

variable {range : ByteRange} {start stop : List Char}

theorem Bounds.isDigit (h : Bounds range start stop) : ∀ c ∈ start ++ stop, c.isDigit = true := by
  intro c hc
  rw [List.mem_append] at hc
  cases h with
  | closed hstart _ hstop _ => exact hc.elim (hstart.isDigit c) (hstop.isDigit c)
  | fromFirst hstart _ => exact hc.elim (hstart.isDigit c) (by simp)
  | suffix hstop _ => exact hc.elim (by simp) (hstop.isDigit c)

theorem closeRange_denotes {positions : Set ℕ} {first last : ℕ} (hlt : last < len)
    (h : positions = Set.Icc first last) : (closeRange first last).Denotes len positions := by
  unfold closeRange
  split
  · next hempty =>
    rw [RangeSpec.Denotes, h]
    exact Set.Icc_eq_empty (Nat.not_le_of_lt hempty)
  · next hle => exact ⟨Nat.le_of_not_lt hle, hlt, h⟩

theorem unsatisfiable_denotes {positions : Set ℕ} (h : ∀ p, p ∉ positions) :
    RangeSpec.unsatisfiable.Denotes len positions :=
  Set.eq_empty_of_forall_notMem h

/-- Each of the three forms is resolved to the positions it denotes. -/
theorem Bounds.resolveBounds (h : Bounds range start stop) (len : ℕ) :
    ∃ spec, resolveBounds start stop len = some spec ∧ spec.Denotes len (range.positions len) := by
  cases h with
  | closed hstart hfirst hstop hlast =>
    rename_i first last
    rw [Server.resolveBounds, if_neg hstart.ne_nil, hstart.parseU64 hfirst]
    dsimp only
    split
    · refine ⟨.unsatisfiable, rfl, unsatisfiable_denotes fun p hp ↦ ?_⟩
      have hposition : p < len ∧ first ≤ p ∧ p ≤ last := hp
      omega
    · rw [if_neg hstop.ne_nil, hstop.parseU64 hlast, subU64_one (by omega)]
      refine ⟨_, rfl, closeRange_denotes (by omega) ?_⟩
      ext p
      simp only [ByteRange.positions, Set.mem_ofPred_eq, Set.mem_Icc]
      omega
  | fromFirst hstart hfirst =>
    rename_i first
    rw [Server.resolveBounds, if_neg hstart.ne_nil, hstart.parseU64 hfirst]
    dsimp only
    split
    · refine ⟨.unsatisfiable, rfl, unsatisfiable_denotes fun p hp ↦ ?_⟩
      have hposition : p < len ∧ first ≤ p := hp
      omega
    · rw [if_pos rfl, subU64_one (by omega)]
      refine ⟨_, rfl, closeRange_denotes (by omega) ?_⟩
      ext p
      simp only [ByteRange.positions, Set.mem_ofPred_eq, Set.mem_Icc]
      omega
  | suffix hstop hlast =>
    rename_i length
    rw [Server.resolveBounds, if_pos rfl, hstop.parseU64 hlast]
    dsimp only
    split
    · refine ⟨.unsatisfiable, rfl, unsatisfiable_denotes fun p hp ↦ ?_⟩
      have hposition : p < len ∧ len ≤ p + length := hp
      omega
    · rw [subU64_one (by omega)]
      refine ⟨_, rfl, by omega, by omega, ?_⟩
      ext p
      simp only [ByteRange.positions, Set.mem_ofPred_eq, Set.mem_Icc]
      omega

theorem bounds_unit {before unit : List Char} (hbefore : ∀ c ∈ before, isWhitespace c = true)
    (hunit : unit.map toAsciiLowercase = "bytes=".toList) (rest : List Char) :
    bounds (before ++ unit ++ rest) = splitBounds (trim rest) := by
  have hlower : ∀ d ∈ "bytes=".toList, isWhitespace d = false ∧ d.toNat < 128 := by
    simp [isWhitespace]
  have hlength : unit.length = 6 := by simpa using congrArg List.length hunit
  have hchars : ∀ c ∈ unit, isWhitespace c = false ∧ c.toNat < 128 := by
    intro c hc
    have hmem := hlower (toAsciiLowercase c) (hunit ▸ List.mem_map_of_mem hc)
    exact ⟨isWhitespace_of_toAsciiLowercase hmem.1, toAsciiLowercase_of_lt hmem.2⟩
  have htrim : trim (before ++ unit ++ rest) = unit ++ trimEnd rest :=
    trim_word_append hbefore (fun c hc ↦ (hchars c hc).1) (by rintro rfl; simp at hlength) rest
  have hsplit : splitAtChecked 6 (unit ++ trimEnd rest) = some (unit, trimEnd rest) := by
    rw [← hlength]
    exact splitAtChecked_append (fun c hc ↦ (hchars c hc).2) _
  unfold bounds
  simp only [htrim, hsplit]
  rw [if_pos hunit, trim_trimEnd]

theorem splitBounds_trim {lead tail : List Char} (hdash : '-' ∉ lead)
    (hcomma : ',' ∉ lead ++ tail) :
    splitBounds (trim (lead ++ '-' :: tail)) = some (trim lead, trim tail) := by
  have hspec : trim (lead ++ '-' :: tail) = trimStart lead ++ '-' :: trimEnd tail :=
    trim_append_cons lead tail (by decide)
  have hlead : trimStart lead ⊆ lead := (List.dropWhile_sublist _).subset
  have htail : trimEnd tail ⊆ tail := (List.rdropWhile_prefix _ _).subset
  have hnotMem : ',' ∉ trimStart lead ++ '-' :: trimEnd tail := by
    intro hmem
    rcases List.mem_append.mp hmem with hmem | hmem
    · exact hcomma (List.mem_append_left _ (hlead hmem))
    · rcases List.mem_cons.mp hmem with heq | hmem
      · exact absurd heq (by decide)
      · exact hcomma (List.mem_append_right _ (htail hmem))
  rw [hspec, splitBounds, if_neg hnotMem, splitOnce_append fun hmem ↦ hdash (hlead hmem),
    Option.map_some, trim_trimStart, trim_trimEnd]

theorem bounds_written {unit start stop before afterUnit afterStart beforeStop after : List Char}
    (hunit : unit.map toAsciiLowercase = "bytes=".toList)
    (hdigit : ∀ c ∈ start ++ stop, c.isDigit = true)
    (hblank : ∀ c ∈ before ++ afterUnit ++ afterStart ++ beforeStop ++ after,
      isWhitespace c = true) :
    bounds (before ++ unit ++ (afterUnit ++ start ++ afterStart) ++
      '-' :: (beforeStop ++ stop ++ after)) = some (start, stop) := by
  simp only [List.mem_append, or_imp, forall_and] at hblank hdigit
  obtain ⟨⟨⟨⟨hbefore, hafterUnit⟩, hafterStart⟩, hbeforeStop⟩, hafter⟩ := hblank
  obtain ⟨hstart, hstop⟩ := hdigit
  have hlead : trim (afterUnit ++ start ++ afterStart) = start :=
    trim_word hafterUnit (fun c hc ↦ isWhitespace_of_isDigit (hstart c hc)) hafterStart
  have htail : trim (beforeStop ++ stop ++ after) = stop :=
    trim_word hbeforeStop (fun c hc ↦ isWhitespace_of_isDigit (hstop c hc)) hafter
  have hother {c : Char} (hblank : isWhitespace c = false) (hdigit : c.isDigit = false) :
      c ∉ afterUnit ++ start ++ afterStart ∧ c ∉ beforeStop ++ stop ++ after := by
    have hblanks {blanks : List Char} (h : ∀ c ∈ blanks, isWhitespace c = true) : c ∉ blanks :=
      fun hmem ↦ Bool.false_ne_true (hblank.symm.trans (h c hmem))
    have hdigits {digits : List Char} (h : ∀ c ∈ digits, c.isDigit = true) : c ∉ digits :=
      fun hmem ↦ Bool.false_ne_true (hdigit.symm.trans (h c hmem))
    simp [hblanks hafterUnit, hblanks hafterStart, hblanks hbeforeStop, hblanks hafter,
      hdigits hstart, hdigits hstop]
  rw [List.append_assoc (before ++ unit), bounds_unit hbefore hunit, splitBounds_trim, hlead, htail]
  · exact (hother (by decide) (by decide)).1
  · rw [List.mem_append, not_or]
    exact hother (by decide) (by decide)

/-- Well-formed headers are resolved to the positions they denote. -/
theorem IsRangeHeader.parseRange {raw : List Char} (h : IsRangeHeader range raw) (len : ℕ) :
    ∃ spec, parseRange (some raw) len = some spec ∧ spec.Denotes len (range.positions len) := by
  obtain ⟨hunit, hbounds, hblank⟩ := h
  rw [parseRange_eq, bounds_written hunit hbounds.isDigit hblank]
  exact hbounds.resolveBounds len

/-- The bytes that an answer carries. -/
def bodyOf : Option (Except Response FileResponse) → List UInt8
  | some (.ok response) => response.body
  | _ => []

/-- The answer to a request for some positions of a file: these bytes and no others. -/
def Selects (content : List UInt8) (positions : Set ℕ) (response : FileResponse) : Prop :=
  (positions = ∅ ∧ response.status = 416 ∧ response.body = []) ∨
    ∃ start endInclusive, start ≤ endInclusive ∧ positions = Set.Icc start endInclusive ∧
      response.status = 206 ∧
      response.headers .contentRange = some (contentRange start endInclusive content.length) ∧
      response.headers .contentLength = some (decimal (endInclusive - start + 1)) ∧
      response.body = slice content start endInclusive

/-- The ranges between consecutive cut points. -/
def consecutive : List ℕ → List ByteRange
  | first :: second :: rest => .closed first (second - 1) :: consecutive (second :: rest)
  | _ => []

theorem serveFileWithRange_eq_ok (contentType : List Char) (hlength : content.length < 2 ^ 64)
    (raw : Option (List Char)) :
    ∃ response, serveFileWithRange (some content) contentType raw = some (.ok response) := by
  obtain ⟨spec, hspec, hwithin⟩ := parseRange_isWithin raw content.length
  obtain ⟨response, hresponse⟩ := hwithin.rangeResponse hlength
  rw [serveFileWithRange, hspec, Option.bind_some, hresponse]
  exact ⟨response, rfl⟩

theorem IsRangeHeader.serveFileWithRange {raw : List Char} (h : IsRangeHeader range raw)
    (contentType : List Char) (hlength : content.length < 2 ^ 64) :
    ∃ response, serveFileWithRange (some content) contentType (some raw) = some (.ok response) ∧
      Selects content (range.positions content.length) response := by
  obtain ⟨spec, hspec, hdenotes⟩ := h.parseRange content.length
  rw [Server.serveFileWithRange, hspec, Option.bind_some]
  cases spec with
  | full => exact hdenotes.elim
  | partialRange start endInclusive =>
    obtain ⟨hle, hlt, hpositions⟩ := hdenotes
    rw [rangeResponse_partialRange hle hlt hlength]
    refine ⟨_, rfl, .inr ⟨start, endInclusive, hle, hpositions, rfl, ?_, ?_, rfl⟩⟩
    · dsimp only
      rw [HeaderMap.insert_of_ne _ _ _ (by decide), HeaderMap.insert_self]
    · dsimp only
      rw [HeaderMap.insert_self]
  | unsatisfiable =>
    rw [rangeResponse_unsatisfiable]
    exact ⟨_, rfl, .inl ⟨hdenotes, rfl, rfl⟩⟩

/-- Between two cut points lies what is dropped by the first and not by the second. -/
theorem Selects.body_closed {first second : ℕ} {response : FileResponse} (hle : first ≤ second)
    (hpos : 0 < second) (hlast : second ≤ content.length)
    (h : Selects content ((ByteRange.closed first (second - 1)).positions content.length)
      response) : response.body = (content.drop first).take (second - first) := by
  have hpositions : (ByteRange.closed first (second - 1)).positions content.length =
      Set.Icc first (second - 1) := by
    ext p
    simp only [ByteRange.positions, Set.mem_ofPred_eq, Set.mem_Icc]
    omega
  rw [hpositions] at h
  rcases h with ⟨hempty, -, hbody⟩ | ⟨start, endInclusive, hstart, hIcc, -, -, -, hbody⟩
  · have hzero : second - first = 0 := by
      rw [Set.Icc_eq_empty_iff] at hempty
      omega
    rw [hbody, hzero, List.take_zero]
  · have hbounds : first = start ∧ second - 1 = endInclusive := by
      have hnonempty : first ≤ second - 1 := by
        rw [← Set.nonempty_Icc, hIcc]
        exact Set.nonempty_Icc.mpr hstart
      have hsubset := (Set.Icc_subset_Icc_iff hnonempty).mp hIcc.subset
      have hsuperset := (Set.Icc_subset_Icc_iff hstart).mp hIcc.superset
      omega
    obtain ⟨rfl, rfl⟩ := hbounds
    rw [hbody, slice]
    congr 1
    omega

/-- Cut points never step back, and no part ends before the file starts. -/
def IsCut (first second : ℕ) : Prop := first ≤ second ∧ 0 < second

theorem le_last_of_isChain {first last : ℕ} {cuts : List ℕ} (h : (first :: cuts).IsChain IsCut)
    (hlast : (first :: cuts).getLast? = some last) : first ≤ last := by
  induction cuts generalizing first with
  | nil => exact Nat.le_of_eq (Option.some.inj hlast)
  | cons second rest ih =>
    rw [List.getLast?_cons_cons] at hlast
    rw [List.isChain_cons_cons] at h
    exact h.1.1.trans (ih h.2 hlast)

theorem flatMap_bodyOf {first : ℕ} {cuts : List ℕ} {raws : List (List Char)}
    (contentType : List Char) (hlength : content.length < 2 ^ 64)
    (hcuts : (first :: cuts).IsChain IsCut)
    (hlast : (first :: cuts).getLast? = some content.length)
    (hraws : List.Forall₂ IsRangeHeader (consecutive (first :: cuts)) raws) :
    (raws.flatMap fun raw ↦ bodyOf (serveFileWithRange (some content) contentType (some raw))) =
      content.drop first := by
  induction cuts generalizing first raws with
  | nil =>
    obtain rfl : first = content.length := Option.some.inj hlast
    rw [consecutive, List.forall₂_nil_left_iff] at hraws
    · rw [hraws, List.drop_length]
      rfl
    · simp
  | cons second rest ih =>
    rw [List.getLast?_cons_cons] at hlast
    rw [List.isChain_cons_cons] at hcuts
    obtain ⟨⟨hle, hpos⟩, hrest⟩ := hcuts
    rw [consecutive, List.forall₂_cons_left_iff] at hraws
    obtain ⟨raw, others, hraw, hothers, rfl⟩ := hraws
    obtain ⟨response, hresponse, hselects⟩ := hraw.serveFileWithRange contentType hlength
    have hbody := hselects.body_closed hle hpos (le_last_of_isChain hrest hlast)
    calc
      _ = response.body ++ content.drop second := by
        rw [List.flatMap_cons, hresponse, ih hrest hlast hothers, bodyOf]
      _ = (content.drop first).take (second - first) ++
          (content.drop first).drop (second - first) := by
        rw [hbody, List.drop_drop, Nat.add_sub_cancel' hle]
      _ = content.drop first := List.take_append_drop ..

/-- **Range requests.** Nothing leaves its range, whatever the header; a well-formed header gets
the positions it denotes; and consecutive ranges give the whole file. -/
theorem serveFileWithRange_exact (content : List UInt8) (contentType : List Char)
    (hlength : content.length < 2 ^ 64) :
    (∀ raw, ∃ response,
      serveFileWithRange (some content) contentType raw = some (.ok response)) ∧
    (∀ range raw, IsRangeHeader range raw → ∃ response,
      serveFileWithRange (some content) contentType (some raw) = some (.ok response) ∧
        Selects content (range.positions content.length) response) ∧
    ∀ cuts raws, (0 :: cuts).IsChain IsCut → (0 :: cuts).getLast? = some content.length →
      List.Forall₂ IsRangeHeader (consecutive (0 :: cuts)) raws →
      (raws.flatMap fun raw ↦
        bodyOf (serveFileWithRange (some content) contentType (some raw))) = content := by
  refine ⟨serveFileWithRange_eq_ok contentType hlength,
    fun range raw h ↦ h.serveFileWithRange contentType hlength, ?_⟩
  intro cuts raws hcuts hlast hraws
  exact flatMap_bodyOf contentType hlength hcuts hlast hraws

theorem isRangeHeader_suffix : IsRangeHeader (.suffix 2) "  Bytes= -2".toList :=
  @IsRangeHeader.written (.suffix 2) "Bytes=".toList [] ['2'] "  ".toList [' '] [] [] []
    (by decide) (.suffix (isDecimal_decimal 2) (by decide)) (by simp [isWhitespace])

theorem serveFileWithRange_exact_suffix :
    ∃ response, serveFileWithRange (some [7, 8, 9]) [] (some "  Bytes= -2".toList) =
        some (.ok response) ∧
      Selects [7, 8, 9] ((ByteRange.suffix 2).positions 3) response :=
  (serveFileWithRange_exact [7, 8, 9] [] (by decide)).2.1 (.suffix 2) _ isRangeHeader_suffix

end ComicStream.Server
