import Mathlib.Data.List.DropRight

/-!
# Text operations of the Rust standard library

A `&str` is the list of its Unicode scalar values. Only the operations the
server calls are given, each under its Rust name and with its documented
behaviour; splitting at a separator is `List.splitOn`.
-/

namespace ComicStream.Rust

/-- `char::is_whitespace`: the Unicode `White_Space` property. -/
def isWhitespace (c : Char) : Bool :=
  (9 ≤ c.toNat && c.toNat ≤ 13) || c.toNat == 0x20 || c.toNat == 0x85 || c.toNat == 0xA0 ||
    c.toNat == 0x1680 || (0x2000 ≤ c.toNat && c.toNat ≤ 0x200A) || c.toNat == 0x2028 ||
    c.toNat == 0x2029 || c.toNat == 0x202F || c.toNat == 0x205F || c.toNat == 0x3000

/-- `str::trim_start`. -/
def trimStart (text : List Char) : List Char := text.dropWhile isWhitespace

/-- `str::trim_end`. -/
def trimEnd (text : List Char) : List Char := text.rdropWhile isWhitespace

/-- `str::trim`. -/
def trim (text : List Char) : List Char :=
  ((text.dropWhile isWhitespace).reverse.dropWhile isWhitespace).reverse

/-- `str::trim_matches` of one character. -/
def trimMatches (c : Char) (text : List Char) : List Char :=
  ((text.dropWhile (· == c)).reverse.dropWhile (· == c)).reverse

/-- `char::to_ascii_lowercase`. -/
def toAsciiLowercase (c : Char) : Char :=
  if 65 ≤ c.toNat && c.toNat ≤ 90 then Char.ofNat (c.toNat + 32) else c

/-- `char::to_digit`, for radices up to 36. -/
def toDigit (radix : ℕ) (c : Char) : Option ℕ :=
  let value :=
    if 48 ≤ c.toNat && c.toNat ≤ 57 then some (c.toNat - 48)
    else if 97 ≤ c.toNat && c.toNat ≤ 122 then some (c.toNat - 97 + 10)
    else if 65 ≤ c.toNat && c.toNat ≤ 90 then some (c.toNat - 65 + 10)
    else none
  value.filter (· < radix)

/-- `str::split_once` at a single character. -/
def splitOnce (separator : Char) : List Char → Option (List Char × List Char)
  | [] => none
  | c :: rest =>
    if c = separator then some ([], rest)
    else (splitOnce separator rest).map fun parts ↦ (c :: parts.1, parts.2)

/-- The UTF-8 bytes of a text, `str::as_bytes`. -/
def utf8 (text : List Char) : List UInt8 := text.flatMap String.utf8EncodeChar

/-- `str::from_utf8`. -/
def fromUtf8 (bytes : List UInt8) : Option (List Char) :=
  (String.fromUTF8? bytes.toByteArray).map String.toList

/-- The character a byte string starts with, if it starts with a well-formed one. -/
def decodeChar? (bytes : List UInt8) : Option Char := ByteArray.utf8DecodeChar? bytes.toByteArray 0

def isContinuation (b : UInt8) : Bool := 0x80 ≤ b && b ≤ 0xBF

/-- Whether a well-formed sequence can start with these two bytes. -/
def mayFollow (lead second : UInt8) : Bool :=
  if lead < 0xC2 then false
  else if lead == 0xE0 then 0xA0 ≤ second && second ≤ 0xBF
  else if lead == 0xED then 0x80 ≤ second && second ≤ 0x9F
  else if lead == 0xF0 then 0x90 ≤ second && second ≤ 0xBF
  else if lead == 0xF4 then 0x80 ≤ second && second ≤ 0x8F
  else lead < 0xF4 && isContinuation second

/-- The length of the ill-formed sequence that one replacement character stands for: the
longest part of it that could have started a well-formed one, and at least one byte. -/
def brokenLength : List UInt8 → ℕ
  | lead :: second :: rest =>
    if mayFollow lead second then
      if 0xF0 ≤ lead && rest.head?.any isContinuation then 3 else 2
    else 1
  | _ => 1

def lossyFrom : ℕ → List UInt8 → List Char
  | 0, _ => []
  | _ + 1, [] => []
  | fuel + 1, bytes =>
    match decodeChar? bytes with
    | some c => c :: lossyFrom fuel (bytes.drop c.utf8Size)
    | none => Char.ofNat 0xFFFD :: lossyFrom fuel (bytes.drop (brokenLength bytes))

/-- `String::from_utf8_lossy`: ill-formed sequences become U+FFFD. -/
def fromUtf8Lossy (bytes : List UInt8) : List Char := lossyFrom bytes.length bytes

example : fromUtf8Lossy [0x61, 0xF0, 0x9F, 0x62, 0xC3, 0xA9] =
    ['a', Char.ofNat 0xFFFD, 'b', Char.ofNat 0xE9] := by decide

/-- `str::split_at_checked`: the offset counts bytes and has to fall between two characters. -/
def splitAtChecked : ℕ → List Char → Option (List Char × List Char)
  | 0, text => some ([], text)
  | _ + 1, [] => none
  | offset + 1, c :: text =>
    if c.utf8Size ≤ offset + 1 then
      (splitAtChecked (offset + 1 - c.utf8Size) text).map fun parts ↦ (c :: parts.1, parts.2)
    else none

theorem utf8_cons (c : Char) (text : List Char) :
    utf8 (c :: text) = String.utf8EncodeChar c ++ utf8 text := rfl

theorem decodeChar?_encode_append (c : Char) (rest : List UInt8) :
    decodeChar? (String.utf8EncodeChar c ++ rest) = some c := by
  rw [decodeChar?, List.toByteArray_append]
  exact ByteArray.utf8DecodeChar?_utf8EncodeChar_append

theorem brokenLength_pos (bytes : List UInt8) : 0 < brokenLength bytes := by
  fun_cases brokenLength bytes <;> simp

theorem lossyFrom_of_le {fuel : ℕ} {bytes : List UInt8} (h : bytes.length ≤ fuel) :
    lossyFrom fuel bytes = fromUtf8Lossy bytes := by
  rw [fromUtf8Lossy]
  generalize hsize : bytes.length = size at h ⊢
  replace hsize : bytes.length ≤ size := hsize.le
  induction size generalizing fuel bytes with
  | zero =>
    rw [List.eq_nil_of_length_eq_zero (Nat.le_zero.mp hsize)]
    cases fuel <;> rfl
  | succ size ih =>
    cases fuel with
    | zero => omega
    | succ fuel =>
      by_cases hnil : bytes = []
      · rw [hnil]
        rfl
      · have hpos : 0 < bytes.length := List.length_pos_iff.mpr hnil
        rw [lossyFrom.eq_3 _ _ hnil, lossyFrom.eq_3 _ _ hnil]
        have hdrop {count : ℕ} (hcount : 0 < count) : (bytes.drop count).length ≤ size := by
          rw [List.length_drop]
          omega
        split
        · next c _ => rw [ih (by omega) (hdrop c.utf8Size_pos)]
        · rw [ih (by omega) (hdrop (brokenLength_pos bytes))]

/-- Well-formed text before anything else is decoded as it is. -/
theorem fromUtf8Lossy_utf8_append (text : List Char) (rest : List UInt8) :
    fromUtf8Lossy (utf8 text ++ rest) = text ++ fromUtf8Lossy rest := by
  induction text with
  | nil => rfl
  | cons c text ih =>
    have hlength : (String.utf8EncodeChar c).length = c.utf8Size := String.length_utf8EncodeChar c
    have hpos := c.utf8Size_pos
    have hcons : utf8 (c :: text) ++ rest = String.utf8EncodeChar c ++ (utf8 text ++ rest) := by
      rw [utf8_cons, List.append_assoc]
    have hdrop : (utf8 (c :: text) ++ rest).drop c.utf8Size = utf8 text ++ rest := by
      rw [hcons, ← hlength, List.drop_left]
    have hne : utf8 (c :: text) ++ rest ≠ [] := by
      intro hnil
      have hzero := congrArg List.length hnil
      rw [hcons, List.length_append, List.length_nil] at hzero
      omega
    obtain ⟨fuel, hfuel⟩ : ∃ fuel, (utf8 (c :: text) ++ rest).length = fuel + 1 :=
      ⟨_, (Nat.sub_add_cancel (List.length_pos_iff.mpr hne)).symm⟩
    have hrest : (utf8 text ++ rest).length ≤ fuel := by
      rw [hcons, List.length_append] at hfuel
      omega
    rw [fromUtf8Lossy, hfuel, lossyFrom.eq_3 _ _ hne, hcons, decodeChar?_encode_append]
    dsimp only
    rw [← hcons, hdrop, lossyFrom_of_le hrest, ih, List.cons_append]

@[simp]
theorem fromUtf8Lossy_utf8 (text : List Char) : fromUtf8Lossy (utf8 text) = text := by
  have happend := fromUtf8Lossy_utf8_append text []
  rwa [List.append_nil, fromUtf8Lossy.eq_def [], List.length_nil, lossyFrom, List.append_nil]
    at happend

/-- Bytes decode to a text exactly when they encode it. -/
theorem fromUtf8_eq_some {bytes : List UInt8} {text : List Char} :
    fromUtf8 bytes = some text ↔ bytes = utf8 text := by
  rw [fromUtf8, String.fromUTF8?]
  constructor
  · intro h
    split at h
    · next hvalid =>
      have hencode : (String.fromUTF8 bytes.toByteArray hvalid).toList.utf8Encode =
          bytes.toByteArray := String.utf8Encode_toList
      rw [Option.some.inj h] at hencode
      have hbytes : (utf8 text).toByteArray.data.toList = bytes.toByteArray.data.toList :=
        congrArg (fun bytes : ByteArray ↦ bytes.data.toList) hencode
      rw [List.toList_data_toByteArray, List.toList_data_toByteArray] at hbytes
      exact hbytes.symm
    · simp at h
  · rintro rfl
    have hvalid : (utf8 text).toByteArray.IsValidUTF8 := ByteArray.isValidUTF8_utf8Encode
    rw [dif_pos hvalid, Option.map_some, Option.some.injEq]
    exact String.toList_ofList

theorem utf8_append (first second : List Char) : utf8 (first ++ second) = utf8 first ++ utf8 second :=
  List.flatMap_append

theorem utf8_injective : Function.Injective utf8 := by
  intro first second h
  have hfirst : fromUtf8 (utf8 second) = some first := fromUtf8_eq_some.mpr h.symm
  exact Option.some.inj (hfirst.symm.trans (fromUtf8_eq_some.mpr rfl))

/-! ## Trimming -/

section Trim

variable {c : Char} (before after : List Char)

theorem trim_eq (text : List Char) : trim text = trimEnd (trimStart text) := rfl

@[simp]
theorem trimStart_trimStart (text : List Char) : trimStart (trimStart text) = trimStart text :=
  List.dropWhile_idempotent _ text

@[simp]
theorem trimEnd_trimEnd (text : List Char) : trimEnd (trimEnd text) = trimEnd text :=
  List.rdropWhile_idempotent _ text

theorem trimStart_append_cons (hc : isWhitespace c = false) :
    trimStart (before ++ c :: after) = trimStart before ++ c :: after := by
  unfold trimStart
  rw [List.dropWhile_append]
  split
  · next hempty =>
    rw [List.isEmpty_iff.mp hempty, List.dropWhile_cons_of_neg (by simp [hc]), List.nil_append]
  · rfl

theorem trimEnd_append_cons (hc : isWhitespace c = false) :
    trimEnd (before ++ c :: after) = before ++ c :: trimEnd after := by
  have hstart := trimStart_append_cons after.reverse before.reverse hc
  have hreverse : (before ++ c :: after).reverse = after.reverse ++ c :: before.reverse := by simp
  calc
    trimEnd (before ++ c :: after) = (trimStart (before ++ c :: after).reverse).reverse := rfl
    _ = (trimStart after.reverse ++ c :: before.reverse).reverse := by rw [hreverse, hstart]
    _ = before ++ c :: trimEnd after := by simp [trimEnd, trimStart, List.rdropWhile]

theorem trim_append_cons (hc : isWhitespace c = false) :
    trim (before ++ c :: after) = trimStart before ++ c :: trimEnd after := by
  rw [trim_eq, trimStart_append_cons before after hc, trimEnd_append_cons _ after hc]

theorem trimStart_append_left {before : List Char} (h : ∀ c ∈ before, isWhitespace c = true) :
    trimStart (before ++ after) = trimStart after := List.dropWhile_append_of_pos h

theorem trimEnd_append_right {after : List Char} (h : ∀ c ∈ after, isWhitespace c = true) :
    trimEnd (before ++ after) = trimEnd before := by
  have hreverse : ∀ c ∈ after.reverse, isWhitespace c = true :=
    fun c hc ↦ h c (List.mem_reverse.mp hc)
  simp only [trimEnd, List.rdropWhile, List.reverse_append, List.dropWhile_append_of_pos hreverse]

@[simp]
theorem trim_trimStart (text : List Char) : trim (trimStart text) = trim text := by
  rw [trim_eq, trimStart_trimStart, ← trim_eq]

/-- A text has nothing to trim away, or shows something somewhere. -/
theorem forall_isWhitespace_or_eq_append (text : List Char) :
    (∀ c ∈ text, isWhitespace c = true) ∨
      ∃ before c after, isWhitespace c = false ∧ text = before ++ c :: after := by
  by_cases h : ∀ c ∈ text, isWhitespace c = true
  · exact .inl h
  · push Not at h
    obtain ⟨c, hmem, hc⟩ := h
    obtain ⟨before, after, rfl⟩ := List.append_of_mem hmem
    exact .inr ⟨before, c, after, by simpa using hc, rfl⟩

theorem trimStart_of_forall {text : List Char} (h : ∀ c ∈ text, isWhitespace c = true) :
    trimStart text = [] := List.dropWhile_eq_nil_iff.mpr h

theorem trimEnd_of_forall {text : List Char} (h : ∀ c ∈ text, isWhitespace c = true) :
    trimEnd text = [] := List.rdropWhile_eq_nil_iff.mpr h

@[simp]
theorem trim_trimEnd (text : List Char) : trim (trimEnd text) = trim text := by
  rcases forall_isWhitespace_or_eq_append text with hblank | ⟨before, c, after, hc, rfl⟩
  · rw [trimEnd_of_forall hblank, trim_eq, trim_eq, trimStart_of_forall hblank]
    rfl
  · rw [trimEnd_append_cons _ _ hc, trim_append_cons _ _ hc, trim_append_cons _ _ hc,
      trimEnd_trimEnd]

theorem trim_append_left {before : List Char} (h : ∀ c ∈ before, isWhitespace c = true) :
    trim (before ++ after) = trim after := by
  rw [← trim_trimStart, trimStart_append_left _ h, trim_trimStart]

theorem trim_append_right {after : List Char} (h : ∀ c ∈ after, isWhitespace c = true) :
    trim (before ++ after) = trim before := by
  rw [← trim_trimEnd, trimEnd_append_right _ h, trim_trimEnd]

theorem trimStart_word {before word : List Char} (hbefore : ∀ c ∈ before, isWhitespace c = true)
    (hword : ∀ c ∈ word, isWhitespace c = false) : trimStart (before ++ word) = word := by
  rw [trimStart, List.dropWhile_append_of_pos hbefore]
  refine List.dropWhile_eq_self_iff.mpr fun hpos ↦ ?_
  have hmem : word.get ⟨0, hpos⟩ ∈ word := List.get_mem ..
  rw [Bool.not_eq_true]
  exact hword _ hmem

theorem trim_word_append {before word : List Char}
    (hbefore : ∀ c ∈ before, isWhitespace c = true) (hword : ∀ c ∈ word, isWhitespace c = false)
    (hne : word ≠ []) (after : List Char) :
    trim (before ++ word ++ after) = word ++ trimEnd after := by
  rcases List.eq_nil_or_concat word with rfl | ⟨initial, last, rfl⟩
  · exact absurd rfl hne
  · have hinitial : trimStart (before ++ initial) = initial :=
      trimStart_word hbefore fun c hc ↦ hword c (by simp [hc])
    calc
      trim (before ++ initial.concat last ++ after) = trim (before ++ initial ++ last :: after) := by
        simp
      _ = initial ++ last :: trimEnd after := by
        rw [trim_append_cons _ _ (hword last (by simp)), hinitial]
      _ = initial.concat last ++ trimEnd after := by simp

theorem trim_word {before word after : List Char} (hbefore : ∀ c ∈ before, isWhitespace c = true)
    (hword : ∀ c ∈ word, isWhitespace c = false) (hafter : ∀ c ∈ after, isWhitespace c = true) :
    trim (before ++ word ++ after) = word := by
  by_cases hne : word = []
  · have hblank : ∀ c ∈ before ++ word ++ after, isWhitespace c = true := by
      simpa [hne, or_imp, forall_and] using ⟨hbefore, hafter⟩
    rw [trim_eq, trimStart_of_forall hblank, hne]
    rfl
  · rw [trim_word_append hbefore hword hne, trimEnd_of_forall hafter, List.append_nil]

theorem trim_of_forall {text : List Char} (h : ∀ c ∈ text, isWhitespace c = false) :
    trim text = text := by
  simpa using trim_word (List.forall_mem_nil _) h (List.forall_mem_nil _)

theorem toNat_toAsciiLowercase (c : Char) :
    (toAsciiLowercase c).toNat = if 65 ≤ c.toNat && c.toNat ≤ 90 then c.toNat + 32 else c.toNat := by
  unfold toAsciiLowercase
  split
  · next hupper =>
    simp only [Bool.and_eq_true, decide_eq_true_eq] at hupper
    have hvalid : (c.toNat + 32).isValidChar := .inl (by omega)
    rw [Char.ofNat, dif_pos hvalid]
    rfl
  · rfl

theorem toAsciiLowercase_eq_iff {c d : Char}
    (h : ¬(65 ≤ d.toNat ∧ d.toNat ≤ 90) ∧ ¬(97 ≤ d.toNat ∧ d.toNat ≤ 122)) :
    toAsciiLowercase c = d ↔ c = d := by
  rw [← Char.toNat_inj, ← Char.toNat_inj, toNat_toAsciiLowercase]
  split
  · next hupper =>
    simp only [Bool.and_eq_true, decide_eq_true_eq] at hupper
    omega
  · rfl

theorem toAsciiLowercase_eq_space {c : Char} : toAsciiLowercase c = ' ' ↔ c = ' ' :=
  toAsciiLowercase_eq_iff (by decide)

theorem isWhitespace_of_toAsciiLowercase (h : isWhitespace (toAsciiLowercase c) = false) :
    isWhitespace c = false := by
  unfold toAsciiLowercase at h
  split at h
  · next hupper =>
    simp only [Bool.and_eq_true, decide_eq_true_eq] at hupper
    simp only [isWhitespace, Bool.or_eq_false_iff, Bool.and_eq_false_iff, decide_eq_false_iff_not,
      beq_eq_false_iff_ne]
    omega
  · exact h

/-- What is trimmed away is white space on both sides. -/
theorem exists_trim (text : List Char) : ∃ before after, text = before ++ trim text ++ after ∧
    ∀ c ∈ before ++ after, isWhitespace c = true := by
  refine ⟨text.takeWhile isWhitespace,
    ((text.dropWhile isWhitespace).reverse.takeWhile isWhitespace).reverse, ?_, ?_⟩
  · have hend : trim text ++
        ((text.dropWhile isWhitespace).reverse.takeWhile isWhitespace).reverse =
          text.dropWhile isWhitespace := by
      rw [trim, ← List.reverse_append, List.takeWhile_append_dropWhile, List.reverse_reverse]
    rw [List.append_assoc, hend, List.takeWhile_append_dropWhile]
  · intro c hc
    rcases List.mem_append.mp hc with hc | hc
    · exact List.mem_takeWhile_imp hc
    · exact List.mem_takeWhile_imp (List.mem_reverse.mp hc)

end Trim

theorem splitOnce_append {separator : Char} {first : List Char} (h : separator ∉ first)
    (rest : List Char) : splitOnce separator (first ++ separator :: rest) = some (first, rest) := by
  induction first with
  | nil => simp [splitOnce]
  | cons c first ih =>
    rw [List.mem_cons, not_or] at h
    rw [List.cons_append, splitOnce, if_neg (Ne.symm h.1), ih h.2, Option.map_some]

theorem append_of_splitOnce {separator : Char} {text first rest : List Char}
    (h : splitOnce separator text = some (first, rest)) : text = first ++ separator :: rest := by
  induction text generalizing first with
  | nil => simp [splitOnce] at h
  | cons c text ih =>
    rw [splitOnce] at h
    split at h
    · next hc =>
      obtain ⟨rfl, rfl⟩ := Prod.mk.inj (Option.some.inj h)
      rw [hc, List.nil_append]
    · obtain ⟨parts, hparts, hpair⟩ := Option.map_eq_some_iff.mp h
      obtain ⟨rfl, rfl⟩ := Prod.mk.inj hpair
      rw [ih hparts, List.cons_append]

theorem append_of_splitAtChecked {offset : ℕ} {text first rest : List Char}
    (h : splitAtChecked offset text = some (first, rest)) : text = first ++ rest := by
  induction text generalizing offset first with
  | nil =>
    cases offset with
    | zero =>
      obtain ⟨rfl, rfl⟩ := Prod.mk.inj (Option.some.inj h)
      rfl
    | succ offset => simp [splitAtChecked] at h
  | cons c text ih =>
    cases offset with
    | zero =>
      obtain ⟨rfl, rfl⟩ := Prod.mk.inj (Option.some.inj h)
      rfl
    | succ offset =>
      rw [splitAtChecked, Option.ite_none_right_eq_some, Option.map_eq_some_iff] at h
      obtain ⟨-, parts, hparts, hpair⟩ := h
      obtain ⟨rfl, rfl⟩ := Prod.mk.inj hpair
      rw [ih hparts, List.cons_append]

theorem toAsciiLowercase_of_lt {c : Char} (h : (toAsciiLowercase c).toNat < 128) :
    c.toNat < 128 := by
  unfold toAsciiLowercase at h
  split at h
  · next hupper =>
    rw [Bool.and_eq_true, decide_eq_true_eq, decide_eq_true_eq] at hupper
    omega
  · exact h

theorem utf8Size_eq_one {c : Char} (h : c.toNat < 128) : c.utf8Size = 1 := by
  rw [Char.utf8Size_eq_one_iff, UInt32.le_iff_toNat_le]
  exact Nat.le_of_lt_succ h

theorem utf8_eq_map {text : List Char} (h : ∀ c ∈ text, c.toNat < 128) :
    utf8 text = text.map (·.val.toUInt8) := by
  induction text with
  | nil => rfl
  | cons c text ih =>
    rw [utf8_cons, String.utf8EncodeChar_eq_singleton (utf8Size_eq_one (h c List.mem_cons_self)),
      ih fun d hd ↦ h d (List.mem_cons_of_mem _ hd)]
    rfl

theorem splitAtChecked_append {first : List Char} (h : ∀ c ∈ first, c.toNat < 128)
    (rest : List Char) : splitAtChecked first.length (first ++ rest) = some (first, rest) := by
  induction first with
  | nil => exact splitAtChecked.eq_1 rest
  | cons c first ih =>
    have hsize : c.utf8Size = 1 := utf8Size_eq_one (h c List.mem_cons_self)
    rw [List.length_cons, List.cons_append, splitAtChecked, hsize, if_pos (Nat.le_add_left 1 _),
      Nat.add_sub_cancel, ih fun c hc ↦ h c (List.mem_cons_of_mem _ hc), Option.map_some]

theorem findSome?_congr {α β : Type} {f g : α → Option β} {items : List α}
    (h : ∀ item ∈ items, f item = g item) : items.findSome? f = items.findSome? g := by
  induction items with
  | nil => rfl
  | cons item rest ih =>
    rw [List.findSome?_cons, List.findSome?_cons, h item List.mem_cons_self,
      ih fun other hother ↦ h other (List.mem_cons_of_mem _ hother)]

/-- Splitting commutes with a map under which nothing else becomes the separator. -/
theorem splitOn_map {α β : Type} [BEq α] [LawfulBEq α] [BEq β] [LawfulBEq β] (f : α → β)
    {separator : α} (h : ∀ item, f item = f separator ↔ item = separator) (items : List α) :
    (items.map f).splitOn (f separator) = (items.splitOn separator).map (List.map f) := by
  induction items with
  | nil => rfl
  | cons item rest ih =>
    rw [List.map_cons, List.splitOn_cons_eq_if_modifyHead, List.splitOn_cons_eq_if_modifyHead, ih]
    by_cases hitem : item = separator
    · simp [hitem]
    · cases hsplit : rest.splitOn separator <;> simp [hitem, h]

theorem mem_of_mem_splitOn {α : Type} [BEq α] [LawfulBEq α] {separator item : α}
    {items piece : List α} (hpiece : piece ∈ items.splitOn separator) (hitem : item ∈ piece) :
    item ∈ items := by
  induction items generalizing piece with
  | nil =>
    rw [List.splitOn_nil, List.mem_singleton] at hpiece
    simp [hpiece] at hitem
  | cons head rest ih =>
    rw [List.splitOn_cons_eq_if_modifyHead] at hpiece
    split at hpiece
    · rcases List.mem_cons.mp hpiece with rfl | hpiece
      · simp at hitem
      · exact List.mem_cons_of_mem _ (ih hpiece hitem)
    · cases hsplit : rest.splitOn separator with
      | nil => exact absurd hsplit (List.splitOn_ne_nil _ _)
      | cons first others =>
        rw [hsplit, List.modifyHead_cons] at hpiece
        rcases List.mem_cons.mp hpiece with rfl | hpiece
        · rcases List.mem_cons.mp hitem with rfl | hitem
          · exact List.mem_cons_self
          · exact List.mem_cons_of_mem _ (ih (by rw [hsplit]; exact List.mem_cons_self) hitem)
        · exact List.mem_cons_of_mem _ (ih (by rw [hsplit]; exact List.mem_cons_of_mem _ hpiece) hitem)

end ComicStream.Rust
