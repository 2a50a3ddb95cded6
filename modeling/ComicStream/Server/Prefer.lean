import ComicStream.Auth.PeerIp
import ComicStream.Foundation.Prefer
import ComicStream.Rust.Number

/-!
# The preference for a thumbnail

The header is cut at every comma and semicolon, wherever they stand, and what lies
between them is read as names and values. A preference for a thumbnail is found
unless it is spelled with escapes, but so is what only looks like one, and the last
width counts, whoever's parameter it is.
-/

namespace ComicStream.Server

open Rust Auth Prefer

def isSeparator (c : Char) : Bool := c == ',' || c == ';'

/-- The key and the value of a token, if it has an equals sign. -/
def keyValue (token : List Char) : Option (List Char × List Char) :=
  (splitOnce '=' (trim token)).map fun parts ↦ (trim parts.1, trimMatches '"' (trim parts.2))

/-- The body of the loop, on `want_thumb` and `width`. -/
def prefStep (found : Bool × Option ℕ) (token : List Char) : Bool × Option ℕ :=
  match keyValue token with
  | none => found
  | some (k, v) =>
    if k = "variant".toList ∧ v = "thumbnail".toList then (true, found.2)
    else if k = "width".toList then
      match parseU32 v with
      | some w => (found.1, some w)
      | none => found
    else found

/-- `parse_thumbnail_pref`, of the first `Prefer` header. -/
def parseThumbnailPref (prefer : Option (List UInt8)) (defaultWidth : ℕ) : Option ℕ :=
  (prefer.bind toStr).bind fun raw ↦
    let found := ((raw.map toAsciiLowercase).splitOnP isSeparator).foldl prefStep (false, none)
    if found.1 then some (found.2.getD defaultWidth) else none

example : parseThumbnailPref (some (utf8 "variant=\"Thumbnail\"; width=250".toList)) 300 =
    some 250 := by decide +kernel

/-- The value of an item, if it has one. -/
def valueOf (item : Item) : Option (List Char) := item.word.map (·.2.2.value)

/-- Whether an item has the name given, in any letter case. -/
def isNamed (name : List Char) (item : Item) : Bool := item.name.text.map toAsciiLowercase == name

/-- A preference for the variant `thumbnail`, in any letter case. -/
def WantsThumbnail (preference : Preference) : Prop :=
  isNamed "variant".toList preference.item = true ∧
    (valueOf preference.item).map (·.map toAsciiLowercase) = some "thumbnail".toList

instance (preference : Preference) : Decidable (WantsThumbnail preference) :=
  inferInstanceAs (Decidable (_ ∧ _))

/-- The width that a preference gives: that of its first parameter of the name, if it is valid. -/
def ownWidth (preference : Preference) : Option ℕ :=
  (preference.parameterItems.find? (isNamed "width".toList)).bind fun item ↦
    (valueOf item).bind parseU32

/-- What a header asks for. The first preference for a variant counts; if it is for a thumbnail, the
width is its own, or the default one where it gives none. -/
def asked (header : Header) (defaultWidth : ℕ) : Option ℕ :=
  (header.preferences.find? fun preference ↦ isNamed "variant".toList preference.item).bind
    fun preference ↦
      if WantsThumbnail preference then some ((ownWidth preference).getD defaultWidth) else none

/-- The bytes of a header. -/
def bytesOf (header : Header) : List UInt8 := header.text.map fun c ↦ UInt8.ofNat c.toNat

/-- The keys and values that a text is read as. -/
def said (text : List Char) : List (List Char × List Char) :=
  ((text.map toAsciiLowercase).splitOnP isSeparator).filterMap keyValue

/-- The keys and values read from the items of a header; a quoted string may say several. -/
def saidItems (header : Header) : List (List Char × List Char) :=
  header.preferences.flatMap fun preference ↦
    preference.items.flatMap fun item ↦ said item.text

/-- A preference for a thumbnail, as it is read. -/
def thumbnailPair : List Char × List Char := ("variant".toList, "thumbnail".toList)

def widthOf (pair : List Char × List Char) : Option ℕ :=
  if pair.1 = "width".toList then parseU32 pair.2 else none

/-- The last valid width among keys and values. -/
def lastWidth (pairs : List (List Char × List Char)) : Option ℕ := (pairs.filterMap widthOf).getLast?

theorem isSeparator_iff {c : Char} : isSeparator c = true ↔ c = ',' ∨ c = ';' := by
  simp [isSeparator]

theorem toAsciiLowercase_of_isSeparator {c : Char} (h : isSeparator c = true) :
    toAsciiLowercase c = c := by
  rcases isSeparator_iff.mp h with rfl | rfl <;> decide

theorem isSeparator_toAsciiLowercase (c : Char) :
    isSeparator (toAsciiLowercase c) = isSeparator c := by
  rw [Bool.eq_iff_iff, isSeparator_iff, isSeparator_iff, toAsciiLowercase_eq_iff (by decide),
    toAsciiLowercase_eq_iff (by decide)]

theorem said_append_cons {c : Char} (h : isSeparator c = true) (first second : List Char) :
    said (first ++ c :: second) = said first ++ said second := by
  unfold said
  rw [List.map_append, List.map_cons, toAsciiLowercase_of_isSeparator h,
    List.splitOnP_append_cons _ _ h, List.filterMap_append]

theorem said_of_forall {text : List Char} (h : ∀ c ∈ text, isSeparator c = false) :
    said text = (keyValue (text.map toAsciiLowercase)).toList := by
  have hlower : ∀ c ∈ text.map toAsciiLowercase, isSeparator c = false := by
    intro c hc
    obtain ⟨d, hd, rfl⟩ := List.mem_map.mp hc
    rw [isSeparator_toAsciiLowercase, h d hd]
  rw [said, List.splitOnP_eq_singleton hlower]
  cases hpair : keyValue (text.map toAsciiLowercase) <;> simp [hpair]

theorem exists_first_separator (text : List Char) : (∀ c ∈ text, isSeparator c = false) ∨
    ∃ first c rest, text = first ++ c :: rest ∧ isSeparator c = true ∧
      ∀ d ∈ first, isSeparator d = false := by
  induction text with
  | nil => exact .inl (List.forall_mem_nil _)
  | cons c text ih =>
    cases hc : isSeparator c with
    | true => exact .inr ⟨[], c, text, rfl, hc, List.forall_mem_nil _⟩
    | false =>
      rcases ih with hnone | ⟨first, d, rest, rfl, hd, hfirst⟩
      · exact .inl (List.forall_mem_cons.mpr ⟨hc, hnone⟩)
      · exact .inr ⟨c :: first, d, rest, rfl, hd, List.forall_mem_cons.mpr ⟨hc, hfirst⟩⟩

theorem exists_last_separator (text : List Char) : (∀ c ∈ text, isSeparator c = false) ∨
    ∃ rest c last, text = rest ++ c :: last ∧ isSeparator c = true ∧
      ∀ d ∈ last, isSeparator d = false := by
  rcases exists_first_separator text.reverse with hnone | ⟨first, c, rest, htext, hc, hfirst⟩
  · exact .inl fun c hc ↦ hnone c (List.mem_reverse.mpr hc)
  · refine .inr ⟨rest.reverse, c, first.reverse, ?_, hc, fun d hd ↦ hfirst d (List.mem_reverse.mp hd)⟩
    rw [← List.reverse_reverse text, htext]
    simp

section Blank

variable (blank : Blank)

theorem isWhitespace_of_mem_blank : ∀ c ∈ blank.text.map toAsciiLowercase, isWhitespace c = true := by
  intro c hc
  obtain ⟨d, hd, rfl⟩ := List.mem_map.mp hc
  rcases blank.isBlank d hd with rfl | rfl <;> decide

theorem isSeparator_of_mem_blank : ∀ c ∈ blank.text, isSeparator c = false := by
  intro c hc
  rcases blank.isBlank c hc with rfl | rfl <;> decide

theorem said_eq_of_trim {token other : List Char} (htoken : ∀ c ∈ token, isSeparator c = false)
    (hother : ∀ c ∈ other, isSeparator c = false)
    (htrim : trim (token.map toAsciiLowercase) = trim (other.map toAsciiLowercase)) :
    said token = said other := by
  rw [said_of_forall htoken, said_of_forall hother, keyValue, keyValue, htrim]

theorem said_blank_append (text : List Char) : said (blank.text ++ text) = said text := by
  have hblank (token : List Char) (h : ∀ c ∈ token, isSeparator c = false) :
      said (blank.text ++ token) = said token := by
    apply said_eq_of_trim (List.forall_mem_append.mpr ⟨isSeparator_of_mem_blank blank, h⟩) h
    rw [List.map_append, trim_append_left _ (isWhitespace_of_mem_blank blank)]
  rcases exists_first_separator text with hnone | ⟨first, c, rest, rfl, hc, hfirst⟩
  · exact hblank text hnone
  · rw [← List.append_assoc, said_append_cons hc, said_append_cons hc, hblank first hfirst]

theorem said_append_blank (text : List Char) : said (text ++ blank.text) = said text := by
  have hblank (token : List Char) (h : ∀ c ∈ token, isSeparator c = false) :
      said (token ++ blank.text) = said token := by
    apply said_eq_of_trim (List.forall_mem_append.mpr ⟨h, isSeparator_of_mem_blank blank⟩) h
    rw [List.map_append, trim_append_right _ (isWhitespace_of_mem_blank blank)]
  rcases exists_last_separator text with hnone | ⟨rest, c, last, rfl, hc, hlast⟩
  · exact hblank text hnone
  · rw [List.append_assoc, List.cons_append, said_append_cons hc, said_append_cons hc,
      hblank last hlast]

end Blank

theorem said_flatMap {α : Type*} {c : Char} (hc : isSeparator c = true) (text : List Char)
    (list : List α) (part : α → List Char) :
    said (text ++ list.flatMap fun x ↦ c :: part x) =
      said text ++ list.flatMap fun x ↦ said (part x) := by
  induction list generalizing text with
  | nil => simp
  | cons x list ih =>
    rw [List.flatMap_cons, List.flatMap_cons, ← List.append_assoc, ih, said_append_cons hc,
      List.append_assoc]

theorem flatMap_filterMap {α β γ : Type*} (list : List α) (pick : α → Option β)
    (f : β → List γ) :
    (list.filterMap pick).flatMap f = list.flatMap fun x ↦ ((pick x).map f).getD [] := by
  induction list with
  | nil => rfl
  | cons x list ih =>
    rw [List.filterMap_cons, List.flatMap_cons]
    cases pick x with
    | none => simpa using ih
    | some y => simpa using ih

@[simp]
theorem said_nil : said [] = [] := by
  rw [said_of_forall (List.forall_mem_nil _)]
  decide

theorem said_getD {α : Type*} (part : Option α) (text : α → List Char) :
    said ((part.map text).getD []) = (part.map fun x ↦ said (text x)).getD [] := by
  cases part with
  | none => exact said_nil
  | some x => rfl

theorem said_parameters (text : List Char) (parameters : List Parameter) :
    said (text ++ parameters.flatMap Parameter.text) =
      said text ++ (parameters.filterMap Parameter.item).flatMap fun item ↦ said item.text := by
  rw [flatMap_filterMap]
  induction parameters generalizing text with
  | nil => simp
  | cons parameter parameters ih =>
    have hparameter : said (text ++ parameter.text) =
        said text ++ (parameter.item.map fun item ↦ said item.text).getD [] := by
      have hsemicolon : isSeparator ';' = true := by decide
      rw [Parameter.text, ← List.append_assoc, said_append_cons hsemicolon, said_append_blank,
        said_blank_append, said_getD]
    calc
      said (text ++ (parameter :: parameters).flatMap Parameter.text) =
          said (text ++ parameter.text ++ parameters.flatMap Parameter.text) := by
        rw [List.flatMap_cons, List.append_assoc]
      _ = said (text ++ parameter.text) ++ parameters.flatMap fun x ↦
          (x.item.map fun item ↦ said item.text).getD [] := ih _
      _ = said text ++ (parameter :: parameters).flatMap fun x ↦
          (x.item.map fun item ↦ said item.text).getD [] := by
        rw [hparameter, List.flatMap_cons, List.append_assoc]

/-- A header is read item by item. -/
theorem said_text (header : Header) : said header.text = saidItems header := by
  have helement (element : Element) : said element.text =
      (element.preference.map fun preference ↦
        preference.items.flatMap fun item ↦ said item.text).getD [] := by
    rw [Element.text, said_append_blank, said_blank_append, said_getD]
    simp only [Preference.text, said_parameters, Preference.items, Preference.parameterItems,
      List.flatMap_cons]
  calc
    said header.text =
        said header.first.text ++ header.rest.flatMap fun element ↦ said element.text :=
      said_flatMap (by decide) _ _ _
    _ = header.elements.flatMap fun element ↦ said element.text := rfl
    _ = header.elements.flatMap fun element ↦ (element.preference.map fun preference ↦
        preference.items.flatMap fun item ↦ said item.text).getD [] := by
      simp only [helement]
    _ = saidItems header := (flatMap_filterMap _ _ _).symm

/-! ## Parsing -/

theorem lastWidth_cons (pair : List Char × List Char) (pairs : List (List Char × List Char)) :
    lastWidth (pair :: pairs) = (lastWidth pairs).or (widthOf pair) := by
  rw [lastWidth, List.filterMap_cons]
  cases widthOf pair with
  | none => exact (Option.or_none).symm
  | some width =>
    rw [List.getLast?_cons]
    cases hlast : (pairs.filterMap widthOf).getLast? with
    | none => simp [lastWidth, hlast]
    | some last => simp [lastWidth, hlast]

theorem prefStep_eq {token : List Char} {pair : List Char × List Char}
    (h : keyValue token = some pair) (found : Bool × Option ℕ) :
    prefStep found token =
      (found.1 || decide (pair = thumbnailPair), (widthOf pair).or found.2) := by
  obtain ⟨k, v⟩ := pair
  unfold prefStep widthOf thumbnailPair
  rw [h]
  dsimp only
  split
  · next hpair =>
    rw [hpair.1, hpair.2]
    simp
  · next hpair =>
    rw [decide_eq_false fun heq ↦ hpair (Prod.mk.inj heq), Bool.or_false]
    split
    · cases parseU32 v <;> rfl
    · rfl

/-- The loop finds the pair, and the last width. -/
theorem foldl_prefStep (tokens : List (List Char)) (found : Bool × Option ℕ) :
    tokens.foldl prefStep found =
      (found.1 || decide (thumbnailPair ∈ tokens.filterMap keyValue),
        (lastWidth (tokens.filterMap keyValue)).or found.2) := by
  induction tokens generalizing found with
  | nil => simp [lastWidth]
  | cons token tokens ih =>
    rw [List.foldl_cons, ih, List.filterMap_cons]
    cases hpair : keyValue token with
    | none => simp only [prefStep, hpair]
    | some pair =>
      simp only [prefStep_eq hpair, lastWidth_cons, Option.or_assoc, List.mem_cons,
        Bool.decide_or, Bool.or_assoc, eq_comm]

theorem toNat_byte {c : Char} (h : isFieldChar c = true) :
    (UInt8.ofNat c.toNat).toNat = c.toNat := by
  have hle : c.toNat < 256 := by
    simp only [isFieldChar, Bool.or_eq_true, beq_iff_eq, Bool.and_eq_true, decide_eq_true_eq] at h
    rcases h with (rfl | h) | h
    · decide
    · omega
    · omega
  rw [UInt8.toNat_ofNat', Nat.mod_eq_of_lt hle]

theorem isVisibleAscii_byte {c : Char} (h : isFieldChar c = true) :
    isVisibleAscii (UInt8.ofNat c.toNat) = true ↔ c.toNat < 128 := by
  have hbyte := toNat_byte h
  simp only [isFieldChar, Bool.or_eq_true, beq_iff_eq, Bool.and_eq_true, decide_eq_true_eq] at h
  simp only [isVisibleAscii, Bool.or_eq_true, beq_iff_eq, Bool.and_eq_true, decide_eq_true_eq,
    UInt8.le_iff_toNat_le, UInt8.lt_iff_toNat_lt, ← UInt8.toNat_inj, hbyte]
  have htab : '\t'.toNat = 9 := rfl
  rw [← Char.toNat_inj, htab] at h
  change (32 ≤ c.toNat ∧ c.toNat < 127) ∨ c.toNat = 9 ↔ c.toNat < 128
  omega

def isAscii (text : List Char) : Bool := text.all (·.toNat < 128)

theorem isAscii_iff {text : List Char} : isAscii text = true ↔ ∀ c ∈ text, c.toNat < 128 := by
  simp [isAscii]

theorem toStr_bytesOf (header : Header) :
    toStr (bytesOf header) = if isAscii header.text then some header.text else none := by
  have hall : (bytesOf header).all isVisibleAscii = true ↔ isAscii header.text = true := by
    rw [bytesOf, List.all_map, List.all_eq_true, isAscii_iff]
    exact forall₂_congr fun c hc ↦ isVisibleAscii_byte (header.isField c hc)
  have htext : (bytesOf header).map asciiChar = header.text := by
    have hchar (c : Char) (hc : c ∈ header.text) :
        (asciiChar ∘ fun c : Char ↦ UInt8.ofNat c.toNat) c = c := by
      rw [Function.comp_apply, asciiChar, toNat_byte (header.isField c hc), Char.ofNat_toNat]
    rw [bytesOf, List.map_map, List.map_congr_left hchar, List.map_id']
  rw [toStr, htext]
  simp only [hall]

theorem parseThumbnailPref_eq (header : Header) (defaultWidth : ℕ) :
    parseThumbnailPref (some (bytesOf header)) defaultWidth =
      if isAscii header.text ∧ thumbnailPair ∈ saidItems header then
        some ((lastWidth (saidItems header)).getD defaultWidth)
      else none := by
  rw [parseThumbnailPref, Option.bind_some, toStr_bytesOf, ← said_text]
  by_cases hascii : isAscii header.text = true
  · rw [if_pos hascii, Option.bind_some, foldl_prefStep]
    simp only [Bool.false_or, decide_eq_true_eq, Option.or_none, and_iff_right hascii]
    rfl
  · rw [if_neg hascii, if_neg (fun h ↦ hascii h.1), Option.bind_none]

/-- Words without separators and escapes. -/
def IsPlain : Word → Prop
  | .token _ => True
  | .quoted chars => ∀ quoted ∈ chars, quoted.isEscaped = false ∧ isSeparator quoted.char = false

/-- What an item says, in lower case. -/
def pairOf (item : Item) : Option (List Char × List Char) :=
  item.word.map fun word ↦
    (item.name.text.map toAsciiLowercase, word.2.2.value.map toAsciiLowercase)

theorem toNat_of_isTokenChar {c : Char} (h : isTokenChar c = true) :
    33 ≤ c.toNat ∧ c.toNat ≤ 126 ∧ c.toNat ≠ 34 ∧ c.toNat ≠ 44 ∧ c.toNat ≠ 59 ∧ c.toNat ≠ 61 := by
  simp only [isTokenChar, Bool.or_eq_true, Bool.and_eq_true, decide_eq_true_eq] at h
  rcases h with ((h | h) | h) | h
  · omega
  · omega
  · omega
  · have hall : "!#$%&'*+-.^_`|~".toList.all (fun c ↦ 33 ≤ c.toNat && c.toNat ≤ 126 &&
        c.toNat != 34 && c.toNat != 44 && c.toNat != 59 && c.toNat != 61) = true := by decide
    have hrange := List.all_eq_true.mp hall c (List.contains_iff_mem.mp h)
    simp only [Bool.and_eq_true, decide_eq_true_eq, bne_iff_ne] at hrange
    omega

theorem isSeparator_eq_false {c : Char} (h : c.toNat ≠ 44 ∧ c.toNat ≠ 59) :
    isSeparator c = false := by
  rw [← Bool.not_eq_true, isSeparator_iff]
  rintro (rfl | rfl)
  · exact h.1 rfl
  · exact h.2 rfl

theorem isWhitespace_eq_false {c : Char} (h : 33 ≤ c.toNat ∧ c.toNat ≤ 126) :
    isWhitespace c = false := by
  simp only [isWhitespace, Bool.or_eq_false_iff, Bool.and_eq_false_iff, decide_eq_false_iff_not,
    beq_eq_false_iff_ne]
  omega

theorem isSeparator_token (token : Token) : ∀ c ∈ token.text, isSeparator c = false := by
  intro c hc
  have hrange := toNat_of_isTokenChar (token.isTokenChar c hc)
  exact isSeparator_eq_false (by omega)

theorem lower_token (token : Token) : ∀ c ∈ token.text.map toAsciiLowercase,
    isWhitespace c = false ∧ c ≠ '=' ∧ c ≠ '"' := by
  intro c hc
  obtain ⟨d, hd, rfl⟩ := List.mem_map.mp hc
  have hrange := toNat_of_isTokenChar (token.isTokenChar d hd)
  have hlower : 33 ≤ (toAsciiLowercase d).toNat ∧ (toAsciiLowercase d).toNat ≤ 126 := by
    rw [toNat_toAsciiLowercase]
    split
    · next hupper =>
      simp only [Bool.and_eq_true, decide_eq_true_eq] at hupper
      omega
    · omega
  refine ⟨isWhitespace_eq_false hlower, ?_, ?_⟩
  · rw [ne_eq, toAsciiLowercase_eq_iff (by decide)]
    rintro rfl
    exact absurd rfl hrange.2.2.2.2.2
  · rw [ne_eq, toAsciiLowercase_eq_iff (by decide)]
    rintro rfl
    exact absurd rfl hrange.2.2.1

theorem keyValue_append {key : List Char} (hkey : '=' ∉ key) (value : List Char) :
    keyValue (key ++ '=' :: value) = some (trim key, trimMatches '"' (trim value)) := by
  have hstart : '=' ∉ trimStart key := fun h ↦ hkey ((List.dropWhile_suffix _).mem h)
  rw [keyValue, trim_append_cons _ _ (by decide), splitOnce_append hstart, Option.map_some,
    trim_trimStart, trim_trimEnd]

theorem dropWhile_quote {text : List Char} (h : ∀ c ∈ text, c ≠ '"') :
    text.dropWhile (· == '"') = text := by
  cases text with
  | nil => rfl
  | cons c text => exact List.dropWhile_cons_of_neg (by simpa using h c List.mem_cons_self)

theorem trimMatches_of_forall {text : List Char} (h : ∀ c ∈ text, c ≠ '"') :
    trimMatches '"' text = text := by
  rw [trimMatches, dropWhile_quote h,
    dropWhile_quote fun c hc ↦ h c (List.mem_reverse.mp hc), List.reverse_reverse]

theorem trimMatches_quoted {text : List Char} (h : ∀ c ∈ text, c ≠ '"') :
    trimMatches '"' ('"' :: (text ++ ['"'])) = text := by
  cases text with
  | nil => decide
  | cons c text =>
    have hc : c ≠ '"' := h c List.mem_cons_self
    have hstart : ('"' :: (c :: text ++ ['"'])).dropWhile (· == '"') = c :: text ++ ['"'] := by
      simp [hc]
    have hend : ('"' :: (c :: text).reverse).dropWhile (· == '"') = (c :: text).reverse :=
      (List.dropWhile_cons_of_pos (by decide)).trans
        (dropWhile_quote fun d hd ↦ h d (List.mem_reverse.mp hd))
    calc
      trimMatches '"' ('"' :: (c :: text ++ ['"'])) =
          ((c :: text ++ ['"']).reverse.dropWhile (· == '"')).reverse := by
        rw [trimMatches, hstart]
      _ = (('"' :: (c :: text).reverse).dropWhile (· == '"')).reverse := by
        rw [List.reverse_append, List.reverse_singleton, List.singleton_append]
      _ = c :: text := by rw [hend, List.reverse_reverse]

theorem trim_quoted (text : List Char) : trim ('"' :: (text ++ ['"'])) = '"' :: (text ++ ['"']) := by
  have hquote : isWhitespace '"' = false := by decide
  have htrim := trim_append_cons [] (text ++ ['"']) hquote
  rw [trimEnd_append_cons _ _ hquote] at htrim
  exact htrim

theorem trimMatches_word {word : Word} (h : IsPlain word) :
    (∀ c ∈ word.text, isSeparator c = false) ∧
      trimMatches '"' (trim (word.text.map toAsciiLowercase)) =
        word.value.map toAsciiLowercase := by
  cases word with
  | token spelled =>
    have hlower := lower_token spelled
    refine ⟨isSeparator_token spelled, ?_⟩
    rw [Word.text, Word.value, trim_of_forall fun c hc ↦ (hlower c hc).1,
      trimMatches_of_forall fun c hc ↦ (hlower c hc).2.2]
  | quoted chars =>
    have htext : chars.flatMap QuotedChar.text = chars.map QuotedChar.char := by
      rw [← List.flatMap_singleton' (chars.map QuotedChar.char), List.flatMap_map]
      refine List.flatMap_congr fun quoted hquoted ↦ ?_
      rw [QuotedChar.text, (h quoted hquoted).1]
      rfl
    have hquote : ∀ c ∈ (chars.map QuotedChar.char).map toAsciiLowercase, c ≠ '"' := by
      intro c hc
      obtain ⟨d, hd, rfl⟩ := List.mem_map.mp hc
      obtain ⟨quoted, hquoted, rfl⟩ := List.mem_map.mp hd
      rw [ne_eq, toAsciiLowercase_eq_iff (by decide)]
      exact (quoted.isPlain (h quoted hquoted).1).1
    have hlower : Word.text (.quoted chars) =
        '"' :: (chars.map QuotedChar.char ++ ['"']) := by rw [Word.text, htext]
    have hsymbol : toAsciiLowercase '"' = '"' := by decide
    constructor
    · intro c hc
      rw [hlower, List.mem_cons, List.mem_append, List.mem_singleton] at hc
      rcases hc with rfl | hc | rfl
      · decide
      · obtain ⟨quoted, hquoted, rfl⟩ := List.mem_map.mp hc
        exact (h quoted hquoted).2
      · decide
    · rw [hlower, List.map_cons, List.map_append, List.map_cons, List.map_nil, hsymbol, trim_quoted,
        trimMatches_quoted hquote]
      rfl

theorem said_item {item : Item} (h : ∀ word ∈ item.word, IsPlain word.2.2) :
    said item.text = (pairOf item).toList := by
  have hname := lower_token item.name
  have hequals : '=' ∉ item.name.text.map toAsciiLowercase := fun hmem ↦ (hname _ hmem).2.1 rfl
  have htrim := trim_of_forall fun c hc ↦ (hname c hc).1
  cases hword : item.word with
  | none =>
    have hnone : keyValue (item.name.text.map toAsciiLowercase) = none := by
      rw [keyValue, htrim, Option.map_eq_none_iff, Option.eq_none_iff_forall_ne_some]
      intro parts hparts
      refine hequals ?_
      rw [append_of_splitOnce hparts]
      exact List.mem_append_right _ List.mem_cons_self
    simp only [Item.text, hword, pairOf, said_of_forall (isSeparator_token item.name), hnone,
      Option.map_none]
  | some parts =>
    obtain ⟨before, after, word⟩ := parts
    obtain ⟨hplain, hvalue⟩ := trimMatches_word (h _ hword)
    have htext : item.text = item.name.text ++ before.text ++ '=' :: (after.text ++ word.text) := by
      rw [Item.text, hword]
    have hseparator : ∀ c ∈ item.text, isSeparator c = false := by
      rw [htext]
      exact List.forall_mem_append.mpr ⟨List.forall_mem_append.mpr
        ⟨isSeparator_token item.name, isSeparator_of_mem_blank before⟩,
        List.forall_mem_cons.mpr ⟨by decide,
          List.forall_mem_append.mpr ⟨isSeparator_of_mem_blank after, hplain⟩⟩⟩
    have hkey : '=' ∉ (item.name.text ++ before.text).map toAsciiLowercase := by
      rw [List.map_append, List.mem_append, not_or]
      refine ⟨hequals, fun hmem ↦ ?_⟩
      exact absurd (isWhitespace_of_mem_blank before _ hmem) (by decide)
    have hlower : item.text.map toAsciiLowercase =
        (item.name.text ++ before.text).map toAsciiLowercase ++
          '=' :: (after.text ++ word.text).map toAsciiLowercase := by
      rw [htext, List.map_append, List.map_cons]
      rfl
    have hleft : trim ((item.name.text ++ before.text).map toAsciiLowercase) =
        item.name.text.map toAsciiLowercase := by
      rw [List.map_append, trim_append_right _ (isWhitespace_of_mem_blank before), htrim]
    have hright : trimMatches '"' (trim ((after.text ++ word.text).map toAsciiLowercase)) =
        word.value.map toAsciiLowercase := by
      rw [List.map_append, trim_append_left _ (isWhitespace_of_mem_blank after), hvalue]
    calc
      said item.text = (keyValue (item.text.map toAsciiLowercase)).toList := said_of_forall hseparator
      _ = [(item.name.text.map toAsciiLowercase, word.value.map toAsciiLowercase)] := by
        rw [hlower, keyValue_append hkey, hleft, hright, Option.toList_some]
      _ = (pairOf item).toList := by rw [pairOf, hword, Option.map_some, Option.toList_some]

/-- Headers in ASCII whose words are plain, with one preference for a variant at most, in which no
parameter looks like a preference for a thumbnail and nothing gives a width but one parameter of
such a preference. -/
structure IsRegular (header : Header) : Prop where
  ascii : ∀ c ∈ header.text, c.toNat < 128
  plain : ∀ preference ∈ header.preferences, ∀ item ∈ preference.items,
    ∀ word ∈ item.word, IsPlain word.2.2
  one_variant : (header.preferences.filter fun preference ↦
    isNamed "variant".toList preference.item).length ≤ 1
  variant : ∀ preference ∈ header.preferences, ∀ item ∈ preference.parameterItems,
    pairOf item ≠ some thumbnailPair
  one_width : ∀ preference ∈ header.preferences,
    (preference.parameterItems.filter (isNamed "width".toList)).length ≤ 1
  no_width : ∀ preference ∈ header.preferences, (pairOf preference.item).bind widthOf = none
  width : ∀ preference ∈ header.preferences, ∀ item ∈ preference.parameterItems,
    ((pairOf item).bind widthOf).isSome → WantsThumbnail preference

theorem wantsThumbnail_iff {preference : Preference} :
    WantsThumbnail preference ↔ pairOf preference.item = some thumbnailPair := by
  unfold WantsThumbnail pairOf valueOf thumbnailPair isNamed
  generalize "variant".toList = variant
  generalize "thumbnail".toList = thumbnail
  cases preference.item.word with
  | none => simp
  | some word =>
    simp only [beq_iff_eq, Option.map_some, Option.some.injEq, Prod.mk.injEq]

theorem pairOf_bind_widthOf (item : Item) : (pairOf item).bind widthOf =
    if isNamed "width".toList item = true then (valueOf item).bind parseU32 else none := by
  unfold pairOf valueOf widthOf isNamed
  cases item.word with
  | none => simp
  | some word =>
    simp only [Option.map_some, Option.bind_some, parseU32, parseU64_map_toAsciiLowercase,
      beq_iff_eq]

theorem exists_of_lastWidth {pairs : List (List Char × List Char)} {width : ℕ}
    (h : lastWidth pairs = some width) : ∃ pair ∈ pairs, widthOf pair = some width :=
  List.mem_filterMap.mp (List.mem_of_getLast? h)

theorem widthOf_of_lastWidth {pairs : List (List Char × List Char)} (h : lastWidth pairs = none)
    {pair : List Char × List Char} (hpair : pair ∈ pairs) : widthOf pair = none := by
  have hnil := List.getLast?_eq_none_iff.mp h
  exact List.forall_none_of_filterMap_eq_nil hnil pair hpair

theorem find?_eq_of_filter {α : Type*} {list : List α} {kind : α → Bool} {x : α}
    (hone : (list.filter kind).length ≤ 1) (hmem : x ∈ list) (hx : kind x = true) :
    list.find? kind = some x := by
  have hfilter : x ∈ list.filter kind := List.mem_filter.mpr ⟨hmem, hx⟩
  rw [← List.head?_filter]
  cases hlist : list.filter kind with
  | nil => simp [hlist] at hfilter
  | cons y rest =>
    rw [hlist, List.length_cons] at hone
    obtain rfl : rest = [] := List.eq_nil_of_length_eq_zero (by omega)
    rw [hlist, List.mem_singleton] at hfilter
    rw [hfilter, List.head?_cons]

namespace IsRegular

variable {header : Header} {preference : Preference} {defaultWidth : ℕ}

theorem mem_saidItems (h : IsRegular header) (pair : List Char × List Char) :
    pair ∈ saidItems header ↔
      ∃ preference ∈ header.preferences, ∃ item ∈ preference.items, pairOf item = some pair := by
  simp only [saidItems, List.mem_flatMap]
  refine exists_congr fun preference ↦ and_congr_right fun hmem ↦ exists_congr fun item ↦
    and_congr_right fun hitem ↦ ?_
  rw [said_item (h.plain preference hmem item hitem), Option.mem_toList]

/-- It is read as one for a thumbnail when one of its preferences is. -/
theorem thumbnailPair_mem_iff (h : IsRegular header) :
    thumbnailPair ∈ saidItems header ↔
      ∃ preference ∈ header.preferences, WantsThumbnail preference := by
  rw [h.mem_saidItems]
  constructor
  · rintro ⟨preference, hmem, item, hitem, hpair⟩
    rcases List.mem_cons.mp hitem with rfl | hparameter
    · exact ⟨preference, hmem, wantsThumbnail_iff.mpr hpair⟩
    · exact absurd hpair (h.variant preference hmem item hparameter)
  · rintro ⟨preference, hmem, hthumbnail⟩
    exact ⟨preference, hmem, preference.item, List.mem_cons_self,
      wantsThumbnail_iff.mp hthumbnail⟩

/-- The preference for a thumbnail is the first one for a variant. -/
theorem find?_variant (h : IsRegular header) (hmem : preference ∈ header.preferences)
    (hthumbnail : WantsThumbnail preference) :
    header.preferences.find? (fun preference ↦ isNamed "variant".toList preference.item) =
      some preference :=
  find?_eq_of_filter h.one_variant hmem hthumbnail.1

/-- The width that the preference for a thumbnail gives is the last one read. -/
theorem lastWidth_eq (h : IsRegular header) (hmem : preference ∈ header.preferences)
    (hthumbnail : WantsThumbnail preference) :
    lastWidth (saidItems header) = ownWidth preference := by
  cases hlast : lastWidth (saidItems header) with
  | some width =>
    obtain ⟨pair, hpair, hwidth⟩ := exists_of_lastWidth hlast
    obtain ⟨other, hother, item, hitem, hpairOf⟩ := (h.mem_saidItems pair).mp hpair
    have hbind : (pairOf item).bind widthOf = some width := by
      rw [hpairOf, Option.bind_some, hwidth]
    have hparameter : item ∈ other.parameterItems := by
      rcases List.mem_cons.mp hitem with rfl | hparameter
      · exact absurd ((h.no_width other hother).symm.trans hbind) (Option.some_ne_none width).symm
      · exact hparameter
    have hotherThumbnail := h.width other hother item hparameter (by rw [hbind]; rfl)
    obtain rfl : other = preference := Option.some.inj
      ((h.find?_variant hother hotherThumbnail).symm.trans (h.find?_variant hmem hthumbnail))
    rw [pairOf_bind_widthOf, Option.ite_none_right_eq_some] at hbind
    rw [ownWidth, find?_eq_of_filter (h.one_width _ hmem) hparameter hbind.1, Option.bind_some,
      hbind.2]
  | none =>
    cases hown : ownWidth preference with
    | none => rfl
    | some width =>
      obtain ⟨item, hfind, hvalue⟩ := Option.bind_eq_some_iff.mp hown
      have hbind : (pairOf item).bind widthOf = some width := by
        rw [pairOf_bind_widthOf, if_pos (List.find?_some hfind), hvalue]
      obtain ⟨pair, hpairOf, hpairWidth⟩ := Option.bind_eq_some_iff.mp hbind
      have hpair := (h.mem_saidItems pair).mpr ⟨preference, hmem, item,
        List.mem_cons_of_mem _ (List.mem_of_find?_eq_some hfind), hpairOf⟩
      rw [widthOf_of_lastWidth hlast hpair] at hpairWidth
      exact absurd hpairWidth.symm (Option.some_ne_none width)

theorem asked_eq (h : IsRegular header) : asked header defaultWidth =
    if thumbnailPair ∈ saidItems header then
      some ((lastWidth (saidItems header)).getD defaultWidth)
    else none := by
  split
  · next hsaid =>
    obtain ⟨preference, hmem, hthumbnail⟩ := h.thumbnailPair_mem_iff.mp hsaid
    rw [asked, h.find?_variant hmem hthumbnail, Option.bind_some, if_pos hthumbnail,
      h.lastWidth_eq hmem hthumbnail]
  · next hsaid =>
    rw [asked, Option.bind_eq_none_iff]
    intro preference hfind
    exact if_neg fun hthumbnail ↦
      hsaid (h.thumbnailPair_mem_iff.mpr ⟨preference, List.mem_of_find?_eq_some hfind, hthumbnail⟩)

end IsRegular

/-- **Preferences.** For every regular list of preferences and every default width, the parser gives
what the list asks for: an answer exactly when one of its preferences is for a thumbnail, with the
width that this preference gives. -/
theorem parseThumbnailPref_asked {header : Header} (h : IsRegular header) (defaultWidth : ℕ) :
    parseThumbnailPref (some (bytesOf header)) defaultWidth = asked header defaultWidth ∧
      ((parseThumbnailPref (some (bytesOf header)) defaultWidth).isSome ↔
        ∃ preference ∈ header.preferences, WantsThumbnail preference) := by
  have hparse : parseThumbnailPref (some (bytesOf header)) defaultWidth =
      asked header defaultWidth := by
    rw [h.asked_eq, parseThumbnailPref_eq]
    simp only [isAscii_iff.mpr h.ascii, true_and]
  refine ⟨hparse, ?_⟩
  rw [hparse, h.asked_eq, ← h.thumbnailPair_mem_iff]
  split
  · next hsaid => exact iff_of_true rfl hsaid
  · next hsaid => exact iff_of_false Bool.false_ne_true hsaid

/-- No white space. -/
def noBlank : Blank := ⟨[], List.forall_mem_nil _⟩

def oneBlank : Blank := ⟨[' '], by simp⟩

/-- The header `variant=thumbnail, foo; width=5`. -/
def strayWidth : Header where
  first := ⟨noBlank, some ⟨⟨⟨"variant".toList, by decide, List.all_eq_true.mp (by decide)⟩,
    some (noBlank, noBlank,
      .token ⟨"thumbnail".toList, by decide, List.all_eq_true.mp (by decide)⟩)⟩, []⟩, noBlank⟩
  rest := [⟨oneBlank, some ⟨⟨⟨"foo".toList, by decide, List.all_eq_true.mp (by decide)⟩, none⟩,
    [⟨noBlank, oneBlank, some ⟨⟨"width".toList, by decide, List.all_eq_true.mp (by decide)⟩,
      some (noBlank, noBlank,
        .token ⟨"5".toList, by decide, List.all_eq_true.mp (by decide)⟩)⟩⟩]⟩, noBlank⟩]

/-- The width of another preference is taken. -/
theorem stray_width_taken :
    bytesOf strayWidth = utf8 "variant=thumbnail, foo; width=5".toList ∧
      parseThumbnailPref (some (bytesOf strayWidth)) 300 = some 5 ∧
      asked strayWidth 300 = some 300 := by
  decide +kernel

/-- The header `respond-async, Variant=Thumbnail; width=250`. -/
def capitalVariant : Header where
  first := ⟨noBlank, some ⟨⟨⟨"respond-async".toList, by decide, List.all_eq_true.mp (by decide)⟩,
    none⟩, []⟩, noBlank⟩
  rest := [⟨oneBlank, some ⟨⟨⟨"Variant".toList, by decide, List.all_eq_true.mp (by decide)⟩,
    some (noBlank, noBlank,
      .token ⟨"Thumbnail".toList, by decide, List.all_eq_true.mp (by decide)⟩)⟩,
    [⟨noBlank, oneBlank, some ⟨⟨"width".toList, by decide, List.all_eq_true.mp (by decide)⟩,
      some (noBlank, noBlank,
        .token ⟨"250".toList, by decide, List.all_eq_true.mp (by decide)⟩)⟩⟩]⟩, noBlank⟩]

instance : DecidablePred IsPlain := fun
  | .token _ => isTrue trivial
  | .quoted chars => inferInstanceAs (Decidable (∀ quoted ∈ chars,
      quoted.isEscaped = false ∧ isSeparator quoted.char = false))

/-- A width after the preference it belongs to. -/
theorem parseThumbnailPref_asked_capital :
    parseThumbnailPref (some (bytesOf capitalVariant)) 300 = some 250 := by
  have hregular : IsRegular capitalVariant :=
    ⟨isAscii_iff.mp (by decide), by decide, by decide, by decide, by decide, by decide, by decide⟩
  rw [(parseThumbnailPref_asked hregular 300).1]
  decide

end ComicStream.Server
