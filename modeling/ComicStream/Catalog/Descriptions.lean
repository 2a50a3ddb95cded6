import ComicStream.Catalog.Reading
import ComicStream.Rust.Cut

/-!
# The descriptions of folders

A description is cut at a byte before it is decoded. When the cut falls within a
character, a replacement character stands at its end, which the file need not
have, and which is longer than what was left of the character.
-/

namespace ComicStream.Catalog

open Rust

/-- The description is a beginning of the text, but for white space around it; all of a text that is
not longer than the cap, and never longer than the cap itself. -/
structure IsExcerpt (text description : List Char) : Prop where
  shown : ∃ shown, shown <+: text ∧ description = trim shown
  whole : (utf8 text).length ≤ maxDescriptionBytes → description = trim text
  length_le : (utf8 description).length ≤ maxDescriptionBytes
  subset : description ⊆ text

/-- The bytes of white space that a text starts with. -/
def leadingBytes (text : List Char) : ℕ := (utf8 (text.takeWhile isWhitespace)).length

/-- After `before`, which the cap keeps whole, the text has a replacement character of its own. Where
nothing shows before it, white space may come first. -/
def HasReplacement (before rest : List Char) : Prop :=
  rest.head? = some replacement ∨
    trimStart before = [] ∧ (trimStart rest).head? = some replacement

instance (before rest : List Char) : Decidable (HasReplacement before rest) :=
  inferInstanceAs (Decidable (_ ∨ _))

/-- The cap falls within a character, unless a replacement character is what the text has there, and
with the white space that is trimmed away there is room for it. -/
def CapSpoils (text : List Char) : Prop :=
  ∃ before c kept, CutsChar maxDescriptionBytes text before c kept ∧
    ¬(HasReplacement before (text.drop before.length) ∧
      replacement.utf8Size ≤ leadingBytes before + kept)

theorem length_utf8_trim_le (text : List Char) : (utf8 (trim text)).length ≤ (utf8 text).length := by
  obtain ⟨first, last, htext, -⟩ := exists_trim text
  calc
    (utf8 (trim text)).length ≤ (utf8 first).length + (utf8 (trim text)).length +
        (utf8 last).length := by omega
    _ = (utf8 (first ++ trim text ++ last)).length := by
      rw [utf8_append, utf8_append, List.length_append, List.length_append]
    _ = (utf8 text).length := by rw [← htext]

theorem trim_subset (text : List Char) : trim text ⊆ text := by
  obtain ⟨first, last, htext, -⟩ := exists_trim text
  intro c hc
  rw [htext]
  exact List.mem_append_left _ (List.mem_append_right _ hc)

theorem trim_isPrefix_trimStart {shown text : List Char} (h : shown <+: text) :
    trim shown <+: trimStart text := by
  obtain ⟨rest, rfl⟩ := h
  rcases forall_isWhitespace_or_eq_append shown with hblank | ⟨first, c, last, hc, rfl⟩
  · rw [trim_eq, trimStart_of_forall hblank]
    exact List.nil_prefix
  · have hend : trimEnd last <+: last := List.rdropWhile_prefix isWhitespace last
    rw [trim_append_cons _ _ hc, List.append_assoc, List.cons_append, trimStart_append_cons _ _ hc,
      List.prefix_append_right_inj, List.cons_prefix_cons]
    exact ⟨rfl, hend.trans (List.prefix_append last rest)⟩

theorem leadingBytes_add (text : List Char) :
    leadingBytes text + (utf8 (trimStart text)).length = (utf8 text).length := by
  rw [leadingBytes, trimStart, ← List.length_append, ← utf8_append, List.takeWhile_append_dropWhile]

theorem isExcerpt_of_take {text shown : List Char} (hshown : shown <+: text)
    (htake : (utf8 text).take maxDescriptionBytes = utf8 shown) : IsExcerpt text (trim shown) where
  shown := ⟨shown, hshown, rfl⟩
  whole hlength := by
    rw [List.take_of_length_le hlength] at htake
    rw [utf8_injective htake]
  length_le := by
    calc
      (utf8 (trim shown)).length ≤ (utf8 shown).length := length_utf8_trim_le shown
      _ = ((utf8 text).take maxDescriptionBytes).length := by rw [htake]
      _ ≤ maxDescriptionBytes := List.length_take_le ..
  subset := List.Subset.trans (trim_subset shown) hshown.subset

theorem isWhitespace_replacement : isWhitespace replacement = false := by decide

/-- Text that ends with a replacement character is a beginning of what is left of the text. -/
theorem exists_trim_eq_iff {text front : List Char} (hfront : trimStart front = front) :
    (∃ shown, shown <+: text ∧ front ++ [replacement] = trim shown) ↔
      front ++ [replacement] <+: trimStart text := by
  constructor
  · rintro ⟨shown, hshown, heq⟩
    rw [heq]
    exact trim_isPrefix_trimStart hshown
  · intro h
    refine ⟨text.takeWhile isWhitespace ++ (front ++ [replacement]), ?_, ?_⟩
    · conv_rhs => rw [← List.takeWhile_append_dropWhile (p := isWhitespace) (l := text)]
      exact (List.prefix_append_right_inj _).mpr h
    · rw [trim_append_left _ fun c hc ↦ List.mem_takeWhile_imp hc,
        trim_append_cons _ _ isWhitespace_replacement, hfront]
      rfl

theorem isPrefix_trimStart_iff (before rest : List Char) :
    trimStart before ++ [replacement] <+: trimStart (before ++ rest) ↔
      HasReplacement before rest := by
  have hsingle (text : List Char) :
      [replacement] <+: text ↔ text.head? = some replacement := by
    cases text with
    | nil => simp
    | cons c text => simp [List.cons_prefix_cons, eq_comm]
  rcases forall_isWhitespace_or_eq_append before with hblank | ⟨first, c, last, hc, hbefore⟩
  · rw [trimStart_append_left _ hblank, trimStart_of_forall hblank, List.nil_append, hsingle,
      HasReplacement, trimStart_of_forall hblank]
    refine ⟨fun h ↦ .inr ⟨rfl, h⟩, fun h ↦ h.elim (fun hhead ↦ ?_) And.right⟩
    cases rest with
    | nil => simp at hhead
    | cons d rest =>
      obtain rfl : d = replacement := by simpa using hhead
      rfl
  · have hshows : trimStart before ≠ [] := by
      rw [hbefore, trimStart_append_cons _ _ hc]
      simp
    have happend : trimStart (before ++ rest) = trimStart before ++ rest := by
      rw [hbefore, List.append_assoc, List.cons_append, trimStart_append_cons _ _ hc,
        trimStart_append_cons _ _ hc, List.append_assoc, List.cons_append]
    rw [happend, List.prefix_append_right_inj, hsingle, HasReplacement]
    simp [hshows]

section Cut

variable {text before : List Char} {c : Char} {kept : ℕ}

/-- The description of a text that is cut within a character. -/
theorem descriptionText_of_cutsChar (h : CutsChar maxDescriptionBytes text before c kept) :
    descriptionText (utf8 text) = trimStart before ++ [replacement] := by
  rw [descriptionText, h.fromUtf8Lossy_take, trim_append_cons _ _ isWhitespace_replacement]
  rfl

/-- Such a description is an excerpt only by chance. -/
theorem isExcerpt_of_cutsChar_iff (h : CutsChar maxDescriptionBytes text before c kept) :
    IsExcerpt text (trimStart before ++ [replacement]) ↔
      HasReplacement before (text.drop before.length) ∧
        replacement.utf8Size ≤ leadingBytes before + kept := by
  have hlength : (utf8 (trimStart before ++ [replacement])).length ≤ maxDescriptionBytes ↔
      replacement.utf8Size ≤ leadingBytes before + kept := by
    have hsum := h.length_eq
    have hleading := leadingBytes_add before
    have hlast : (utf8 [replacement]).length = replacement.utf8Size := by decide
    rw [utf8_append, List.length_append, hlast]
    omega
  have htext : before ++ text.drop before.length = text := by
    obtain ⟨after, rfl⟩ := h.isPrefix
    simp
  have hshown : (∃ shown, shown <+: text ∧ trimStart before ++ [replacement] = trim shown) ↔
      HasReplacement before (text.drop before.length) := by
    rw [exists_trim_eq_iff (trimStart_trimStart before), ← isPrefix_trimStart_iff, htext]
  constructor
  · intro hexcerpt
    exact ⟨hshown.mp hexcerpt.shown, hlength.mp hexcerpt.length_le⟩
  · rintro ⟨hreplacement, hroom⟩
    obtain ⟨shown, hprefix, heq⟩ := hshown.mpr hreplacement
    refine ⟨⟨shown, hprefix, heq⟩, fun hle ↦ ?_, hlength.mpr hroom, ?_⟩
    · exact absurd h.lt_length (not_lt.mpr hle)
    · rw [heq]
      exact List.Subset.trans (trim_subset shown) hprefix.subset

end Cut

variable {fs : Fs} {folder : OsPath} {content : Sourced (List UInt8)} {text : List Char}

/-- The description of a folder with a file that can be read. -/
theorem findDescription_eq
    (hread : fs.read (folder ++ [ascii "description.txt"]) = some content) :
    findDescription fs folder =
      if descriptionText content.value = [] then none
      else some ⟨descriptionText content.value, content.source⟩ := by
  have hfile : ∃ file, fs.stat (folder ++ [ascii "description.txt"]) = some (.file file) := by
    obtain ⟨resolved, hresolved, hnode⟩ := Option.bind_eq_some_iff.mp hread
    split at hnode
    · next file hfile =>
      exact ⟨file, by rw [Fs.stat, hresolved, Option.bind_some, hfile]⟩
    · simp at hnode
  obtain ⟨file, hstat⟩ := hfile
  rw [findDescription, descriptionNames, List.findSome?_singleton, hstat]
  dsimp only
  rw [hread, Option.bind_some]

/-- What is promised of the description of a text: an excerpt is stored, and only where all that is
within the cap is white space is there none. -/
structure IsDescribed (text : List Char) (found : Option (Sourced (List Char))) : Prop where
  excerpt : ∀ description ∈ found, IsExcerpt text description.value
  stored : found = none → ∀ shown, shown <+: text →
    (utf8 shown).length ≤ maxDescriptionBytes → ∀ c ∈ shown, isWhitespace c = true

theorem forall_isWhitespace_of_trim {text : List Char} (h : trim text = []) :
    ∀ c ∈ text, isWhitespace c = true := by
  rcases forall_isWhitespace_or_eq_append text with hblank | ⟨before, c, after, hc, rfl⟩
  · exact hblank
  · rw [trim_append_cons _ _ hc] at h
    simp at h

theorem subset_of_take {text kept shown : List Char} (hkept : kept <+: text)
    (htake : (utf8 text).take maxDescriptionBytes = utf8 kept) (hshown : shown <+: text)
    (hlength : (utf8 shown).length ≤ maxDescriptionBytes) : shown ⊆ kept := by
  rcases List.prefix_or_prefix_of_prefix hshown hkept with hprefix | ⟨rest, rfl⟩
  · exact hprefix.subset
  · obtain ⟨later, rfl⟩ := hshown
    have hall : (utf8 (kept ++ rest)).length ≤ (utf8 kept).length := by
      rw [← htake, utf8_append _ later, List.length_take, List.length_append]
      exact le_min hlength (Nat.le_add_right _ _)
    rw [utf8_append, List.length_append] at hall
    have hnil : rest = [] := by
      apply utf8_injective
      exact List.eq_nil_of_length_eq_zero (by omega)
    rw [hnil, List.append_nil]
    exact List.Subset.refl kept

/-- **Descriptions are clean excerpts.** The description of a text in UTF-8 is what is promised
exactly when the cap does not spoil the text. -/
theorem findDescription_isDescribed_iff
    (hread : fs.read (folder ++ [ascii "description.txt"]) = some content)
    (htext : content.value = utf8 text) :
    IsDescribed text (findDescription fs folder) ↔ ¬CapSpoils text := by
  rw [findDescription_eq hread, htext]
  constructor
  · rintro h ⟨before, c, kept, hcut, hspoils⟩
    rw [descriptionText_of_cutsChar hcut, if_neg (by simp)] at h
    exact hspoils ((isExcerpt_of_cutsChar_iff hcut).mp (h.excerpt _ rfl))
  · intro h
    rcases exists_cut maxDescriptionBytes text with ⟨kept, hkept, htake⟩ | ⟨before, c, kept, hcut⟩
    · have hdescription : descriptionText (utf8 text) = trim kept := by
        rw [descriptionText, htake, fromUtf8Lossy_utf8]
      rw [hdescription]
      split
      · next hnil =>
        refine ⟨by simp, fun _ shown hshown hlength c hc ↦ ?_⟩
        exact forall_isWhitespace_of_trim hnil c (subset_of_take hkept htake hshown hlength hc)
      · refine ⟨fun description hfound ↦ ?_, by simp⟩
        rw [← Option.mem_some_iff.mp hfound]
        exact isExcerpt_of_take hkept htake
    · rw [descriptionText_of_cutsChar hcut, if_neg (by simp)]
      refine ⟨fun description hfound ↦ ?_, by simp⟩
      rw [← Option.mem_some_iff.mp hfound, isExcerpt_of_cutsChar_iff hcut]
      by_contra hspoils
      exact h ⟨before, c, kept, hcut, hspoils⟩

theorem not_capSpoils_of_ascii {text : List Char} (h : ∀ c ∈ text, c.toNat < 128) :
    ¬CapSpoils text := by
  rintro ⟨before, c, kept, hcut, -⟩
  have hmem : c ∈ text := hcut.isPrefix.subset (by simp)
  have hlt := hcut.kept_lt
  rw [utf8Size_eq_one (h c hmem)] at hlt
  exact absurd hcut.kept_pos (by omega)

/-- A folder `/lib` with a description. -/
def describedFs (text : List Char) : Fs where
  mtime := 0
  entries := .dir (ascii "lib") 0 true
    (.file (ascii "description.txt") ⟨utf8 text, 0, true⟩ .nil) .nil
  distinct := rfl

theorem read_describedFs (text : List Char) :
    (describedFs text).read ([ascii "lib"] ++ [ascii "description.txt"]) =
      some ⟨utf8 text, [ascii "lib", ascii "description.txt"]⟩ := rfl

/-- So many letters. -/
def letters (count : ℕ) : List Char := List.replicate count 'a'

theorem toNat_of_mem_letters {count : ℕ} : ∀ c ∈ letters count, c.toNat < 128 := by
  intro c hc
  rw [List.eq_of_mem_replicate hc]
  decide

theorem isWhitespace_of_mem_letters {count : ℕ} : ∀ c ∈ letters count, isWhitespace c = false := by
  intro c hc
  rw [List.eq_of_mem_replicate hc]
  decide

theorem trimStart_letters (count : ℕ) : trimStart (letters count) = letters count :=
  trimStart_word (List.forall_mem_nil _) isWhitespace_of_mem_letters

theorem utf8_letters (count : ℕ) : utf8 (letters count) = List.replicate count 97 := by
  rw [utf8_eq_map toNat_of_mem_letters, letters, List.map_replicate]
  rfl

theorem length_utf8_letters (count : ℕ) : (utf8 (letters count)).length = count := by
  rw [utf8_letters, List.length_replicate]

/-- A long description in ASCII is cut, and nothing else. -/
theorem findDescription_isDescribed_letters :
    findDescription (describedFs (letters 20000)) [ascii "lib"] =
      some ⟨letters maxDescriptionBytes, [ascii "lib", ascii "description.txt"]⟩ ∧
    IsDescribed (letters 20000) (findDescription (describedFs (letters 20000)) [ascii "lib"]) := by
  have htake : (utf8 (letters 20000)).take maxDescriptionBytes =
      utf8 (letters maxDescriptionBytes) := by
    rw [utf8_letters, utf8_letters, List.take_replicate]
    rfl
  have hdescription : descriptionText (utf8 (letters 20000)) = letters maxDescriptionBytes := by
    rw [descriptionText, htake, fromUtf8Lossy_utf8,
      trim_of_forall isWhitespace_of_mem_letters]
  have hne : letters maxDescriptionBytes ≠ [] := by
    intro hnil
    have hlength := length_utf8_letters maxDescriptionBytes
    rw [hnil] at hlength
    exact absurd hlength (by decide)
  have hfound : findDescription (describedFs (letters 20000)) [ascii "lib"] =
      some ⟨letters maxDescriptionBytes, [ascii "lib", ascii "description.txt"]⟩ := by
    rw [findDescription_eq (read_describedFs (letters 20000)), hdescription, if_neg hne]
  exact ⟨hfound, (findDescription_isDescribed_iff (read_describedFs (letters 20000)) rfl).mpr
    (not_capSpoils_of_ascii toNat_of_mem_letters)⟩

/-- The last letter of this text is `é`, whose two bytes are on both sides of the cap. -/
def accentedText : List Char := letters (maxDescriptionBytes - 1) ++ [Char.ofNat 0xE9]

/-- In its place stands a character that the text does not have, beyond the cap. -/
theorem accented_description :
    findDescription (describedFs accentedText) [ascii "lib"] =
      some ⟨letters (maxDescriptionBytes - 1) ++ [replacement],
        [ascii "lib", ascii "description.txt"]⟩ ∧
    (utf8 (letters (maxDescriptionBytes - 1) ++ [replacement])).length =
      maxDescriptionBytes + 2 ∧
    replacement ∉ accentedText ∧
    ¬IsDescribed accentedText (findDescription (describedFs accentedText) [ascii "lib"]) := by
  have hcut : CutsChar maxDescriptionBytes accentedText (letters (maxDescriptionBytes - 1))
      (Char.ofNat 0xE9) 1 :=
    ⟨List.prefix_rfl, by decide, by decide, by rw [length_utf8_letters]; rfl⟩
  have hdescription := descriptionText_of_cutsChar hcut
  rw [trimStart_letters] at hdescription
  have hlength : (utf8 (letters (maxDescriptionBytes - 1) ++ [replacement])).length =
      maxDescriptionBytes + 2 := by
    rw [utf8_append, List.length_append, length_utf8_letters]
    decide
  have hfound : findDescription (describedFs accentedText) [ascii "lib"] =
      some ⟨letters (maxDescriptionBytes - 1) ++ [replacement],
        [ascii "lib", ascii "description.txt"]⟩ := by
    rw [findDescription_eq (read_describedFs accentedText), hdescription, if_neg (by simp)]
  refine ⟨hfound, hlength, ?_, ?_⟩
  · intro hmem
    rcases List.mem_append.mp hmem with hmem | hmem
    · exact absurd (toNat_of_mem_letters _ hmem) (by decide)
    · exact absurd (List.mem_singleton.mp hmem) (by decide)
  · intro hdescribed
    exact absurd (hdescribed.excerpt _ hfound).length_le (by rw [hlength]; decide)

end ComicStream.Catalog
