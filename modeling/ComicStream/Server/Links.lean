import ComicStream.Server.Address
import ComicStream.Server.Coherence
import ComicStream.Server.Traversal

/-!
# Following links

A client reads a feed and asks for what its links lead to. It fills the page number
into the template of a book's page stream, and writes a query into the template of
the search in whatever way it escapes queries.
-/

namespace ComicStream.Server

open Rust Xml Percent Archive Catalog Machine Opds

/-- The character has no meaning of its own in an address, and is one byte. -/
def isPlainChar (c : Char) : Bool := c.toNat < 128 && c != '/' && c != '?' && c != '%'

/-- A text that is a segment of a path as it is. -/
def IsPlainText (text : List Char) : Prop := text ≠ [] ∧ text.all isPlainChar = true

instance (text : List Char) : Decidable (IsPlainText text) :=
  inferInstanceAs (Decidable (text ≠ [] ∧ text.all isPlainChar = true))

section Plain

variable {text : List Char}

theorem IsPlainText.notMem_utf8 (h : IsPlainText text) {c : Char} (hc : isPlainChar c = false)
    (hascii : c.toNat < 128) : c.val.toUInt8 ∉ utf8 text := by
  have hplain : ∀ d ∈ text, isPlainChar d = true := List.all_eq_true.mp h.2
  have hlt : ∀ d ∈ text, d.toNat < 128 := fun d hd ↦ by
    have hd := hplain d hd
    simp only [isPlainChar, Bool.and_eq_true, decide_eq_true_eq] at hd
    exact hd.1.1.1
  rw [utf8_eq_map hlt]
  intro hmem
  obtain ⟨d, hd, heq⟩ := List.mem_map.mp hmem
  have hvalue (e : Char) : e.val.toUInt8.toNat = e.toNat % 256 := UInt32.toNat_toUInt8 ..
  have hbyte : d.toNat % 256 = c.toNat % 256 := by rw [← hvalue, ← hvalue, heq]
  have hsame : d = c := Char.toNat_inj.mp (by have hltd := hlt d hd; omega)
  rw [← hsame, hplain d hd] at hc
  exact absurd hc (by decide)

theorem IsPlainText.isVerbatim (h : IsPlainText text) : IsVerbatim (utf8 text) where
  ne_nil hnil := h.1 (utf8_injective hnil)
  slash_notMem := @IsPlainText.notMem_utf8 _ h '/' (by decide) (by decide)
  question_notMem := @IsPlainText.notMem_utf8 _ h '?' (by decide) (by decide)
  percent_notMem := @IsPlainText.notMem_utf8 _ h '%' (by decide) (by decide)

theorem IsPlainText.pathText (h : IsPlainText text) : pathText (utf8 text) = some text := by
  rw [Server.pathText, decode_of_notMem h.isVerbatim.percent_notMem]
  exact fromUtf8_eq_some.mpr rfl

end Plain

/-- A text of letters and digits. -/
def IsWord (text : List Char) : Prop := text ≠ [] ∧ ∀ c ∈ text, c.isAlphanum = true

theorem toNat_of_isAlphanum {c : Char} (h : c.isAlphanum = true) :
    (48 ≤ c.toNat ∧ c.toNat ≤ 57) ∨ (65 ≤ c.toNat ∧ c.toNat ≤ 90) ∨
      (97 ≤ c.toNat ∧ c.toNat ≤ 122) := by
  change ((decide (65 ≤ c.toNat ∧ c.toNat ≤ 90) || (decide (97 ≤ c.toNat) && decide (c.toNat ≤ 122))) ||
    (decide (48 ≤ c.toNat) && decide (c.toNat ≤ 57))) = true at h
  simp only [Bool.or_eq_true, Bool.and_eq_true, decide_eq_true_eq] at h
  rcases h with (hupper | hlower) | hdigit
  · exact .inr (.inl hupper)
  · exact .inr (.inr hlower)
  · exact .inl hdigit

theorem IsWord.isPlainText {text : List Char} (h : IsWord text) : IsPlainText text := by
  refine ⟨h.1, List.all_eq_true.mpr fun c hc ↦ ?_⟩
  have hrange := toNat_of_isAlphanum (h.2 c hc)
  have hne (d : Char) (hd : d.toNat < 48 ∨ d.toNat = 63) : c ≠ d := by
    rintro rfl
    omega
  simp only [isPlainChar, Bool.and_eq_true, decide_eq_true_eq, bne_iff_ne]
  exact ⟨⟨⟨by omega, hne '/' (by decide)⟩, hne '?' (by decide)⟩, hne '%' (by decide)⟩

theorem Opds.IsSlug.isPlainText {slug : List Char} (h : IsSlug slug) : IsPlainText slug :=
  IsWord.isPlainText ⟨h.isAlphanum.1, List.all_eq_true.mp h.isAlphanum.2⟩

theorem isPlainText_decimal (n : ℕ) : IsPlainText (decimal n) := by
  refine IsWord.isPlainText ⟨(isDecimal_decimal n).ne_nil, fun c hc ↦ ?_⟩
  rw [Char.isAlphanum, (isDecimal_decimal n).isDigit c hc, Bool.or_true]

/-- The address of the segments given. -/
def hrefOf (parts : List (List Char)) : List Char := parts.flatMap ('/' :: ·)

theorem utf8_hrefOf (parts : List (List Char)) : utf8 (hrefOf parts) = address (parts.map utf8) := by
  induction parts with
  | nil => rfl
  | cons part parts ih =>
    rw [hrefOf, List.flatMap_cons, utf8_append, utf8_cons, List.map_cons, address, List.flatMap_cons]
    exact congrArg₂ _ rfl ih

section Dispatch

variable {width : ℕ} {prefer : Option (List UInt8)} {pattern : String} {handler : Handler}
  {parts : List (List Char)} {params : List (List UInt8)}

theorem dispatch_hrefOf (hparts : ∀ part ∈ parts, IsPlainText part)
    (hroute : (pattern, handler) ∈ router)
    (hcaptures : captures (patternSegments pattern) ([] :: parts.map utf8) = some params)
    (hmethod : handler.answers .get = true) :
    dispatch width .get (utf8 (hrefOf parts)) prefer = extract width prefer [] handler params := by
  have hverbatim : ∀ part ∈ parts.map utf8, IsVerbatim part :=
    List.forall_mem_map.mpr fun part hpart ↦ (hparts part hpart).isVerbatim
  rw [utf8_hrefOf]
  exact dispatch_address hverbatim hroute hcaptures hmethod

theorem dispatch_page {hash : List Char} (h : IsPlainText hash) {n : ℕ} (hn : n < 2 ^ 63) :
    dispatch width .get (utf8 (hrefOf [str "books", hash, str "pages", decimal n])) prefer =
      .catalog (.bookPage hash n false (parseThumbnailPref prefer width)) := by
  have hparts : ∀ part ∈ [str "books", hash, str "pages", decimal n], IsPlainText part :=
    List.forall_mem_cons.mpr ⟨by decide, List.forall_mem_cons.mpr ⟨h,
      List.forall_mem_cons.mpr ⟨by decide,
        List.forall_mem_singleton.mpr (isPlainText_decimal n)⟩⟩⟩
  have hpattern : patternSegments "/books/:hash/pages/:n" =
      [[], utf8 (str "books"), utf8 (str ":hash"), utf8 (str "pages"), utf8 (str ":n")] := by
    decide
  have hcaptures : captures (patternSegments "/books/:hash/pages/:n")
      ([] :: [str "books", hash, str "pages", decimal n].map utf8) =
        some [utf8 hash, utf8 (decimal n)] := by
    rw [hpattern, List.map_cons, List.map_cons, List.map_cons, List.map_cons,
      captures_literal (by decide), captures_literal (by decide),
      captures_parameter (by decide) h.isVerbatim.ne_nil, captures_literal (by decide),
      captures_parameter (by decide) (isPlainText_decimal n).isVerbatim.ne_nil]
    rfl
  have hquery : pageParams [] = some false := by decide
  rw [@dispatch_hrefOf _ _ "/books/:hash/pages/:n" .bookPage _ _ hparts (by decide) hcaptures
    (by decide), extract, h.pathText, (isPlainText_decimal n).pathText, Option.bind_some,
    (isDecimal_decimal n).parseI64 hn, hquery]

end Dispatch

/-- What a row says of the content that it has the hash of. -/
structure Describes (crates : Crates) (bytes : List UInt8) (row : BookRow) : Prop where
  hash : crates.blake3 bytes = row.hash
  fileSize : bytes.length = row.fileSize
  archive : ∃ kind pages, Kind.ofMagic bytes = some kind ∧ kind.format = row.format ∧
    crates.reader.pages bytes kind = some pages ∧ pages.length = row.pageCount

theorem exists_stat_of_read {fs : Fs} {path : OsPath} {content : Sourced (List UInt8)}
    (h : fs.read path = some content) :
    ∃ file, fs.stat path = some (.file file) ∧ content.value = file.bytes := by
  obtain ⟨resolved, hresolved, hnode⟩ := Option.bind_eq_some_iff.mp h
  split at hnode
  · next file hfile =>
    obtain ⟨-, hcontent⟩ := Option.ite_none_right_eq_some.mp hnode
    rw [Option.some.injEq] at hcontent
    refine ⟨file, ?_, by rw [← hcontent]⟩
    rw [Fs.stat, hresolved, Option.bind_some, hfile]
  · simp at hnode

theorem describes_of_stores {crates : Crates} {faults : OsPath → Bool} {fs : Fs} {db : Db}
    {path : OsPath} {name : OsName} {folderId seenAt size : ℕ} {row : BookRow}
    (hdb : ∀ old ∈ db.books, ∃ bytes, Describes crates bytes old)
    (hsize : (fileInfo crates.toTools faults fs path).size = some size)
    (h : Stores db path name folderId seenAt (fileInfo crates.toTools faults fs path) size row) :
    ∃ bytes, Describes crates bytes row := by
  cases h with
  | stamped old hold hpath hunchanged =>
    obtain ⟨bytes, hbytes⟩ := hdb old hold
    exact ⟨bytes, hbytes.hash, hbytes.fileSize, hbytes.archive⟩
  | written hash kind pageCount id addedAt hhash hkind hpages hpos hmax =>
    obtain ⟨book, hopen, hcount⟩ := Option.map_eq_some_iff.mp hpages
    obtain ⟨-, content, hread, hmagic, hbookPages⟩ := openBook_eq_some.mp hopen
    obtain ⟨found, hfound, hfoundHash⟩ := Option.map_eq_some_iff.mp hhash
    rw [hread, Option.some.injEq] at hfound
    obtain ⟨file, hstat, hfile⟩ := exists_stat_of_read hread
    have hkindOf : detect fs path = some kind := hkind
    rw [detect, hread, Option.bind_some, hmagic, Option.some.injEq] at hkindOf
    rw [fileInfo, hstat, Option.some.injEq] at hsize
    refine ⟨content.value, ?_, ?_, book.kind, book.pages, hmagic, ?_, hbookPages, hcount⟩
    · rw [hfound]
      exact hfoundHash
    · rw [hfile]
      exact hsize
    · rw [hkindOf]
      rfl

theorem describes_stateAfter (config : Config) (crates : Crates) (fs : Fs) (events : List Event) :
    ∀ row ∈ (stateAfter config crates fs events).db.books, ∃ bytes, Describes crates bytes row := by
  refine @run_invariant State Event (step config crates)
    (fun state ↦ ∀ row ∈ state.db.books, ∃ bytes, Describes crates bytes row) ?_ _ events
    (by simp [State.start, Db.empty])
  intro state event hstate
  rcases @step_db config crates state event with hsame | ⟨started, faults, hnext⟩
  · rw [hsame]
    exact hstate
  · refine (@Scan.rows_induction crates.xxh3 (scanOf config crates state started faults) state.db _
      (fun _ ↦ True) (fun row ↦ ∃ bytes, Describes crates bytes row) ⟨fun _ _ ↦ trivial, hstate⟩
      (fun _ _ _ _ _ _ _ ↦ trivial) (fun _ _ _ ↦ trivial) ?_ hnext).2
    intro before path name folderId info size row hbefore hfile hsize hstores
    have hinfo : info = fileInfo crates.toTools faults state.fs path := info_of_mem_files hfile
    rw [hinfo] at hsize hstores
    exact describes_of_stores hbefore hsize hstores

section Serves

variable {config : Config} {crates : Crates} {state : State} {row : BookRow}

end Serves

end ComicStream.Server
