import ComicStream.Catalog.NoLoss
import ComicStream.Catalog.Tokens
import ComicStream.Server.Coherence
import ComicStream.Server.Feeds
import ComicStream.Server.Reader

/-!
# The characters of a feed

XML 1.0 does not allow every character, not even as a reference. Nothing that the
server writes into a feed on its own account is in the way, and escapes leave every
other character as it is: a feed is well formed exactly when the names and the
descriptions in it, and what was searched for, have no such character in them.
-/

namespace ComicStream.Server

open Rust Xml Catalog Opds

/-- A document of allowed characters that is read as balanced. -/
def IsWellFormed (document : List Char) : Prop :=
  IsXmlText document ∧ (read document).isSome = true

/-- The names and the descriptions in a list of entries. -/
def rowTexts (folders : List FolderRow) (books : List BookRow) : List (List Char) :=
  folders.flatMap (fun row ↦ row.name :: (row.description.map Sourced.value).toList) ++
    books.map BookRow.name

/-- The texts from names, descriptions and queries that a feed shows. -/
def Request.texts (crates : Crates) (db : Db) : Request → List (List Char)
  | .opdsRoot => (db.folders.find? (·.parentId = none)).elim [] fun root ↦
    root.name :: rowTexts (listedFolders db root) (listedBooks db root)
  | .opdsFolder slug => (folderBySlug db slug).elim [] fun folder ↦
    folder.name :: rowTexts (listedFolders db folder) (listedBooks db folder)
  | .opdsSearch q => (search db crates.like (trim q)).elim [] fun found ↦
    trim q :: rowTexts found.1 found.2
  | _ => []

theorem isXmlText_ofList (text : List Char) (h : text.all isXmlChar = true) :
    IsXmlText (str (String.ofList text)) := by
  rw [str, String.toList_ofList]
  exact List.all_eq_true.mp h

theorem isXmlText_of_isDigit {text : List Char} (h : ∀ c ∈ text, c.isDigit = true) :
    IsXmlText text := by
  intro c hc
  have hdigit := isDigit_iff.mp (h c hc)
  exact isXmlChar_of_le (by omega) (by omega)

theorem isXmlText_decimal (n : ℕ) : IsXmlText (decimal n) :=
  isXmlText_of_isDigit (isDecimal_decimal n).isDigit

theorem isXmlText_decimalInt (n : ℤ) : IsXmlText (decimalInt n) := by
  cases n with
  | ofNat n => exact isXmlText_decimal n
  | negSucc n => exact isXmlText_cons.mpr ⟨by decide, isXmlText_decimal _⟩

theorem isXmlText_time {time : List Char} (h : ∀ c ∈ time, IsTimeChar c) : IsXmlText time := by
  intro c hc
  rcases h c hc with hdigit | rfl | rfl | rfl | rfl | rfl | rfl
  · exact isXmlText_of_isDigit (by simpa using hdigit) c (List.mem_singleton_self c)
  all_goals decide

theorem isXmlText_hex16 (value : UInt64) : IsXmlText (hex16 value) := by
  have hdigit : ∀ digit < 16, isXmlChar (hexDigit digit) = true := by decide
  intro c hc
  obtain ⟨place, -, rfl⟩ := List.mem_map.mp hc
  exact hdigit _ (Nat.mod_lt _ (by decide))

theorem Opds.IsSlug.isXmlText {slug : List Char} (h : IsSlug slug) : IsXmlText slug := by
  obtain ⟨value, rfl⟩ := h
  exact isXmlText_hex16 value

theorem isXmlText_percentEncode (text : List Char) : IsXmlText (percentEncode text) := by
  have hdigit : ∀ digit < 16, isXmlChar (hexDigit digit).toUpper = true := by decide
  have hname : ∀ c : Char, c.isAlphanum = true → isXmlChar c = true :=
    fun c hc ↦ isXmlChar_of_isNameChar (by simp [isNameChar, hc])
  intro c hc
  obtain ⟨byte, -, hc⟩ := List.mem_flatMap.mp hc
  have hbyte := byte.toNat_lt
  split at hc
  · next halphanum =>
    rw [List.mem_singleton.mp hc]
    exact hname _ halphanum
  · simp only [List.mem_cons, List.not_mem_nil, or_false] at hc
    rcases hc with rfl | rfl | rfl
    · decide
    · exact hdigit _ (by omega)
    · exact hdigit _ (by omega)

theorem isXmlText_bookMime (format : List Char) : IsXmlText (bookMime format) := by
  unfold bookMime
  split_ifs
  · exact isXmlText_ofList _ (by decide)
  · exact isXmlText_ofList _ (by decide)
  · exact isXmlText_ofList _ (by decide)

theorem isXmlText_navType : IsXmlText navType := isXmlText_ofList _ (by decide)

theorem isXmlText_acqType : IsXmlText acqType := isXmlText_ofList _ (by decide)

theorem isXmlText_jpegType : IsXmlText (str "image/jpeg") := isXmlText_ofList _ (by decide)

section Elements

variable {chrono : Chrono}

theorem link_all {rel : String} (hrel : IsXmlText (str rel)) {href type : List Char}
    (hhref : IsXmlText href) (htype : IsXmlText type) {more : Attributes}
    (hmore : ∀ item ∈ more, IsXmlText item.2) :
    (link (linkTo rel href type ++ more)).All IsXmlText := by
  refine ⟨fun item hitem ↦ ?_, by simp [link]⟩
  rcases List.mem_append.mp hitem with hitem | hitem
  · simp only [linkTo, List.mem_cons, List.not_mem_nil, or_false] at hitem
    rcases hitem with rfl | rfl | rfl
    · exact hrel
    · exact hhref
    · exact htype
  · exact hmore item hitem

theorem folderLinks_all {f : Opds.Folder} (hslug : IsXmlText f.slug)
    (hversion : ∀ version ∈ f.coverVersion, IsXmlText version) :
    ∀ element ∈ (folderLinks f).map link, element.All IsXmlText := by
  have hcover : IsXmlText (coverHref f) := by
    have hquery : IsXmlText (f.coverVersion.elim [] fun version ↦ str "?v=" ++ version) := by
      cases hfound : f.coverVersion with
      | none => exact isXmlText_nil
      | some version =>
        exact isXmlText_append.mpr ⟨isXmlText_ofList _ (by decide), hversion version hfound⟩
    simp only [coverHref, isXmlText_append, hslug, hquery, and_true]
    exact ⟨isXmlText_ofList _ (by decide), isXmlText_ofList _ (by decide)⟩
  have hfolder : IsXmlText (folderHref f.slug) :=
    isXmlText_append.mpr ⟨isXmlText_ofList _ (by decide), hslug⟩
  rw [List.forall_mem_map, folderLinks, List.forall_mem_cons, List.forall_mem_singleton]
  exact ⟨link_all (isXmlText_ofList _ (by decide)) hcover isXmlText_jpegType (by simp),
    link_all (isXmlText_ofList _ (by decide)) hfolder isXmlText_navType (by simp)⟩

theorem bookLinks_all {b : Opds.Book} (hhash : IsXmlText b.hash) :
    ∀ element ∈ (bookLinks b).map link, element.All IsXmlText := by
  have hhref {part : String} (hpart : IsXmlText (str part)) : IsXmlText (bookHref b part) := by
    simp only [bookHref, isXmlText_append, hhash, hpart, and_true]
    exact isXmlText_ofList _ (by decide)
  have hpages := hhref (isXmlText_ofList _ (by decide) :
    IsXmlText (str "/pages/\x7bpageNumber\x7d"))
  rw [List.forall_mem_map]
  simp only [bookLinks, List.forall_mem_cons, List.not_mem_nil, false_imp_iff, implies_true, and_true]
  refine ⟨?_, ?_, ?_, ?_⟩
  · exact link_all (isXmlText_ofList _ (by decide)) (hhref (isXmlText_ofList _ (by decide)))
      isXmlText_jpegType (by simp)
  · exact link_all (isXmlText_ofList _ (by decide)) (hhref (isXmlText_ofList _ (by decide)))
      isXmlText_jpegType (by simp)
  · exact link_all (isXmlText_ofList _ (by decide)) hpages isXmlText_jpegType
      (by simp [isXmlText_decimalInt])
  · exact link_all (isXmlText_ofList _ (by decide)) (hhref (isXmlText_ofList _ (by decide)))
      (isXmlText_bookMime _) (by simp [isXmlText_decimalInt])

theorem entry_all (elements : List Element) :
    (entry elements).All IsXmlText ↔ ∀ element ∈ elements, element.All IsXmlText := by
  have hbefore : IsXmlText (str "\n    ") := isXmlText_ofList _ (by decide)
  have hlast : IsXmlText (str "\n  ") := isXmlText_ofList _ (by decide)
  simp [entry, Element.All, Content.block_all hbefore hlast]

theorem folder_all (htimes : ∀ time, ∀ c ∈ chrono.toRfc3339 time, IsTimeChar c)
    (now : chrono.DateTime) {f : Opds.Folder} (hslug : IsXmlText f.slug)
    (hversion : ∀ version ∈ f.coverVersion, IsXmlText version) :
    (entry (folderElements chrono now f)).All IsXmlText ↔
      IsXmlText f.name ∧ ∀ description ∈ f.description, IsXmlText description := by
  have hid : IsXmlText (str "urn:comicstream:folder:") := isXmlText_ofList _ (by decide)
  have htext : IsXmlText (str "text") := isXmlText_ofList _ (by decide)
  have htime := isXmlText_time (htimes ((chrono.fromTimestamp f.mtime).getD now))
  have hlinks := folderLinks_all hslug hversion
  rw [entry_all, folderElements, List.forall_mem_append, and_iff_left hlinks]
  cases f.description with
  | none => simp [hid, hslug, tsToRfc3339, htime]
  | some description => simp [hid, hslug, htext, tsToRfc3339, htime]

theorem book_all (htimes : ∀ time, ∀ c ∈ chrono.toRfc3339 time, IsTimeChar c)
    (now : chrono.DateTime) {b : Opds.Book} (hhash : IsXmlText b.hash) :
    (entry (bookElements chrono now b)).All IsXmlText ↔ IsXmlText b.name := by
  have hid : IsXmlText (str "urn:comicstream:book:") := isXmlText_ofList _ (by decide)
  have htime := isXmlText_time (htimes ((chrono.fromTimestamp (max b.addedAt b.mtime)).getD now))
  have hlinks := bookLinks_all hhash
  rw [entry_all, bookElements, List.forall_mem_append, and_iff_left hlinks]
  simp [hid, hhash, tsToRfc3339, htime]

/-- Only its title and the address it gives itself or its parent can spoil a feed, besides its
entries. -/
theorem feedLinks_all {ctx : FeedCtx chrono} (hself : IsXmlText ctx.selfHref)
    (hup : ∀ up ∈ ctx.upHref, IsXmlText up) :
    ∀ element ∈ (feedLinks ctx).map link, element.All IsXmlText := by
  have htype : IsXmlText (if ctx.kindAcquisition then acqType else navType) := by
    split
    · exact isXmlText_acqType
    · exact isXmlText_navType
  have hsearch : (link [(Attr.rel, str "search"),
      (Attr.type, str "application/opensearchdescription+xml"),
      (Attr.href, str "/opds/opensearch.xml")]).All IsXmlText := by
    refine ⟨?_, by simp [link]⟩
    simp only [link, List.forall_mem_cons, List.not_mem_nil, false_imp_iff, implies_true, and_true]
    exact ⟨isXmlText_ofList _ (by decide), isXmlText_ofList _ (by decide),
      isXmlText_ofList _ (by decide)⟩
  rw [List.forall_mem_map, feedLinks, List.forall_mem_append]
  refine ⟨?_, ?_⟩
  · simp only [List.forall_mem_cons, List.not_mem_nil, false_imp_iff, implies_true, and_true]
    exact ⟨link_all (isXmlText_ofList _ (by decide)) hself htype (by simp),
      link_all (isXmlText_ofList _ (by decide)) (isXmlText_ofList _ (by decide)) isXmlText_navType
        (by simp), hsearch⟩
  · cases hfound : ctx.upHref with
    | none => simp
    | some up =>
      rw [Option.map_some, Option.toList_some, List.forall_mem_singleton]
      exact link_all (isXmlText_ofList _ (by decide)) (hup up hfound) isXmlText_navType (by simp)

theorem forall_mem_mapIdx {α : Type} {element : ℕ → α → Element} {isOk : α → Prop} {items : List α}
    (h : ∀ n, ∀ item ∈ items, (element n item).All IsXmlText ↔ isOk item) :
    (∀ made ∈ items.mapIdx element, made.All IsXmlText) ↔ ∀ item ∈ items, isOk item := by
  induction items generalizing element with
  | nil => simp
  | cons item items ih =>
    rw [List.mapIdx_cons, List.forall_mem_cons, List.forall_mem_cons, h 0 item List.mem_cons_self,
      ih fun n other hother ↦ h (n + 1) other (List.mem_cons_of_mem _ hother)]

theorem feedContent_all {now : ℕ → chrono.DateTime} {ctx : FeedCtx chrono}
    {subfolders : List Opds.Folder} {books : List Opds.Book} :
    (feedContent chrono now ctx subfolders books).All IsXmlText ↔
      ∀ element ∈ feedElements chrono now ctx subfolders books, element.All IsXmlText := by
  have hline : IsXmlText (str "\n") := isXmlText_ofList _ (by decide)
  have hindent : IsXmlText (str "\n  ") := isXmlText_ofList _ (by decide)
  have hatom : IsXmlText atomNs := isXmlText_ofList _ (by decide)
  have hopds : IsXmlText opdsNs := isXmlText_ofList _ (by decide)
  have hpse : IsXmlText pseNs := isXmlText_ofList _ (by decide)
  rw [feedContent, Content.block_all hline hline, List.forall_mem_singleton, feedElement]
  simp [Element.All, hatom, hopds, hpse, Content.block_all hindent hline]

theorem feedHead_all (htimes : ∀ time, ∀ c ∈ chrono.toRfc3339 time, IsTimeChar c)
    {ctx : FeedCtx chrono} (hid : IsXmlText ctx.feedId) :
    (∀ element ∈ [.ofText Tag.id [] ctx.feedId, .ofText Tag.title [] ctx.title,
      .ofText Tag.updated [] (chrono.toRfc3339 ctx.updated),
      ⟨Tag.author, [], some (.block [] [.ofText Tag.name [] (str "ComicStream")] [])⟩],
      Element.All IsXmlText element) ↔ IsXmlText ctx.title := by
  have hname : IsXmlText (str "ComicStream") := isXmlText_ofList _ (by decide)
  have htime := isXmlText_time (htimes ctx.updated)
  have hauthor : Element.All IsXmlText
      ⟨Tag.author, [], some (.block [] [.ofText Tag.name [] (str "ComicStream")] [])⟩ := by
    have hinner : (Element.ofText Tag.name [] (str "ComicStream")).All IsXmlText := by simp [hname]
    refine ⟨by simp, ?_⟩
    simpa [Content.block_all isXmlText_nil isXmlText_nil] using hinner
  simp [hid, htime, hauthor]

/-- The texts that a feed is given are all that can spoil it. -/
theorem isXmlText_buildFeed (htimes : ∀ time, ∀ c ∈ chrono.toRfc3339 time, IsTimeChar c)
    (now : ℕ → chrono.DateTime) {ctx : FeedCtx chrono} {subfolders : List Opds.Folder}
    {books : List Opds.Book} (hid : IsXmlText ctx.feedId) (hself : IsXmlText ctx.selfHref)
    (hup : ∀ up ∈ ctx.upHref, IsXmlText up) (hslugs : ∀ f ∈ subfolders, IsSlug f.slug)
    (hversions : ∀ f ∈ subfolders, ∀ version ∈ f.coverVersion, IsXmlText version)
    (hhashes : ∀ b ∈ books, IsXmlText b.hash) :
    IsXmlText (buildFeed chrono now ctx subfolders books) ↔
      IsXmlText ctx.title ∧
      (∀ f ∈ subfolders, IsXmlText f.name ∧
        ∀ description ∈ f.description, IsXmlText description) ∧
      ∀ b ∈ books, IsXmlText b.name := by
  have hdeclaration : IsXmlText declaration := isXmlText_ofList _ (by decide)
  have hopen : isXmlChar '<' = true ∧ isXmlChar '?' = true := by decide
  have hfolders := forall_mem_mapIdx fun n (f : Opds.Folder) hf ↦
    @folder_all chrono htimes (now n) f (hslugs f hf).isXmlText (hversions f hf)
  have hbooks := forall_mem_mapIdx fun n (b : Opds.Book) hb ↦
    @book_all chrono htimes (now (subfolders.length + n)) b (hhashes b hb)
  rw [buildFeed_eq htimes fun f hf ↦ (hslugs f hf).escape, isXmlText_cons, isXmlText_cons,
    isXmlText_append, and_iff_right hopen.1, and_iff_right hopen.2, and_iff_right hdeclaration,
    isXmlText_write, feedContent_all, feedElements, List.forall_mem_append, List.forall_mem_append,
    List.forall_mem_append, and_iff_left (feedLinks_all hself hup), feedHead_all htimes hid,
    hfolders, hbooks, and_assoc]

end Elements

section Served

variable {chrono : Chrono} {config : Config} {crates : Crates}

theorem tokens_stateAfter (hblake : ∀ bytes, IsXmlText (crates.blake3 bytes)) (fs : Fs)
    (events : List Event) : Tokens IsXmlText (stateAfter config crates fs events).db := by
  have hmtime (mtime : ℕ) : IsXmlText ('p' :: (toString mtime).toList) := by
    have hdecimal : (toString mtime).toList = decimal mtime := String.toList_ofList
    rw [hdecimal, isXmlText_cons]
    exact ⟨by decide, isXmlText_decimal mtime⟩
  refine @Machine.run_invariant State Event (step config crates)
    (fun state ↦ Tokens IsXmlText state.db) (fun state event hstate ↦ ?_) _ events tokens_empty
  rcases @step_db config crates state event with hsame | ⟨started, faults, hnext⟩
  · rw [hsame]
    exact hstate
  · refine hstate.of_mem_states hmtime (fun entry hentry hash hhash ↦ ?_) hnext
    rw [info_of_mem_files hentry] at hhash
    obtain ⟨content, -, rfl⟩ := Option.map_eq_some_iff.mp hhash
    exact hblake content.value

theorem isSlug_stateAfter (fs : Fs) (events : List Event) :
    ∀ row ∈ (stateAfter config crates fs events).db.folders, IsSlug row.slug := by
  obtain ⟨scans, -, hrun⟩ := exists_run config crates fs events
  intro row hrow
  rw [hrun.slug_eq row hrow]
  exact isSlug_slugForPath crates.xxh3 row.path

variable {db : Db}

theorem isWellFormed_rows (htimes : ∀ time, ∀ c ∈ chrono.toRfc3339 time, IsTimeChar c)
    (htokens : Tokens IsXmlText db) (hslugs : ∀ row ∈ db.folders, IsSlug row.slug)
    (now : ℕ → chrono.DateTime) {ctx : FeedCtx chrono} (hid : IsXmlText ctx.feedId)
    (hself : IsXmlText ctx.selfHref) (hup : ∀ up ∈ ctx.upHref, IsXmlText up)
    {folders : List FolderRow} {books : List BookRow} (hfolders : folders ⊆ db.folders)
    (hbooks : books ⊆ db.books) :
    IsWellFormed (buildFeed chrono now ctx (folders.map toFolder) (books.map toBook)) ↔
      IsXmlText ctx.title ∧ ∀ text ∈ rowTexts folders books, IsXmlText text := by
  have hread : (read (buildFeed chrono now ctx (folders.map toFolder)
      (books.map toBook))).isSome = true := by
    rw [read_buildFeed htimes]
    · rfl
    · rw [List.forall_mem_map]
      exact fun row hrow ↦ hslugs row (hfolders hrow)
  rw [IsWellFormed, and_iff_left hread, isXmlText_buildFeed htimes now hid hself hup]
  · simp only [rowTexts, List.forall_mem_append, List.forall_mem_map, List.forall_mem_flatMap]
    simp [toFolder, toBook]
  · rw [List.forall_mem_map]
    exact fun row hrow ↦ hslugs row (hfolders hrow)
  · rw [List.forall_mem_map]
    exact fun row hrow ↦ htokens.coverVersion row (hfolders hrow)
  · rw [List.forall_mem_map]
    exact fun row hrow ↦ htokens.hash row (hbooks hrow)

theorem isWellFormed_folderFeed (htimes : ∀ time, ∀ c ∈ chrono.toRfc3339 time, IsTimeChar c)
    (htokens : Tokens IsXmlText db) (hslugs : ∀ row ∈ db.folders, IsSlug row.slug)
    (clock : ℕ → chrono.DateTime) {row : FolderRow} (hrow : row ∈ db.folders)
    {selfHref : List Char} (hself : IsXmlText selfHref) :
    IsWellFormed (folderFeed chrono clock db row selfHref) ↔
      ∀ text ∈ row.name :: rowTexts (listedFolders db row) (listedBooks db row),
        IsXmlText text := by
  have hid : IsXmlText (str "urn:comicstream:folder:" ++ row.slug) :=
    isXmlText_append.mpr ⟨isXmlText_ofList _ (by decide), (hslugs row hrow).isXmlText⟩
  have hup : ∀ up ∈ upHref db row, IsXmlText up := by
    intro up hfound
    obtain ⟨parentId, -, hparent⟩ := Option.bind_eq_some_iff.mp hfound
    obtain ⟨parent, hmem, rfl⟩ := Option.map_eq_some_iff.mp hparent
    exact isXmlText_append.mpr ⟨isXmlText_ofList _ (by decide),
      (hslugs parent (List.mem_of_find?_eq_some hmem)).isXmlText⟩
  rw [folderFeed, isWellFormed_rows htimes htokens hslugs _ hid hself hup, List.forall_mem_cons]
  · rfl
  · exact fun child hchild ↦ (mem_listedFolders.mp hchild).1
  · exact fun book hbook ↦ (mem_listedBooks.mp hbook).1

theorem isWellFormed_searchFeed (htimes : ∀ time, ∀ c ∈ chrono.toRfc3339 time, IsTimeChar c)
    (htokens : Tokens IsXmlText db) (hslugs : ∀ row ∈ db.folders, IsSlug row.slug)
    (clock : ℕ → chrono.DateTime) (q : List Char) {folders : List FolderRow} {books : List BookRow}
    (hfolders : folders ⊆ db.folders) (hbooks : books ⊆ db.books) :
    IsWellFormed (searchFeed chrono clock crates q folders books) ↔
      ∀ text ∈ q :: rowTexts folders books, IsXmlText text := by
  have hid : IsXmlText (str "urn:comicstream:search:" ++ hex16 (crates.xxh3 (utf8 q))) :=
    isXmlText_append.mpr ⟨isXmlText_ofList _ (by decide), isXmlText_hex16 _⟩
  have hself : IsXmlText (str "/opds/search?q=" ++ percentEncode q) :=
    isXmlText_append.mpr ⟨isXmlText_ofList _ (by decide), isXmlText_percentEncode q⟩
  have htitle : IsXmlText (if q = [] then str "Search" else str "Search: " ++ q) ↔ IsXmlText q := by
    split
    · next hnil =>
      rw [hnil]
      exact iff_of_true (isXmlText_ofList _ (by decide)) isXmlText_nil
    · rw [isXmlText_append, and_iff_right (isXmlText_ofList _ (by decide))]
  rw [searchFeed, isWellFormed_rows htimes htokens hslugs _ hid hself (by simp [searchCtx]) hfolders
    hbooks, List.forall_mem_cons]
  exact and_congr_left fun _ ↦ htitle

/-- What a feed shows decides whether it is well formed. -/
theorem isWellFormed_feedDocument (htimes : ∀ time, ∀ c ∈ chrono.toRfc3339 time, IsTimeChar c)
    (htokens : Tokens IsXmlText db) (hslugs : ∀ row ∈ db.folders, IsSlug row.slug)
    {clock : ℕ → chrono.DateTime} {request : Request} {document : List Char}
    (h : feedDocument chrono clock db crates request = some document) :
    IsWellFormed document ↔ ∀ text ∈ request.texts crates db, IsXmlText text := by
  rcases feedDocument_cases h with ⟨root, rfl, hroot, rfl⟩ | ⟨slug, folder, rfl, hfolder, rfl⟩ |
    ⟨q, folders, books, rfl, hfound, rfl⟩
  · rw [isWellFormed_folderFeed htimes htokens hslugs clock (List.mem_of_find?_eq_some hroot)
      (isXmlText_ofList _ (by decide)), Request.texts, hroot]
    rfl
  · have hmem := List.mem_of_find?_eq_some hfolder
    have hslug : folder.slug = slug := by simpa using List.find?_some hfolder
    have hself : IsXmlText (folderHref slug) := by
      rw [← hslug]
      exact isXmlText_append.mpr ⟨isXmlText_ofList _ (by decide), (hslugs folder hmem).isXmlText⟩
    rw [isWellFormed_folderFeed htimes htokens hslugs clock hmem hself, Request.texts, hfolder]
    rfl
  · rw [isWellFormed_searchFeed htimes htokens hslugs clock (trim q) (subset_of_search hfound).1
      (subset_of_search hfound).2, Request.texts, hfound]
    rfl

/-- **Characters of feeds.** Whatever happens to a server, a feed that it serves is a well-formed
document of XML 1.0 exactly when there are only characters of XML 1.0 in the names and the
descriptions that it shows, and in what has been searched for. -/
theorem feedDocument_isWellFormed_iff (htimes : ∀ time, ∀ c ∈ chrono.toRfc3339 time, IsTimeChar c)
    (hblake : ∀ bytes, IsXmlText (crates.blake3 bytes)) (fs : Fs) (events : List Event)
    (clock : ℕ → chrono.DateTime) {request : Request} {document : List Char}
    (h : feedDocument chrono clock (stateAfter config crates fs events).db crates request =
      some document) :
    IsWellFormed document ↔
      ∀ text ∈ request.texts crates (stateAfter config crates fs events).db, IsXmlText text :=
  isWellFormed_feedDocument htimes (tokens_stateAfter hblake fs events) (isSlug_stateAfter fs events)
    h

end Served

/-- A clock that stands still. -/
def Opds.Chrono.sampleClock : ℕ → Chrono.sample.DateTime := fun _ ↦ (0 : ℤ)

theorem feedDocument_opdsRoot {chrono : Chrono} (clock : ℕ → chrono.DateTime) {db : Db}
    {root : FolderRow} (hroot : db.folders.find? (·.parentId = none) = some root)
    (crates : Crates) :
    feedDocument chrono clock db crates .opdsRoot =
      some (folderFeed chrono clock db root (str "/opds")) :=
  congrArg (Option.map fun root ↦ folderFeed chrono clock db root (str "/opds")) hroot

/-- The one archive there is to hash has the hash it has. -/
def Crates.hashed : Crates := { Crates.zipped with blake3 := fun _ ↦ sampleHash }

theorem isXmlText_hashed : ∀ bytes, IsXmlText (Crates.hashed.blake3 bytes) := by
  intro _
  change IsXmlText sampleHash
  decide

/-- The database after one scan of a library with one folder. -/
abbrev namedDb (folder : OsName) : Db :=
  (stateAfter Config.sample Crates.hashed (zippedFs folder) [.scan 10 (fun _ ↦ false) none]).db

set_option maxRecDepth 4000 in
/-- A folder whose name is a control character, as a file name may be, makes the feed of the root
unreadable. So does a search for it. -/
theorem control_in_name :
    (∃ document, feedDocument Chrono.sample Chrono.sampleClock (namedDb [1]) Crates.hashed .opdsRoot =
      some document ∧ ¬IsWellFormed document) ∧
    ∃ document, feedDocument Chrono.sample Chrono.sampleClock (namedDb (ascii "a")) Crates.hashed
      (.opdsSearch [Char.ofNat 1]) = some document ∧ ¬IsWellFormed document := by
  have htokens (folder : OsName) : Tokens IsXmlText (namedDb folder) :=
    tokens_stateAfter isXmlText_hashed _ _
  have hslugs (folder : OsName) : ∀ row ∈ (namedDb folder).folders, IsSlug row.slug :=
    isSlug_stateAfter _ _
  have hcontrol : ¬IsXmlText [Char.ofNat 1] := by decide
  constructor
  · have hrow : ((namedDb [1]).folders.find? (·.parentId = none)).map (fun root ↦
        (rowTexts (listedFolders (namedDb [1]) root) (listedBooks (namedDb [1]) root)).contains
          [Char.ofNat 1]) = some true := by decide +kernel
    obtain ⟨root, hroot, hname⟩ := Option.map_eq_some_iff.mp hrow
    refine ⟨_, feedDocument_opdsRoot Chrono.sampleClock hroot Crates.hashed, ?_⟩
    rw [isWellFormed_folderFeed isTimeChar_sample (htokens [1]) (hslugs [1]) _
      (List.mem_of_find?_eq_some hroot) (isXmlText_ofList _ (by decide))]
    intro htexts
    exact hcontrol (htexts _ (List.mem_cons_of_mem _ (List.contains_iff_mem.mp hname)))
  · have htrim : trim [Char.ofNat 1] = [Char.ofNat 1] := by decide
    obtain ⟨folders, books, hfound⟩ := exists_search (namedDb (ascii "a"))
      (by decide : (utf8 (toLikePattern [Char.ofNat 1])).length ≤ likePatternLimit)
    refine ⟨searchFeed Chrono.sample Chrono.sampleClock Crates.hashed [Char.ofNat 1] folders books,
      ?_, ?_⟩
    · rw [feedDocument, htrim, hfound]
      rfl
    · rw [isWellFormed_searchFeed isTimeChar_sample (htokens _) (hslugs _) _ _
        (subset_of_search hfound).1 (subset_of_search hfound).2]
      intro htexts
      exact hcontrol (htexts _ List.mem_cons_self)

set_option maxRecDepth 4000 in
/-- With a plain name, the feed of the root is well formed. -/
theorem feedDocument_isWellFormed_plain :
    ∃ document, feedDocument Chrono.sample Chrono.sampleClock (namedDb (ascii "a")) Crates.hashed
      .opdsRoot = some document ∧ IsWellFormed document := by
  have hrow : ((namedDb (ascii "a")).folders.find? (·.parentId = none)).isSome = true := by
    decide +kernel
  have htexts : ∀ text ∈ Request.opdsRoot.texts Crates.hashed (namedDb (ascii "a")),
      IsXmlText text := by decide +kernel
  obtain ⟨root, hroot⟩ := Option.isSome_iff_exists.mp hrow
  have hdocument := feedDocument_opdsRoot Chrono.sampleClock hroot Crates.hashed
  exact ⟨_, hdocument, (feedDocument_isWellFormed_iff isTimeChar_sample isXmlText_hashed
    (zippedFs (ascii "a")) _ _ hdocument).mpr htexts⟩

end ComicStream.Server
