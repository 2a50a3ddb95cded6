import ComicStream.Server.Opds

/-!
# The feeds of the catalog

The documents that the routes of the catalog make of rows: the feed of a folder,
with its subfolders and books, and the feed of a search. Every feed is built from
the rows that the route answers with.
-/

namespace ComicStream.Server

open Rust Catalog Opds

/-- What a feed says of a folder. -/
def toFolder (row : FolderRow) : Opds.Folder where
  name := row.name
  slug := row.slug
  description := row.description.map (·.value)
  coverVersion := row.coverVersion
  mtime := row.mtime

/-- What a feed says of a book. -/
def toBook (row : BookRow) : Opds.Book where
  hash := row.hash
  name := row.name
  format := row.format
  fileSize := row.fileSize
  mtime := row.mtime
  pageCount := row.pageCount
  addedAt := row.addedAt

/-- `utf8_percent_encode` of what is not alphanumeric. -/
def percentEncode (text : List Char) : List Char :=
  (utf8 text).flatMap fun b ↦
    if (Char.ofUInt8 b).isAlphanum then [Char.ofUInt8 b]
    else ['%', (hexDigit (b.toNat / 16)).toUpper, (hexDigit (b.toNat % 16)).toUpper]

section Documents

variable (chrono : Chrono) (clock : ℕ → chrono.DateTime) (db : Db)

/-- The subfolders and the books in the feed of a folder. -/
def listedFolders (folder : FolderRow) : List FolderRow :=
  sortFolders (db.folders.filter (·.parentId = some folder.id))

def listedBooks (folder : FolderRow) : List BookRow :=
  sortBooks (db.books.filter (·.folderId = folder.id))

/-- The address of the parent's feed. -/
def upHref (folder : FolderRow) : Option (List Char) :=
  folder.parentId.bind fun parentId ↦
    (db.folders.find? (·.id = parentId)).map fun parent ↦ folderHref parent.slug

/-- What `serve_folder_feed` says of the feed itself. -/
def folderCtx (folder : FolderRow) (selfHref : List Char) : FeedCtx chrono where
  selfHref := selfHref
  upHref := upHref db folder
  feedId := str "urn:comicstream:folder:" ++ folder.slug
  title := folder.name
  updated := (chrono.fromTimestamp folder.mtime).getD (clock 0)
  kindAcquisition := !(listedBooks db folder).isEmpty

/-- The document of `serve_folder_feed`. The clock is first read for the feed itself. -/
def folderFeed (folder : FolderRow) (selfHref : List Char) : List Char :=
  buildFeed chrono (fun n ↦ clock (n + 1)) (folderCtx chrono clock db folder selfHref)
    ((listedFolders db folder).map toFolder) ((listedBooks db folder).map toBook)

variable (crates : Crates)

/-- What `opds_search` says of the feed itself. -/
def searchCtx (q : List Char) : FeedCtx chrono where
  selfHref := str "/opds/search?q=" ++ percentEncode q
  upHref := none
  feedId := str "urn:comicstream:search:" ++ hex16 (crates.xxh3 (utf8 q))
  title := if q = [] then str "Search" else str "Search: " ++ q
  updated := clock 0
  kindAcquisition := true

/-- The document of `opds_search`, of the rows that are found. -/
def searchFeed (q : List Char) (folders : List FolderRow) (books : List BookRow) : List Char :=
  buildFeed chrono (fun n ↦ clock (n + 1)) (searchCtx chrono clock crates q)
    (folders.map toFolder) (books.map toBook)

/-- The document that a request is answered with, if it is a feed. -/
def feedDocument : Request → Option (List Char)
  | .opdsRoot => (db.folders.find? (·.parentId = none)).map fun root ↦
    folderFeed chrono clock db root (str "/opds")
  | .opdsFolder slug => (folderBySlug db slug).map fun folder ↦
    folderFeed chrono clock db folder (folderHref slug)
  | .opdsSearch q => (search db crates.like (trim q)).map fun found ↦
    searchFeed chrono clock crates (trim q) found.1 found.2
  | _ => none

end Documents

section Listed

variable {db : Db}

theorem mem_listedFolders {row child : FolderRow} :
    child ∈ listedFolders db row ↔ child ∈ db.folders ∧ child.parentId = some row.id := by
  rw [listedFolders, sortFolders, List.mem_insertionSort, List.mem_filter, decide_eq_true_iff]

theorem mem_listedBooks {row : FolderRow} {book : BookRow} :
    book ∈ listedBooks db row ↔ book ∈ db.books ∧ book.folderId = row.id := by
  rw [listedBooks, sortBooks, List.mem_insertionSort, List.mem_filter, decide_eq_true_iff]

variable {like : List Char → List Char → Bool}

theorem isSome_selectLike {Row : Type} {pattern : List Char} {name : Row → List Char}
    {rows : List Row} (h : (utf8 pattern).length ≤ likePatternLimit) :
    (selectLike like pattern name rows).isSome = true := by
  rw [selectLike, if_neg fun hlong ↦ absurd hlong.1 (Nat.not_lt.mpr h)]
  rfl

theorem exists_search {q : List Char} (db : Db)
    (h : (utf8 (toLikePattern q)).length ≤ likePatternLimit) :
    ∃ folders books, search db like q = some (folders, books) := by
  unfold search
  split
  · exact ⟨_, _, rfl⟩
  · obtain ⟨folders, hfolders⟩ := Option.isSome_iff_exists.mp (isSome_selectLike h)
    obtain ⟨books, hbooks⟩ := Option.isSome_iff_exists.mp (isSome_selectLike h)
    rw [hfolders, hbooks]
    exact ⟨_, _, rfl⟩

end Listed

section Served

variable {chrono : Chrono} {clock : ℕ → chrono.DateTime} {crates : Crates} {request : Request}
  {document : List Char}

theorem feedDocument_cases {db : Db}
    (h : feedDocument chrono clock db crates request = some document) :
    (∃ root, request = .opdsRoot ∧ db.folders.find? (·.parentId = none) = some root ∧
      folderFeed chrono clock db root (str "/opds") = document) ∨
    (∃ slug folder, request = .opdsFolder slug ∧ folderBySlug db slug = some folder ∧
      folderFeed chrono clock db folder (folderHref slug) = document) ∨
    ∃ q folders books, request = .opdsSearch q ∧
      search db crates.like (trim q) = some (folders, books) ∧
      searchFeed chrono clock crates (trim q) folders books = document := by
  cases request with
  | opdsRoot =>
    obtain ⟨root, hroot, rfl⟩ := Option.map_eq_some_iff.mp h
    exact .inl ⟨root, rfl, hroot, rfl⟩
  | opdsFolder slug =>
    obtain ⟨folder, hfolder, rfl⟩ := Option.map_eq_some_iff.mp h
    exact .inr (.inl ⟨slug, folder, rfl, hfolder, rfl⟩)
  | opdsSearch q =>
    obtain ⟨⟨folders, books⟩, hfound, rfl⟩ := Option.map_eq_some_iff.mp h
    exact .inr (.inr ⟨q, folders, books, rfl, hfound, rfl⟩)
  | bookPage hash n oneBased thumbnailPref => simp [feedDocument] at h
  | bookCover hash => simp [feedDocument] at h
  | bookThumbnail hash => simp [feedDocument] at h
  | bookFile hash => simp [feedDocument] at h
  | folderCover slug => simp [feedDocument] at h

end Served

end ComicStream.Server
