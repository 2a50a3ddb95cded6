import ComicStream.Catalog.Reading
import Mathlib.Data.List.MinMax

/-!
# The server

The state that the scanner and the routes share, and what each route answers. A
thumbnail and a description keep the path of the file their bytes were read from.
Of a response, only what it takes from the catalog and from files is kept.
-/

namespace ComicStream.Server

open Rust Archive Catalog

/-- The crates and functions the server calls: on top of those of the scan, the path hash, the
resizing of an image, SQLite's `LIKE`, and the media type guessed from a path. -/
structure Crates extends Tools where
  xxh3 : List UInt8 → UInt64
  resize : List UInt8 → ℕ → Option (List UInt8)
  like : List Char → List Char → Bool
  mimeGuess : OsPath → Option (List Char)

structure Config where
  libraryRoot : OsPath
  libraryName : Option (List Char)
  prewarmThumbnails : Bool
  pageThumbWidth : ℕ
  archiveCacheSize : ℕ

/-- The file system, the database, the cached archives, and the files in `thumbs` and
`page_thumbs`. -/
structure State where
  fs : Fs
  db : Db
  archiveCache : Cache
  thumbs : List Char → Option (Sourced (List UInt8))
  pageThumbs : List Char × ℕ × ℕ → Option (Sourced (List UInt8))

/-- A server that has just been set up. -/
def State.start (config : Config) (fs : Fs) : State where
  fs := fs
  db := Db.empty
  archiveCache := Cache.new config.archiveCacheSize
  thumbs _ := none
  pageThumbs _ := none

inductive Request where
  | opdsRoot
  | opdsFolder (slug : List Char)
  | opdsSearch (q : List Char)
  | bookPage (hash : List Char) (n : ℤ) (oneBased : Bool) (thumbnailPref : Option ℕ)
  | bookCover (hash : List Char)
  | bookThumbnail (hash : List Char)
  | bookFile (hash : List Char)
  | folderCover (slug : List Char)

/-- The rows a feed is built from, the bytes of a file or of a page and their media type, or an
error. -/
inductive Response where
  | feed (folders : List FolderRow) (books : List BookRow)
  | content (body : Sourced (List UInt8)) (mime : List Char)
  | notFound
  | internal
  deriving DecidableEq

section Queries

variable (db : Db)

/-- `ORDER BY sort_key`. -/
def sortFolders (rows : List FolderRow) : List FolderRow :=
  rows.insertionSort fun first second ↦ ¬second.sortKey < first.sortKey

def sortBooks (rows : List BookRow) : List BookRow :=
  rows.insertionSort fun first second ↦ ¬second.sortKey < first.sortKey

/-- `lookup_book`: the oldest row with the hash. -/
def lookupBook (hash : List Char) : Option BookRow :=
  List.argmin BookRow.id (db.books.filter (·.hash = hash))

/-- `SELECT * FROM folder WHERE slug = ?`. -/
def folderBySlug (slug : List Char) : Option FolderRow := db.folders.find? (·.slug = slug)

/-- The book that stands for a folder without a cover: its first one, or the first one below it. -/
def coverBook (id : ℕ) : Option BookRow :=
  match firstBySortKey (db.books.filter (·.folderId = id)) with
  | some book => some book
  | none => (db.subtree id).bind fun ids ↦ firstBySortKey (db.books.filter (·.folderId ∈ ids))

/-- `to_like_pattern`. -/
def toLikePattern (q : List Char) : List Char :=
  '%' :: (q.flatMap fun c ↦
    if c = '\\' then ['\\', '\\']
    else if c = '%' then ['\\', '%']
    else if c = '_' then ['\\', '_']
    else if c = '*' then ['%']
    else [c]) ++ ['%']

/-- `FOLDER_LIMIT`. -/
def folderLimit : ℕ := 50

/-- `BOOK_LIMIT`. -/
def bookLimit : ℕ := 100

/-- The bytes of the longest pattern that SQLite matches with `LIKE`. -/
def likePatternLimit : ℕ := 50000

/-- `SELECT * … WHERE name LIKE ?`. At the first row it fails with a pattern that is too long. -/
def selectLike {Row : Type} (like : List Char → List Char → Bool) (pattern : List Char)
    (name : Row → List Char) (rows : List Row) : Option (List Row) :=
  if likePatternLimit < (utf8 pattern).length ∧ ¬rows.isEmpty then none
  else some (rows.filter fun row ↦ like pattern (name row))

/-- `search::run`. -/
def search (like : List Char → List Char → Bool) (q : List Char) :
    Option (List FolderRow × List BookRow) :=
  if q = [] then some ([], [])
  else do
    let folders ← selectLike like (toLikePattern q) FolderRow.name db.folders
    let books ← selectLike like (toLikePattern q) BookRow.name db.books
    return ((sortFolders folders).take folderLimit, (sortBooks books).take bookLimit)

end Queries

theorem subset_of_selectLike {like : List Char → List Char → Bool} {Row : Type}
    {pattern : List Char} {name : Row → List Char} {rows found : List Row}
    (h : selectLike like pattern name rows = some found) : found ⊆ rows := by
  obtain ⟨-, hfound⟩ := Option.ite_none_left_eq_some.mp h
  rw [← Option.some.inj hfound]
  exact List.filter_subset_self _

theorem subset_of_search {db : Db} {like : List Char → List Char → Bool} {q : List Char}
    {folders : List FolderRow} {books : List BookRow}
    (h : search db like q = some (folders, books)) : folders ⊆ db.folders ∧ books ⊆ db.books := by
  unfold search at h
  split at h
  · obtain ⟨rfl, rfl⟩ := Prod.mk.inj (Option.some.inj h)
    exact ⟨List.nil_subset _, List.nil_subset _⟩
  · obtain ⟨someFolders, hfolders, h⟩ := Option.bind_eq_some_iff.mp h
    obtain ⟨someBooks, hbooks, h⟩ := Option.bind_eq_some_iff.mp h
    obtain ⟨rfl, rfl⟩ := Prod.mk.inj (Option.some.inj h)
    refine ⟨fun row hrow ↦ subset_of_selectLike hfolders ?_,
      fun row hrow ↦ subset_of_selectLike hbooks ?_⟩
    · exact (List.mem_insertionSort _).mp (List.mem_of_mem_take hrow)
    · exact (List.mem_insertionSort _).mp (List.mem_of_mem_take hrow)

/-- `COVER_WIDTH`. -/
def coverWidth : ℕ := 400

/-- `MAX_PAGE_THUMB_WIDTH`. -/
def maxPageThumbWidth : ℕ := 1600

/-- `PAGE_THUMB_WIDTHS`. -/
def pageThumbWidths : List ℕ := [150, 300, 600, 900, 1200, maxPageThumbWidth]

/-- `snap_width`. -/
def snapWidth (requested : ℕ) : ℕ :=
  (pageThumbWidths.find? (requested ≤ ·)).getD maxPageThumbWidth

/-- `"image/jpeg"`. -/
def jpeg : List Char := "image/jpeg".toList

section Routes

variable (config : Config) (crates : Crates) (state : State)

/-- `write_resized`: the file it writes, if it gets that far. -/
def writeResized (source : Sourced (List UInt8)) (width : ℕ) : Option (Sourced (List UInt8)) :=
  if maxPageBytes < source.value.length then none
  else (crates.resize source.value width).map fun bytes ↦ ⟨bytes, source.source⟩

/-- A thumbnail that is not among those there are is written. -/
def ensureCached {Key : Type} [DecidableEq Key] (cached : Key → Option (Sourced (List UInt8)))
    (key : Key) (width : ℕ) (source : Sourced (List UInt8)) :
    Option (Key → Option (Sourced (List UInt8))) :=
  match cached key with
  | some _ => some cached
  | none => (writeResized crates source width).map fun thumb ↦
    Function.update cached key (some thumb)

/-- `ensure_thumbnail`. -/
def ensureThumbnail (hash : List Char) (source : Sourced (List UInt8)) : Option State :=
  (ensureCached crates state.thumbs hash coverWidth source).map fun thumbs ↦
    { state with thumbs := thumbs }

/-- `ensure_page_thumbnail`. -/
def ensurePageThumbnail (hash : List Char) (index width : ℕ) (source : Sourced (List UInt8)) :
    Option State :=
  (ensureCached crates state.pageThumbs (hash, index, width) width source).map fun pageThumbs ↦
    { state with pageThumbs := pageThumbs }

/-! ## Routes -/

/-- `open_archive`. -/
def openArchive (hash : List Char) (path : PathText) : Except Response Book × State :=
  match state.fs.under config.libraryRoot path.osPath with
  | none => (.error .notFound, state)
  | some safe =>
    let opened := state.archiveCache.getOrOpen crates.reader state.fs hash safe
    (match opened.1 with
      | some book => .ok book
      | none => .error .internal,
      { state with archiveCache := opened.2 })

/-- `open_archive`, then `read_page`, then what is made of the page. -/
def withPage (hash : List Char) (path : PathText) (index : ℕ)
    (use : State → Sourced (List UInt8) → List Char → Response × State) : Response × State :=
  match openArchive config crates state hash path with
  | (.error response, next) => (response, next)
  | (.ok book, next) =>
    match book.readPage crates.reader next.fs index with
    | some (body, mime) => use next body mime
    | none => (.internal, next)

/-- `serve_file` of a thumbnail. -/
def serveCached (cached : Option (Sourced (List UInt8))) : Response :=
  match cached with
  | some body => .content body jpeg
  | none => .internal

/-- `serve_folder_feed`. -/
def serveFolderFeed (folder : FolderRow) : Response :=
  .feed (sortFolders (state.db.folders.filter (·.parentId = some folder.id)))
    (sortBooks (state.db.books.filter (·.folderId = folder.id)))

/-- `serve_descendant_thumb`, and `book_thumbnail` of the row it has looked up. -/
def serveThumbnail (book : BookRow) : Response × State :=
  match state.thumbs book.hash with
  | some body => (serveCached (some body), state)
  | none =>
    withPage config crates state book.hash book.path 0 fun next source _ ↦
      match ensureThumbnail crates next book.hash source with
      | some last => (serveCached (last.thumbs book.hash), last)
      | none => (.internal, next)

def bookThumbnail (hash : List Char) : Response × State :=
  match lookupBook state.db hash with
  | none => (.notFound, state)
  | some book => serveThumbnail config crates state book

def bookCover (hash : List Char) : Response × State :=
  match lookupBook state.db hash with
  | none => (.notFound, state)
  | some book => withPage config crates state hash book.path 0 fun next body mime ↦
    (.content body mime, next)

/-- `book_page`. A page number out of range is answered alike whether or not the subtraction
overflows. -/
def bookPage (hash : List Char) (n : ℤ) (oneBased : Bool) (thumbnailPref : Option ℕ) :
    Response × State :=
  match lookupBook state.db hash with
  | none => (.notFound, state)
  | some book =>
    let index := if oneBased then n - 1 else n
    if index < 0 ∨ (book.pageCount : ℤ) ≤ index then (.notFound, state)
    else
      let page := index.toNat
      match thumbnailPref with
      | some requested =>
        let width := snapWidth requested
        match state.pageThumbs (hash, page, width) with
        | some body => (serveCached (some body), state)
        | none => withPage config crates state hash book.path page fun next source _ ↦
          match ensurePageThumbnail crates next hash page width source with
          | some last => (serveCached (last.pageThumbs (hash, page, width)), last)
          | none => (.internal, next)
      | none => withPage config crates state hash book.path page fun next body mime ↦
        (.content body mime, next)

/-- `serve_file`. -/
def serveFile (path : OsPath) (mime : List Char) : Response :=
  match state.fs.read path with
  | some body => .content body mime
  | none => .internal

/-- `book_mime`. -/
def bookMime (format : List Char) : List Char :=
  if format = "cbz".toList ∨ format = "zip".toList then "application/vnd.comicbook+zip".toList
  else if format = "cbr".toList ∨ format = "rar".toList then
    "application/vnd.comicbook-rar".toList
  else "application/octet-stream".toList

/-- `book_file`, of which a range request selects a part. -/
def bookFile (hash : List Char) : Response :=
  match lookupBook state.db hash with
  | none => .notFound
  | some book =>
    match state.fs.under config.libraryRoot book.path.osPath with
    | none => .notFound
    | some safe => serveFile state safe (bookMime book.format)

def folderCover (slug : List Char) : Response × State :=
  match folderBySlug state.db slug with
  | none => (.notFound, state)
  | some folder =>
    match folder.coverPath.bind fun cover ↦ state.fs.under config.libraryRoot cover.osPath with
    | some safe => (serveFile state safe ((crates.mimeGuess safe).getD jpeg), state)
    | none =>
      match coverBook state.db folder.id with
      | some book => serveThumbnail config crates state book
      | none => (.notFound, state)

/-- The routes that read the catalog or the library. -/
def handle : Request → Response × State
  | .opdsRoot =>
    match state.db.folders.find? (·.parentId = none) with
    | some root => (serveFolderFeed state root, state)
    | none => (.notFound, state)
  | .opdsFolder slug =>
    match folderBySlug state.db slug with
    | some folder => (serveFolderFeed state folder, state)
    | none => (.notFound, state)
  | .opdsSearch q =>
    match search state.db crates.like (trim q) with
    | some (folders, books) => (.feed folders books, state)
    | none => (.internal, state)
  | .bookPage hash n oneBased thumbnailPref =>
    bookPage config crates state hash n oneBased thumbnailPref
  | .bookCover hash => bookCover config crates state hash
  | .bookThumbnail hash => bookThumbnail config crates state hash
  | .bookFile hash => (bookFile config state hash, state)
  | .folderCover slug => folderCover config crates state slug

/-- One page of a book in `prewarm`. -/
def prewarmPage (hash : List Char) (book : Book) (state : State) (index : ℕ) : State :=
  match book.readPage crates.reader state.fs index with
  | some (source, _) =>
    (ensurePageThumbnail crates state hash index config.pageThumbWidth source).getD state
  | none => state

/-- One book in `prewarm`. The archive is opened at the path of the row. -/
def prewarmBook (state : State) (row : BookRow) : State :=
  let pagesNeeded := (List.range row.pageCount).filter fun index ↦
    (state.pageThumbs (row.hash, index, config.pageThumbWidth)).isNone
  if (state.thumbs row.hash).isSome && pagesNeeded.isEmpty then state
  else
    match openBook crates.reader state.fs row.path.osPath with
    | none => state
    | some book =>
      let covered :=
        if (state.thumbs row.hash).isSome then state
        else
          match book.readPage crates.reader state.fs 0 with
          | some (source, _) => (ensureThumbnail crates state row.hash source).getD state
          | none => state
      pagesNeeded.foldl (prewarmPage config crates row.hash book) covered

/-- `prewarm`. -/
def prewarm : State := state.db.books.foldl (prewarmBook config crates) state

/-- What can happen to a server: the library changes, a scan is made, or a request is answered. A
scan either returns `Ok`, or with an error after some of its statements. -/
inductive Event where
  | change (fs : Fs)
  | scan (started : ℕ) (faults : OsPath → Bool) (stop : Option ℕ)
  | request (request : Request)

/-- The scan that a server makes of its library. -/
def scanOf (started : ℕ) (faults : OsPath → Bool) : Scan :=
  Scan.ofFs crates.toTools faults state.fs config.libraryRoot config.libraryName started

/-- A scan that returns `Ok` may generate thumbnails. -/
def scanned (started : ℕ) (faults : OsPath → Bool) : State :=
  match (scanOf config crates state started faults).complete crates.xxh3 state.db with
  | none => state
  | some walk =>
    if config.prewarmThumbnails then prewarm config crates { state with db := walk.db }
    else { state with db := walk.db }

/-- A scan that fails after some statements. -/
def stopped (started : ℕ) (faults : OsPath → Bool) (statements : ℕ) : State :=
  match ((scanOf config crates state started faults).states crates.xxh3 state.db)[statements]? with
  | none => state
  | some db => { state with db := db }

def step (state : State) : Event → State
  | .change fs => { state with fs := fs }
  | .scan started faults none => scanned config crates state started faults
  | .scan started faults (some statements) => stopped config crates state started faults statements
  | .request request => (handle config crates state request).2

/-- The response to a request. -/
def respond (state : State) : Event → Option Response
  | .request request => some (handle config crates state request).1
  | _ => none

end Routes

/-- A server of the library `/lib`. -/
def Config.sample : Config where
  libraryRoot := [ascii "lib"]
  libraryName := none
  prewarmThumbnails := false
  pageThumbWidth := 600
  archiveCacheSize := 16

end ComicStream.Server
