import ComicStream.Archive.Format
import ComicStream.Catalog.Rows
import ComicStream.Foundation.Worklist
import Mathlib.Algebra.Group.Nat.Defs
import Mathlib.Logic.Function.Basic

/-!
# The library scan

A scan upserts the root, walks the tree below it, deletes the rows it has not
stamped and refreshes the cover versions. What it reads from the file system is
an input: a listing of the tree, and for each entry what the calls on it return.
A call may fail for any entry, and so may the statements of its upsert. Every
state the database goes through is kept, so that a scan can be stopped between
any two statements.
-/

namespace ComicStream.Catalog

open Rust Archive

/-- `MAX_ARCHIVE_BYTES`. -/
def maxArchiveBytes : ℕ := 4 * 1024 * 1024 * 1024

/-- `MAX_PAGES`. -/
def maxPages : ℕ := 10000

/-- `IGNORED_DIRS`. -/
def ignoredDirs : List (List Char) :=
  ["@eaDir".toList, "__MACOSX".toList, ".thumbnails".toList, "__Panels".toList]

/-- What the scan reads of a directory, and whether a statement of its upsert fails. -/
structure FolderInfo where
  mtime : ℕ
  coverPath : Option PathText
  description : Option (Sourced (List Char))
  fault : Bool
  deriving DecidableEq, Repr

/-- What the scan reads of a file: the size from its metadata, its modification time, its content
hash, its kind by magic bytes, and the page count once opened. Each of these calls can fail. -/
structure FileInfo where
  size : Option ℕ
  mtime : ℕ
  hash : Option (List Char)
  kind : Option Kind
  pageCount : Option ℕ
  fault : Bool
  deriving DecidableEq, Repr

/-- The entries of a directory in the order the walker yields them. Symbolic links and special
files are `other`, and an entry or a directory that cannot be read is an `error`. -/
inductive Listing where
  | nil
  | error (rest : Listing)
  | other (name : OsName) (rest : Listing)
  | file (name : OsName) (info : FileInfo) (rest : Listing)
  | dir (name : OsName) (info : FolderInfo) (children rest : Listing)
  deriving DecidableEq, Repr

/-- A directory that the walk passes over. -/
def isIgnored (name : OsName) : Bool := ignoredDirs.contains (fromUtf8Lossy name)

/-- A name that starts with a dot. -/
def isHidden (name : OsName) : Bool := (fromUtf8Lossy name).head? == some '.'

def hexDigit (value : ℕ) : Char :=
  if value < 10 then Char.ofNat (48 + value) else Char.ofNat (87 + value)

/-- Sixteen lowercase hexadecimal digits. -/
def hex16 (value : UInt64) : List Char :=
  (List.range 16).map fun place ↦ hexDigit (value.toNat / 16 ^ (15 - place) % 16)

variable (xxh3 : List UInt8 → UInt64)

/-- `slug::for_path`: the 64-bit hash of the path, which comes from a crate. -/
def slugForPath (path : PathText) : List Char := hex16 (xxh3 (utf8 path.render))

/-! ## Upserts -/

/-- The folder's display name: the override, else its file name, else its path. -/
def folderName (path : OsPath) (nameOverride : Option (List Char)) : List Char :=
  nameOverride.getD ((path.getLast?.map fromUtf8Lossy).getD path.text.render)

/-- The row that `upsert_folder` stores. -/
def folderRow (path : OsPath) (parentId : Option ℕ) (nameOverride : Option (List Char))
    (seenAt : ℕ) (info : FolderInfo) (id : ℕ) (coverVersion : Option (List Char)) : FolderRow where
  id := id
  parentId := parentId
  path := path.text
  name := folderName path nameOverride
  sortKey := Natsort.key (folderName path nameOverride)
  coverPath := info.coverPath
  coverVersion := coverVersion
  description := info.description
  slug := slugForPath xxh3 path.text
  mtime := info.mtime
  seenAt := seenAt

/-- `upsert_folder`: the new database and the folder's id, unless a statement fails. -/
def upsertFolder (db : Db) (path : OsPath) (parentId : Option ℕ) (nameOverride : Option (List Char))
    (seenAt : ℕ) (info : FolderInfo) : Option (Db × ℕ) :=
  if info.fault then none
  else
    match db.folderAt path.text with
    | some existing =>
      (db.updateFolder existing.id fun old ↦
        { folderRow xxh3 path parentId nameOverride seenAt info old.id old.coverVersion with
          path := old.path }).map (·, existing.id)
    | none =>
      (db.insertFolder fun id ↦
        folderRow xxh3 path parentId nameOverride seenAt info id none).map (·, db.folderSeq + 1)

/-- How `upsert_book` ends: with an error, with nothing stored, or with the row stamped. -/
inductive Ingest where
  | failed
  | skipped
  | stored (db : Db)

/-- A statement of an upsert that may fail. -/
def Ingest.ofStatement : Option Db → Ingest
  | some db => .stored db
  | none => .failed

/-- The row that `upsert_book` stores for a file that it has hashed and opened. -/
def bookRow (path : OsPath) (name : OsName) (folderId seenAt : ℕ) (info : FileInfo) (size : ℕ)
    (hash : List Char) (kind : Kind) (pageCount id addedAt : ℕ) : BookRow where
  id := id
  folderId := folderId
  hash := hash
  path := path.text
  name := fromUtf8Lossy (splitExtension name).1
  sortKey := Natsort.key (fromUtf8Lossy (splitExtension name).1)
  format := kind.format
  fileSize := size
  mtime := info.mtime
  pageCount := pageCount
  addedAt := addedAt
  seenAt := seenAt

/-- Whether a row has the size and the modification time of a file. -/
def isUnchanged (info : FileInfo) (size : ℕ) (row : BookRow) : Bool :=
  row.mtime = info.mtime && row.fileSize = size

/-- `upsert_book`. A row whose size and modification time are those of the file is only stamped;
otherwise the file is hashed and opened. -/
def upsertBook (db : Db) (path : OsPath) (name : OsName) (folderId seenAt : ℕ) (info : FileInfo) :
    Ingest :=
  match info.size with
  | none => .failed
  | some size =>
    if maxArchiveBytes < size then .skipped
    else if info.fault then .failed
    else
      match (db.bookAt path.text).filter (isUnchanged info size) with
      | some row =>
        .ofStatement (db.updateBook row.id fun old ↦
          { old with seenAt := seenAt, folderId := folderId })
      | none =>
        match info.hash, info.kind, info.pageCount with
        | some hash, some kind, some pageCount =>
          if pageCount = 0 ∨ maxPages < pageCount then .skipped
          else
            let row := bookRow path name folderId seenAt info size hash kind pageCount
            match db.bookAt path.text with
            | some existing =>
              .ofStatement (db.updateBook existing.id fun old ↦
                { row old.id old.addedAt with path := old.path })
            | none => .ofStatement (db.insertBook fun id ↦ row id seenAt)
        | _, _, _ => .failed

/-- The state of a scan: the database and the states it went through, the ids of the folders
walked so far, the counters, the paths of the `orphan` warnings, and the files stored. -/
structure Walk where
  db : Db
  past : List Db
  pathToId : OsPath → Option ℕ
  folderCount : ℕ
  bookCount : ℕ
  orphans : List OsPath
  ingested : List OsPath

/-- A statement has taken effect. -/
def Walk.execute (walk : Walk) (db : Db) : Walk :=
  { walk with db := db, past := walk.db :: walk.past }

/-- A directory that is neither ignored nor hidden, and whether the walk goes on into it. -/
def visitFolder (started : ℕ) (walk : Walk) (path : OsPath) (info : FolderInfo) : Walk × Bool :=
  match walk.pathToId path.dropLast with
  | none => ({ walk with orphans := path :: walk.orphans }, true)
  | some parentId =>
    match upsertFolder xxh3 walk.db path (some parentId) none started info with
    | none => (walk, false)
    | some (db, id) =>
      ({ walk.execute db with
          pathToId := Function.update walk.pathToId path (some id)
          folderCount := walk.folderCount + 1 }, true)

/-- A file that is not hidden. -/
def visitFile (started : ℕ) (walk : Walk) (path : OsPath) (name : OsName) (info : FileInfo) :
    Walk :=
  if isSupported name then
    match walk.pathToId path.dropLast with
    | none => { walk with orphans := path :: walk.orphans }
    | some folderId =>
      match upsertBook walk.db path name folderId started info with
      | .failed => walk
      | .skipped => { walk with bookCount := walk.bookCount + 1 }
      | .stored db =>
        { walk.execute db with
          bookCount := walk.bookCount + 1
          ingested := path :: walk.ingested }
  else walk

/-- The walk over the entries of `dir`, parents before children. -/
def visit (started : ℕ) (walk : Walk) (dir : OsPath) : Listing → Walk
  | .nil => walk
  | .error rest => visit started walk dir rest
  | .other _ rest => visit started walk dir rest
  | .file name info rest =>
    let next := if isHidden name then walk else visitFile started walk (dir ++ [name]) name info
    visit started next dir rest
  | .dir name info children rest =>
    if isIgnored name || isHidden name then visit started walk dir rest
    else
      let entered := visitFolder xxh3 started walk (dir ++ [name]) info
      let next := if entered.2 then visit started entered.1 (dir ++ [name]) children else entered.1
      visit started next dir rest

/-- The subfolders of a folder. -/
def Db.children (db : Db) (id : ℕ) : List ℕ :=
  (db.folders.filter (·.parentId = some id)).map FolderRow.id

/-- The recursive query for a folder and all folders below it. -/
def Db.subtree (db : Db) (id : ℕ) : Option (List ℕ) :=
  Worklist.emit db.children db.folders.length
    ((db.folders.filter (·.id = id)).map FolderRow.id)

/-- `ORDER BY sort_key LIMIT 1`. -/
def firstBySortKey : List BookRow → Option BookRow
  | [] => none
  | row :: rest =>
    match firstBySortKey rest with
    | some other => if other.sortKey < row.sortKey then some other else some row
    | none => some row

/-- `cover_version_for`; nothing when the recursive query does not end. -/
def coverVersionFor (coverMtime : PathText → Option ℕ) (db : Db) (id : ℕ)
    (coverPath : Option PathText) : Option (Option (List Char)) :=
  match coverPath.bind coverMtime with
  | some mtime => some (some ('p' :: (toString mtime).toList))
  | none =>
    match firstBySortKey (db.books.filter (·.folderId = id)) with
    | some book => some (some book.hash)
    | none =>
      (db.subtree id).map fun ids ↦
        (firstBySortKey (db.books.filter (·.folderId ∈ ids))).map BookRow.hash

/-- One folder of `refresh_cover_versions`. -/
def refreshCoverVersion (coverMtime : PathText → Option ℕ) (walk : Walk) (row : FolderRow) : Walk :=
  match coverVersionFor coverMtime walk.db row.id row.coverPath with
  | some version => walk.execute (walk.db.setCoverVersion row.id version)
  | none => walk

/-- `refresh_cover_versions`. -/
def refreshCoverVersions (coverMtime : PathText → Option ℕ) (walk : Walk) : Walk :=
  walk.db.folders.foldl (refreshCoverVersion coverMtime) walk

/-- A scan of the library at `root`, started in second `started`, with what it reads there. -/
structure Scan where
  root : OsPath
  name : Option (List Char)
  started : ℕ
  rootInfo : FolderInfo
  listing : Listing
  coverMtime : PathText → Option ℕ

namespace Scan

variable (scan : Scan)

/-- The upsert of the root, without which the scan fails. -/
def enter (db : Db) : Option Walk :=
  (upsertFolder xxh3 db scan.root none scan.name scan.started scan.rootInfo).map fun (next, id) ↦
    { db := next
      past := [db]
      pathToId := Function.update (fun _ ↦ none) scan.root (some id)
      folderCount := 0
      bookCount := 0
      orphans := []
      ingested := [] }

/-- The scan up to the end of the walk. -/
def walked (db : Db) : Option Walk :=
  (scan.enter xxh3 db).map fun walk ↦ visit xxh3 scan.started walk scan.root scan.listing

/-- Both deletions. -/
def prune (walk : Walk) : Walk :=
  let books := walk.execute (walk.db.deleteBooks scan.started)
  books.execute (books.db.deleteFolders scan.started)

/-- The whole scan, if it returns `Ok`. -/
def complete (db : Db) : Option Walk :=
  (scan.walked xxh3 db).map fun walk ↦ refreshCoverVersions scan.coverMtime (scan.prune walk)

/-- The states the database goes through, all of which a scan that is stopped can leave. -/
def states (db : Db) : List Db :=
  match scan.complete xxh3 db with
  | some walk => walk.db :: walk.past
  | none => [db]

end Scan

/-- The databases that a list of scans of one data directory can lead to, each of the scans
complete or stopped anywhere. -/
inductive Run : List Scan → Db → Prop
  | empty : Run [] Db.empty
  | scan {scans : List Scan} {db next : Db} (h : Run scans db) (scan : Scan)
      (hnext : next ∈ scan.states xxh3 db) : Run (scans ++ [scan]) next

variable {xxh3} in
/-- The database that a scan leaves is one of its states. -/
theorem Scan.mem_states {scan : Scan} {db : Db} {walk : Walk}
    (h : scan.complete xxh3 db = some walk) : walk.db ∈ scan.states xxh3 db := by
  rw [states, h]
  exact List.mem_cons_self

variable {xxh3} in
theorem Run.complete {scans : List Scan} {db : Db} (h : Run xxh3 scans db) {scan : Scan}
    {walk : Walk} (hwalk : scan.complete xxh3 db = some walk) :
    Run xxh3 (scans ++ [scan]) walk.db :=
  h.scan scan (Scan.mem_states hwalk)

/-- The path hashes of the library `/lib` and its folders `a` and `b`. -/
def sampleXxh3 (bytes : List UInt8) : UInt64 :=
  if bytes = ascii "/lib" then 0xfb771c87e33ab448
  else if bytes = ascii "/lib/a" then 0x69e97232ab1fbd24
  else if bytes = ascii "/lib/b" then 0xa7ff96aa29860c76
  else 0

def FolderInfo.sample : FolderInfo := ⟨0, none, none, false⟩

/-- A readable archive of three pages. -/
def FileInfo.sample : FileInfo := ⟨some 100, 5, some "b3".toList, some .zip, some 3, false⟩

/-- The folder `a` with the book `1.cbz`. -/
def Listing.sample : Listing :=
  .dir (ascii "a") FolderInfo.sample (.file (ascii "1.cbz") FileInfo.sample .nil) .nil

/-- A scan of `/lib`. -/
def Scan.sample (started : ℕ) (listing : Listing) : Scan where
  root := [ascii "lib"]
  name := none
  started := started
  rootInfo := FolderInfo.sample
  listing := listing
  coverMtime _ := none

end ComicStream.Catalog
