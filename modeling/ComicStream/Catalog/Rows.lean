import ComicStream.Foundation.Table
import ComicStream.Rust.Path

/-!
# The catalog database

The two tables as the migrations leave them. A database carries the proof of its
constraints (primary keys, unique paths and slugs, foreign keys, and the
`AUTOINCREMENT` sequences), so a statement that would break one fails and leaves
nothing behind.
-/

namespace ComicStream.Catalog

open Rust Table

structure FolderRow where
  id : ℕ
  parentId : Option ℕ
  path : PathText
  name : List Char
  sortKey : List Char
  coverPath : Option PathText
  coverVersion : Option (List Char)
  description : Option (Sourced (List Char))
  slug : List Char
  mtime : ℕ
  seenAt : ℕ
  deriving DecidableEq, Repr

structure BookRow where
  id : ℕ
  folderId : ℕ
  hash : List Char
  path : PathText
  name : List Char
  sortKey : List Char
  format : List Char
  fileSize : ℕ
  mtime : ℕ
  pageCount : ℕ
  addedAt : ℕ
  seenAt : ℕ
  deriving DecidableEq, Repr

/-- The rows, and the largest id each table has ever given out. -/
structure Tables where
  folders : List FolderRow
  books : List BookRow
  folderSeq : ℕ
  bookSeq : ℕ
  deriving DecidableEq, Repr

/-- The constraints of the schema. -/
structure Tables.Valid (tables : Tables) : Prop where
  folder_ids : (tables.folders.map FolderRow.id).Nodup
  folder_paths : (tables.folders.map FolderRow.path).Nodup
  folder_slugs : (tables.folders.map FolderRow.slug).Nodup
  folder_parents : ∀ row ∈ tables.folders, ∀ parentId ∈ row.parentId,
    ∃ parent ∈ tables.folders, parent.id = parentId
  folder_seq : ∀ row ∈ tables.folders, row.id ≤ tables.folderSeq
  book_ids : (tables.books.map BookRow.id).Nodup
  book_paths : (tables.books.map BookRow.path).Nodup
  book_folders : ∀ row ∈ tables.books, ∃ folder ∈ tables.folders, folder.id = row.folderId
  book_seq : ∀ row ∈ tables.books, row.id ≤ tables.bookSeq

instance (tables : Tables) : Decidable tables.Valid :=
  decidable_of_iff
    ((tables.folders.map FolderRow.id).Nodup ∧ (tables.folders.map FolderRow.path).Nodup ∧
      (tables.folders.map FolderRow.slug).Nodup ∧
      (∀ row ∈ tables.folders, ∀ parentId ∈ row.parentId,
        ∃ parent ∈ tables.folders, parent.id = parentId) ∧
      (∀ row ∈ tables.folders, row.id ≤ tables.folderSeq) ∧
      (tables.books.map BookRow.id).Nodup ∧ (tables.books.map BookRow.path).Nodup ∧
      (∀ row ∈ tables.books, ∃ folder ∈ tables.folders, folder.id = row.folderId) ∧
      ∀ row ∈ tables.books, row.id ≤ tables.bookSeq)
    ⟨fun ⟨h1, h2, h3, h4, h5, h6, h7, h8, h9⟩ ↦ ⟨h1, h2, h3, h4, h5, h6, h7, h8, h9⟩,
      fun h ↦ ⟨h.folder_ids, h.folder_paths, h.folder_slugs, h.folder_parents, h.folder_seq,
        h.book_ids, h.book_paths, h.book_folders, h.book_seq⟩⟩

theorem Tables.Valid.updateFolder {tables : Tables} (h : tables.Valid) {id : ℕ}
    {update : FolderRow → FolderRow} (hid : ∀ row, (update row).id = row.id)
    (hpath : ∀ row ∈ tables.folders, row.id = id → (update row).path = row.path)
    (hslug : ∀ row ∈ tables.folders, row.id = id → (update row).slug = row.slug)
    (hparent : ∀ row ∈ tables.folders, row.id = id → ∀ parentId ∈ (update row).parentId,
      ∃ parent ∈ tables.folders, parent.id = parentId) :
    Tables.Valid { tables with folders := updateWhere FolderRow.id id update tables.folders } := by
  have hids : (updateWhere FolderRow.id id update tables.folders).map FolderRow.id =
      tables.folders.map FolderRow.id := map_updateWhere fun row _ _ ↦ hid row
  have hexists {target : ℕ} (htarget : ∃ row ∈ tables.folders, row.id = target) :
      ∃ row ∈ updateWhere FolderRow.id id update tables.folders, row.id = target := by
    have hmem : target ∈ tables.folders.map FolderRow.id := by simpa using htarget
    rw [← hids] at hmem
    simpa using hmem
  constructor
  · rw [hids]
    exact h.folder_ids
  · rw [map_updateWhere hpath]
    exact h.folder_paths
  · rw [map_updateWhere hslug]
    exact h.folder_slugs
  · intro row hrow parentId hparentId
    apply hexists
    rcases mem_updateWhere.mp hrow with ⟨old, hold, hkey, rfl⟩ | ⟨hrow, -⟩
    · exact hparent old hold hkey parentId hparentId
    · exact h.folder_parents row hrow parentId hparentId
  · intro row hrow
    rcases mem_updateWhere.mp hrow with ⟨old, hold, -, rfl⟩ | ⟨hrow, -⟩
    · rw [hid]
      exact h.folder_seq old hold
    · exact h.folder_seq row hrow
  · exact h.book_ids
  · exact h.book_paths
  · exact fun row hrow ↦ hexists (h.book_folders row hrow)
  · exact h.book_seq

theorem Tables.Valid.updateBook {tables : Tables} (h : tables.Valid) {id : ℕ}
    {update : BookRow → BookRow} (hid : ∀ row, (update row).id = row.id)
    (hpath : ∀ row ∈ tables.books, row.id = id → (update row).path = row.path)
    (hfolder : ∀ row ∈ tables.books, row.id = id →
      ∃ folder ∈ tables.folders, folder.id = (update row).folderId) :
    Tables.Valid { tables with books := updateWhere BookRow.id id update tables.books } := by
  refine { h with book_ids := ?_, book_paths := ?_, book_folders := ?_, book_seq := ?_ }
  · rw [map_updateWhere fun row _ _ ↦ hid row]
    exact h.book_ids
  · rw [map_updateWhere hpath]
    exact h.book_paths
  · intro row hrow
    rcases mem_updateWhere.mp hrow with ⟨old, hold, hkey, rfl⟩ | ⟨hrow, -⟩
    · exact hfolder old hold hkey
    · exact h.book_folders row hrow
  · intro row hrow
    rcases mem_updateWhere.mp hrow with ⟨old, hold, -, rfl⟩ | ⟨hrow, -⟩
    · rw [hid]
      exact h.book_seq old hold
    · exact h.book_seq row hrow

theorem Tables.Valid.insertFolder {tables : Tables} (h : tables.Valid) {row : FolderRow}
    (hid : row.id = tables.folderSeq + 1) (hpath : ∀ other ∈ tables.folders, other.path ≠ row.path)
    (hslug : ∀ other ∈ tables.folders, other.slug ≠ row.slug)
    (hparent : ∀ parentId ∈ row.parentId, ∃ parent ∈ tables.folders, parent.id = parentId) :
    Tables.Valid { tables with
      folders := tables.folders ++ [row]
      folderSeq := tables.folderSeq + 1 } := by
  have hnew (other : FolderRow) (hother : other ∈ tables.folders) : other.id ≠ row.id := by
    have hle := h.folder_seq other hother
    omega
  have hexists {target : ℕ} (htarget : ∃ folder ∈ tables.folders, folder.id = target) :
      ∃ folder ∈ tables.folders ++ [row], folder.id = target := by
    obtain ⟨folder, hfolder, hfolderId⟩ := htarget
    exact ⟨folder, List.mem_append_left _ hfolder, hfolderId⟩
  refine { h with
    folder_ids := nodup_map_concat h.folder_ids hnew
    folder_paths := nodup_map_concat h.folder_paths hpath
    folder_slugs := nodup_map_concat h.folder_slugs hslug
    folder_parents := ?_
    folder_seq := ?_
    book_folders := fun book hbook ↦ hexists (h.book_folders book hbook) }
  · intro other hother target htarget
    apply hexists
    rcases List.mem_append.mp hother with hother | hother
    · exact h.folder_parents other hother target htarget
    · rw [List.mem_singleton.mp hother] at htarget
      exact hparent target htarget
  · intro other hother
    rcases List.mem_append.mp hother with hother | hother
    · exact Nat.le_succ_of_le (h.folder_seq other hother)
    · rw [List.mem_singleton.mp hother]
      exact Nat.le_of_eq hid

theorem Tables.Valid.insertBook {tables : Tables} (h : tables.Valid) {row : BookRow}
    (hid : row.id = tables.bookSeq + 1) (hpath : ∀ other ∈ tables.books, other.path ≠ row.path)
    (hfolder : ∃ folder ∈ tables.folders, folder.id = row.folderId) :
    Tables.Valid { tables with
      books := tables.books ++ [row]
      bookSeq := tables.bookSeq + 1 } := by
  have hnew (other : BookRow) (hother : other ∈ tables.books) : other.id ≠ row.id := by
    have hle := h.book_seq other hother
    omega
  refine { h with
    book_ids := nodup_map_concat h.book_ids hnew
    book_paths := nodup_map_concat h.book_paths hpath
    book_folders := ?_
    book_seq := ?_ }
  · intro other hother
    rcases List.mem_append.mp hother with hother | hother
    · exact h.book_folders other hother
    · rw [List.mem_singleton.mp hother]
      exact hfolder
  · intro other hother
    rcases List.mem_append.mp hother with hother | hother
    · exact Nat.le_succ_of_le (h.book_seq other hother)
    · rw [List.mem_singleton.mp hother]
      exact Nat.le_of_eq hid

structure Db extends Tables where
  valid : toTables.Valid

/-- The database after the migrations. -/
def Db.empty : Db where
  folders := []
  books := []
  folderSeq := 0
  bookSeq := 0
  valid := by decide

/-- A statement takes effect when its result meets the constraints. -/
def Tables.commit (tables : Tables) : Option Db :=
  if h : tables.Valid then some ⟨tables, h⟩ else none

theorem Tables.commit_eq_some {tables : Tables} {db : Db} :
    tables.commit = some db ↔ db.toTables = tables := by
  unfold commit
  constructor
  · intro h
    split at h
    · rw [← Option.some.inj h]
    · simp at h
  · rintro rfl
    rw [dif_pos db.valid]

theorem Tables.commit_of_valid {tables : Tables} (h : tables.Valid) :
    tables.commit = some ⟨tables, h⟩ := dif_pos h

namespace Db

variable (db : Db)

/-- `SELECT … FROM folder WHERE path = ?`. -/
def folderAt (path : PathText) : Option FolderRow := db.folders.find? (·.path = path)

/-- `SELECT … FROM book WHERE path = ?`. -/
def bookAt (path : PathText) : Option BookRow := db.books.find? (·.path = path)

/-- `INSERT INTO folder`, with the next id. -/
def insertFolder (row : ℕ → FolderRow) : Option Db :=
  Tables.commit { db.toTables with
    folders := db.folders ++ [row (db.folderSeq + 1)]
    folderSeq := db.folderSeq + 1 }

/-- `UPDATE folder … WHERE id = ?`. -/
def updateFolder (id : ℕ) (update : FolderRow → FolderRow) : Option Db :=
  Tables.commit { db.toTables with
    folders := updateWhere FolderRow.id id update db.folders }

/-- `INSERT INTO book`, with the next id. -/
def insertBook (row : ℕ → BookRow) : Option Db :=
  Tables.commit { db.toTables with
    books := db.books ++ [row (db.bookSeq + 1)]
    bookSeq := db.bookSeq + 1 }

/-- `UPDATE book … WHERE id = ?`. -/
def updateBook (id : ℕ) (update : BookRow → BookRow) : Option Db :=
  Tables.commit { db.toTables with
    books := updateWhere BookRow.id id update db.books }

/-- `DELETE FROM book WHERE seen_at < ?`. -/
def deleteBooks (started : ℕ) : Db where
  folders := db.folders
  books := db.books.filter fun row ↦ ¬row.seenAt < started
  folderSeq := db.folderSeq
  bookSeq := db.bookSeq
  valid :=
    { db.valid with
      book_ids := db.valid.book_ids.sublist (List.filter_sublist.map _)
      book_paths := db.valid.book_paths.sublist (List.filter_sublist.map _)
      book_folders := fun row hrow ↦ db.valid.book_folders row (List.mem_filter.mp hrow).1
      book_seq := fun row hrow ↦ db.valid.book_seq row (List.mem_filter.mp hrow).1 }

/-- Whether the parent that a folder row names is among the rows. -/
def hasParent (rows : List FolderRow) (row : FolderRow) : Bool :=
  row.parentId.all fun parentId ↦ rows.any (·.id = parentId)

theorem hasParent_iff {rows : List FolderRow} {row : FolderRow} :
    hasParent rows row = true ↔
      ∀ parentId ∈ row.parentId, ∃ parent ∈ rows, parent.id = parentId := by
  cases hparent : row.parentId <;> simp [hasParent, hparent]

/-- The folder rows that deleting those stamped before `started` leaves: the others, less all
that the cascade takes along. -/
def keptFolders (started : ℕ) : List FolderRow :=
  settle hasParent (db.folders.filter fun row ↦ ¬row.seenAt < started)

theorem keptFolders_sublist (started : ℕ) : (db.keptFolders started).Sublist db.folders :=
  settle_sublist.trans List.filter_sublist

/-- `DELETE FROM folder WHERE seen_at < ?`, cascading to subfolders and books. -/
def deleteFolders (started : ℕ) : Db where
  folders := db.keptFolders started
  books := db.books.filter fun row ↦ (db.keptFolders started).any (·.id = row.folderId)
  folderSeq := db.folderSeq
  bookSeq := db.bookSeq
  valid :=
    { folder_ids := db.valid.folder_ids.sublist ((db.keptFolders_sublist started).map _)
      folder_paths := db.valid.folder_paths.sublist ((db.keptFolders_sublist started).map _)
      folder_slugs := db.valid.folder_slugs.sublist ((db.keptFolders_sublist started).map _)
      folder_parents := fun row hrow ↦ hasParent_iff.mp (keeps_of_mem_settle hrow)
      folder_seq := fun row hrow ↦
        db.valid.folder_seq row ((db.keptFolders_sublist started).subset hrow)
      book_ids := db.valid.book_ids.sublist (List.filter_sublist.map _)
      book_paths := db.valid.book_paths.sublist (List.filter_sublist.map _)
      book_folders := fun row hrow ↦ by simpa using (List.mem_filter.mp hrow).2
      book_seq := fun row hrow ↦ db.valid.book_seq row (List.mem_filter.mp hrow).1 }

/-- `UPDATE folder SET cover_version = ? WHERE id = ?`. -/
def setCoverVersion (id : ℕ) (version : Option (List Char)) : Db where
  folders := updateWhere FolderRow.id id (fun row ↦ { row with coverVersion := version }) db.folders
  books := db.books
  folderSeq := db.folderSeq
  bookSeq := db.bookSeq
  valid := db.valid.updateFolder (fun _ ↦ rfl) (fun _ _ _ ↦ rfl) (fun _ _ _ ↦ rfl)
    fun row hrow _ ↦ db.valid.folder_parents row hrow

variable {db}

theorem folder_eq_of_id {first second : FolderRow} (hfirst : first ∈ db.folders)
    (hsecond : second ∈ db.folders) (h : first.id = second.id) : first = second :=
  eq_of_key_eq db.valid.folder_ids hfirst hsecond h

theorem folder_eq_of_path {first second : FolderRow} (hfirst : first ∈ db.folders)
    (hsecond : second ∈ db.folders) (h : first.path = second.path) : first = second :=
  eq_of_key_eq db.valid.folder_paths hfirst hsecond h

theorem book_eq_of_path {first second : BookRow} (hfirst : first ∈ db.books)
    (hsecond : second ∈ db.books) (h : first.path = second.path) : first = second :=
  eq_of_key_eq db.valid.book_paths hfirst hsecond h

theorem insertFolder_eq_some {next : Db} {row : ℕ → FolderRow}
    (h : db.insertFolder row = some next) :
    next.folders = db.folders ++ [row (db.folderSeq + 1)] ∧ next.books = db.books := by
  have htables := Tables.commit_eq_some.mp h
  rw [htables]
  exact ⟨rfl, rfl⟩

theorem updateFolder_eq_some {next : Db} {id : ℕ} {update : FolderRow → FolderRow}
    (h : db.updateFolder id update = some next) :
    next.folders = updateWhere FolderRow.id id update db.folders ∧ next.books = db.books := by
  have htables := Tables.commit_eq_some.mp h
  rw [htables]
  exact ⟨rfl, rfl⟩

theorem insertBook_eq_some {next : Db} {row : ℕ → BookRow} (h : db.insertBook row = some next) :
    next.books = db.books ++ [row (db.bookSeq + 1)] ∧ next.folders = db.folders := by
  have htables := Tables.commit_eq_some.mp h
  rw [htables]
  exact ⟨rfl, rfl⟩

theorem updateBook_eq_some {next : Db} {id : ℕ} {update : BookRow → BookRow}
    (h : db.updateBook id update = some next) :
    next.books = updateWhere BookRow.id id update db.books ∧ next.folders = db.folders := by
  have htables := Tables.commit_eq_some.mp h
  rw [htables]
  exact ⟨rfl, rfl⟩

theorem folderAt_eq_some {path : PathText} {row : FolderRow} (h : db.folderAt path = some row) :
    row ∈ db.folders ∧ row.path = path :=
  ⟨List.mem_of_find?_eq_some h, by simpa using List.find?_some h⟩

theorem folderAt_eq_none {path : PathText} (h : db.folderAt path = none) :
    ∀ row ∈ db.folders, row.path ≠ path := by
  simpa [folderAt] using h

theorem bookAt_eq_some {path : PathText} {row : BookRow} (h : db.bookAt path = some row) :
    row ∈ db.books ∧ row.path = path :=
  ⟨List.mem_of_find?_eq_some h, by simpa using List.find?_some h⟩

theorem bookAt_eq_none {path : PathText} (h : db.bookAt path = none) :
    ∀ row ∈ db.books, row.path ≠ path := by
  simpa [bookAt] using h

end Db

end ComicStream.Catalog
