import ComicStream.Catalog.Scan

/-!
# What an upsert does to the catalog

An upsert by path leaves every row of another path as it is, and gives the path
one row, under the id it had before if it had one. All that follows about scans
uses these descriptions and not the statements.
-/

namespace ComicStream.Catalog

open Rust Archive Table

variable {xxh3 : List UInt8 → UInt64}

/-- `next` is `db` with the row of `row.path` replaced by `row`. -/
structure FolderStored (db next : Db) (row : FolderRow) : Prop where
  mem_iff : ∀ other, other ∈ next.folders ↔ other = row ∨ other ∈ db.folders ∧ other.path ≠ row.path
  id_eq : ∀ other ∈ db.folders, other.path = row.path → other.id = row.id
  books_eq : next.books = db.books

theorem upsertFolder_spec {db next : Db} {path : OsPath} {parentId : Option ℕ}
    {nameOverride : Option (List Char)} {seenAt id : ℕ} {info : FolderInfo}
    (h : upsertFolder xxh3 db path parentId nameOverride seenAt info = some (next, id)) :
    ∃ coverVersion, FolderStored db next
      (folderRow xxh3 path parentId nameOverride seenAt info id coverVersion) := by
  unfold upsertFolder at h
  split at h
  · simp at h
  · split at h
    · next existing hexisting =>
      obtain ⟨hmem, hpath⟩ := Db.folderAt_eq_some hexisting
      obtain ⟨updated, hupdate, hpair⟩ := Option.map_eq_some_iff.mp h
      obtain ⟨rfl, rfl⟩ := Prod.mk.inj hpair
      obtain ⟨hfolders, hbooks⟩ := Db.updateFolder_eq_some hupdate
      refine ⟨existing.coverVersion, ?_, ?_, hbooks⟩
      · intro other
        rw [hfolders, mem_updateWhere_of_mem db.valid.folder_ids db.valid.folder_paths hmem, hpath]
        rfl
      · intro other hother hsame
        rw [Db.folder_eq_of_path hother hmem (hsame.trans hpath.symm)]
        rfl
    · next hnone =>
      have hfresh := Db.folderAt_eq_none hnone
      obtain ⟨inserted, hinsert, hpair⟩ := Option.map_eq_some_iff.mp h
      obtain ⟨rfl, rfl⟩ := Prod.mk.inj hpair
      obtain ⟨hfolders, hbooks⟩ := Db.insertFolder_eq_some hinsert
      refine ⟨none, ?_, ?_, hbooks⟩
      · intro other
        rw [hfolders, List.mem_append, List.mem_singleton, or_comm]
        apply or_congr_right
        constructor
        · exact fun hother ↦ ⟨hother, hfresh other hother⟩
        · exact fun hother ↦ hother.1
      · exact fun other hother hsame ↦ absurd hsame (hfresh other hother)

/-- An upsert of a folder succeeds when its statements do, its parent has a row, and no other
row has its slug. -/
theorem exists_upsertFolder {db : Db} {path : OsPath} {parentId : Option ℕ}
    (nameOverride : Option (List Char)) (seenAt : ℕ) {info : FolderInfo} (hfault : info.fault = false)
    (hparent : ∀ target ∈ parentId, ∃ parent ∈ db.folders, parent.id = target)
    (hslug : ∀ row ∈ db.folders, row.path = path.text ↔ row.slug = slugForPath xxh3 path.text) :
    ∃ next id, upsertFolder xxh3 db path parentId nameOverride seenAt info = some (next, id) := by
  unfold upsertFolder
  rw [if_neg (by simp [hfault])]
  split
  · next existing hexisting =>
    obtain ⟨hmem, hpath⟩ := Db.folderAt_eq_some hexisting
    have hrow (row : FolderRow) (hrow : row ∈ db.folders) (hid : row.id = existing.id) :
        row.slug = slugForPath xxh3 path.text := by
      rw [Db.folder_eq_of_id hrow hmem hid]
      exact (hslug existing hmem).mp hpath
    have hvalid := @Tables.Valid.updateFolder db.toTables db.valid existing.id
      (fun old ↦ { folderRow xxh3 path parentId nameOverride seenAt info old.id old.coverVersion with
        path := old.path })
      (fun _ ↦ rfl) (fun _ _ _ ↦ rfl) (fun row hmem hid ↦ (hrow row hmem hid).symm)
      fun _ _ _ ↦ hparent
    exact ⟨⟨_, hvalid⟩, existing.id, by rw [Db.updateFolder, Tables.commit_of_valid hvalid]; rfl⟩
  · next hnone =>
    have hfresh := Db.folderAt_eq_none hnone
    have hvalid := @Tables.Valid.insertFolder db.toTables db.valid
      (folderRow xxh3 path parentId nameOverride seenAt info (db.folderSeq + 1) none) rfl hfresh
      (fun row hrow hsame ↦ hfresh row hrow ((hslug row hrow).mpr hsame)) hparent
    exact ⟨⟨_, hvalid⟩, _, by rw [Db.insertFolder, Tables.commit_of_valid hvalid]; rfl⟩

/-- `next` is `db` with the row of `row.path` replaced by `row`, or with `row` as its newest. -/
structure BookStored (db next : Db) (row : BookRow) : Prop where
  mem_iff : ∀ other, other ∈ next.books ↔ other = row ∨ other ∈ db.books ∧ other.path ≠ row.path
  id_eq : ∀ other ∈ db.books, other.path = row.path → other.id = row.id
  id_lt : (∀ other ∈ db.books, other.path ≠ row.path) → ∀ other ∈ db.books, other.id < row.id
  folders_eq : next.folders = db.folders

theorem bookStored_of_update {db next : Db} {path : PathText} {existing : BookRow}
    {update : BookRow → BookRow} (hexisting : db.bookAt path = some existing)
    (hid : (update existing).id = existing.id) (hpath : (update existing).path = path)
    (h : db.updateBook existing.id update = some next) : BookStored db next (update existing) := by
  obtain ⟨hmem, hexistingPath⟩ := Db.bookAt_eq_some hexisting
  obtain ⟨hbooks, hfolders⟩ := Db.updateBook_eq_some h
  refine ⟨?_, ?_, ?_, hfolders⟩
  · intro other
    rw [hbooks, mem_updateWhere_of_mem db.valid.book_ids db.valid.book_paths hmem, hexistingPath,
      hpath]
  · intro other hother hsame
    rw [hpath] at hsame
    rw [Db.book_eq_of_path hother hmem (hsame.trans hexistingPath.symm), hid]
  · intro hfresh
    exact absurd (hexistingPath.trans hpath.symm) (hfresh existing hmem)

theorem bookStored_of_insert {db next : Db} {row : ℕ → BookRow}
    (hid : (row (db.bookSeq + 1)).id = db.bookSeq + 1)
    (hfresh : ∀ other ∈ db.books, other.path ≠ (row (db.bookSeq + 1)).path)
    (h : db.insertBook row = some next) : BookStored db next (row (db.bookSeq + 1)) := by
  obtain ⟨hbooks, hfolders⟩ := Db.insertBook_eq_some h
  refine ⟨?_, fun other hother hsame ↦ absurd hsame (hfresh other hother), ?_, hfolders⟩
  · intro other
    rw [hbooks, List.mem_append, List.mem_singleton, or_comm]
    apply or_congr_right
    constructor
    · exact fun hother ↦ ⟨hother, hfresh other hother⟩
    · exact fun hother ↦ hother.1
  · intro _ other hother
    rw [hid]
    exact Nat.lt_succ_of_le (db.valid.book_seq other hother)

/-- The row of a file is stored: stamped only, if it has the file's size and modification time,
and otherwise written from what the file holds. -/
inductive Stores (db : Db) (path : OsPath) (name : OsName) (folderId seenAt : ℕ) (info : FileInfo)
    (size : ℕ) : BookRow → Prop
  | stamped (old : BookRow) (hold : old ∈ db.books) (hpath : old.path = path.text)
      (hunchanged : isUnchanged info size old = true) :
      Stores db path name folderId seenAt info size
        { old with seenAt := seenAt, folderId := folderId }
  | written (hash : List Char) (kind : Kind) (pageCount id addedAt : ℕ)
      (hhash : info.hash = some hash) (hkind : info.kind = some kind)
      (hpages : info.pageCount = some pageCount) (hpos : pageCount ≠ 0)
      (hmax : pageCount ≤ maxPages) :
      Stores db path name folderId seenAt info size
        (bookRow path name folderId seenAt info size hash kind pageCount id addedAt)

section Stores

variable {db next : Db} {path : OsPath} {name : OsName} {folderId seenAt size : ℕ}
  {info : FileInfo} {row : BookRow}

theorem Stores.path_eq (h : Stores db path name folderId seenAt info size row) :
    row.path = path.text := by
  cases h with
  | stamped old hold hpath => exact hpath
  | written => rfl

theorem Stores.folderId_eq (h : Stores db path name folderId seenAt info size row) :
    row.folderId = folderId := by
  cases h <;> rfl

theorem Stores.seenAt_eq (h : Stores db path name folderId seenAt info size row) :
    row.seenAt = seenAt := by
  cases h <;> rfl

theorem Ingest.ofStatement_eq_stored {statement : Option Db}
    (h : Ingest.ofStatement statement = .stored next) : statement = some next := by
  cases statement with
  | none => simp [Ingest.ofStatement] at h
  | some db => simpa [Ingest.ofStatement] using h

theorem upsertBook_spec (h : upsertBook db path name folderId seenAt info = .stored next) :
    ∃ size row, info.size = some size ∧ size ≤ maxArchiveBytes ∧ info.fault = false ∧
      Stores db path name folderId seenAt info size row ∧ BookStored db next row := by
  unfold upsertBook at h
  split at h
  · simp at h
  next size hsize =>
  split at h
  · simp at h
  next hmax =>
  split at h
  · simp at h
  next hfault =>
  refine ⟨size, ?_⟩
  split at h
  · next existing hexisting =>
    obtain ⟨hfound, hunchanged⟩ := Option.filter_eq_some_iff.mp hexisting
    obtain ⟨hmem, hpath⟩ := Db.bookAt_eq_some hfound
    exact ⟨_, hsize, Nat.le_of_not_lt hmax, by simpa using hfault,
      .stamped existing hmem hpath hunchanged,
      bookStored_of_update hfound rfl hpath (Ingest.ofStatement_eq_stored h)⟩
  · split at h
    · next hash kind pageCount hhash hkind hpages =>
      split at h
      · simp at h
      next hcount =>
      have hrow (id addedAt : ℕ) := @Stores.written db path name folderId seenAt info size hash kind
        pageCount id addedAt hhash hkind hpages (by omega) (by omega)
      split at h
      · next existing hexisting =>
        obtain ⟨hmem, hpath⟩ := Db.bookAt_eq_some hexisting
        have hstored := bookStored_of_update hexisting rfl hpath (Ingest.ofStatement_eq_stored h)
        simp only [hpath] at hstored
        exact ⟨_, hsize, Nat.le_of_not_lt hmax, by simpa using hfault,
          hrow existing.id existing.addedAt, hstored⟩
      · next hnone =>
        have hstored := @bookStored_of_insert db next
          (fun id ↦ bookRow path name folderId seenAt info size hash kind pageCount id seenAt)
          rfl (Db.bookAt_eq_none hnone) (Ingest.ofStatement_eq_stored h)
        exact ⟨_, hsize, Nat.le_of_not_lt hmax, by simpa using hfault, hrow _ _, hstored⟩
    · simp at h

/-- A file that the scan would store if it had never seen it. -/
structure FileInfo.Ingestible (info : FileInfo) : Prop where
  size_le : ∃ size, info.size = some size ∧ size ≤ maxArchiveBytes
  hash_isSome : info.hash.isSome
  kind_isSome : info.kind.isSome
  pages : ∃ pageCount, info.pageCount = some pageCount ∧ pageCount ≠ 0 ∧ pageCount ≤ maxPages

theorem exists_upsertBook (hinfo : info.Ingestible) (hfault : info.fault = false)
    (hfolder : ∃ folder ∈ db.folders, folder.id = folderId) :
    ∃ next, upsertBook db path name folderId seenAt info = .stored next := by
  obtain ⟨size, hsize, hmax⟩ := hinfo.size_le
  obtain ⟨hash, hhash⟩ := Option.isSome_iff_exists.mp hinfo.hash_isSome
  obtain ⟨kind, hkind⟩ := Option.isSome_iff_exists.mp hinfo.kind_isSome
  obtain ⟨pageCount, hpages, hpos, hcount⟩ := hinfo.pages
  have hupdate {existing : BookRow} {update : BookRow → BookRow} (hid : ∀ row, (update row).id = row.id)
      (hpath : ∀ row, (update row).path = row.path)
      (hkeeps : ∀ row, (update row).folderId = folderId) :
      ∃ next, Ingest.ofStatement (db.updateBook existing.id update) = .stored next := by
    have hvalid := @Tables.Valid.updateBook db.toTables db.valid existing.id update hid
      (fun row _ _ ↦ hpath row) fun row _ _ ↦ by rw [hkeeps]; exact hfolder
    exact ⟨⟨_, hvalid⟩, by rw [Db.updateBook, Tables.commit_of_valid hvalid]; rfl⟩
  unfold upsertBook
  rw [hsize]
  simp only [Nat.not_lt.mpr hmax, if_false, hfault, Bool.false_eq_true, hhash, hkind, hpages,
    show ¬(pageCount = 0 ∨ maxPages < pageCount) by omega]
  cases hbook : db.bookAt path.text with
  | some existing =>
    rw [Option.filter]
    split
    · apply hupdate
      · exact fun _ ↦ rfl
      · exact fun _ ↦ rfl
      · exact fun _ ↦ rfl
    · apply hupdate
      · exact fun _ ↦ rfl
      · exact fun _ ↦ rfl
      · exact fun _ ↦ rfl
  | none =>
    have hfresh := Db.bookAt_eq_none hbook
    have hvalid := @Tables.Valid.insertBook db.toTables db.valid
      (bookRow path name folderId seenAt info size hash kind pageCount (db.bookSeq + 1) seenAt) rfl
      hfresh hfolder
    exact ⟨⟨_, hvalid⟩, by rw [Db.insertBook, Tables.commit_of_valid hvalid]; rfl⟩

end Stores

end ComicStream.Catalog
