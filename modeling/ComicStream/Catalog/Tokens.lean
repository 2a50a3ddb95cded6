import ComicStream.Catalog.Reading
import ComicStream.Rust.Number

/-!
# Hashes and cover versions

The two kinds of generated text in the catalog. A cover version is a modification
time with a letter before it, or the hash of a book; so whatever holds of all of
these and of all hashes holds of all that a scan stores.
-/

namespace ComicStream.Catalog

open Rust Archive Table

variable {xxh3 : List UInt8 → UInt64} {scan : Scan} {db : Db} {ok : List Char → Prop}

/-- Every hash and every cover version is as wanted. -/
structure Tokens (ok : List Char → Prop) (db : Db) : Prop where
  hash : ∀ row ∈ db.books, ok row.hash
  coverVersion : ∀ row ∈ db.folders, ∀ version ∈ row.coverVersion, ok version

theorem tokens_empty : Tokens ok Db.empty where
  hash := by simp [Db.empty]
  coverVersion := by simp [Db.empty]

theorem Tokens.of_subset (h : Tokens ok db) {next : Db} (hfolders : next.folders ⊆ db.folders)
    (hbooks : next.books ⊆ db.books) : Tokens ok next where
  hash row hrow := h.hash row (hbooks hrow)
  coverVersion row hrow := h.coverVersion row (hfolders hrow)

theorem Tokens.deleteBooks (h : Tokens ok db) (started : ℕ) : Tokens ok (db.deleteBooks started) :=
  h.of_subset (List.Subset.refl _) List.filter_sublist.subset

theorem Tokens.deleteFolders (h : Tokens ok db) (started : ℕ) :
    Tokens ok (db.deleteFolders started) :=
  h.of_subset (db.keptFolders_sublist started).subset List.filter_sublist.subset

theorem Tokens.upsertFolder (h : Tokens ok db) {next : Db} {path : OsPath} {parentId : Option ℕ}
    {nameOverride : Option (List Char)} {seenAt id : ℕ} {info : FolderInfo}
    (hnext : upsertFolder xxh3 db path parentId nameOverride seenAt info = some (next, id)) :
    Tokens ok next := by
  unfold Catalog.upsertFolder at hnext
  split at hnext
  · simp at hnext
  · split at hnext
    · next existing hexisting =>
      obtain ⟨stored, hstored, hpair⟩ := Option.map_eq_some_iff.mp hnext
      obtain ⟨rfl, -⟩ := Prod.mk.inj hpair
      obtain ⟨hfolders, hbooks⟩ := Db.updateFolder_eq_some hstored
      constructor
      · rw [hbooks]
        exact h.hash
      · intro row hrow
        rw [hfolders] at hrow
        rcases mem_updateWhere.mp hrow with ⟨old, hold, -, rfl⟩ | ⟨hrow, -⟩
        · exact h.coverVersion old hold
        · exact h.coverVersion row hrow
    · obtain ⟨stored, hstored, hpair⟩ := Option.map_eq_some_iff.mp hnext
      obtain ⟨rfl, -⟩ := Prod.mk.inj hpair
      obtain ⟨hfolders, hbooks⟩ := Db.insertFolder_eq_some hstored
      constructor
      · rw [hbooks]
        exact h.hash
      · intro row hrow
        rw [hfolders] at hrow
        rcases List.mem_append.mp hrow with hrow | hrow
        · exact h.coverVersion row hrow
        · rw [List.mem_singleton.mp hrow]
          simp [folderRow]

theorem Tokens.upsertBook (h : Tokens ok db) {next : Db} {path : OsPath} {name : OsName}
    {folderId seenAt : ℕ} {info : FileInfo} (hinfo : ∀ hash ∈ info.hash, ok hash)
    (hnext : upsertBook db path name folderId seenAt info = .stored next) : Tokens ok next := by
  obtain ⟨size, row, -, -, -, hstores, hstored⟩ := upsertBook_spec hnext
  have hrow : ok row.hash := by
    cases hstores with
    | stamped old hold hpath hunchanged => exact h.hash old hold
    | written hash kind pageCount id addedAt hhash hkind hpages hpos hmax => exact hinfo hash hhash
  constructor
  · intro other hother
    rcases (hstored.mem_iff other).mp hother with rfl | ⟨hold, -⟩
    · exact hrow
    · exact h.hash other hold
  · rw [hstored.folders_eq]
    exact h.coverVersion

theorem firstBySortKey_mem {rows : List BookRow} {row : BookRow}
    (h : firstBySortKey rows = some row) : row ∈ rows := by
  induction rows generalizing row with
  | nil => simp [firstBySortKey] at h
  | cons first rest ih =>
    unfold firstBySortKey at h
    split at h
    · next other hother =>
      split at h
      · rw [← Option.some.inj h]
        exact List.mem_cons_of_mem _ (ih hother)
      · rw [← Option.some.inj h]
        exact List.mem_cons_self
    · rw [← Option.some.inj h]
      exact List.mem_cons_self

theorem coverVersionFor_eq {coverMtime : PathText → Option ℕ} {id : ℕ} {cover : Option PathText}
    {found : Option (List Char)} (h : coverVersionFor coverMtime db id cover = some found) :
    ∀ version ∈ found, (∃ mtime : ℕ, version = 'p' :: (toString mtime).toList) ∨
      ∃ book ∈ db.books, version = book.hash := by
  unfold coverVersionFor at h
  split at h
  · next mtime _ =>
    rw [← Option.some.inj h]
    rintro version hversion
    exact .inl ⟨mtime, (Option.some.inj hversion).symm⟩
  · split at h
    · next book hbook =>
      rw [← Option.some.inj h]
      rintro version hversion
      exact .inr ⟨book, (List.mem_filter.mp (firstBySortKey_mem hbook)).1,
        (Option.some.inj hversion).symm⟩
    · obtain ⟨ids, -, rfl⟩ := Option.map_eq_some_iff.mp h
      rintro version hversion
      obtain ⟨book, hbook, rfl⟩ := Option.map_eq_some_iff.mp hversion
      exact .inr ⟨book, (List.mem_filter.mp (firstBySortKey_mem hbook)).1, rfl⟩

theorem Tokens.setCoverVersion (h : Tokens ok db) {id : ℕ} {version : Option (List Char)}
    (hversion : ∀ text ∈ version, ok text) : Tokens ok (db.setCoverVersion id version) where
  hash := h.hash
  coverVersion row hrow := by
    rcases mem_updateWhere.mp hrow with ⟨old, hold, -, rfl⟩ | ⟨hrow, -⟩
    · exact hversion
    · exact h.coverVersion row hrow

/-- Every state of a walk so far is as wanted. -/
def Walk.Tokens (ok : List Char → Prop) (walk : Walk) : Prop :=
  ∀ state ∈ walk.db :: walk.past, Catalog.Tokens ok state

theorem Walk.Tokens.execute {walk : Walk} (h : walk.Tokens ok) {next : Db}
    (hnext : Catalog.Tokens ok next) : (walk.execute next).Tokens ok :=
  List.forall_mem_cons.mpr ⟨hnext, h⟩

theorem Walk.Tokens.visitFolder {walk : Walk} (h : walk.Tokens ok) (started : ℕ) (path : OsPath)
    (info : FolderInfo) : (visitFolder xxh3 started walk path info).1.Tokens ok := by
  unfold Catalog.visitFolder
  split
  · exact h
  · split
    · exact h
    · next stored id hstored =>
      exact h.execute ((h walk.db List.mem_cons_self).upsertFolder hstored)

theorem Walk.Tokens.visitFile {walk : Walk} (h : walk.Tokens ok) (started : ℕ) (path : OsPath)
    (name : OsName) {info : FileInfo} (hinfo : isSupported name = true → ∀ hash ∈ info.hash, ok hash) :
    (visitFile started walk path name info).Tokens ok := by
  unfold Catalog.visitFile
  split
  · next hsupported =>
    split
    · exact h
    · split
      · exact h
      · exact h
      · next stored hstored =>
        exact h.execute ((h walk.db List.mem_cons_self).upsertBook (hinfo hsupported) hstored)
  · exact h

theorem Walk.Tokens.visit {walk : Walk} (h : walk.Tokens ok) (started : ℕ) (dir : OsPath)
    (listing : Listing)
    (hfiles : ∀ entry ∈ listing.files isVisible dir, ∀ hash ∈ entry.2.hash, ok hash) :
    (visit xxh3 started walk dir listing).Tokens ok := by
  apply @visit_invariant xxh3 started (Walk.Tokens ok) (listing.files isVisible dir) ?_ ?_ _ _ _
    (List.Subset.refl _) h
  · exact fun walk path info hwalk ↦ hwalk.visitFolder started path info
  · exact fun walk path name info hfile hwalk ↦
      hwalk.visitFile started path name fun hsupported ↦ hfiles (path, info) (hfile hsupported)

theorem Walk.Tokens.refreshCoverVersions {walk : Walk} (h : walk.Tokens ok)
    (hmtime : ∀ mtime : ℕ, ok ('p' :: (toString mtime).toList)) (coverMtime : PathText → Option ℕ) :
    (refreshCoverVersions coverMtime walk).Tokens ok := by
  unfold Catalog.refreshCoverVersions
  generalize walk.db.folders = rows
  induction rows generalizing walk with
  | nil => exact h
  | cons row rest ih =>
    rw [List.foldl_cons]
    apply ih
    unfold refreshCoverVersion
    have hwalk := h walk.db List.mem_cons_self
    split
    · next version hversion =>
      refine h.execute (hwalk.setCoverVersion fun text htext ↦ ?_)
      rcases coverVersionFor_eq hversion text htext with ⟨mtime, rfl⟩ | ⟨book, hbook, rfl⟩
      · exact hmtime mtime
      · exact hwalk.hash book hbook
    · exact h

/-- In every state of a scan, what has been generated is as wanted. -/
theorem Tokens.of_mem_states (h : Tokens ok db)
    (hmtime : ∀ mtime : ℕ, ok ('p' :: (toString mtime).toList))
    (hfiles : ∀ entry ∈ scan.entries.files, ∀ hash ∈ entry.2.hash, ok hash) {next : Db}
    (hnext : next ∈ scan.states xxh3 db) : Tokens ok next := by
  unfold Scan.states at hnext
  split at hnext
  · next walk hcomplete =>
    obtain ⟨walked, hwalked, rfl⟩ := Option.map_eq_some_iff.mp hcomplete
    obtain ⟨start, hstart, rfl⟩ := Option.map_eq_some_iff.mp hwalked
    have hentered : start.Tokens ok := by
      obtain ⟨⟨stored, id⟩, hstored, rfl⟩ := Option.map_eq_some_iff.mp hstart
      exact List.forall_mem_cons.mpr ⟨h.upsertFolder hstored, List.forall_mem_singleton.mpr h⟩
    have hvisited := @Walk.Tokens.visit xxh3 ok _ hentered scan.started scan.root scan.listing hfiles
    have hbooks := hvisited.execute ((hvisited _ List.mem_cons_self).deleteBooks scan.started)
    have hpruned : (scan.prune _).Tokens ok :=
      hbooks.execute ((hbooks _ List.mem_cons_self).deleteFolders scan.started)
    exact hpruned.refreshCoverVersions hmtime scan.coverMtime next hnext
  · rw [List.mem_singleton.mp hnext]
    exact h

end ComicStream.Catalog
