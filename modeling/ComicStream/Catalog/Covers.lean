import ComicStream.Catalog.Forest
import ComicStream.Catalog.Pointwise
import ComicStream.Catalog.Reading
import ComicStream.Catalog.Tokens

/-!
# Covers after a scan

A scan ends by storing a cover version for every folder. None of them is computed
from another, so in the end each is the one that the last database gives. The path
of a cover is one that the scan has found itself, except in a row that it has left
alone.
-/

namespace ComicStream.Catalog

open Rust Archive Table

variable {xxh3 : List UInt8 → UInt64} {coverMtime : PathText → Option ℕ} {db next : Db}

/-- The cover version of a file that was modified in the second given. -/
def coverToken (mtime : ℕ) : List Char := 'p' :: decimal mtime

theorem coverToken_injective : Function.Injective coverToken := by
  intro first second h
  have hdecimal : decimal first = decimal second := (List.cons.inj h).2
  rw [← (isDecimal_decimal first).value, hdecimal, (isDecimal_decimal second).value]

/-- The first book in the folders wanted, by sort key. -/
structure Db.IsFirstBook (db : Db) (wanted : ℕ → Prop) (book : BookRow) : Prop where
  mem : book ∈ db.books
  folder : wanted book.folderId
  first : ∀ other ∈ db.books, wanted other.folderId → ¬other.sortKey < book.sortKey

/-- A folder stands for its first book, and without any for the first one in its subtree. -/
def Db.IsCoverBook (db : Db) (id : ℕ) (book : BookRow) : Prop :=
  db.IsFirstBook (· = id) book ∨
    (∀ other ∈ db.books, other.folderId ≠ id) ∧
      db.IsFirstBook (Worklist.Below db.children id) book

theorem Db.IsCoverBook.mem {id : ℕ} {book : BookRow} (h : db.IsCoverBook id book) :
    book ∈ db.books := by
  rcases h with hdirect | ⟨-, hbelow⟩
  · exact hdirect.mem
  · exact hbelow.mem

theorem firstBySortKey_eq_none {rows : List BookRow} (h : firstBySortKey rows = none) :
    rows = [] := by
  cases rows with
  | nil => rfl
  | cons row rest =>
    unfold firstBySortKey at h
    split at h
    · split at h <;> simp at h
    · simp at h

theorem firstBySortKey_le {rows : List BookRow} {row : BookRow}
    (h : firstBySortKey rows = some row) : ∀ other ∈ rows, ¬other.sortKey < row.sortKey := by
  induction rows generalizing row with
  | nil => simp
  | cons first rest ih =>
    unfold firstBySortKey at h
    split at h
    · next least hleast =>
      have hrest := ih hleast
      split at h
      · next hlt =>
        rw [← Option.some.inj h]
        exact List.forall_mem_cons.mpr ⟨List.lt_asymm hlt, hrest⟩
      · next hge =>
        rw [← Option.some.inj h]
        refine List.forall_mem_cons.mpr ⟨List.lt_irrefl _, fun other hother ↦ ?_⟩
        exact List.not_lt.mpr
          (List.le_trans (List.not_lt.mp hge) (List.not_lt.mp (hrest other hother)))
    · next hnone =>
      rw [← Option.some.inj h, firstBySortKey_eq_none hnone]
      exact List.forall_mem_singleton.mpr (List.lt_irrefl _)

theorem isFirstBook_of_firstBySortKey {wanted : ℕ → Prop} [DecidablePred wanted] {book : BookRow}
    (h : firstBySortKey (db.books.filter (wanted ·.folderId)) = some book) :
    db.IsFirstBook wanted book := by
  have hmem := List.mem_filter.mp (firstBySortKey_mem h)
  refine ⟨hmem.1, of_decide_eq_true hmem.2, fun other hother hwanted ↦ ?_⟩
  exact firstBySortKey_le h other (List.mem_filter.mpr ⟨hother, decide_eq_true hwanted⟩)

/-- The row has the cover version that the database gives. -/
def Versioned (coverMtime : PathText → Option ℕ) (db : Db) (row : FolderRow) : Prop :=
  coverVersionFor coverMtime db row.id row.coverPath = some row.coverVersion

theorem map_id_filter_place {keep : FolderRow → Bool} (hkeep : ∀ row : FolderRow,
    keep row.place = keep row) (rows : List FolderRow) :
    ((rows.map FolderRow.place).filter keep).map FolderRow.id = (rows.filter keep).map FolderRow.id := by
  have hcomp : keep ∘ FolderRow.place = keep := funext hkeep
  rw [List.filter_map, hcomp, List.map_map]
  rfl

/-- The places of the folders decide which are below which. -/
theorem Db.subtree_of_places
    (hplaces : next.folders.map FolderRow.place = db.folders.map FolderRow.place) (id : ℕ) :
    next.subtree id = db.subtree id := by
  have hids {keep : FolderRow → Bool} (hkeep : ∀ row : FolderRow, keep row.place = keep row) :
      (next.folders.filter keep).map FolderRow.id = (db.folders.filter keep).map FolderRow.id := by
    rw [← map_id_filter_place hkeep, hplaces, map_id_filter_place hkeep]
  have hchildren : next.children = db.children := funext fun _ ↦ hids fun _ ↦ rfl
  have hlength : next.folders.length = db.folders.length := by
    rw [← List.length_map FolderRow.place, hplaces, List.length_map]
  rw [Db.subtree, Db.subtree, hchildren, hlength, hids fun _ ↦ rfl]

theorem coverVersionFor_of_places
    (hplaces : next.folders.map FolderRow.place = db.folders.map FolderRow.place)
    (hbooks : next.books = db.books) (id : ℕ) (cover : Option PathText) :
    coverVersionFor coverMtime next id cover = coverVersionFor coverMtime db id cover := by
  unfold coverVersionFor
  rw [hbooks, Db.subtree_of_places hplaces]

theorem exists_coverVersion {id : ℕ} (h : (db.subtree id).isSome = true) (cover : Option PathText) :
    ∃ version, coverVersionFor coverMtime db id cover = some version := by
  obtain ⟨ids, hids⟩ := Option.isSome_iff_exists.mp h
  unfold coverVersionFor
  rw [hids]
  split
  · exact ⟨_, rfl⟩
  · split
    · exact ⟨_, rfl⟩
    · exact ⟨_, rfl⟩

/-- Half of the way through the folders of `base`, with `rows` still to be refreshed. -/
structure Refreshing (coverMtime : PathText → Option ℕ) (base : Db) (rows : List FolderRow)
    (walk : Walk) : Prop where
  places : walk.db.folders.map FolderRow.place = base.folders.map FolderRow.place
  books : walk.db.books = base.books
  coverPath : ∀ row ∈ walk.db.folders, ∀ other ∈ rows, other.id = row.id →
    other.coverPath = row.coverPath
  versioned : ∀ row ∈ walk.db.folders,
    row.id ∈ rows.map FolderRow.id ∨ Versioned coverMtime base row

theorem Refreshing.step {base : Db} {row : FolderRow} {rest : List FolderRow} {walk : Walk}
    (h : Refreshing coverMtime base (row :: rest) walk)
    (hends : (base.subtree row.id).isSome = true) :
    Refreshing coverMtime base rest (refreshCoverVersion coverMtime walk row) := by
  obtain ⟨version, hversion⟩ := @exists_coverVersion coverMtime base row.id hends row.coverPath
  have hfound := hversion
  rw [← coverVersionFor_of_places h.places h.books] at hfound
  rw [refreshCoverVersion, hfound]
  refine ⟨?_, h.books, fun other hother last hlast hid ↦ ?_, fun other hother ↦ ?_⟩
  · have hplaces : (walk.db.setCoverVersion row.id version).folders.map FolderRow.place =
        walk.db.folders.map FolderRow.place := by
      rw [Db.setCoverVersion]
      exact map_updateWhere fun _ _ _ ↦ rfl
    exact hplaces.trans h.places
  · obtain ⟨old, hold, _, rfl⟩ := Db.mem_setCoverVersion hother
    exact h.coverPath old hold last (List.mem_cons_of_mem _ hlast) hid
  · rcases mem_updateWhere.mp hother with ⟨old, hold, hid, rfl⟩ | ⟨hother, hid⟩
    · right
      change coverVersionFor coverMtime base old.id old.coverPath = some version
      rw [hid, ← h.coverPath old hold row List.mem_cons_self hid.symm]
      exact hversion
    · apply (h.versioned other hother).imp_left
      intro hmem
      rcases List.mem_cons.mp hmem with hsame | hmem
      · exact absurd hsame hid
      · exact hmem

theorem Refreshing.foldl {base : Db} {rows : List FolderRow} {walk : Walk}
    (h : Refreshing coverMtime base rows walk)
    (hends : ∀ row ∈ rows, (base.subtree row.id).isSome = true) :
    ∀ row ∈ (rows.foldl (refreshCoverVersion coverMtime) walk).db.folders,
      Versioned coverMtime base row := by
  induction rows generalizing walk with
  | nil =>
    intro row hrow
    rcases h.versioned row hrow with hmem | hversioned
    · simp at hmem
    · exact hversioned
  | cons row rest ih =>
    exact ih (h.step (hends row List.mem_cons_self)) fun other hother ↦
      hends other (List.mem_cons_of_mem _ hother)

theorem refreshCoverVersions_versioned {walk : Walk}
    (hends : ∀ row ∈ walk.db.folders, (walk.db.subtree row.id).isSome = true) :
    ∀ row ∈ (refreshCoverVersions coverMtime walk).db.folders,
      Versioned coverMtime (refreshCoverVersions coverMtime walk).db row := by
  have hstart : Refreshing coverMtime walk.db walk.db.folders walk := by
    refine ⟨rfl, rfl, fun row hrow other hother hid ↦ ?_, fun row hrow ↦ ?_⟩
    · rw [Db.folder_eq_of_id hother hrow hid]
    · exact .inl (List.mem_map_of_mem hrow)
  obtain ⟨hplaces, -, hbooks⟩ := refreshCoverVersions_places coverMtime walk
  intro row hrow
  rw [Versioned, coverVersionFor_of_places hplaces hbooks]
  exact hstart.foldl hends row hrow

variable {scan : Scan} {walk : Walk}

/-- After a scan that returns `Ok` every folder has the cover version that the database gives. -/
theorem Scan.complete_versioned {scans : List Scan} (h : Run xxh3 scans db)
    (hwalk : scan.complete xxh3 db = some walk) :
    ∀ row ∈ walk.db.folders, Versioned scan.coverMtime walk.db row := by
  have hforest := (h.complete hwalk).forest
  obtain ⟨walked, -, rfl⟩ := Option.map_eq_some_iff.mp hwalk
  obtain ⟨hplaces, -, -⟩ := refreshCoverVersions_places scan.coverMtime (scan.prune walked)
  apply refreshCoverVersions_versioned
  intro row hrow
  obtain ⟨kept, hkept, hplace⟩ := exists_place hplaces.symm hrow
  obtain ⟨ids, hids, -⟩ := hforest.subtree_spec hkept
  rw [← Db.subtree_of_places hplaces, ← id_eq_of_place hplace, hids]
  rfl

/-- The root, or a directory that the scan meets. -/
def Scan.Meets (scan : Scan) (path : OsPath) (info : FolderInfo) : Prop :=
  path = scan.root ∧ info = scan.rootInfo ∨ (path, info) ∈ scan.entries.folders

/-- A row that a complete scan leaves has the cover path that the scan has found in the directory
of the row, or is one from before, apart from its cover version, whose stamp is not before the scan
started. -/
theorem Scan.complete_coverPath (hwalk : scan.complete xxh3 db = some walk) :
    ∀ row ∈ walk.db.folders,
      (∃ path info, scan.Meets path info ∧ row.path = path.text ∧ row.coverPath = info.coverPath) ∨
      scan.started ≤ row.seenAt ∧
        ∃ old ∈ db.folders, ∃ coverVersion, row = { old with coverVersion := coverVersion } := by
  have hrows := @Scan.rows_induction xxh3 scan db walk.db
    (fun row ↦ (∃ path info, scan.Meets path info ∧ row.path = path.text ∧
        row.coverPath = info.coverPath) ∨
      ∃ old ∈ db.folders, ∃ coverVersion, row = { old with coverVersion := coverVersion })
    (fun _ ↦ True) ⟨fun row hrow ↦ .inr ⟨row, hrow, row.coverVersion, rfl⟩, fun _ _ ↦ trivial⟩
    (fun path _ _ info _ _ hmet ↦ .inl ⟨path, info, hmet, rfl, rfl⟩)
    (fun row coverVersion hrow ↦ hrow.imp_right fun hold ↦ ?_)
    (fun _ _ _ _ _ _ _ _ _ _ _ ↦ trivial) (Scan.mem_states hwalk)
  · intro row hrow
    obtain ⟨walked, -, hrefreshed⟩ := Scan.complete_spec hwalk
    obtain ⟨old, hold, _, rfl⟩ := hrefreshed.folders row hrow
    have hkept := (List.mem_filter.mp (settle_sublist.subset hold)).2
    apply (hrows.1 _ hrow).imp_right
    intro hbefore
    exact ⟨by simpa using hkept, hbefore⟩
  · obtain ⟨old, hmem, version, rfl⟩ := hold
    exact ⟨old, hmem, coverVersion, rfl⟩

end ComicStream.Catalog
