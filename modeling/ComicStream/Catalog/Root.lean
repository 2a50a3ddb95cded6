import ComicStream.Catalog.Forest

/-!
# One library, one root

As long as every scan is of the same library, only the row of its root has no
parent. It is the one root of the forest: every folder is below it.
-/

namespace ComicStream.Catalog

open Rust Archive Table

variable {xxh3 : List UInt8 → UInt64} {root : OsPath} {db : Db}

/-- Only the row of the library's root has no parent. -/
def OneRoot (root : OsPath) (db : Db) : Prop :=
  ∀ row ∈ db.folders, row.parentId = none → row.path = root.text

theorem OneRoot.of_subset (h : OneRoot root db) {next : Db} (hfolders : next.folders ⊆ db.folders) :
    OneRoot root next := fun row hrow ↦ h row (hfolders hrow)

theorem OneRoot.folderStored (h : OneRoot root db) {next : Db} {row : FolderRow}
    (hstored : FolderStored db next row) (hrow : row.parentId = none → row.path = root.text) :
    OneRoot root next := by
  intro other hother
  rcases (hstored.mem_iff other).mp hother with rfl | ⟨hold, -⟩
  · exact hrow
  · exact h other hold

theorem OneRoot.setCoverVersion (h : OneRoot root db) (id : ℕ) (version : Option (List Char)) :
    OneRoot root (db.setCoverVersion id version) := by
  intro row hrow hparent
  obtain ⟨old, hold, _, rfl⟩ := Db.mem_setCoverVersion hrow
  exact h old hold hparent

theorem OneRoot.step {started : ℕ} {entries : Entries} {walk next : Walk}
    (h : ∀ state ∈ walk.db :: walk.past, OneRoot root state)
    (hstep : WalkStep xxh3 started entries walk next) :
    ∀ state ∈ next.db :: next.past, OneRoot root state := by
  have hwalk := h walk.db List.mem_cons_self
  cases hstep with
  | orphan path => exact h
  | counted => exact h
  | folder dir name info parentId id stored coverVersion hfolder hparent hstored =>
    exact List.forall_mem_cons.mpr ⟨hwalk.folderStored hstored (by simp [folderRow]), h⟩
  | book dir name info folderId size stored row hfile hparent hsize hmax hstores hstored =>
    refine List.forall_mem_cons.mpr ⟨fun other hother ↦ ?_, h⟩
    change other ∈ stored.folders at hother
    rw [hstored.folders_eq] at hother
    exact hwalk other hother

theorem Scan.oneRoot_of_mem_states {scan : Scan} {next : Db} (h : OneRoot scan.root db)
    (hnext : next ∈ scan.states xxh3 db) : OneRoot scan.root next := by
  apply @Scan.states_induction xxh3 scan db next (OneRoot scan.root)
    (fun walk ↦ ∀ state ∈ walk.db :: walk.past, OneRoot scan.root state) h ?_ ?_
    (fun _ hwalk ↦ hwalk) ?_ ?_ ?_ hnext
  · intro walk henter
    obtain ⟨id, coverVersion, hstored, hpast, -⟩ := Scan.enter_spec henter
    rw [hpast, List.forall_mem_cons, List.forall_mem_singleton]
    exact ⟨h.folderStored hstored fun _ ↦ rfl, h⟩
  · exact fun walk next hstep hwalk ↦ OneRoot.step hwalk hstep
  · exact fun state hstate ↦ hstate
  · exact fun state hstate ↦ hstate.of_subset (state.keptFolders_sublist scan.started).subset
  · exact fun state id version hstate ↦ hstate.setCoverVersion id version

/-- Whatever scans were made of a library, and wherever they stopped, it has one root. -/
theorem Run.oneRoot {scans : List Scan} (h : Run xxh3 scans db)
    (hroot : ∀ scan ∈ scans, scan.root = root) : OneRoot root db := by
  induction h with
  | empty => simp [OneRoot, Db.empty]
  | scan _ scan hnext ih =>
    have hlast : scan.root = root := hroot scan (by simp)
    rw [← hlast]
    apply Scan.oneRoot_of_mem_states ?_ hnext
    rw [hlast]
    exact ih fun other hother ↦ hroot other (by simp [hother])

section Below

variable {start : FolderRow}

/-- There is no other row without a parent. -/
theorem OneRoot.eq_start (h : OneRoot root db) (hstart : start ∈ db.folders)
    (hnone : start.parentId = none) {row : FolderRow} (hrow : row ∈ db.folders)
    (hparent : row.parentId = none) : row = start :=
  Db.folder_eq_of_path hrow hstart ((h row hrow hparent).trans (h start hstart hnone).symm)

theorem OneRoot.below (h : OneRoot root db) (hforest : Forest db) (hstart : start ∈ db.folders)
    (hnone : start.parentId = none) (row : FolderRow) (hrow : row ∈ db.folders) :
    Worklist.Below db.children start.id row.id ∧ start.path.length ≤ row.path.length := by
  cases hparent : row.parentId with
  | none =>
    rw [h.eq_start hstart hnone hrow hparent]
    exact ⟨.refl, Nat.le_refl _⟩
  | some parentId =>
    obtain ⟨parent, hmem, rfl⟩ := db.valid.folder_parents row hrow parentId hparent
    obtain ⟨hne, hpath⟩ := hforest.parent_path row hrow parent hmem hparent
    have hlength : parent.path.length < row.path.length := by
      rw [hpath, List.length_dropLast]
      exact Nat.sub_one_lt (List.length_eq_zero_iff.not.mpr hne)
    obtain ⟨hbelow, hle⟩ := h.below hforest hstart hnone parent hmem
    exact ⟨hbelow.tail (Db.mem_children.mpr ⟨row, hrow, hparent, rfl⟩), by omega⟩
termination_by row.path.length

/-- A folder is the child of the folder that its path lies in. -/
theorem OneRoot.parentId_eq_iff (h : OneRoot root db) (hforest : Forest db)
    (hstart : start ∈ db.folders) (hnone : start.parentId = none) {row child : FolderRow}
    (hrow : row ∈ db.folders) (hchild : child ∈ db.folders) :
    child.parentId = some row.id ↔ child.path ≠ [] ∧ row.path = child.path.dropLast := by
  constructor
  · exact hforest.parent_path child hchild row hrow
  · rintro ⟨hne, hpath⟩
    cases hparent : child.parentId with
    | none =>
      have hle := (h.below hforest hstart hnone row hrow).2
      have hpos := List.length_pos_iff.mpr hne
      rw [← h.eq_start hstart hnone hchild hparent, hpath, List.length_dropLast] at hle
      omega
    | some parentId =>
      obtain ⟨parent, hmem, rfl⟩ := db.valid.folder_parents child hchild parentId hparent
      have hsame := (hforest.parent_path child hchild parent hmem hparent).2
      rw [Db.folder_eq_of_path hrow hmem (hpath.trans hsame.symm)]

end Below

theorem Forest.folderId_eq_iff (h : Forest db) {row : FolderRow} {book : BookRow}
    (hrow : row ∈ db.folders) (hbook : book ∈ db.books) :
    book.folderId = row.id ↔ book.path ≠ [] ∧ row.path = book.path.dropLast := by
  constructor
  · intro hid
    exact h.folder_path book hbook row hrow hid.symm
  · rintro ⟨hne, hpath⟩
    obtain ⟨folder, hfolder, hid⟩ := db.valid.book_folders book hbook
    have hsame := (h.folder_path book hbook folder hfolder hid).2
    rw [← hid, Db.folder_eq_of_path hrow hfolder (hpath.trans hsame.symm)]

end ComicStream.Catalog
