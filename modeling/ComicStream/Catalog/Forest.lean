import ComicStream.Catalog.Walk

/-!
# The catalog is a forest

In every state that scans can leave, a folder's parent is the row of its parent
directory, and a book's folder the row of the directory it is in. Paths get
shorter towards the root, so the parent relation is acyclic and the recursive
queries enumerate every folder of a subtree once.
-/

namespace ComicStream.Catalog

open Rust Archive Table

variable {xxh3 : List UInt8 → UInt64}

/-- Whatever row a folder or book names as its parent is the one of the directory it is in. -/
structure Forest (db : Db) : Prop where
  parent_path : ∀ row ∈ db.folders, ∀ parent ∈ db.folders, row.parentId = some parent.id →
    row.path ≠ [] ∧ parent.path = row.path.dropLast
  folder_path : ∀ book ∈ db.books, ∀ folder ∈ db.folders, folder.id = book.folderId →
    book.path ≠ [] ∧ folder.path = book.path.dropLast

theorem forest_empty : Forest Db.empty where
  parent_path := by simp [Db.empty]
  folder_path := by simp [Db.empty]

section Statements

variable {db next : Db}

theorem Forest.of_subset (h : Forest db) (hfolders : next.folders ⊆ db.folders)
    (hbooks : next.books ⊆ db.books) : Forest next where
  parent_path row hrow parent hparent := h.parent_path row (hfolders hrow) parent (hfolders hparent)
  folder_path book hbook folder hfolder :=
    h.folder_path book (hbooks hbook) folder (hfolders hfolder)

theorem FolderStored.path_eq {row other : FolderRow} (hstored : FolderStored db next row)
    (hother : other ∈ next.folders) {old : FolderRow} (hold : old ∈ db.folders)
    (hid : other.id = old.id) : other.path = old.path := by
  by_cases hpath : old.path = row.path
  · have hrow : row ∈ next.folders := (hstored.mem_iff row).mpr (.inl rfl)
    have hsame : other = row := by
      apply Db.folder_eq_of_id hother hrow
      rw [hid, hstored.id_eq old hold hpath]
    rw [hsame, hpath]
  · have hkept : old ∈ next.folders := (hstored.mem_iff old).mpr (.inr ⟨hold, hpath⟩)
    rw [Db.folder_eq_of_id hother hkept hid]

/-- A folder row may be stored under the row of its parent directory, or without a parent. -/
theorem Forest.folderStored (h : Forest db) {row : FolderRow} (hstored : FolderStored db next row)
    (hparent : ∀ parentId ∈ row.parentId, ∃ parent ∈ db.folders, parent.id = parentId ∧
      row.path ≠ [] ∧ parent.path = row.path.dropLast) : Forest next where
  parent_path other hother parent hmem hid := by
    rcases (hstored.mem_iff other).mp hother with rfl | ⟨hold, -⟩
    · obtain ⟨directory, hdirectory, hdirectoryId, hne, hpath⟩ := hparent parent.id hid
      rw [hstored.path_eq hmem hdirectory hdirectoryId.symm]
      exact ⟨hne, hpath⟩
    · obtain ⟨directory, hdirectory, hdirectoryId⟩ := db.valid.folder_parents other hold parent.id hid
      rw [hstored.path_eq hmem hdirectory hdirectoryId.symm]
      exact h.parent_path other hold directory hdirectory (by rw [hdirectoryId]; exact hid)
  folder_path book hbook folder hmem hid := by
    rw [hstored.books_eq] at hbook
    obtain ⟨directory, hdirectory, hdirectoryId⟩ := db.valid.book_folders book hbook
    rw [hstored.path_eq hmem hdirectory (hid.trans hdirectoryId.symm)]
    exact h.folder_path book hbook directory hdirectory hdirectoryId

theorem Forest.bookStored (h : Forest db) {row : BookRow} (hstored : BookStored db next row)
    (hfolder : ∃ folder ∈ db.folders, folder.id = row.folderId ∧
      row.path ≠ [] ∧ folder.path = row.path.dropLast) : Forest next where
  parent_path other hother parent hmem := by
    rw [hstored.folders_eq] at hother hmem
    exact h.parent_path other hother parent hmem
  folder_path book hbook folder hmem hid := by
    rw [hstored.folders_eq] at hmem
    rcases (hstored.mem_iff book).mp hbook with rfl | ⟨hold, -⟩
    · obtain ⟨directory, hdirectory, hdirectoryId, hne, hpath⟩ := hfolder
      rw [Db.folder_eq_of_id hmem hdirectory (hid.trans hdirectoryId.symm)]
      exact ⟨hne, hpath⟩
    · exact h.folder_path book hold folder hmem hid

theorem Forest.deleteBooks (h : Forest db) (started : ℕ) : Forest (db.deleteBooks started) :=
  h.of_subset (List.Subset.refl _) List.filter_sublist.subset

theorem Forest.deleteFolders (h : Forest db) (started : ℕ) : Forest (db.deleteFolders started) :=
  h.of_subset (db.keptFolders_sublist started).subset List.filter_sublist.subset

theorem Forest.setCoverVersion (h : Forest db) (id : ℕ) (version : Option (List Char)) :
    Forest (db.setCoverVersion id version) where
  parent_path row hrow parent hparent hid := by
    obtain ⟨oldRow, holdRow, _, rfl⟩ := Db.mem_setCoverVersion hrow
    obtain ⟨oldParent, holdParent, _, rfl⟩ := Db.mem_setCoverVersion hparent
    exact h.parent_path oldRow holdRow oldParent holdParent hid
  folder_path book hbook folder hfolder hid := by
    obtain ⟨old, hold, _, rfl⟩ := Db.mem_setCoverVersion hfolder
    exact h.folder_path book hbook old hold hid

end Statements

/-- The folders walked so far have their rows, and every state so far is a forest. -/
structure Walk.Rooted (walk : Walk) : Prop where
  forest : Forest walk.db
  past : ∀ db ∈ walk.past, Forest db
  located : ∀ path id, walk.pathToId path = some id →
    ∃ row ∈ walk.db.folders, row.id = id ∧ row.path = path.text

theorem Walk.Rooted.execute {walk : Walk} (h : walk.Rooted) {db : Db} (hdb : Forest db)
    (hlocated : ∀ path id, walk.pathToId path = some id →
      ∃ row ∈ db.folders, row.id = id ∧ row.path = path.text) : (walk.execute db).Rooted where
  forest := hdb
  past other hother := by
    rcases List.mem_cons.mp hother with rfl | hother
    · exact h.forest
    · exact h.past other hother
  located := hlocated

theorem FolderStored.exists_row {db next : Db} {row old : FolderRow}
    (hstored : FolderStored db next row) (hold : old ∈ db.folders) :
    ∃ new ∈ next.folders, new.id = old.id ∧ new.path = old.path := by
  by_cases hpath : old.path = row.path
  · exact ⟨row, (hstored.mem_iff row).mpr (.inl rfl), (hstored.id_eq old hold hpath).symm,
      hpath.symm⟩
  · exact ⟨old, (hstored.mem_iff old).mpr (.inr ⟨hold, hpath⟩), rfl, rfl⟩

theorem OsPath.text_snoc_ne_nil (dir : OsPath) (name : OsName) : (dir ++ [name]).text ≠ [] := by
  rw [OsPath.text_append]
  simp [OsPath.text]

theorem OsPath.text_snoc_dropLast (dir : OsPath) (name : OsName) :
    (dir ++ [name]).text.dropLast = dir.text := by
  rw [← OsPath.text_dropLast, List.dropLast_concat]

theorem Walk.Rooted.step {started : ℕ} {entries : Entries} {walk next : Walk}
    (h : walk.Rooted) (hstep : WalkStep xxh3 started entries walk next) : next.Rooted := by
  cases hstep with
  | orphan path => exact ⟨h.forest, h.past, h.located⟩
  | counted => exact ⟨h.forest, h.past, h.located⟩
  | folder dir name info parentId id db coverVersion hfolder hparent hstored =>
    obtain ⟨parent, hmem, hparentId, hparentPath⟩ := h.located dir parentId hparent
    have hforest : Forest db := by
      apply h.forest.folderStored hstored
      intro target htarget
      obtain rfl : parentId = target := by simpa [folderRow] using htarget
      refine ⟨parent, hmem, hparentId, OsPath.text_snoc_ne_nil dir name, ?_⟩
      rw [hparentPath]
      exact (OsPath.text_snoc_dropLast dir name).symm
    refine ⟨hforest, (h.execute hforest ?_).past, ?_⟩
    · intro path id hpath
      obtain ⟨row, hrow, rfl, hrowPath⟩ := h.located path id hpath
      obtain ⟨new, hnew, hid, hnewPath⟩ := hstored.exists_row hrow
      exact ⟨new, hnew, hid, hnewPath.trans hrowPath⟩
    · intro path other hpath
      change Function.update walk.pathToId (dir ++ [name]) (some id) path = some other at hpath
      by_cases hsame : path = dir ++ [name]
      · subst hsame
        obtain rfl : id = other := by simpa using hpath
        exact ⟨_, (hstored.mem_iff _).mpr (.inl rfl), rfl, rfl⟩
      · rw [Function.update_of_ne hsame] at hpath
        obtain ⟨row, hrow, rfl, hrowPath⟩ := h.located path other hpath
        obtain ⟨new, hnew, hid, hnewPath⟩ := hstored.exists_row hrow
        exact ⟨new, hnew, hid, hnewPath.trans hrowPath⟩
  | book dir name info folderId size db row hfile hparent hsize hmax hstores hstored =>
    obtain ⟨folder, hmem, hfolderId, hfolderPath⟩ := h.located dir folderId hparent
    have hforest : Forest db := by
      apply h.forest.bookStored hstored
      refine ⟨folder, hmem, by rw [hfolderId, hstores.folderId_eq], ?_⟩
      rw [hstores.path_eq, OsPath.text_snoc_dropLast]
      exact ⟨OsPath.text_snoc_ne_nil dir name, hfolderPath⟩
    have hnext := h.execute hforest (by rw [hstored.folders_eq]; exact h.located)
    exact ⟨hnext.forest, hnext.past, hnext.located⟩

theorem Scan.rooted_enter {scan : Scan} {db : Db} {walk : Walk} (h : Forest db)
    (hwalk : scan.enter xxh3 db = some walk) : walk.Rooted := by
  obtain ⟨id, coverVersion, hstored, hpast, hpaths, -, -⟩ := Scan.enter_spec hwalk
  refine ⟨h.folderStored hstored (by simp [folderRow]), by simpa [hpast] using h, ?_⟩
  intro path other hpath
  rw [hpaths] at hpath
  by_cases hroot : path = scan.root
  · subst hroot
    obtain rfl : id = other := by simpa using hpath
    exact ⟨_, (hstored.mem_iff _).mpr (.inl rfl), rfl, rfl⟩
  · simp [Function.update_of_ne hroot] at hpath

/-- Every state of a scan of a forest is a forest, wherever the scan stops. -/
theorem Scan.forest_of_mem_states {scan : Scan} {db next : Db} (h : Forest db)
    (hnext : next ∈ scan.states xxh3 db) : Forest next := by
  apply @Scan.states_induction xxh3 scan db next Forest Walk.Rooted h ?_ ?_ ?_ ?_ ?_ ?_ hnext
  · exact fun walk hwalk ↦ Scan.rooted_enter h hwalk
  · exact fun walk next hstep hwalk ↦ hwalk.step hstep
  · exact fun walk hwalk ↦ List.forall_mem_cons.mpr ⟨hwalk.forest, hwalk.past⟩
  · exact fun state hstate ↦ hstate.deleteBooks scan.started
  · exact fun state hstate ↦ hstate.deleteFolders scan.started
  · exact fun state id version hstate ↦ hstate.setCoverVersion id version

/-- Whatever scans were made, and wherever they stopped, the catalog is a forest. -/
theorem Run.forest {scans : List Scan} {db : Db} (h : Run xxh3 scans db) : Forest db := by
  induction h with
  | empty => exact forest_empty
  | scan _ scan hnext ih => exact Scan.forest_of_mem_states ih hnext

section Queries

variable {db : Db}

/-- The depth of the folder with a given id. -/
def Db.depth (db : Db) (id : ℕ) : ℕ :=
  ((db.folders.find? (·.id = id)).map fun row ↦ row.path.length).getD 0

theorem Db.depth_eq {row : FolderRow} (hrow : row ∈ db.folders) :
    db.depth row.id = row.path.length := by
  rw [depth, find?_key db.valid.folder_ids hrow]
  rfl

theorem Db.mem_children {parent child : ℕ} :
    child ∈ db.children parent ↔
      ∃ row ∈ db.folders, row.parentId = some parent ∧ row.id = child := by
  simp [Db.children, and_assoc]

/-- The child relation of the catalog is that of a forest. -/
theorem Forest.isForest (h : Forest db) :
    Worklist.IsForest db.children db.depth (db.folders.map FolderRow.id) where
  rank_child parent child hchild := by
    obtain ⟨row, hrow, hparentId, rfl⟩ := Db.mem_children.mp hchild
    obtain ⟨directory, hdirectory, rfl⟩ := db.valid.folder_parents row hrow parent hparentId
    obtain ⟨hne, hpath⟩ := h.parent_path row hrow directory hdirectory hparentId
    have hpos := List.length_pos_iff.mpr hne
    rw [Db.depth_eq hrow, Db.depth_eq hdirectory, hpath, List.length_dropLast]
    omega
  unique_parent first second child hfirst hsecond := by
    obtain ⟨row, hrow, hparentId, rfl⟩ := Db.mem_children.mp hfirst
    obtain ⟨other, hother, hotherId, hid⟩ := Db.mem_children.mp hsecond
    rw [Db.folder_eq_of_id hother hrow hid, hparentId] at hotherId
    exact Option.some.inj hotherId
  nodup_children parent := db.valid.folder_ids.sublist (List.filter_sublist.map _)
  child_mem parent child hchild := by
    obtain ⟨row, hrow, -, rfl⟩ := Db.mem_children.mp hchild
    exact List.mem_map_of_mem hrow

/-- The recursive query for a folder ends, and finds each folder of its subtree once. -/
theorem Forest.subtree_spec (h : Forest db) {row : FolderRow} (hrow : row ∈ db.folders) :
    ∃ ids, db.subtree row.id = some ids ∧ ids.Nodup ∧
      ∀ id, id ∈ ids ↔ Worklist.Below db.children row.id id := by
  have hstart : (db.folders.filter (·.id = row.id)).map FolderRow.id = [row.id] := by
    have hnodup : ((db.folders.filter (·.id = row.id)).map FolderRow.id).Nodup :=
      db.valid.folder_ids.sublist (List.filter_sublist.map _)
    have hmem : row ∈ db.folders.filter (·.id = row.id) := by simpa using hrow
    have hall : ∀ id ∈ (db.folders.filter (·.id = row.id)).map FolderRow.id, id = row.id := by
      intro id hid
      obtain ⟨other, hother, rfl⟩ := List.mem_map.mp hid
      simpa using (List.mem_filter.mp hother).2
    rw [List.eq_replicate_of_mem hall, List.nodup_replicate] at hnodup
    have hpos := List.length_pos_of_mem (@List.mem_map_of_mem _ _ _ _ FolderRow.id hmem)
    rw [List.eq_replicate_of_mem hall, Nat.le_antisymm hnodup hpos]
    rfl
  have hemit := Worklist.emit_of_isForest h.isForest (List.mem_map_of_mem hrow)
  rw [List.length_map] at hemit
  rw [Db.subtree, hstart]
  exact hemit

end Queries

/-- **The forest invariant.** Whatever libraries were scanned into one data directory, at
whatever times, whichever upserts failed and wherever the scans were stopped: every folder with
a parent has the row of its parent directory for it, every book the row of the directory it is
in, paths and slugs are unique, no folder is below itself, and the recursive query for any
folder ends with every folder of its subtree exactly once. -/
theorem run_forest {scans : List Scan} {db : Db} (h : Run xxh3 scans db) :
    (∀ row ∈ db.folders, ∀ parentId ∈ row.parentId, ∃ parent ∈ db.folders, parent.id = parentId ∧
      row.path ≠ [] ∧ parent.path = row.path.dropLast) ∧
    (∀ book ∈ db.books, ∃ folder ∈ db.folders, folder.id = book.folderId ∧
      book.path ≠ [] ∧ folder.path = book.path.dropLast) ∧
    (db.folders.map FolderRow.path).Nodup ∧ (db.folders.map FolderRow.slug).Nodup ∧
    (db.books.map BookRow.path).Nodup ∧
    (∀ parent child, child ∈ db.children parent → ¬Worklist.Below db.children child parent) ∧
    ∀ row ∈ db.folders, ∃ ids, db.subtree row.id = some ids ∧ ids.Nodup ∧
      ∀ id, id ∈ ids ↔ Worklist.Below db.children row.id id := by
  have hforest := h.forest
  refine ⟨?_, ?_, db.valid.folder_paths, db.valid.folder_slugs, db.valid.book_paths, ?_, ?_⟩
  · intro row hrow parentId hparentId
    obtain ⟨parent, hparent, rfl⟩ := db.valid.folder_parents row hrow parentId hparentId
    exact ⟨parent, hparent, rfl, hforest.parent_path row hrow parent hparent hparentId⟩
  · intro book hbook
    obtain ⟨folder, hfolder, hid⟩ := db.valid.book_folders book hbook
    exact ⟨folder, hfolder, hid, hforest.folder_path book hbook folder hfolder hid⟩
  · intro parent child hchild
    exact hforest.isForest.not_below_of_child hchild
  · intro row hrow
    exact hforest.subtree_spec hrow

/-- The catalog after one scan of the small library. -/
theorem run_forest_sample :
    ∃ db, Run sampleXxh3 [Scan.sample 10 Listing.sample] db ∧
      db.folders.map FolderRow.path = [["lib".toList], ["lib".toList, "a".toList]] ∧
      ∀ row ∈ db.folders, ∃ ids, db.subtree row.id = some ids ∧ ids.Nodup ∧
        ∀ id, id ∈ ids ↔ Worklist.Below db.children row.id id := by
  have hpaths : ((Scan.sample 10 Listing.sample).complete sampleXxh3 Db.empty).map
      (fun walk ↦ walk.db.folders.map FolderRow.path) =
        some [["lib".toList], ["lib".toList, "a".toList]] := by decide
  obtain ⟨walk, hwalk, hrows⟩ := Option.map_eq_some_iff.mp hpaths
  have hrun := Run.empty.complete hwalk
  exact ⟨walk.db, hrun, hrows, (run_forest hrun).2.2.2.2.2.2⟩

end ComicStream.Catalog
