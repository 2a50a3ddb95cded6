import ComicStream.Catalog.Rescan

/-!
# One path at a time

What a scan stores for a file depends on the file, on the row that its path has and
on the row of the folder it is in, and on no other row. So two trees with the same
directories that differ in the file at one path get the same book rows at all other
paths.
-/

namespace ComicStream.Catalog

open Rust Archive Table

variable {xxh3 : List UInt8 → UInt64} {db next : Db}

/-- A row but for its id. -/
def BookRow.withoutId (row : BookRow) : BookRow := { row with id := 0 }

/-- What a scan stores for a file in a folder, given the row that its path has. -/
def storedRow (path : OsPath) (name : OsName) (folderId seenAt : ℕ) (info : FileInfo)
    (old : Option BookRow) : Option BookRow :=
  info.size.bind fun size ↦
    if maxArchiveBytes < size ∨ info.fault = true then none
    else
      match old.filter (isUnchanged info size) with
      | some row => some { row with id := 0, seenAt := seenAt, folderId := folderId }
      | none =>
        info.hash.bind fun hash ↦ info.kind.bind fun kind ↦ info.pageCount.bind fun pageCount ↦
          if pageCount = 0 ∨ maxPages < pageCount then none
          else
            some (bookRow path name folderId seenAt info size hash kind pageCount 0
              ((old.map BookRow.addedAt).getD seenAt))

theorem Db.bookAt_eq_some_iff {path : PathText} {row : BookRow} :
    db.bookAt path = some row ↔ row ∈ db.books ∧ row.path = path := by
  constructor
  · exact Db.bookAt_eq_some
  · rintro ⟨hrow, rfl⟩
    exact find?_key db.valid.book_paths hrow

theorem BookStored.bookAt {row : BookRow} (h : BookStored db next row) (path : PathText) :
    next.bookAt path = if path = row.path then some row else db.bookAt path := by
  split
  · next hpath => exact Db.bookAt_eq_some_iff.mpr ⟨(h.mem_iff row).mpr (.inl rfl), hpath.symm⟩
  · next hpath =>
    ext other
    rw [Db.bookAt_eq_some_iff, Db.bookAt_eq_some_iff, h.mem_iff]
    constructor
    · rintro ⟨rfl | ⟨hold, -⟩, hother⟩
      · exact absurd hother.symm hpath
      · exact ⟨hold, hother⟩
    · rintro ⟨hold, hother⟩
      exact ⟨.inr ⟨hold, fun hsame ↦ hpath (hother.symm.trans hsame)⟩, hother⟩

section Upsert

variable {path : OsPath} {name : OsName} {folderId seenAt : ℕ} {info : FileInfo}

theorem exists_updateBook (id : ℕ) {update : BookRow → BookRow}
    (hid : ∀ row, (update row).id = row.id) (hpath : ∀ row, (update row).path = row.path)
    (hfolder : ∀ row, ∃ folder ∈ db.folders, folder.id = (update row).folderId) :
    ∃ next, db.updateBook id update = some next := by
  have hvalid := @Tables.Valid.updateBook db.toTables db.valid id update hid
    (fun row _ _ ↦ hpath row) fun row _ _ ↦ hfolder row
  exact ⟨⟨_, hvalid⟩, Tables.commit_of_valid hvalid⟩

theorem updateBook_folderSeq {id : ℕ} {update : BookRow → BookRow}
    (h : db.updateBook id update = some next) : next.folderSeq = db.folderSeq := by
  rw [Db.updateBook, Tables.commit_eq_some] at h
  rw [h]

/-- What an upsert of a book comes to: `row` is stored, or nothing is. -/
def Ingests (db : Db) (path : OsPath) (name : OsName) (folderId seenAt : ℕ) (info : FileInfo) :
    Option BookRow → Prop
  | some row => ∃ next stored, upsertBook db path name folderId seenAt info = .stored next ∧
    BookStored db next stored ∧ next.folderSeq = db.folderSeq ∧ stored.path = path.text ∧
      stored.withoutId = row
  | none => ∀ next, upsertBook db path name folderId seenAt info ≠ .stored next

theorem ingests_unchanged (hfolder : ∃ folder ∈ db.folders, folder.id = folderId) {size : ℕ}
    {old : BookRow} (hsize : info.size = some size) (hmax : ¬maxArchiveBytes < size)
    (hfault : ¬info.fault = true)
    (hold : (db.bookAt path.text).filter (isUnchanged info size) = some old) :
    Ingests db path name folderId seenAt info
      (some { old with id := 0, seenAt := seenAt, folderId := folderId }) := by
  have hfound := (Option.filter_eq_some_iff.mp hold).1
  have hpath := (Db.bookAt_eq_some hfound).2
  obtain ⟨next, hnext⟩ := @exists_updateBook db old.id
    (fun old ↦ { old with seenAt := seenAt, folderId := folderId }) (fun _ ↦ rfl) (fun _ ↦ rfl)
    fun _ ↦ hfolder
  refine ⟨next, _, ?_, bookStored_of_update hfound rfl hpath hnext,
    updateBook_folderSeq hnext, hpath, rfl⟩
  rw [upsertBook, hsize]
  simp only [hmax, hfault, if_false, hold, hnext]
  rfl

theorem ingests_changed (hfolder : ∃ folder ∈ db.folders, folder.id = folderId)
    {size pageCount : ℕ} {hash : List Char} {kind : Kind} (hsize : info.size = some size)
    (hmax : ¬maxArchiveBytes < size) (hfault : ¬info.fault = true)
    (hold : (db.bookAt path.text).filter (isUnchanged info size) = none)
    (hhash : info.hash = some hash) (hkind : info.kind = some kind)
    (hpages : info.pageCount = some pageCount) (hcount : ¬(pageCount = 0 ∨ maxPages < pageCount)) :
    Ingests db path name folderId seenAt info
      (some (bookRow path name folderId seenAt info size hash kind pageCount 0
        (((db.bookAt path.text).map BookRow.addedAt).getD seenAt))) := by
  have hupsert : upsertBook db path name folderId seenAt info =
      match db.bookAt path.text with
      | some existing => .ofStatement (db.updateBook existing.id fun old ↦
        { bookRow path name folderId seenAt info size hash kind pageCount old.id old.addedAt with
          path := old.path })
      | none => .ofStatement (db.insertBook fun id ↦
        bookRow path name folderId seenAt info size hash kind pageCount id seenAt) := by
    rw [upsertBook, hsize]
    simp only [hmax, hfault, if_false, hold, hhash, hkind, hpages, Bool.false_eq_true]
    refine (if_neg hcount).trans ?_
    cases db.bookAt path.text <;> rfl
  cases hbook : db.bookAt path.text with
  | some existing =>
    obtain ⟨next, hnext⟩ := @exists_updateBook db existing.id
      (fun old ↦
        { bookRow path name folderId seenAt info size hash kind pageCount old.id old.addedAt with
          path := old.path }) (fun _ ↦ rfl) (fun _ ↦ rfl) fun _ ↦ hfolder
    have hpath := (Db.bookAt_eq_some hbook).2
    refine ⟨next, _, ?_, bookStored_of_update hbook rfl hpath hnext,
      updateBook_folderSeq hnext, hpath, ?_⟩
    · rw [hupsert, hbook]
      exact congrArg Ingest.ofStatement hnext
    · simp only [BookRow.withoutId, hpath]
      rfl
  | none =>
    have hfresh := Db.bookAt_eq_none hbook
    have hvalid := @Tables.Valid.insertBook db.toTables db.valid
      (bookRow path name folderId seenAt info size hash kind pageCount (db.bookSeq + 1) seenAt) rfl
      hfresh hfolder
    have hnext : db.insertBook (fun id ↦
        bookRow path name folderId seenAt info size hash kind pageCount id seenAt) =
          some ⟨_, hvalid⟩ := Tables.commit_of_valid hvalid
    refine ⟨_, _, ?_, bookStored_of_insert rfl hfresh hnext, rfl, rfl, rfl⟩
    rw [hupsert, hbook]
    exact congrArg Ingest.ofStatement hnext

theorem ingests_none {size : ℕ} (hsize : info.size = some size)
    (hold : (db.bookAt path.text).filter (isUnchanged info size) = none)
    (hunreadable : ∀ hash ∈ info.hash, ∀ kind ∈ info.kind, ∀ pageCount ∈ info.pageCount,
      pageCount = 0 ∨ maxPages < pageCount) : Ingests db path name folderId seenAt info none := by
  intro next hnext
  obtain ⟨other, row, hother, -, -, hstores, -⟩ := upsertBook_spec hnext
  rw [hsize, Option.some.injEq] at hother
  subst hother
  cases hstores with
  | stamped old hmem hpath hunchanged =>
    rw [Db.bookAt_eq_some_iff.mpr ⟨hmem, hpath⟩, Option.filter, if_pos hunchanged] at hold
    simp at hold
  | written hash kind pageCount id addedAt hhash hkind hpages hpos hmax =>
    have hcount := hunreadable hash hhash kind hkind pageCount hpages
    omega

/-- An upsert of a book stores the row that the file and the old row make, if they make one. -/
theorem ingests_storedRow (hfolder : ∃ folder ∈ db.folders, folder.id = folderId) :
    Ingests db path name folderId seenAt info
      (storedRow path name folderId seenAt info (db.bookAt path.text)) := by
  unfold storedRow
  cases hsize : info.size with
  | none => simp [Ingests, upsertBook, hsize]
  | some size =>
    rw [Option.bind_some]
    split
    · next hrefused =>
      intro next hnext
      obtain ⟨other, row, hother, hle, hfault, -⟩ := upsertBook_spec hnext
      rw [hsize, Option.some.injEq] at hother
      subst hother
      simp only [hfault, Bool.false_eq_true, or_false] at hrefused
      omega
    · next haccepted =>
      rw [not_or] at haccepted
      split
      · next old hold => exact ingests_unchanged hfolder hsize haccepted.1 haccepted.2 hold
      · next hold =>
        cases hhash : info.hash with
        | none => exact ingests_none hsize hold (by simp [hhash])
        | some hash =>
          cases hkind : info.kind with
          | none => exact ingests_none hsize hold (by simp [hkind])
          | some kind =>
            cases hpages : info.pageCount with
            | none => exact ingests_none hsize hold (by simp [hpages])
            | some pageCount =>
              simp only [Option.bind_some]
              split
              · next hcount => exact ingests_none hsize hold (by simp [hpages, hcount])
              · next hcount =>
                exact ingests_changed hfolder hsize haccepted.1 haccepted.2 hold hhash hkind hpages
                  hcount

theorem storedRow_withoutId (old : Option BookRow) :
    storedRow path name folderId seenAt info (old.map BookRow.withoutId) =
      storedRow path name folderId seenAt info old := by
  cases old with
  | none => rfl
  | some row =>
    unfold storedRow
    congr 1
    funext size
    have hunchanged : isUnchanged info size row.withoutId = isUnchanged info size row := rfl
    simp only [Option.map_some, Option.filter, hunchanged]
    by_cases hsame : isUnchanged info size row = true
    · simp only [hsame, if_true]
      rfl
    · simp only [hsame, if_false, Bool.false_eq_true]
      rfl

end Upsert

/-! ## Statements on folders -/

/-- A folder row but for what is found in its directory. -/
def FolderRow.place (row : FolderRow) : FolderRow :=
  { row with coverPath := none, coverVersion := none, description := none, mtime := 0 }

/-- The part of what makes tables valid that is about folders. -/
structure FoldersValid (rows : List FolderRow) (seq : ℕ) : Prop where
  ids : (rows.map FolderRow.id).Nodup
  paths : (rows.map FolderRow.path).Nodup
  slugs : (rows.map FolderRow.slug).Nodup
  parents : ∀ row ∈ rows, ∀ parentId ∈ row.parentId, ∃ parent ∈ rows, parent.id = parentId
  seq_le : ∀ row ∈ rows, row.id ≤ seq

/-- As long as no folder goes, only folders can be in the way of a statement on folders. -/
theorem valid_iff_foldersValid {rows : List FolderRow} {seq : ℕ}
    (hids : ∀ row ∈ db.folders, ∃ new ∈ rows, new.id = row.id) :
    Tables.Valid { db.toTables with folders := rows, folderSeq := seq } ↔ FoldersValid rows seq := by
  constructor
  · exact fun h ↦ ⟨h.folder_ids, h.folder_paths, h.folder_slugs, h.folder_parents, h.folder_seq⟩
  · intro h
    refine ⟨h.ids, h.paths, h.slugs, h.parents, h.seq_le, db.valid.book_ids, db.valid.book_paths,
      fun row hrow ↦ ?_, db.valid.book_seq⟩
    obtain ⟨folder, hfolder, hid⟩ := db.valid.book_folders row hrow
    obtain ⟨new, hnew, hsame⟩ := hids folder hfolder
    exact ⟨new, hnew, hsame.trans hid⟩

theorem map_place_map {Value : Type} {column : FolderRow → Value}
    (h : ∀ row : FolderRow, column row.place = column row) (rows : List FolderRow) :
    (rows.map FolderRow.place).map column = rows.map column := by
  rw [List.map_map]
  exact List.map_congr_left fun row _ ↦ h row

theorem foldersValid_place (rows : List FolderRow) (seq : ℕ) :
    FoldersValid (rows.map FolderRow.place) seq ↔ FoldersValid rows seq := by
  have hids : (rows.map FolderRow.place).map FolderRow.id = rows.map FolderRow.id :=
    map_place_map (fun _ ↦ rfl) rows
  have hpaths : (rows.map FolderRow.place).map FolderRow.path = rows.map FolderRow.path :=
    map_place_map (fun _ ↦ rfl) rows
  have hslugs : (rows.map FolderRow.place).map FolderRow.slug = rows.map FolderRow.slug :=
    map_place_map (fun _ ↦ rfl) rows
  constructor
  · intro h
    refine ⟨hids ▸ h.ids, hpaths ▸ h.paths, hslugs ▸ h.slugs, fun row hrow parentId hparent ↦ ?_,
      fun row hrow ↦ h.seq_le row.place (List.mem_map_of_mem hrow)⟩
    obtain ⟨parent, hmem, hid⟩ := h.parents row.place (List.mem_map_of_mem hrow) parentId hparent
    obtain ⟨other, hother, rfl⟩ := List.mem_map.mp hmem
    exact ⟨other, hother, hid⟩
  · intro h
    refine ⟨hids ▸ h.ids, hpaths ▸ h.paths, hslugs ▸ h.slugs, ?_, ?_⟩
    · rw [List.forall_mem_map]
      intro row hrow parentId hparent
      obtain ⟨parent, hmem, hid⟩ := h.parents row hrow parentId hparent
      exact ⟨parent.place, List.mem_map_of_mem hmem, hid⟩
    · rw [List.forall_mem_map]
      exact h.seq_le

/-- Two databases with the same folders, in the same order. -/
structure SameFolders (first second : Db) : Prop where
  places : first.folders.map FolderRow.place = second.folders.map FolderRow.place
  folderSeq : first.folderSeq = second.folderSeq

section Folders

variable {first second : Db}

theorem SameFolders.symm (h : SameFolders first second) : SameFolders second first :=
  ⟨h.places.symm, h.folderSeq.symm⟩

theorem exists_place {rows others : List FolderRow}
    (h : rows.map FolderRow.place = others.map FolderRow.place) {row : FolderRow}
    (hrow : row ∈ rows) : ∃ other ∈ others, other.place = row.place := by
  have hplace : row.place ∈ others.map FolderRow.place := by
    rw [← h]
    exact List.mem_map_of_mem hrow
  exact List.mem_map.mp hplace

theorem id_eq_of_place {row other : FolderRow} (h : row.place = other.place) : row.id = other.id :=
  (FolderRow.mk.inj h).1

theorem path_eq_of_place {row other : FolderRow} (h : row.place = other.place) :
    row.path = other.path := (FolderRow.mk.inj h).2.2.1

theorem SameFolders.folderAt (h : SameFolders first second) (path : PathText) :
    (first.folderAt path).map FolderRow.place = (second.folderAt path).map FolderRow.place := by
  have hfind (db : Db) : (db.folderAt path).map FolderRow.place =
      (db.folders.map FolderRow.place).find? (·.path = path) := by
    rw [List.find?_map]
    rfl
  rw [hfind, hfind, h.places]

/-- A statement on folders that has the same outcome in both succeeds in both, or in neither. -/
theorem SameFolders.commit (h : SameFolders first second) {rows others : List FolderRow} {seq : ℕ}
    (hplaces : rows.map FolderRow.place = others.map FolderRow.place)
    (hids : ∀ row ∈ first.folders, ∃ new ∈ rows, new.id = row.id) :
    Option.Rel (fun next other ↦ SameFolders next other ∧ next.books = first.books ∧
        other.books = second.books)
      (Tables.commit { first.toTables with folders := rows, folderSeq := seq })
      (Tables.commit { second.toTables with folders := others, folderSeq := seq }) := by
  have hothers : ∀ row ∈ second.folders, ∃ new ∈ others, new.id = row.id := by
    intro row hrow
    obtain ⟨old, hold, hplace⟩ := exists_place h.places.symm hrow
    obtain ⟨new, hnew, hid⟩ := hids old hold
    obtain ⟨other, hother, hsame⟩ := exists_place hplaces hnew
    exact ⟨other, hother, (id_eq_of_place hsame).trans (hid.trans (id_eq_of_place hplace))⟩
  have hvalid : Tables.Valid { first.toTables with folders := rows, folderSeq := seq } ↔
      Tables.Valid { second.toTables with folders := others, folderSeq := seq } := by
    rw [valid_iff_foldersValid hids, valid_iff_foldersValid hothers, ← foldersValid_place, hplaces,
      foldersValid_place]
  by_cases hfirst : Tables.Valid { first.toTables with folders := rows, folderSeq := seq }
  · rw [Tables.commit_of_valid hfirst, Tables.commit_of_valid (hvalid.mp hfirst)]
    exact .some ⟨⟨hplaces, rfl⟩, rfl, rfl⟩
  · rw [Tables.commit, dif_neg hfirst, Tables.commit, dif_neg (hvalid.not.mp hfirst)]
    exact .none

theorem map_place_updateWhere {rows others : List FolderRow}
    (h : rows.map FolderRow.place = others.map FolderRow.place) (id : ℕ)
    {update change : FolderRow → FolderRow}
    (hupdate : ∀ row other, row.place = other.place → (update row).place = (change other).place) :
    (updateWhere FolderRow.id id update rows).map FolderRow.place =
      (updateWhere FolderRow.id id change others).map FolderRow.place := by
  induction rows generalizing others with
  | nil =>
    rw [List.map_nil, eq_comm, List.map_eq_nil_iff] at h
    rw [h]
    rfl
  | cons row rows ih =>
    obtain ⟨other, others, rfl, hrow, hrows⟩ := List.map_eq_cons_iff.mp h.symm
    have hid := id_eq_of_place hrow
    have hhead : (if row.id = id then update row else row).place =
        (if other.id = id then change other else other).place := by
      rw [hid]
      split
      · exact hupdate _ _ hrow.symm
      · exact hrow.symm
    calc
      _ = (if row.id = id then update row else row).place ::
          (updateWhere FolderRow.id id update rows).map FolderRow.place := rfl
      _ = (if other.id = id then change other else other).place ::
          (updateWhere FolderRow.id id change others).map FolderRow.place := by
        rw [hhead, ih hrows.symm]
      _ = _ := rfl

theorem SameFolders.insertFolder (h : SameFolders first second) {row other : ℕ → FolderRow}
    (hrow : ∀ id, (row id).place = (other id).place) :
    Option.Rel (fun next found ↦ SameFolders next found ∧ next.books = first.books ∧
      found.books = second.books) (first.insertFolder row) (second.insertFolder other) := by
  unfold Db.insertFolder
  rw [← h.folderSeq]
  refine h.commit ?_ fun row hrow ↦ ⟨row, List.mem_append_left _ hrow, rfl⟩
  rw [List.map_append, List.map_append, h.places, List.map_singleton, List.map_singleton, hrow]

theorem SameFolders.updateFolder (h : SameFolders first second) (id : ℕ)
    {update change : FolderRow → FolderRow} (hid : ∀ row, (update row).id = row.id)
    (hupdate : ∀ row other, row.place = other.place → (update row).place = (change other).place) :
    Option.Rel (fun next found ↦ SameFolders next found ∧ next.books = first.books ∧
      found.books = second.books) (first.updateFolder id update) (second.updateFolder id change) := by
  have hfirst : first.updateFolder id update = Tables.commit { first.toTables with
      folders := updateWhere FolderRow.id id update first.folders
      folderSeq := first.folderSeq } := rfl
  have hsecond : second.updateFolder id change = Tables.commit { second.toTables with
      folders := updateWhere FolderRow.id id change second.folders
      folderSeq := first.folderSeq } := by
    rw [h.folderSeq]
    rfl
  rw [hfirst, hsecond]
  refine h.commit (map_place_updateWhere h.places id hupdate) fun row hrow ↦ ?_
  by_cases hsame : row.id = id
  · exact ⟨update row, mem_updateWhere.mpr (.inl ⟨row, hrow, hsame, rfl⟩), hid row⟩
  · exact ⟨row, mem_updateWhere.mpr (.inr ⟨hrow, hsame⟩), rfl⟩

/-- The upsert of a folder has the same outcome whatever is in the directory. -/
theorem SameFolders.upsertFolder (h : SameFolders first second) (path : OsPath)
    (parentId : Option ℕ) (nameOverride : Option (List Char)) (seenAt : ℕ) {info other : FolderInfo}
    (hfault : info.fault = other.fault) :
    Option.Rel (fun next found ↦ next.2 = found.2 ∧ SameFolders next.1 found.1 ∧
        next.1.books = first.books ∧ found.1.books = second.books)
      (upsertFolder xxh3 first path parentId nameOverride seenAt info)
      (upsertFolder xxh3 second path parentId nameOverride seenAt other) := by
  have hpair {id : ℕ} {next found : Option Db}
      (hrel : Option.Rel (fun next found ↦ SameFolders next found ∧ next.books = first.books ∧
        found.books = second.books) next found) :
      Option.Rel (fun next found : Db × ℕ ↦ next.2 = found.2 ∧ SameFolders next.1 found.1 ∧
        next.1.books = first.books ∧ found.1.books = second.books)
        (next.map (·, id)) (found.map (·, id)) := by
    cases hrel with
    | some hrel => exact .some ⟨rfl, hrel⟩
    | none => exact .none
  have hat := h.folderAt path.text
  unfold Catalog.upsertFolder
  rw [hfault]
  split
  · exact .none
  · cases hfirst : first.folderAt path.text with
    | none =>
      rw [hfirst, Option.map_none, eq_comm, Option.map_eq_none_iff] at hat
      rw [hat, ← h.folderSeq]
      exact hpair (h.insertFolder fun _ ↦ rfl)
    | some existing =>
      rw [hfirst, Option.map_some, eq_comm] at hat
      obtain ⟨found, hfound, hplace⟩ := Option.map_eq_some_iff.mp hat
      rw [hfound]
      simp only [id_eq_of_place hplace]
      refine hpair (h.updateFolder existing.id (fun _ ↦ rfl) fun row old hsame ↦ ?_)
      simp only [FolderRow.place, folderRow, id_eq_of_place hsame, path_eq_of_place hsame]

end Folders

/-! ## Two scans -/

/-- Two listings of the same directories that differ in files at the path `q` at most. -/
inductive Listing.Alike (q : PathText) : OsPath → Listing → Listing → Prop
  | nil (dir : OsPath) : Alike q dir .nil .nil
  | error {dir : OsPath} {rest others : Listing} (h : Alike q dir rest others) :
      Alike q dir (.error rest) (.error others)
  | other {dir : OsPath} (name : OsName) {rest others : Listing} (h : Alike q dir rest others) :
      Alike q dir (.other name rest) (.other name others)
  | file {dir : OsPath} (name : OsName) (info : FileInfo) {rest others : Listing}
      (h : Alike q dir rest others) : Alike q dir (.file name info rest) (.file name info others)
  | first {dir : OsPath} (name : OsName) (info : FileInfo) {rest others : Listing}
      (hq : OsPath.text (dir ++ [name]) = q) (h : Alike q dir rest others) :
      Alike q dir (.file name info rest) others
  | second {dir : OsPath} (name : OsName) (info : FileInfo) {rest others : Listing}
      (hq : OsPath.text (dir ++ [name]) = q) (h : Alike q dir rest others) :
      Alike q dir rest (.file name info others)
  | dir {dir : OsPath} (name : OsName) {info other : FolderInfo}
      {children inner rest others : Listing} (hfault : info.fault = other.fault)
      (hchildren : Alike q (dir ++ [name]) children inner) (h : Alike q dir rest others) :
      Alike q dir (.dir name info children rest) (.dir name other inner others)

/-- The folders walked so far have rows. -/
def Walk.Located (walk : Walk) : Prop :=
  ∀ path id, walk.pathToId path = some id → ∃ row ∈ walk.db.folders, row.id = id

/-- Two walks that are at the same point, with the same rows but for the one of `q`. -/
structure Walk.Alike (q : PathText) (first second : Walk) : Prop where
  folders : SameFolders first.db second.db
  books : ∀ path, path ≠ q →
    (first.db.bookAt path).map BookRow.withoutId = (second.db.bookAt path).map BookRow.withoutId
  pathToId : first.pathToId = second.pathToId
  located : first.Located

section Walks

variable {q : PathText} {first second : Walk}

theorem Walk.Alike.symm (h : Walk.Alike q first second) : Walk.Alike q second first where
  folders := h.folders.symm
  books path hpath := (h.books path hpath).symm
  pathToId := h.pathToId.symm
  located path id hid := by
    rw [← h.pathToId] at hid
    obtain ⟨row, hrow, rfl⟩ := h.located path id hid
    obtain ⟨other, hother, hplace⟩ := exists_place h.folders.places hrow
    exact ⟨other, hother, id_eq_of_place hplace⟩

theorem Db.bookAt_of_books_eq (h : next.books = db.books) (path : PathText) :
    next.bookAt path = db.bookAt path := by
  rw [Db.bookAt, h, ← Db.bookAt]

theorem Walk.Located.folderStored {walk : Walk} (h : walk.Located) {stored : Db} {path : OsPath}
    {row : FolderRow} (hstored : FolderStored walk.db stored row) (other : OsPath) (id : ℕ)
    (hother : Function.update walk.pathToId path (some row.id) other = some id) :
    ∃ row ∈ stored.folders, row.id = id := by
  by_cases hsame : other = path
  · rw [hsame, Function.update_self, Option.some.injEq] at hother
    exact ⟨row, (hstored.mem_iff row).mpr (.inl rfl), hother⟩
  · rw [Function.update_of_ne hsame] at hother
    obtain ⟨old, hold, rfl⟩ := h other id hother
    obtain ⟨new, hnew, hid, -⟩ := hstored.exists_row hold
    exact ⟨new, hnew, hid⟩

theorem Walk.Alike.visitFolder (h : Walk.Alike q first second) (started : ℕ) (path : OsPath)
    {info other : FolderInfo} (hfault : info.fault = other.fault) :
    (visitFolder xxh3 started first path info).2 = (visitFolder xxh3 started second path other).2 ∧
      Walk.Alike q (visitFolder xxh3 started first path info).1
        (visitFolder xxh3 started second path other).1 := by
  unfold Catalog.visitFolder
  rw [← h.pathToId]
  cases hparent : first.pathToId path.dropLast with
  | none => exact ⟨rfl, h.folders, h.books, rfl, h.located⟩
  | some parentId =>
    dsimp only
    have hrel := @SameFolders.upsertFolder xxh3 _ _ h.folders path (some parentId) none started _ _
      hfault
    generalize hfirst : upsertFolder xxh3 first.db path (some parentId) none started info = stored
      at hrel ⊢
    generalize upsertFolder xxh3 second.db path (some parentId) none started other = found at hrel ⊢
    cases hrel with
    | none => exact ⟨rfl, h⟩
    | @some stored found hrel =>
      obtain ⟨next, id⟩ := stored
      obtain ⟨same, sameId⟩ := found
      obtain ⟨hid, hfolders, hbooks, hothers⟩ := hrel
      dsimp only at hid hfolders hbooks hothers ⊢
      subst hid
      obtain ⟨coverVersion, hstored⟩ := upsertFolder_spec hfirst
      refine ⟨rfl, hfolders, ?_, rfl, h.located.folderStored hstored⟩
      intro other hother
      change (next.bookAt other).map _ = (same.bookAt other).map _
      rw [Db.bookAt_of_books_eq hbooks, Db.bookAt_of_books_eq hothers, h.books other hother]

/-- The row that a walk makes of a file, if it makes one. -/
def storedBy (walk : Walk) (started : ℕ) (path : OsPath) (name : OsName) (info : FileInfo) :
    Option BookRow :=
  if isSupported name then
    (walk.pathToId path.dropLast).bind fun folderId ↦
      storedRow path name folderId started info (walk.db.bookAt path.text)
  else none

/-- A file changes the row of its path only, and no folder. -/
theorem visitFile_spec (walk : Walk) (started : ℕ) (path : OsPath) (name : OsName)
    (info : FileInfo) (hlocated : walk.Located) :
    (visitFile started walk path name info).ingested =
        (if (storedBy walk started path name info).isSome then path :: walk.ingested
          else walk.ingested) ∧
      (visitFile started walk path name info).pathToId = walk.pathToId ∧
      (visitFile started walk path name info).db.folders = walk.db.folders ∧
      (visitFile started walk path name info).db.folderSeq = walk.db.folderSeq ∧
      ∀ other, ((visitFile started walk path name info).db.bookAt other).map BookRow.withoutId =
        if other = path.text then
          (storedBy walk started path name info).or ((walk.db.bookAt other).map BookRow.withoutId)
        else (walk.db.bookAt other).map BookRow.withoutId := by
  have hsame : storedBy walk started path name info = none →
      ∀ other, (walk.db.bookAt other).map BookRow.withoutId =
        if other = path.text then
          (storedBy walk started path name info).or ((walk.db.bookAt other).map BookRow.withoutId)
        else (walk.db.bookAt other).map BookRow.withoutId := by
    intro hnone other
    rw [hnone, Option.none_or, ite_self]
  unfold visitFile
  by_cases hsupported : isSupported name = true
  · rw [if_pos hsupported]
    have hstoredBy : storedBy walk started path name info =
        (walk.pathToId path.dropLast).bind fun folderId ↦
          storedRow path name folderId started info (walk.db.bookAt path.text) := if_pos hsupported
    cases hparent : walk.pathToId path.dropLast with
    | none =>
      rw [hparent, Option.bind_none] at hstoredBy
      exact ⟨by rw [hstoredBy]; rfl, rfl, rfl, rfl, hsame hstoredBy⟩
    | some folderId =>
      rw [hparent, Option.bind_some] at hstoredBy
      have hingests := @ingests_storedRow walk.db path name folderId started info
        (hlocated _ _ hparent)
      rw [← hstoredBy] at hingests
      cases hrow : storedBy walk started path name info with
      | none =>
        rw [hrow] at hingests
        rw [hrow] at hsame
        dsimp only
        cases hupsert : upsertBook walk.db path name folderId started info with
        | failed => exact ⟨rfl, rfl, rfl, rfl, hsame rfl⟩
        | skipped => exact ⟨rfl, rfl, rfl, rfl, hsame rfl⟩
        | stored next => exact absurd hupsert (hingests next)
      | some row =>
        rw [hrow] at hingests
        obtain ⟨next, stored, hnext, hstored, hseq, hpath, rfl⟩ := hingests
        dsimp only
        rw [hnext]
        refine ⟨rfl, rfl, hstored.folders_eq, hseq, fun other ↦ ?_⟩
        change (next.bookAt other).map _ = _
        rw [hstored.bookAt, hpath]
        split <;> rfl
  · rw [if_neg hsupported]
    have hnone : storedBy walk started path name info = none := if_neg hsupported
    exact ⟨by rw [hnone]; rfl, rfl, rfl, rfl, hsame hnone⟩

theorem Walk.Located.visitFile {walk : Walk} (h : walk.Located) (started : ℕ) (path : OsPath)
    (name : OsName) (info : FileInfo) : (visitFile started walk path name info).Located := by
  obtain ⟨-, hpaths, hfolders, -⟩ := visitFile_spec walk started path name info h
  unfold Walk.Located
  rw [hpaths, hfolders]
  exact h

theorem Walk.Alike.visitFile (h : Walk.Alike q first second) (started : ℕ) (path : OsPath)
    (name : OsName) (info : FileInfo) :
    Walk.Alike q (visitFile started first path name info)
      (visitFile started second path name info) := by
  obtain ⟨-, hpaths, hfolders, hseq, hbooks⟩ := visitFile_spec first started path name info h.located
  obtain ⟨-, hpaths', hfolders', hseq', hbooks'⟩ :=
    visitFile_spec second started path name info h.symm.located
  refine ⟨⟨?_, ?_⟩, fun other hother ↦ ?_, ?_, ?_⟩
  · rw [hfolders, hfolders', h.folders.places]
  · rw [hseq, hseq', h.folders.folderSeq]
  · rw [hbooks, hbooks', h.books other hother]
    split
    · next hsame =>
      have hstored : storedBy first started path name info = storedBy second started path name info := by
        unfold storedBy
        rw [h.pathToId]
        split
        · congr 1
          funext folderId
          rw [← storedRow_withoutId (first.db.bookAt path.text), h.books path.text (hsame ▸ hother),
            storedRow_withoutId]
        · rfl
      rw [hstored]
    · rfl
  · rw [hpaths, hpaths', h.pathToId]
  · exact h.located.visitFile started path name info

theorem Walk.Alike.visitFile_first (h : Walk.Alike q first second) (started : ℕ) {path : OsPath}
    (hq : path.text = q) (name : OsName) (info : FileInfo) :
    Walk.Alike q (Catalog.visitFile started first path name info) second := by
  obtain ⟨-, hpaths, hfolders, hseq, hbooks⟩ := visitFile_spec first started path name info h.located
  refine ⟨⟨?_, ?_⟩, fun other hother ↦ ?_, ?_, ?_⟩
  · rw [hfolders, h.folders.places]
  · rw [hseq, h.folders.folderSeq]
  · rw [hbooks, if_neg (by rw [hq]; exact hother), h.books other hother]
  · rw [hpaths, h.pathToId]
  · exact h.located.visitFile started path name info

/-- Walks over alike listings stay alike. -/
theorem Walk.Alike.visit {dir : OsPath} {listing others : Listing}
    (hlisting : Listing.Alike q dir listing others) (h : Walk.Alike q first second) (started : ℕ) :
    Walk.Alike q (visit xxh3 started first dir listing) (visit xxh3 started second dir others) := by
  induction hlisting generalizing first second with
  | nil dir => exact h
  | error _ ih => exact ih h
  | other name _ ih => exact ih h
  | file name info _ ih =>
    rw [Catalog.visit, Catalog.visit]
    apply ih
    split
    · exact h
    · exact h.visitFile started _ name info
  | first name info hq _ ih =>
    rw [Catalog.visit]
    apply ih
    split
    · exact h
    · exact h.visitFile_first started hq name info
  | @second dir name info rest others hq _ ih =>
    have hvisit : Catalog.visit xxh3 started second dir (.file name info others) =
        Catalog.visit xxh3 started (if isHidden name then second
          else Catalog.visitFile started second (dir ++ [name]) name info) dir others := rfl
    rw [hvisit]
    apply ih
    split
    · exact h
    · exact (h.symm.visitFile_first started hq name info).symm
  | @dir dir name info other children inner rest others hfault _ _ ihChildren ih =>
    rw [Catalog.visit, Catalog.visit]
    split
    · exact ih h
    · obtain ⟨hentered, hwalks⟩ := @Walk.Alike.visitFolder xxh3 _ _ _ h started (dir ++ [name]) _ _ hfault
      dsimp only
      rw [← hentered]
      apply ih
      split
      · exact ihChildren hwalks
      · exact hwalks

end Walks

section Complete

variable {q : PathText} {first second : Db}

/-- Two databases with the same rows, but for the row of `q` and the ids of books. -/
structure Db.Alike (q : PathText) (first second : Db) : Prop where
  folders : SameFolders first second
  books : ∀ path, path ≠ q →
    (first.bookAt path).map BookRow.withoutId = (second.bookAt path).map BookRow.withoutId

theorem Db.bookAt_filter {keep : BookRow → Bool} (h : next.books = db.books.filter keep)
    (path : PathText) : next.bookAt path = (db.bookAt path).filter keep := by
  ext row
  rw [Db.bookAt_eq_some_iff, h, List.mem_filter, ← Option.mem_def, Option.mem_filter_iff,
    Option.mem_def, Db.bookAt_eq_some_iff]
  exact and_right_comm

theorem map_withoutId_filter {keep : BookRow → Bool} {old new : Option BookRow}
    (hkeep : ∀ row : BookRow, keep row.withoutId = keep row)
    (h : old.map BookRow.withoutId = new.map BookRow.withoutId) :
    (old.filter keep).map BookRow.withoutId = (new.filter keep).map BookRow.withoutId := by
  have hfilter (row : Option BookRow) :
      (row.filter keep).map BookRow.withoutId = (row.map BookRow.withoutId).filter keep := by
    cases row with
    | none => rfl
    | some row =>
      rw [Option.map_some, Option.filter, Option.filter, hkeep]
      split <;> rfl
  rw [hfilter, hfilter, h]

theorem Db.Alike.deleteBooks (h : Db.Alike q first second) (started : ℕ) :
    Db.Alike q (first.deleteBooks started) (second.deleteBooks started) where
  folders := ⟨h.folders.places, h.folders.folderSeq⟩
  books path hpath := by
    rw [@Db.bookAt_filter first (first.deleteBooks started) _ rfl,
      @Db.bookAt_filter second (second.deleteBooks started) _ rfl]
    exact map_withoutId_filter (fun _ ↦ rfl) (h.books path hpath)

theorem SameFolders.keptFolders (h : SameFolders first second) (started : ℕ) :
    (first.keptFolders started).map FolderRow.place =
      (second.keptFolders started).map FolderRow.place := by
  have hparent (rows : List FolderRow) (row : FolderRow) :
      Db.hasParent (rows.map FolderRow.place) row.place = Db.hasParent rows row := by
    unfold Db.hasParent
    congr 1
    funext parentId
    rw [List.any_map]
    rfl
  have hstamp (db : Db) : (db.folders.filter fun row ↦ ¬row.seenAt < started).map FolderRow.place =
      (db.folders.map FolderRow.place).filter fun row ↦ ¬row.seenAt < started := by
    rw [List.filter_map]
    rfl
  unfold Db.keptFolders
  rw [settle_map hparent, settle_map hparent, hstamp, hstamp, h.places]

theorem Db.Alike.deleteFolders (h : Db.Alike q first second) (started : ℕ) :
    Db.Alike q (first.deleteFolders started) (second.deleteFolders started) where
  folders := ⟨h.folders.keptFolders started, h.folders.folderSeq⟩
  books path hpath := by
    have hkept (id : ℕ) : (first.keptFolders started).any (·.id = id) =
        (second.keptFolders started).any (·.id = id) := by
      have hany (rows : List FolderRow) : rows.any (·.id = id) =
          (rows.map FolderRow.place).any (·.id = id) := by
        rw [List.any_map]
        rfl
      rw [hany (first.keptFolders started), hany (second.keptFolders started),
        h.folders.keptFolders started]
    rw [@Db.bookAt_filter first (first.deleteFolders started) _ rfl,
      @Db.bookAt_filter second (second.deleteFolders started) _ rfl]
    simp only [hkept]
    exact map_withoutId_filter (fun _ ↦ rfl) (h.books path hpath)

theorem refreshCoverVersions_places (coverMtime : PathText → Option ℕ) (walk : Walk) :
    (refreshCoverVersions coverMtime walk).db.folders.map FolderRow.place =
        walk.db.folders.map FolderRow.place ∧
      (refreshCoverVersions coverMtime walk).db.folderSeq = walk.db.folderSeq ∧
      (refreshCoverVersions coverMtime walk).db.books = walk.db.books := by
  apply @refreshCoverVersions_invariant coverMtime (fun next ↦
    next.db.folders.map FolderRow.place = walk.db.folders.map FolderRow.place ∧
      next.db.folderSeq = walk.db.folderSeq ∧ next.db.books = walk.db.books)
  · rintro next id version ⟨hplaces, hseq, hbooks⟩
    have hstep : (next.db.setCoverVersion id version).folders.map FolderRow.place =
        next.db.folders.map FolderRow.place := by
      rw [Db.setCoverVersion]
      exact map_updateWhere fun _ _ _ ↦ rfl
    exact ⟨hstep.trans hplaces, hseq, hbooks⟩
  · exact ⟨rfl, rfl, rfl⟩

theorem Db.Alike.refreshCoverVersions {walk other : Walk} (h : Db.Alike q walk.db other.db)
    (coverMtime otherMtime : PathText → Option ℕ) :
    Db.Alike q (refreshCoverVersions coverMtime walk).db
      (refreshCoverVersions otherMtime other).db := by
  obtain ⟨hplaces, hseq, hbooks⟩ := refreshCoverVersions_places coverMtime walk
  obtain ⟨hplaces', hseq', hbooks'⟩ := refreshCoverVersions_places otherMtime other
  refine ⟨⟨?_, ?_⟩, fun path hpath ↦ ?_⟩
  · rw [hplaces, hplaces', h.folders.places]
  · rw [hseq, hseq', h.folders.folderSeq]
  · rw [Db.bookAt_of_books_eq hbooks, Db.bookAt_of_books_eq hbooks', h.books path hpath]

/-- Two scans of one library at one time that meet alike listings. -/
structure Scan.Alike (q : PathText) (first second : Scan) : Prop where
  root : first.root = second.root
  name : first.name = second.name
  started : first.started = second.started
  fault : first.rootInfo.fault = second.rootInfo.fault
  listing : Listing.Alike q first.root first.listing second.listing

theorem Walk.Alike.prune {walk other : Walk} (h : Walk.Alike q walk other) {first second : Scan}
    (hstarted : first.started = second.started) :
    Db.Alike q (first.prune walk).db (second.prune other).db := by
  have hdb : Db.Alike q walk.db other.db := ⟨h.folders, h.books⟩
  unfold Scan.prune
  rw [← hstarted]
  exact (hdb.deleteBooks first.started).deleteFolders first.started

theorem Scan.Alike.complete {first second : Scan} (h : Scan.Alike q first second) (db : Db) :
    Option.Rel (fun walk other ↦ Db.Alike q walk.db other.db) (first.complete xxh3 db)
      (second.complete xxh3 db) := by
  have hsame : SameFolders db db := ⟨rfl, rfl⟩
  have hrel := @SameFolders.upsertFolder xxh3 _ _ hsame first.root none first.name first.started _ _
    h.fault
  unfold Scan.complete Scan.walked Scan.enter
  rw [← h.root, ← h.name, ← h.started]
  generalize hfirst : upsertFolder xxh3 db first.root none first.name first.started first.rootInfo =
    stored at hrel ⊢
  generalize upsertFolder xxh3 db first.root none first.name first.started second.rootInfo =
    found at hrel ⊢
  cases hrel with
  | none => exact .none
  | @some stored found hrel =>
    obtain ⟨next, id⟩ := stored
    obtain ⟨same, sameId⟩ := found
    obtain ⟨hid, hfolders, hbooks, hothers⟩ := hrel
    dsimp only at hid hfolders hbooks hothers
    subst hid
    obtain ⟨coverVersion, hstored⟩ := upsertFolder_spec hfirst
    have hnowhere : Walk.Located ⟨db, [], fun _ ↦ none, 0, 0, [], []⟩ := by
      intro path id hpath
      simp at hpath
    have hentered : Walk.Alike q
        ⟨next, [db], Function.update (fun _ ↦ none) first.root (some id), 0, 0, [], []⟩
        ⟨same, [db], Function.update (fun _ ↦ none) first.root (some id), 0, 0, [], []⟩ := by
      refine ⟨hfolders, fun path _ ↦ ?_, rfl, hnowhere.folderStored hstored⟩
      rw [Db.bookAt_of_books_eq hbooks, Db.bookAt_of_books_eq hothers]
    have hvisited := @Walk.Alike.visit xxh3 q _ _ _ _ _ h.listing hentered first.started
    exact .some ((hvisited.prune h.started).refreshCoverVersions first.coverMtime
      second.coverMtime)

/-- A row that was there before may have been written anew, but it has kept its id and the time at
which it was added. -/
def Keeps (db next : Db) : Prop :=
  ∀ old ∈ db.books, ∀ row ∈ next.books, row.path = old.path → row.id = old.id ∧
    row.addedAt = old.addedAt

theorem storedRow_addedAt {path : OsPath} {name : OsName} {folderId seenAt : ℕ} {info : FileInfo}
    {old row : BookRow} (h : storedRow path name folderId seenAt info (some old) = some row) :
    row.addedAt = old.addedAt := by
  unfold storedRow at h
  obtain ⟨size, -, h⟩ := Option.bind_eq_some_iff.mp h
  split at h
  · simp at h
  · split at h
    · next same hsame =>
      rw [(Option.some.inj (Option.filter_eq_some_iff.mp hsame).1), ← Option.some.inj h]
    · obtain ⟨hash, -, h⟩ := Option.bind_eq_some_iff.mp h
      obtain ⟨kind, -, h⟩ := Option.bind_eq_some_iff.mp h
      obtain ⟨pageCount, -, h⟩ := Option.bind_eq_some_iff.mp h
      split at h
      · simp at h
      · rw [← Option.some.inj h]
        rfl

/-- The rows that were there before the walk still have the time at which they were added. -/
def Walk.KeepsAdded (db : Db) (walk : Walk) : Prop :=
  ∀ old ∈ db.books, (walk.db.bookAt old.path).map BookRow.addedAt = some old.addedAt

theorem Walk.KeepsAdded.visitFile {walk : Walk} (h : walk.KeepsAdded db) (hlocated : walk.Located)
    (started : ℕ) (path : OsPath) (name : OsName) (info : FileInfo) :
    (visitFile started walk path name info).KeepsAdded db := by
  intro old hold
  have hadded := h old hold
  obtain ⟨row, hrow, hrowAdded⟩ := Option.map_eq_some_iff.mp hadded
  obtain ⟨-, -, -, -, hbooks⟩ := visitFile_spec walk started path name info hlocated
  have hcolumn (row : Option BookRow) :
      row.map BookRow.addedAt = (row.map BookRow.withoutId).map BookRow.addedAt := by
    rw [Option.map_map]
    rfl
  rw [hcolumn, hbooks]
  split
  · next hpath =>
    cases hstored : storedBy walk started path name info with
    | none => rw [Option.none_or, ← hcolumn, hadded]
    | some stored =>
      unfold storedBy at hstored
      split at hstored
      · obtain ⟨folderId, -, hstored⟩ := Option.bind_eq_some_iff.mp hstored
        rw [← hpath, hrow] at hstored
        rw [Option.some_or, Option.map_some, storedRow_addedAt hstored, hrowAdded]
      · simp at hstored
  · rw [← hcolumn, hadded]

theorem Walk.Located.visitFolder {walk : Walk} (h : walk.Located) (started : ℕ) (path : OsPath)
    (info : FolderInfo) : (visitFolder xxh3 started walk path info).1.Located := by
  have hself : Walk.Alike [] walk walk := ⟨⟨rfl, rfl⟩, fun _ _ ↦ rfl, rfl, h⟩
  exact (@Walk.Alike.visitFolder xxh3 [] walk walk hself started path info info rfl).2.located

theorem visitFolder_books (walk : Walk) (started : ℕ) (path : OsPath) (info : FolderInfo) :
    (visitFolder xxh3 started walk path info).1.db.books = walk.db.books := by
  unfold visitFolder
  split
  · rfl
  · split
    · rfl
    · next hupsert =>
      obtain ⟨_, hstored⟩ := upsertFolder_spec hupsert
      exact hstored.books_eq

theorem Scan.walked_keepsAdded {scan : Scan} {walked : Walk}
    (h : scan.walked xxh3 db = some walked) : walked.KeepsAdded db := by
  obtain ⟨start, hstart, hsteps⟩ := Option.map_eq_some_iff.mp h
  obtain ⟨id, coverVersion, hstored, -, hpaths, -⟩ := Scan.enter_spec hstart
  have hlocated : start.Located := by
    intro path other hother
    have hnowhere : Walk.Located ⟨db, [], fun _ ↦ none, 0, 0, [], []⟩ := by
      intro path id hpath
      simp at hpath
    rw [hpaths] at hother
    exact hnowhere.folderStored hstored path other hother
  have hstart : start.KeepsAdded db := by
    intro old hold
    rw [Db.bookAt_of_books_eq hstored.books_eq, Db.bookAt_eq_some_iff.mpr ⟨hold, rfl⟩]
    rfl
  rw [← hsteps]
  refine (@visit_invariant xxh3 scan.started (fun walk ↦ walk.Located ∧ walk.KeepsAdded db)
    scan.entries.files ?_ ?_ start scan.root scan.listing (List.Subset.refl _)
    ⟨hlocated, hstart⟩).2
  · rintro walk path info ⟨hwalk, hadded⟩
    refine ⟨hwalk.visitFolder scan.started path info, fun old hold ↦ ?_⟩
    rw [Db.bookAt_of_books_eq (visitFolder_books walk scan.started path info), hadded old hold]
  · rintro walk path name info - ⟨hwalk, hadded⟩
    exact ⟨hwalk.visitFile scan.started path name info,
      hadded.visitFile hwalk scan.started path name info⟩

theorem Scan.complete_keeps {scan : Scan} {walk : Walk} (h : scan.complete xxh3 db = some walk) :
    Keeps db walk.db := by
  obtain ⟨walked, hwalked, hrefreshed⟩ := Scan.complete_spec h
  have hids := Scan.walked_keepsIds hwalked
  have hadded := Scan.walked_keepsAdded hwalked
  intro old hold row hrow hpath
  rw [hrefreshed.books_eq] at hrow
  have hwalkedRow : row ∈ walked.db.books :=
    (List.mem_filter.mp (List.mem_filter.mp hrow).1).1
  constructor
  · obtain ⟨kept, hkept, hkeptPath, hid⟩ := hids.kept old hold
    rw [← hid, Db.book_eq_of_path hwalkedRow hkept (hpath.trans hkeptPath.symm)]
  · have hsame := hadded old hold
    rw [Db.bookAt_eq_some_iff.mpr ⟨hwalkedRow, hpath⟩] at hsame
    exact Option.some.inj hsame

end Complete

end ComicStream.Catalog
