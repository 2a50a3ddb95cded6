import ComicStream.Catalog.Covers
import ComicStream.Catalog.Snapshot

/-!
# Scans that find nothing new

A scan of a tree that the database already records writes to every row what the row
holds, and stamps it. No state that the database goes through differs from the first
in more than its stamps, so that it does not matter where the scan is stopped, and
any number of such scans can follow one another at whatever times.
-/

namespace ComicStream.Catalog

open Rust Archive Table

variable {xxh3 : List UInt8 → UInt64}

def FolderRow.unstamped (row : FolderRow) : FolderRow := { row with seenAt := 0 }

def BookRow.unstamped (row : BookRow) : BookRow := { row with seenAt := 0 }

theorem FolderRow.eq_of_unstamped {row other : FolderRow} (h : row.unstamped = other.unstamped) :
    other = { row with seenAt := other.seenAt } :=
  congrArg (fun changed : FolderRow ↦ { changed with seenAt := other.seenAt }) h.symm

theorem BookRow.eq_of_unstamped {row other : BookRow} (h : row.unstamped = other.unstamped) :
    other = { row with seenAt := other.seenAt } :=
  congrArg (fun changed : BookRow ↦ { changed with seenAt := other.seenAt }) h.symm

theorem map_of_unstamped {Row Value : Type} {unstamped : Row → Row} {column : Row → Value}
    (hcolumn : ∀ row, column (unstamped row) = column row) {rows others : List Row}
    (h : rows.map unstamped = others.map unstamped) : rows.map column = others.map column := by
  have hmap (rows : List Row) : rows.map column = (rows.map unstamped).map column := by
    rw [List.map_map]
    exact List.map_congr_left fun row _ ↦ (hcolumn row).symm
  rw [hmap, h, ← hmap]

/-- The same rows in the same order, but for when they were last seen. -/
structure SameRows (db other : Db) : Prop where
  folders : db.folders.map FolderRow.unstamped = other.folders.map FolderRow.unstamped
  books : db.books.map BookRow.unstamped = other.books.map BookRow.unstamped

namespace SameRows

variable {db other third : Db}

theorem refl (db : Db) : SameRows db db := ⟨rfl, rfl⟩

theorem symm (h : SameRows db other) : SameRows other db := ⟨h.folders.symm, h.books.symm⟩

theorem trans (h : SameRows db other) (hnext : SameRows other third) : SameRows db third :=
  ⟨h.folders.trans hnext.folders, h.books.trans hnext.books⟩

theorem folder (h : SameRows db other) {row : FolderRow} (hrow : row ∈ db.folders) :
    ∃ seenAt, { row with seenAt := seenAt } ∈ other.folders := by
  have hmem : row.unstamped ∈ other.folders.map FolderRow.unstamped := by
    rw [← h.folders]
    exact List.mem_map_of_mem hrow
  obtain ⟨twin, htwin, heq⟩ := List.mem_map.mp hmem
  rw [FolderRow.eq_of_unstamped heq.symm] at htwin
  exact ⟨twin.seenAt, htwin⟩

theorem book (h : SameRows db other) {row : BookRow} (hrow : row ∈ db.books) :
    ∃ seenAt, { row with seenAt := seenAt } ∈ other.books := by
  have hmem : row.unstamped ∈ other.books.map BookRow.unstamped := by
    rw [← h.books]
    exact List.mem_map_of_mem hrow
  obtain ⟨twin, htwin, heq⟩ := List.mem_map.mp hmem
  rw [BookRow.eq_of_unstamped heq.symm] at htwin
  exact ⟨twin.seenAt, htwin⟩

theorem map_folders {Value : Type} {column : FolderRow → Value}
    (hcolumn : ∀ row : FolderRow, column row.unstamped = column row) (h : SameRows db other) :
    db.folders.map column = other.folders.map column :=
  map_of_unstamped hcolumn h.folders

theorem filter_folders (h : SameRows db other) {keep : FolderRow → Bool}
    (hkeep : ∀ row : FolderRow, keep row.unstamped = keep row) :
    (db.folders.filter keep).map FolderRow.unstamped =
      (other.folders.filter keep).map FolderRow.unstamped := by
  have hcomp : keep ∘ FolderRow.unstamped = keep := funext hkeep
  have hfilter (rows : List FolderRow) : (rows.filter keep).map FolderRow.unstamped =
      (rows.map FolderRow.unstamped).filter keep := by
    rw [List.filter_map, hcomp]
  rw [hfilter, h.folders, ← hfilter]

theorem filter_books (h : SameRows db other) {keep : BookRow → Bool}
    (hkeep : ∀ row : BookRow, keep row.unstamped = keep row) :
    (db.books.filter keep).map BookRow.unstamped =
      (other.books.filter keep).map BookRow.unstamped := by
  have hcomp : keep ∘ BookRow.unstamped = keep := funext hkeep
  have hfilter (rows : List BookRow) : (rows.filter keep).map BookRow.unstamped =
      (rows.map BookRow.unstamped).filter keep := by
    rw [List.filter_map, hcomp]
  rw [hfilter, h.books, ← hfilter]

end SameRows

theorem firstBySortKey_unstamped (rows : List BookRow) :
    firstBySortKey (rows.map BookRow.unstamped) =
      (firstBySortKey rows).map BookRow.unstamped := by
  induction rows with
  | nil => rfl
  | cons row rest ih =>
    rw [List.map_cons, firstBySortKey, ih, firstBySortKey]
    cases firstBySortKey rest with
    | none => rfl
    | some other =>
      change (if other.sortKey < row.sortKey then _ else _) = Option.map _ (ite ..)
      split <;> rfl

section SameRows

variable {db other : Db} {coverMtime : PathText → Option ℕ}

theorem SameRows.firstBook (h : SameRows db other) {keep : BookRow → Bool}
    (hkeep : ∀ row : BookRow, keep row.unstamped = keep row) :
    (firstBySortKey (db.books.filter keep)).map BookRow.unstamped =
      (firstBySortKey (other.books.filter keep)).map BookRow.unstamped := by
  rw [← firstBySortKey_unstamped, h.filter_books hkeep, firstBySortKey_unstamped]

theorem SameRows.subtree (h : SameRows db other) (id : ℕ) : db.subtree id = other.subtree id := by
  have hids {keep : FolderRow → Bool} (hkeep : ∀ row : FolderRow, keep row.unstamped = keep row) :
      (db.folders.filter keep).map FolderRow.id = (other.folders.filter keep).map FolderRow.id := by
    have hfilter := congrArg (List.map FolderRow.id) (h.filter_folders hkeep)
    rw [List.map_map, List.map_map] at hfilter
    exact hfilter
  have hchildren : db.children = other.children := funext fun _ ↦ hids fun _ ↦ rfl
  have hlength : db.folders.length = other.folders.length := by
    simpa using congrArg List.length h.folders
  rw [Db.subtree, Db.subtree, hchildren, hlength, hids fun _ ↦ rfl]

theorem SameRows.coverVersionFor (h : SameRows db other) (id : ℕ) (cover : Option PathText) :
    coverVersionFor coverMtime db id cover = coverVersionFor coverMtime other id cover := by
  have hhash {rows others : List BookRow}
      (hsame : (firstBySortKey rows).map BookRow.unstamped =
        (firstBySortKey others).map BookRow.unstamped) :
      (firstBySortKey rows).map BookRow.hash = (firstBySortKey others).map BookRow.hash := by
    have hmap := congrArg (Option.map BookRow.hash) hsame
    rw [Option.map_map, Option.map_map] at hmap
    exact hmap
  unfold Catalog.coverVersionFor
  rw [h.subtree]
  split
  · rfl
  have hdirect := hhash (@firstBook db other h (fun row ↦ row.folderId = id) fun _ ↦ rfl)
  have hbelow (ids : List ℕ) :=
    hhash (@firstBook db other h (fun row ↦ row.folderId ∈ ids) fun _ ↦ rfl)
  revert hdirect
  cases firstBySortKey (db.books.filter (·.folderId = id)) with
  | some book =>
    cases firstBySortKey (other.books.filter (·.folderId = id)) with
    | some twin => exact fun hsame ↦ congrArg some hsame
    | none => exact fun hsame ↦ absurd hsame (Option.some_ne_none _)
  | none =>
    cases firstBySortKey (other.books.filter (·.folderId = id)) with
    | some twin => exact fun hsame ↦ absurd hsame.symm (Option.some_ne_none _)
    | none => exact fun _ ↦ congrArg (Option.map · _) (funext hbelow)

end SameRows

section Upserts

variable {db : Db}

theorem Db.folderAt_of_mem {row : FolderRow} (hrow : row ∈ db.folders) :
    db.folderAt row.path = some row := find?_key db.valid.folder_paths hrow

theorem sameRows_updateFolder {next : Db} {row : FolderRow} (hrow : row ∈ db.folders)
    {update : FolderRow → FolderRow} (hupdate : (update row).unstamped = row.unstamped)
    (h : db.updateFolder row.id update = some next) : SameRows next db := by
  obtain ⟨hfolders, hbooks⟩ := Db.updateFolder_eq_some h
  constructor
  · rw [hfolders]
    apply map_updateWhere
    intro other hother hid
    rw [Db.folder_eq_of_id hother hrow hid, hupdate]
  · rw [hbooks]

theorem sameRows_updateBook {next : Db} {row : BookRow} (hrow : row ∈ db.books)
    {update : BookRow → BookRow} (hupdate : (update row).unstamped = row.unstamped)
    (h : db.updateBook row.id update = some next) : SameRows next db := by
  obtain ⟨hbooks, hfolders⟩ := Db.updateBook_eq_some h
  constructor
  · rw [hfolders]
  · rw [hbooks]
    apply map_updateWhere
    intro other hother hid
    rw [eq_of_key_eq db.valid.book_ids hother hrow hid, hupdate]

/-- The upsert of a directory with a row that says what the directory says. -/
theorem upsertFolder_again {row : FolderRow} (hrow : row ∈ db.folders) {path : OsPath}
    {parentId : Option ℕ} {nameOverride : Option (List Char)} (seenAt : ℕ) {info : FolderInfo}
    (hfault : info.fault = false)
    (heq : row = folderRow xxh3 path parentId nameOverride row.seenAt info row.id row.coverVersion) :
    ∃ next, upsertFolder xxh3 db path parentId nameOverride seenAt info = some (next, row.id) ∧
      SameRows next db := by
  have hpath : row.path = path.text := congrArg FolderRow.path heq
  have hparent : row.parentId = parentId := congrArg FolderRow.parentId heq
  have hvalid := @Tables.Valid.updateFolder db.toTables db.valid row.id
    (fun old ↦ { folderRow xxh3 path parentId nameOverride seenAt info old.id old.coverVersion with
      path := old.path })
    (fun _ ↦ rfl) (fun _ _ _ ↦ rfl)
    (fun other hother hid ↦ by
      rw [Db.folder_eq_of_id hother hrow hid]
      exact (congrArg FolderRow.slug heq).symm)
    fun _ _ _ parentId hmem ↦ db.valid.folder_parents row hrow parentId (hparent ▸ hmem)
  have hnext := Tables.commit_of_valid hvalid
  refine ⟨_, ?_, @sameRows_updateFolder db _ row hrow _ ?_ hnext⟩
  · rw [upsertFolder, if_neg (by simp [hfault]), ← hpath, Db.folderAt_of_mem hrow]
    exact congrArg (Option.map (·, row.id)) hnext
  · have hstamp := congrArg FolderRow.unstamped heq
    rw [hstamp]
    simp only [FolderRow.unstamped, folderRow, hpath]

/-- The upsert of a file with a row that has its size and modification time. -/
theorem upsertBook_again {row : BookRow} (hrow : row ∈ db.books) {path : OsPath} (name : OsName)
    (seenAt : ℕ) {info : FileInfo} {size : ℕ} (hsize : info.size = some size)
    (hmax : size ≤ maxArchiveBytes) (hfault : info.fault = false) (hpath : row.path = path.text)
    (hunchanged : isUnchanged info size row = true) :
    ∃ next, upsertBook db path name row.folderId seenAt info = .stored next ∧ SameRows next db := by
  have hfound : db.bookAt path.text = some row := Db.bookAt_eq_some_iff.mpr ⟨hrow, hpath⟩
  have hvalid := @Tables.Valid.updateBook db.toTables db.valid row.id
    (fun old ↦ { old with seenAt := seenAt, folderId := row.folderId })
    (fun _ ↦ rfl) (fun _ _ _ ↦ rfl) fun _ _ _ ↦ db.valid.book_folders row hrow
  have hnext := Tables.commit_of_valid hvalid
  refine ⟨_, ?_, @sameRows_updateBook db _ row hrow _ rfl hnext⟩
  simp only [upsertBook, hsize, Nat.not_lt.mpr hmax, if_false, hfault, Bool.false_eq_true, hfound,
    Option.filter, hunchanged, if_true]
  exact congrArg Ingest.ofStatement hnext

theorem upsertBook_skips {path : OsPath} {name : OsName} {folderId seenAt : ℕ} {info : FileInfo}
    (hinfo : ¬info.Ingestible) (hfresh : ∀ row ∈ db.books, row.path ≠ path.text) (next : Db) :
    upsertBook db path name folderId seenAt info ≠ .stored next := by
  intro h
  obtain ⟨size, row, hsize, hmax, -, hstores, -⟩ := upsertBook_spec h
  cases hstores with
  | stamped old hold hpath hunchanged => exact hfresh old hold hpath
  | written hash kind pageCount id addedAt hhash hkind hpages hpos hcount =>
    exact hinfo (FileInfo.ingestible_of_written hsize hmax hhash hkind hpages hpos hcount)

end Upserts

/-- The database records the tree that a scan meets: every directory that the walk enters and every
book in it has a row that says what the scan would write, there are no other rows, and the cover
versions are up to date. The ids are those of the directories. -/
structure Scan.Recorded (xxh3 : List UInt8 → UInt64) (scan : Scan) (db : Db)
    (ids : OsPath → Option ℕ) : Prop where
  sound : scan.rootInfo.fault = false
  root : ∃ row ∈ db.folders, ids scan.root = some row.id ∧
    row = folderRow xxh3 scan.root none scan.name row.seenAt scan.rootInfo row.id row.coverVersion
  folder : ∀ entry ∈ scan.soundEntries.folders, ∃ row ∈ db.folders, ids entry.1 = some row.id ∧
    row = folderRow xxh3 entry.1 (ids entry.1.dropLast) none row.seenAt entry.2 row.id
      row.coverVersion
  file : ∀ entry ∈ scan.soundEntries.files,
    (∃ size ∈ entry.2.size, size ≤ maxArchiveBytes ∧ ∃ row ∈ db.books, row.path = entry.1.text ∧
      isUnchanged entry.2 size row = true ∧ ids entry.1.dropLast = some row.folderId) ∨
    ¬entry.2.Ingestible ∧ ∀ row ∈ db.books, row.path ≠ entry.1.text
  folder_found : ∀ row ∈ db.folders, row.path = scan.root.text ∨
    ∃ entry ∈ scan.soundEntries.folders, row.path = entry.1.text
  book_found : ∀ row ∈ db.books, ∃ entry ∈ scan.soundEntries.files, row.path = entry.1.text
  versioned : ∀ row ∈ db.folders, Versioned scan.coverMtime db row
  slugs : scan.SlugsDistinct xxh3 db

section Recorded

variable {scan : Scan} {db other : Db} {ids : OsPath → Option ℕ}

theorem folderRow_restamp {row : FolderRow} {path : OsPath} {parentId : Option ℕ}
    {nameOverride : Option (List Char)} {info : FolderInfo}
    (h : row = folderRow xxh3 path parentId nameOverride row.seenAt info row.id row.coverVersion)
    (seenAt : ℕ) : { row with seenAt := seenAt } =
      folderRow xxh3 path parentId nameOverride seenAt info row.id row.coverVersion :=
  congrArg (fun changed : FolderRow ↦ { changed with seenAt := seenAt }) h

/-- When the rows were last seen does not matter. -/
theorem Scan.Recorded.of_sameRows (h : scan.Recorded xxh3 db ids) (hrows : SameRows db other) :
    scan.Recorded xxh3 other ids := by
  refine ⟨h.sound, ?_, ?_, ?_, ?_, ?_, ?_, ?_⟩
  · obtain ⟨row, hrow, hid, heq⟩ := h.root
    obtain ⟨seenAt, htwin⟩ := hrows.folder hrow
    exact ⟨_, htwin, hid, folderRow_restamp heq seenAt⟩
  · intro entry hentry
    obtain ⟨row, hrow, hid, heq⟩ := h.folder entry hentry
    obtain ⟨seenAt, htwin⟩ := hrows.folder hrow
    exact ⟨_, htwin, hid, folderRow_restamp heq seenAt⟩
  · intro entry hentry
    apply (h.file entry hentry).imp
    · rintro ⟨size, hsize, hmax, row, hrow, hrow'⟩
      obtain ⟨seenAt, htwin⟩ := hrows.book hrow
      exact ⟨size, hsize, hmax, _, htwin, hrow'⟩
    · rintro ⟨hinfo, hfresh⟩
      refine ⟨hinfo, fun row hrow ↦ ?_⟩
      obtain ⟨seenAt, htwin⟩ := hrows.symm.book hrow
      have hpath := hfresh _ htwin
      exact hpath
  · intro row hrow
    obtain ⟨seenAt, htwin⟩ := hrows.symm.folder hrow
    have hfound := h.folder_found _ htwin
    exact hfound
  · intro row hrow
    obtain ⟨seenAt, htwin⟩ := hrows.symm.book hrow
    have hfound := h.book_found _ htwin
    exact hfound
  · intro row hrow
    obtain ⟨seenAt, htwin⟩ := hrows.symm.folder hrow
    have hversioned := h.versioned _ htwin
    exact (hrows.coverVersionFor row.id row.coverPath).symm.trans hversioned
  · have hpaths : scan.folderPaths other = scan.folderPaths db :=
      congrArg (· ++ _) (@SameRows.map_folders _ _ _ FolderRow.path (fun _ ↦ rfl) hrows).symm
    rw [Scan.SlugsDistinct, hpaths]
    exact h.slugs

theorem Scan.Recorded.restart (h : scan.Recorded xxh3 db ids) (started : ℕ) :
    Scan.Recorded xxh3 { scan with started := started } db ids :=
  ⟨h.sound, h.root, h.folder, h.file, h.folder_found, h.book_found, h.versioned, h.slugs⟩

theorem Scan.Recorded.slug_eq (h : scan.Recorded xxh3 db ids) :
    ∀ row ∈ db.folders, row.slug = slugForPath xxh3 row.path := by
  intro row hrow
  have hsame {twin : FolderRow} {path : OsPath} {parentId : Option ℕ}
      {nameOverride : Option (List Char)} {info : FolderInfo} (htwin : twin ∈ db.folders)
      (heq : twin =
        folderRow xxh3 path parentId nameOverride twin.seenAt info twin.id twin.coverVersion)
      (hpath : row.path = path.text) : row.slug = slugForPath xxh3 row.path := by
    obtain rfl := Db.folder_eq_of_path hrow htwin (hpath.trans (congrArg FolderRow.path heq).symm)
    rw [hpath]
    exact congrArg FolderRow.slug heq
  rcases h.folder_found row hrow with hpath | ⟨entry, hentry, hpath⟩
  · obtain ⟨twin, htwin, -, heq⟩ := h.root
    exact hsame htwin heq hpath
  · obtain ⟨twin, htwin, -, heq⟩ := h.folder entry hentry
    exact hsame htwin heq hpath

/-! ## The walk -/

/-- The walk has changed no more than stamps, and knows the directories by their ids. -/
structure Walk.Repeats (db : Db) (ids : OsPath → Option ℕ) (walk : Walk) : Prop where
  states : ∀ state ∈ walk.db :: walk.past, SameRows state db
  paths : ∀ path id, walk.pathToId path = some id → ids path = some id

theorem Walk.Repeats.execute {walk : Walk} (h : walk.Repeats db ids) {next : Db}
    (hnext : SameRows next walk.db) : (walk.execute next).Repeats db ids :=
  ⟨List.forall_mem_cons.mpr ⟨hnext.trans (h.states _ List.mem_cons_self), h.states⟩, h.paths⟩

theorem Walk.Repeats.recorded {walk : Walk} (h : walk.Repeats db ids)
    (hrecorded : scan.Recorded xxh3 db ids) : scan.Recorded xxh3 walk.db ids :=
  hrecorded.of_sameRows (h.states _ List.mem_cons_self).symm

theorem Scan.Recorded.enter (h : scan.Recorded xxh3 db ids) :
    ∃ start, scan.enter xxh3 db = some start ∧ start.Repeats db ids := by
  obtain ⟨row, hrow, hid, heq⟩ := h.root
  obtain ⟨next, hupsert, hnext⟩ := upsertFolder_again hrow scan.started h.sound heq
  refine ⟨_, by rw [Scan.enter, hupsert, Option.map_some], ?_, ?_⟩
  · exact List.forall_mem_cons.mpr ⟨hnext, List.forall_mem_singleton.mpr (.refl db)⟩
  · intro path id hpath
    change Function.update (fun _ ↦ none) scan.root (some row.id) path = some id at hpath
    by_cases hroot : path = scan.root
    · subst hroot
      rw [Function.update_self] at hpath
      rw [hid, hpath]
    · simp [Function.update_of_ne hroot] at hpath

section Walk

variable {walk : Walk} {dir : OsPath}

theorem Walk.Repeats.visitFolder (h : walk.Repeats db ids) (hrecorded : scan.Recorded xxh3 db ids)
    (hdir : (walk.pathToId dir).isSome) {name : OsName} {info : FolderInfo}
    (hfault : info.fault = false) (hentry : (dir ++ [name], info) ∈ scan.soundEntries.folders) :
    (visitFolder xxh3 scan.started walk (dir ++ [name]) info).1.Repeats db ids ∧
      (visitFolder xxh3 scan.started walk (dir ++ [name]) info).2 = true ∧
      ((visitFolder xxh3 scan.started walk (dir ++ [name]) info).1.pathToId
        (dir ++ [name])).isSome := by
  obtain ⟨parentId, hparent⟩ := Option.isSome_iff_exists.mp hdir
  obtain ⟨row, hrow, hid, heq⟩ := (h.recorded hrecorded).folder _ hentry
  have hdrop : (dir ++ [name]).dropLast = dir := List.dropLast_concat
  rw [hdrop, h.paths dir parentId hparent] at heq
  obtain ⟨next, hupsert, hnext⟩ := upsertFolder_again hrow scan.started hfault heq
  simp only [Catalog.visitFolder, hdrop, hparent, hupsert]
  refine ⟨⟨(h.execute hnext).states, fun path id hpath ↦ ?_⟩, trivial, by simp⟩
  change Function.update walk.pathToId (dir ++ [name]) (some row.id) path = some id at hpath
  by_cases hsame : path = dir ++ [name]
  · subst hsame
    rw [Function.update_self] at hpath
    rw [hid, hpath]
  · rw [Function.update_of_ne hsame] at hpath
    exact h.paths path id hpath

theorem Walk.Repeats.visitFile (h : walk.Repeats db ids) (hrecorded : scan.Recorded xxh3 db ids)
    (hdir : (walk.pathToId dir).isSome) {name : OsName} {info : FileInfo}
    (hentry : isSupported name = true → info.fault = false →
      (dir ++ [name], info) ∈ scan.soundEntries.files) :
    (visitFile scan.started walk (dir ++ [name]) name info).Repeats db ids ∧
      (isSupported name = true → info.fault = false →
        (∃ row ∈ db.books, row.path = (dir ++ [name]).text) →
        dir ++ [name] ∈ (visitFile scan.started walk (dir ++ [name]) name info).ingested) := by
  obtain ⟨folderId, hparent⟩ := Option.isSome_iff_exists.mp hdir
  have hdrop : (dir ++ [name]).dropLast = dir := List.dropLast_concat
  have hsame := h.states _ List.mem_cons_self
  unfold Catalog.visitFile
  rw [hdrop, hparent]
  split
  · next hsupported =>
    dsimp only
    by_cases hfault : info.fault = true
    · have hfails (next : Db) :
          upsertBook walk.db (dir ++ [name]) name folderId scan.started info ≠ .stored next := by
        intro hupsert
        obtain ⟨-, -, -, -, hsound, -⟩ := upsertBook_spec hupsert
        rw [hfault] at hsound
        exact Bool.noConfusion hsound
      refine ⟨?_, fun _ hsound ↦ absurd hfault (by simp [hsound])⟩
      split
      · exact h
      · exact ⟨h.states, h.paths⟩
      · next next hupsert => exact absurd hupsert (hfails next)
    · rw [Bool.not_eq_true] at hfault
      rcases (h.recorded hrecorded).file _ (hentry hsupported hfault) with
        ⟨size, hsize, hmax, row, hrow, hpath, hunchanged, hfolder⟩ | ⟨hinfo, hfresh⟩
      · rw [hdrop, h.paths dir folderId hparent, Option.some.injEq] at hfolder
        obtain ⟨next, hupsert, hrows⟩ := upsertBook_again hrow name scan.started hsize hmax hfault
          hpath hunchanged
        rw [← hfolder] at hupsert
        rw [hupsert]
        exact ⟨⟨(h.execute hrows).states, h.paths⟩, fun _ _ _ ↦ List.mem_cons_self⟩
      · refine ⟨?_, ?_⟩
        · split
          · exact h
          · exact ⟨h.states, h.paths⟩
          · next next hupsert => exact absurd hupsert (upsertBook_skips hinfo hfresh next)
        · rintro - - ⟨row, hrow, hpath⟩
          obtain ⟨seenAt, htwin⟩ := hsame.symm.book hrow
          have hother := hfresh _ htwin
          exact absurd hpath hother
  · next hsupported => exact ⟨h, fun hname ↦ absurd hname hsupported⟩

/-- The files of a listing that have rows are stored. -/
def Listing.Restored (listing : Listing) (dir : OsPath) (db : Db) (walk : Walk) : Prop :=
  ∀ entry ∈ (listing.files isSound dir).filter (fun entry ↦ !entry.2.fault),
    (∃ row ∈ db.books, row.path = entry.1.text) → entry.1 ∈ walk.ingested

/-- The walk over a listing changes no more than stamps, and stores what has rows. -/
theorem Walk.Repeats.visit (h : walk.Repeats db ids) (hrecorded : scan.Recorded xxh3 db ids)
    (hdir : (walk.pathToId dir).isSome) {listing : Listing}
    (hfolders : listing.folders isSound dir ⊆ scan.soundEntries.folders)
    (hfiles : (listing.files isSound dir).filter (fun entry ↦ !entry.2.fault) ⊆
      scan.soundEntries.files) :
    (visit xxh3 scan.started walk dir listing).Repeats db ids ∧
      listing.Restored dir db (visit xxh3 scan.started walk dir listing) := by
  induction listing generalizing walk dir with
  | nil => exact ⟨h, by simp [Listing.Restored, Listing.files]⟩
  | error rest ih => exact ih h hdir hfolders hfiles
  | other name rest ih => exact ih h hdir hfolders hfiles
  | file name info rest ih =>
    unfold Listing.Restored
    rw [Listing.files, List.filter_append] at hfiles ⊢
    rw [List.append_subset] at hfiles
    rw [Catalog.visit]
    by_cases hhidden : isHidden name = true
    · rw [if_pos hhidden, if_neg (by simp [hhidden])]
      exact ih h hdir hfolders hfiles.2
    · rw [if_neg hhidden]
      have hentry (hsupported : isSupported name = true) (hfault : info.fault = false) :
          (dir ++ [name], info) ∈ scan.soundEntries.files :=
        hfiles.1 (by simp [hsupported, hhidden, hfault])
      obtain ⟨hnext, hstores⟩ := h.visitFile hrecorded hdir hentry
      have hsteps := @visitFile_steps xxh3 scan.started ⟨[], [(dir ++ [name], info)]⟩ walk dir name
        info fun _ ↦ List.mem_cons_self
      have hparent := hsteps.grows.pathToId dir hdir
      obtain ⟨hrest, hrestored⟩ := ih hnext hparent hfolders hfiles.2
      have hlater := @visit_soundSteps xxh3 scan.started scan.soundEntries _ _ hparent rest hfolders
        hfiles.2
      refine ⟨hrest, fun entry hmem hrow ↦ ?_⟩
      rcases List.mem_append.mp hmem with hfirst | hmem
      · obtain ⟨hfirst, hfault⟩ := List.mem_filter.mp hfirst
        split at hfirst
        · next hpasses =>
          obtain rfl := List.mem_singleton.mp hfirst
          simp only [Bool.and_eq_true] at hpasses
          exact hlater.grows.ingested (hstores hpasses.1 (by simpa using hfault) hrow)
        · simp at hfirst
      · exact hrestored entry hmem hrow
  | dir name info children rest ihChildren ihRest =>
    unfold Listing.Restored
    rw [Listing.folders, List.append_subset] at hfolders
    rw [Listing.files, List.filter_append] at hfiles ⊢
    rw [List.append_subset] at hfiles
    by_cases hvisible : isVisible name info = true
    · rw [visit_dir_of_visible hvisible]
      by_cases hfault : info.fault = true
      · rw [visitDir_of_fault hdir name hfault, if_neg (by simp [isSound, hfault])]
        exact ihRest h hdir hfolders.2 hfiles.2
      · rw [Bool.not_eq_true] at hfault
        have hsound : isSound name info = true := by simp [isSound, hvisible, hfault]
        rw [if_pos hsound] at hfolders hfiles ⊢
        obtain ⟨hentry, hinFolders⟩ := List.cons_subset.mp hfolders.1
        obtain ⟨hfolder, hinto, hstored⟩ := h.visitFolder hrecorded hdir hfault hentry
        have hentered := @visitFolder_steps xxh3 scan.started scan.soundEntries walk dir name info hentry
        rw [visitDir, if_pos hinto]
        have hsteps := @visit_soundSteps xxh3 scan.started scan.soundEntries _ _ hstored children
          hinFolders hfiles.1
        obtain ⟨hinside, hchildren⟩ := ihChildren hfolder hstored hinFolders hfiles.1
        have hparent := (WalkSteps.grows (hentered.trans hsteps)).pathToId dir hdir
        obtain ⟨hrest, hrestored⟩ := ihRest hinside hparent hfolders.2 hfiles.2
        have hlater := @visit_soundSteps xxh3 scan.started scan.soundEntries _ _ hparent rest
          hfolders.2 hfiles.2
        refine ⟨hrest, fun entry hmem hrow ↦ ?_⟩
        rcases List.mem_append.mp hmem with hmem | hmem
        · exact hlater.grows.ingested (hchildren entry hmem hrow)
        · exact hrestored entry hmem hrow
    · rw [visit_dir_of_not_visible hvisible, if_neg (by simp [isSound, hvisible])]
      exact ihRest h hdir hfolders.2 hfiles.2

end Walk

/-- Nothing goes if every row has the stamp of the scan. -/
theorem Walk.Repeats.prune {walk : Walk} (h : walk.Repeats db ids)
    (hfolders : ∀ row ∈ walk.db.folders, row.seenAt = scan.started)
    (hbooks : ∀ row ∈ walk.db.books, row.seenAt = scan.started) :
    (scan.prune walk).Repeats db ids := by
  have hkeptBooks : walk.db.books.filter (fun row ↦ ¬row.seenAt < scan.started) = walk.db.books :=
    List.filter_eq_self.mpr fun row hrow ↦ by simp [hbooks row hrow]
  have hkeptFolders : walk.db.folders.filter (fun row ↦ ¬row.seenAt < scan.started) =
      walk.db.folders := List.filter_eq_self.mpr fun row hrow ↦ by simp [hfolders row hrow]
  have hdeleted : SameRows (walk.db.deleteBooks scan.started) walk.db :=
    ⟨rfl, congrArg (List.map _) hkeptBooks⟩
  have hsettled : (walk.db.deleteBooks scan.started).keptFolders scan.started = walk.db.folders := by
    rw [Db.keptFolders]
    change settle Db.hasParent (walk.db.folders.filter _) = _
    rw [hkeptFolders]
    exact settle_eq_self fun row hrow ↦ Db.hasParent_iff.mpr (walk.db.valid.folder_parents row hrow)
  have hcascade : SameRows ((walk.db.deleteBooks scan.started).deleteFolders scan.started)
      (walk.db.deleteBooks scan.started) := by
    refine ⟨congrArg (List.map _) hsettled, congrArg (List.map _) ?_⟩
    apply List.filter_eq_self.mpr
    intro row hrow
    obtain ⟨folder, hfolder, hid⟩ := walk.db.valid.book_folders row (List.mem_filter.mp hrow).1
    rw [hsettled, List.any_eq_true]
    exact ⟨folder, hfolder, by simpa using hid⟩
  exact (h.execute hdeleted).execute hcascade

theorem Walk.Repeats.stamped {start walked : Walk} (h : walked.Repeats db ids)
    (hrecorded : scan.Recorded xxh3 db ids) (hscan : scan.Walked xxh3 db start walked)
    (hrestored : scan.listing.Restored scan.root db walked) :
    (∀ row ∈ walked.db.folders, row.seenAt = scan.started) ∧
      ∀ row ∈ walked.db.books, row.seenAt = scan.started := by
  have hthere := h.recorded hrecorded
  have hheld := hscan.held
  constructor
  · intro row hrow
    have hstamp {path : OsPath} (hpath : row.path = path.text)
        (hstored : (walked.pathToId path).isSome) : row.seenAt = scan.started := by
      obtain ⟨id, hid⟩ := Option.isSome_iff_exists.mp hstored
      obtain ⟨twin, htwin, -, htwinPath, hseenAt, -⟩ := hheld.folder path id hid
      rw [Db.folder_eq_of_path hrow htwin (hpath.trans htwinPath.symm), hseenAt]
    rcases hthere.folder_found row hrow with hpath | ⟨entry, hentry, hpath⟩
    · exact hstamp hpath hscan.root
    · exact hstamp hpath (hscan.stored.folders entry hentry)
  · intro row hrow
    obtain ⟨entry, hentry, hpath⟩ := hthere.book_found row hrow
    obtain ⟨seenAt, hbefore⟩ := (h.states _ List.mem_cons_self).book hrow
    obtain ⟨twin, htwin, htwinPath, hseenAt, -⟩ :=
      hheld.book entry.1 (hrestored entry hentry ⟨_, hbefore, hpath⟩)
    rw [Db.book_eq_of_path hrow htwin (hpath.trans htwinPath.symm), hseenAt]

end Recorded

theorem Listing.folders_subset {passes others : OsName → FolderInfo → Bool}
    (h : ∀ name info, passes name info = true → others name info = true) (listing : Listing)
    (dir : OsPath) : listing.folders passes dir ⊆ listing.folders others dir := by
  induction listing generalizing dir with
  | nil => exact List.Subset.refl _
  | error rest ih => exact ih dir
  | other name rest ih => exact ih dir
  | file name info rest ih => exact ih dir
  | dir name info children rest ihChildren ihRest =>
    rw [Listing.folders, Listing.folders, List.append_subset]
    refine ⟨?_, List.subset_append_of_subset_right _ (ihRest dir)⟩
    split
    · next hpasses =>
      rw [if_pos (h name info hpasses)]
      exact List.subset_append_of_subset_left _ (List.cons_subset_cons _ (ihChildren _))
    · exact List.nil_subset _

/-- The row is that of a file which the walk has stored, with its size and modification time. -/
def Walk.Marks (scan : Scan) (walk : Walk) (row : BookRow) : Prop :=
  ∃ entry ∈ scan.soundEntries.files, entry.1 ∈ walk.ingested ∧ row.path = entry.1.text ∧
    ∃ size ∈ entry.2.size, size ≤ maxArchiveBytes ∧ isUnchanged entry.2 size row = true

section Complete

variable {scan : Scan} {db : Db}

theorem Stores.isUnchanged_eq {path : OsPath} {name : OsName} {folderId seenAt size : ℕ}
    {info : FileInfo} {row : BookRow} (h : Stores db path name folderId seenAt info size row) :
    isUnchanged info size row = true := by
  cases h with
  | stamped old hold hpath hunchanged => exact hunchanged
  | written => simp [isUnchanged, bookRow]

theorem WalkStep.marks {walk next : Walk}
    (hstep : WalkStep xxh3 scan.started scan.soundEntries walk next)
    (h : ∀ row ∈ walk.db.books, row ∈ db.books ∨ walk.Marks scan row) :
    ∀ row ∈ next.db.books, row ∈ db.books ∨ next.Marks scan row := by
  cases hstep with
  | orphan path => exact h
  | counted => exact h
  | folder dir name info parentId id stored coverVersion hfolder hparent hstored =>
    intro row hrow
    change row ∈ stored.books at hrow
    rw [hstored.books_eq] at hrow
    exact h row hrow
  | book dir name info folderId size stored row hfile hparent hsize hmax hstores hstored =>
    intro other hother
    rcases (hstored.mem_iff other).mp hother with rfl | ⟨hold, -⟩
    · right
      exact ⟨(dir ++ [name], info), hfile, List.mem_cons_self, hstores.path_eq, size, hsize, hmax,
        hstores.isUnchanged_eq⟩
    · apply (h other hold).imp_right
      rintro ⟨entry, hentry, hingested, hrow⟩
      exact ⟨entry, hentry, List.mem_cons_of_mem _ hingested, hrow⟩

/-- No two directories that the walk stores have paths with the same text. -/
theorem Scan.Unambiguous.isFolder_eq (h : scan.Unambiguous) {first second : OsPath}
    {nameOverride otherName : Option (List Char)} {info otherInfo : FolderInfo}
    (hfirst : scan.IsFolder first nameOverride info)
    (hsecond : scan.IsFolder second otherName otherInfo) (hpath : first.text = second.text) :
    first = second ∧ nameOverride = otherName ∧ info = otherInfo := by
  rcases hfirst with ⟨rfl, rfl, rfl⟩ | ⟨hentry, rfl⟩ <;>
    rcases hsecond with ⟨rfl, rfl, rfl⟩ | ⟨hother, rfl⟩
  · exact ⟨rfl, rfl, rfl⟩
  · exact absurd hpath.symm (Scan.text_ne_root hother)
  · exact absurd hpath (Scan.text_ne_root hentry)
  · obtain ⟨rfl, rfl⟩ := Prod.mk.inj (h.folders _ hentry _ hother hpath)
    exact ⟨rfl, rfl, rfl⟩

variable {scans : List Scan} {walked walk : Walk}

/-- A directory that the walk has stored has a row that says what the walk has read of it. -/
theorem Walk.Held.recordsFolder (h : walked.Held scan)
    (hrefreshed : Refreshed (scan.prune walked) walk) (hunambiguous : scan.Unambiguous)
    (hdraws : ∀ row ∈ walk.db.folders, walked.Draws xxh3 scan row) {path : OsPath}
    {nameOverride : Option (List Char)} {info : FolderInfo}
    (hfolder : scan.IsFolder path nameOverride info) (hstored : (walked.pathToId path).isSome) :
    ∃ row ∈ walk.db.folders, walked.pathToId path = some row.id ∧
      row = folderRow xxh3 path row.parentId nameOverride row.seenAt info row.id row.coverVersion ∧
      (path = scan.root ∧ row.parentId = none ∨
        scan.root.length < path.length ∧ walked.pathToId path.dropLast = row.parentId) := by
  obtain ⟨id, hid⟩ := Option.isSome_iff_exists.mp hstored
  obtain ⟨row, hrow, rfl, hrowPath, hseenAt, hparent⟩ := h.exists_folder hrefreshed hid
  obtain ⟨same, sameName, sameInfo, hsame, -, heq⟩ := hdraws row hrow
  have hsamePath : same.text = path.text := (congrArg FolderRow.path heq).symm.trans hrowPath
  obtain ⟨rfl, rfl, rfl⟩ := hunambiguous.isFolder_eq hsame hfolder hsamePath
  refine ⟨row, hrow, hid, ?_, hparent.imp_right ?_⟩
  · rw [hseenAt]
    exact heq
  · rintro ⟨hlength, parentId, hparentId, hrowParent⟩
    exact ⟨hlength, hparentId.trans hrowParent.symm⟩

theorem Scan.sound_of_enter {start : Walk} (h : scan.enter xxh3 db = some start) :
    scan.rootInfo.fault = false := by
  by_contra hfault
  rw [Bool.not_eq_false] at hfault
  simp [Scan.enter, upsertFolder, hfault] at h

/-- A scan that returns `Ok` and starts after all others leaves its tree recorded. -/
theorem Run.recorded (h : Run xxh3 scans db)
    (hlater : ∀ earlier ∈ scans, earlier.started < scan.started)
    (hslugs : scan.SlugsDistinct xxh3 db) (hunambiguous : scan.Unambiguous)
    (hwalk : scan.complete xxh3 db = some walk) : ∃ ids, scan.Recorded xxh3 walk.db ids := by
  obtain ⟨walked, hwalked, hrefreshed⟩ := Scan.complete_spec hwalk
  obtain ⟨start, hscan⟩ := Scan.exists_walked hslugs h.slug_eq hwalked
  have hheld := hscan.held
  obtain ⟨id, coverVersion, hentered, -⟩ := Scan.enter_spec hscan.enter
  have hfolders := h.draws_of_complete hlater hrefreshed (hscan.steps.invariant
    (fun _ _ hstep ↦ hstep.draws) (Scan.drawn_enter hscan.enter).folders)
  have hbooks := h.books_of_complete hlater hrefreshed (hscan.steps.invariant
    (fun _ _ hstep ↦ hstep.marks) fun row hrow ↦ .inl (hentered.books_eq ▸ hrow))
  have hpath (row : FolderRow) (hrow : row ∈ walk.db.folders) : row.path = scan.root.text ∨
      ∃ entry ∈ scan.soundEntries.folders, row.path = entry.1.text := by
    obtain ⟨path, nameOverride, info, ⟨rfl, -, -⟩ | ⟨hentry, -⟩, -, heq⟩ := hfolders row hrow
    · exact .inl (congrArg FolderRow.path heq)
    · exact .inr ⟨_, hentry, congrArg FolderRow.path heq⟩
  have hrecords {path : OsPath} {nameOverride : Option (List Char)} {info : FolderInfo}
      (hfolder : scan.IsFolder path nameOverride info)
      (hstored : (walked.pathToId path).isSome) :=
    hheld.recordsFolder hrefreshed hunambiguous hfolders hfolder hstored
  refine ⟨walked.pathToId, ?_, ?_, ?_, ?_, hpath, ?_, Scan.complete_versioned h hwalk, ?_⟩
  · exact Scan.sound_of_enter hscan.enter
  · obtain ⟨row, hrow, hid, heq, hparent⟩ := hrecords (.inl ⟨rfl, rfl, rfl⟩) hscan.root
    rw [(hparent.resolve_right fun hbelow ↦ Nat.lt_irrefl _ hbelow.1).2] at heq
    exact ⟨row, hrow, hid, heq⟩
  · intro entry hentry
    obtain ⟨row, hrow, hid, heq, hparent⟩ := hrecords (.inr ⟨hentry, rfl⟩)
      (hscan.stored.folders entry hentry)
    have hlt := Listing.length_lt_of_mem_folders hentry
    have hbelow := hparent.resolve_left fun hroot ↦ by
      rw [hroot.1] at hlt
      exact Nat.lt_irrefl _ hlt
    rw [← hbelow.2] at heq
    exact ⟨row, hrow, hid, heq⟩
  · intro entry hentry
    have hsame {row : BookRow} (hrow : row ∈ walk.db.books) (hrowPath : row.path = entry.1.text) :
        entry.1 ∈ walked.ingested ∧
          ∃ size ∈ entry.2.size, size ≤ maxArchiveBytes ∧ isUnchanged entry.2 size row = true := by
      obtain ⟨other, hother, hingested, hotherPath, hsize⟩ := hbooks row hrow
      obtain rfl := hunambiguous.files other hother entry hentry
        (hotherPath.symm.trans hrowPath)
      exact ⟨hingested, hsize⟩
    by_cases hingested : entry.1 ∈ walked.ingested
    · obtain ⟨row, hrow, hrowPath, -, hfolderId⟩ := hheld.book entry.1 hingested
      have hkept : row ∈ walk.db.books := by
        rw [hrefreshed.books_eq]
        exact hheld.book_mem_prune hrow hingested hrowPath
      obtain ⟨-, size, hsize, hmax, hunchanged⟩ := hsame hkept hrowPath
      exact .inl ⟨size, hsize, hmax, row, hkept, hrowPath, hunchanged, hfolderId⟩
    · obtain ⟨hfile, hfault⟩ := List.mem_filter.mp hentry
      refine .inr ⟨fun hinfo ↦ hingested ?_, fun row hrow hrowPath ↦
        hingested (hsame hrow hrowPath).1⟩
      exact hscan.stored.files entry hfile hinfo (by simpa using hfault)
  · intro row hrow
    obtain ⟨entry, hentry, -, hrowPath, -⟩ := hbooks row hrow
    exact ⟨entry, hentry, hrowPath⟩
  · have hsubset : scan.folderPaths walk.db ⊆ scan.folderPaths db := by
      refine List.append_subset.mpr ⟨?_, List.subset_append_right _ _⟩
      intro path hmem
      obtain ⟨row, hrow, rfl⟩ := List.mem_map.mp hmem
      apply List.mem_append_right
      rcases hpath row hrow with hroot | ⟨entry, hentry, hentryPath⟩
      · exact hroot ▸ List.mem_cons_self
      · rw [hentryPath]
        refine List.mem_cons_of_mem _ (List.mem_map_of_mem ?_)
        exact Listing.folders_subset (fun _ _ hsound ↦ (Bool.and_eq_true _ _ ▸ hsound).1) _ _ hentry
    exact fun first hfirst second hsecond ↦ hslugs first (hsubset hfirst) second (hsubset hsecond)

end Complete

end ComicStream.Catalog
