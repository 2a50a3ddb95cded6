import ComicStream.Catalog.Forest

/-!
# Nothing is lost

A complete scan stores every directory that it can reach through directories
whose own upsert succeeds, and every file in them that can be ingested, each
under the row of its parent directory. The rows it stores justify one another,
so the deletions and their cascade leave them alone.
-/

namespace ComicStream.Catalog

open Rust Archive Table

variable {xxh3 : List UInt8 → UInt64} {scan : Scan} {db : Db}

theorem Run.slug_eq {scans : List Scan} (h : Run xxh3 scans db) :
    ∀ row ∈ db.folders, row.slug = slugForPath xxh3 row.path := by
  have hrows : (∀ row ∈ db.folders, row.slug = slugForPath xxh3 row.path) ∧
      ∀ row ∈ db.books, True := by
    induction h with
    | empty => simp [Db.empty]
    | @scan scans db next _ scan hnext ih =>
      apply @Scan.rows_induction xxh3 scan db next
        (fun row ↦ row.slug = slugForPath xxh3 row.path) (fun _ ↦ True) ih
      · exact fun _ _ _ _ _ _ _ ↦ rfl
      · exact fun _ _ hrow ↦ hrow
      · exact fun _ _ _ _ _ _ _ _ _ _ _ ↦ trivial
      · exact hnext
  exact hrows.1

/-- The paths of the folders that are in the database or that the scan can meet. -/
def Scan.folderPaths (scan : Scan) (db : Db) : List PathText :=
  db.folders.map FolderRow.path ++ scan.root.text :: scan.entries.folders.map (·.1.text)

/-- No two of these paths have the same slug. -/
def Scan.SlugsDistinct (xxh3 : List UInt8 → UInt64) (scan : Scan) (db : Db) : Prop :=
  ∀ first ∈ scan.folderPaths db, ∀ second ∈ scan.folderPaths db,
    slugForPath xxh3 first = slugForPath xxh3 second → first = second

/-- Every directory below `dir` has a longer path. -/
theorem Listing.length_lt_of_mem_folders {passes : OsName → FolderInfo → Bool} {listing : Listing}
    {dir : OsPath} {entry : OsPath × FolderInfo} (h : entry ∈ listing.folders passes dir) :
    dir.length < entry.1.length := by
  induction listing generalizing dir with
  | nil => simp [Listing.folders] at h
  | error rest ih => exact ih h
  | other name rest ih => exact ih h
  | file name info rest ih => exact ih h
  | dir name info children rest ihChildren ihRest =>
    rw [Listing.folders, List.mem_append] at h
    rcases h with h | h
    · split at h
      · rcases List.mem_cons.mp h with rfl | h
        · simp
        · have hlt := ihChildren h
          simp at hlt
          omega
      · simp at h
    · exact ihRest h

/-- The folders walked so far have rows with the scan's stamp, each under the row of its parent
directory, and so have the files stored so far. -/
structure Walk.Held (scan : Scan) (walk : Walk) : Prop where
  folder : ∀ path id, walk.pathToId path = some id →
    ∃ row ∈ walk.db.folders, row.id = id ∧ row.path = path.text ∧ row.seenAt = scan.started ∧
      (path = scan.root ∧ row.parentId = none ∨ scan.root.length < path.length ∧
        ∃ parentId, walk.pathToId path.dropLast = some parentId ∧ row.parentId = some parentId)
  book : ∀ path ∈ walk.ingested,
    ∃ row ∈ walk.db.books, row.path = path.text ∧ row.seenAt = scan.started ∧
      walk.pathToId path.dropLast = some row.folderId

theorem Walk.Held.id_eq {walk : Walk} (h : walk.Held scan) {first second : OsPath} {id other : ℕ}
    (hfirst : walk.pathToId first = some id) (hsecond : walk.pathToId second = some other)
    (hpath : first.text = second.text) : id = other := by
  obtain ⟨row, hrow, rfl, hrowPath, -⟩ := h.folder first id hfirst
  obtain ⟨same, hsame, rfl, hsamePath, -⟩ := h.folder second other hsecond
  rw [Db.folder_eq_of_path hrow hsame (by rw [hrowPath, hsamePath, hpath])]

theorem Walk.Held.pathToId_update {walk : Walk} (h : walk.Held scan) {stored : Db} {path : OsPath}
    {row : FolderRow} (hstored : FolderStored walk.db stored row) (hpath : row.path = path.text)
    {other : OsPath} {id : ℕ} (hother : walk.pathToId other = some id) :
    Function.update walk.pathToId path (some row.id) other = some id := by
  by_cases hsame : other = path
  · subst hsame
    obtain ⟨old, hold, rfl, holdPath, -⟩ := h.folder other id hother
    rw [Function.update_self, hstored.id_eq old hold (holdPath.trans hpath.symm)]
  · rw [Function.update_of_ne hsame, hother]

theorem OsPath.length_text (path : OsPath) : path.text.length = path.length := by
  rw [OsPath.text, List.length_map]

/-- The parent that a stored folder has is the one of every path that renders alike. -/
theorem Walk.Held.exists_parent {walk : Walk} (h : walk.Held scan) {dir path : OsPath}
    {name : OsName} {parentId : ℕ} (hparent : walk.pathToId dir = some parentId)
    (hlength : scan.root.length < (dir ++ [name]).length)
    (hpath : path.text = (dir ++ [name]).text)
    (hwalked : path = dir ++ [name] ∨ ∃ id, walk.pathToId path = some id) :
    scan.root.length < path.length ∧ walk.pathToId path.dropLast = some parentId := by
  rcases hwalked with rfl | ⟨id, hid⟩
  · rw [List.dropLast_concat]
    exact ⟨hlength, hparent⟩
  · rw [← OsPath.length_text (dir ++ [name]), ← hpath, OsPath.length_text] at hlength
    refine ⟨hlength, ?_⟩
    obtain ⟨row, -, -, -, -, hroot | ⟨-, other, hother, -⟩⟩ := h.folder path id hid
    · rw [hroot.1] at hlength
      exact absurd hlength (Nat.lt_irrefl _)
    · have hdir : OsPath.text path.dropLast = dir.text := by
        rw [OsPath.text_dropLast, hpath, OsPath.text_snoc_dropLast]
      rw [hother, h.id_eq hother hparent hdir]

theorem Walk.Held.folder_stored {walk : Walk} (h : walk.Held scan) {stored : Db} {dir : OsPath}
    {name : OsName} {info : FolderInfo} {parentId id : ℕ} {coverVersion : Option (List Char)}
    (hlength : scan.root.length < (dir ++ [name]).length)
    (hparent : walk.pathToId dir = some parentId)
    (hstored : FolderStored walk.db stored (folderRow xxh3 (dir ++ [name]) (some parentId) none
      scan.started info id coverVersion))
    {path : OsPath} {other : ℕ}
    (hpath : Function.update walk.pathToId (dir ++ [name]) (some id) path = some other) :
    ∃ row ∈ stored.folders, row.id = other ∧ row.path = path.text ∧ row.seenAt = scan.started ∧
      (path = scan.root ∧ row.parentId = none ∨ scan.root.length < path.length ∧
        ∃ target, Function.update walk.pathToId (dir ++ [name]) (some id) path.dropLast =
          some target ∧ row.parentId = some target) := by
  have hwalked : path = dir ++ [name] ∧ other = id ∨ walk.pathToId path = some other := by
    by_cases hsame : path = dir ++ [name]
    · subst hsame
      rw [Function.update_self] at hpath
      exact .inl ⟨rfl, (Option.some.inj hpath).symm⟩
    · rw [Function.update_of_ne hsame] at hpath
      exact .inr hpath
  by_cases htext : path.text = (dir ++ [name]).text
  · have hother : id = other := by
      rcases hwalked with ⟨-, rfl⟩ | hbefore
      · rfl
      · obtain ⟨old, hold, rfl, holdPath, -⟩ := h.folder path other hbefore
        exact (hstored.id_eq old hold (holdPath.trans htext)).symm
    obtain ⟨hbelow, hdir⟩ := h.exists_parent hparent hlength htext
      (hwalked.imp (fun hnew ↦ hnew.1) fun hbefore ↦ ⟨other, hbefore⟩)
    exact ⟨_, (hstored.mem_iff _).mpr (.inl rfl), hother, htext.symm, rfl,
      .inr ⟨hbelow, parentId, h.pathToId_update hstored rfl hdir, rfl⟩⟩
  · have hbefore : walk.pathToId path = some other := by
      apply hwalked.resolve_left
      intro hnew
      exact htext (by rw [hnew.1])
    obtain ⟨row, hrow, hid, hrowPath, hseenAt, hrowParent⟩ := h.folder path other hbefore
    have hne : row.path ≠ (dir ++ [name]).text := by
      rw [hrowPath]
      exact htext
    refine ⟨row, (hstored.mem_iff row).mpr (.inr ⟨hrow, hne⟩), hid, hrowPath, hseenAt, ?_⟩
    apply hrowParent.imp_right
    intro hbelow
    obtain ⟨hbelow, target, htarget, hrowTarget⟩ := hbelow
    exact ⟨hbelow, target, h.pathToId_update hstored rfl htarget, hrowTarget⟩

/-- A book stored below a folder that was walked has its row, and the others keep theirs. -/
theorem Walk.Held.book_stored {walk : Walk} (h : walk.Held scan) {stored : Db} {dir : OsPath}
    {name : OsName} {info : FileInfo} {folderId size : ℕ} {row : BookRow}
    (hparent : walk.pathToId dir = some folderId)
    (hstores : Stores walk.db (dir ++ [name]) name folderId scan.started info size row)
    (hstored : BookStored walk.db stored row) {path : OsPath}
    (hpath : path ∈ (dir ++ [name]) :: walk.ingested) :
    ∃ row ∈ stored.books, row.path = path.text ∧ row.seenAt = scan.started ∧
      walk.pathToId path.dropLast = some row.folderId := by
  by_cases htext : path.text = (dir ++ [name]).text
  · refine ⟨row, (hstored.mem_iff row).mpr (.inl rfl), hstores.path_eq.trans htext.symm,
      hstores.seenAt_eq, ?_⟩
    rw [hstores.folderId_eq]
    rcases List.mem_cons.mp hpath with rfl | hbefore
    · rw [List.dropLast_concat]
      exact hparent
    · obtain ⟨old, -, -, -, hold⟩ := h.book path hbefore
      have hdir : OsPath.text path.dropLast = dir.text := by
        rw [OsPath.text_dropLast, htext, OsPath.text_snoc_dropLast]
      rw [← h.id_eq hold hparent hdir]
      exact hold
  · have hbefore : path ∈ walk.ingested := by
      apply (List.mem_cons.mp hpath).resolve_left
      intro hsame
      exact htext (by rw [hsame])
    obtain ⟨old, hold, holdPath, holdRow⟩ := h.book path hbefore
    refine ⟨old, (hstored.mem_iff old).mpr (.inr ⟨hold, ?_⟩), holdPath, holdRow⟩
    rw [holdPath, hstores.path_eq]
    exact htext

theorem Walk.Held.step {walk next : Walk} (h : walk.Held scan)
    (hstep : WalkStep xxh3 scan.started scan.entries walk next) : next.Held scan := by
  cases hstep with
  | orphan path => exact ⟨h.folder, h.book⟩
  | counted => exact ⟨h.folder, h.book⟩
  | folder dir name info parentId id stored coverVersion hfolder hparent hstored =>
    have hlength := Listing.length_lt_of_mem_folders hfolder
    refine ⟨fun path other hpath ↦ h.folder_stored hlength hparent hstored hpath, ?_⟩
    intro path hpath
    obtain ⟨row, hrow, hrowPath, hseenAt, hfolderId⟩ := h.book path hpath
    refine ⟨row, ?_, hrowPath, hseenAt, h.pathToId_update hstored rfl hfolderId⟩
    change row ∈ stored.books
    rw [hstored.books_eq]
    exact hrow
  | book dir name info folderId size stored row hfile hparent hsize hmax hstores hstored =>
    refine ⟨?_, fun path hpath ↦ h.book_stored hparent hstores hstored hpath⟩
    intro path id hpath
    obtain ⟨folder, hfolder, hfolderRow⟩ := h.folder path id hpath
    refine ⟨folder, ?_, hfolderRow⟩
    change folder ∈ stored.folders
    rw [hstored.folders_eq]
    exact hfolder

theorem Scan.held_enter {walk : Walk} (h : scan.enter xxh3 db = some walk) : walk.Held scan := by
  obtain ⟨id, coverVersion, hstored, -, hpaths, -, hingested⟩ := Scan.enter_spec h
  constructor
  · intro path other hpath
    rw [hpaths] at hpath
    by_cases hroot : path = scan.root
    · subst hroot
      rw [Function.update_self] at hpath
      exact ⟨_, (hstored.mem_iff _).mpr (.inl rfl), Option.some.inj hpath, rfl, rfl,
        .inl ⟨rfl, rfl⟩⟩
    · simp [Function.update_of_ne hroot] at hpath
  · simp [hingested]

/-! ## The walk reaches every entry -/

/-- What the walk needs to know of the database to store the next folder. -/
structure Walk.Ready (xxh3 : List UInt8 → UInt64) (scan : Scan) (db : Db) (walk : Walk) : Prop where
  held : walk.Held scan
  slug_eq : ∀ row ∈ walk.db.folders, row.slug = slugForPath xxh3 row.path
  path_mem : ∀ row ∈ walk.db.folders, row.path ∈ scan.folderPaths db

theorem Scan.ready_enter (hslug : ∀ row ∈ db.folders, row.slug = slugForPath xxh3 row.path)
    {walk : Walk} (h : scan.enter xxh3 db = some walk) : walk.Ready xxh3 scan db := by
  obtain ⟨id, coverVersion, hstored, -⟩ := Scan.enter_spec h
  refine ⟨Scan.held_enter h, ?_, ?_⟩
  · intro row hrow
    rcases (hstored.mem_iff row).mp hrow with rfl | ⟨hold, -⟩
    · rfl
    · exact hslug row hold
  · intro row hrow
    rcases (hstored.mem_iff row).mp hrow with rfl | ⟨hold, -⟩
    · exact List.mem_append_right _ List.mem_cons_self
    · exact List.mem_append_left _ (List.mem_map_of_mem hold)

theorem Walk.Ready.step {walk next : Walk} (h : walk.Ready xxh3 scan db)
    (hstep : WalkStep xxh3 scan.started scan.entries walk next) : next.Ready xxh3 scan db := by
  have hheld := h.held.step hstep
  cases hstep with
  | orphan path => exact ⟨hheld, h.slug_eq, h.path_mem⟩
  | counted => exact ⟨hheld, h.slug_eq, h.path_mem⟩
  | folder dir name info parentId id stored coverVersion hfolder hparent hstored =>
    refine ⟨hheld, ?_, ?_⟩
    · intro row hrow
      rcases (hstored.mem_iff row).mp hrow with rfl | ⟨hold, -⟩
      · rfl
      · exact h.slug_eq row hold
    · intro row hrow
      rcases (hstored.mem_iff row).mp hrow with rfl | ⟨hold, -⟩
      · apply List.mem_append_right
        apply List.mem_cons_of_mem
        exact @List.mem_map_of_mem _ _ _ _ (fun entry ↦ entry.1.text) hfolder
      · exact h.path_mem row hold
  | book dir name info folderId size stored row hfile hparent hsize hmax hstores hstored =>
    refine ⟨hheld, ?_, ?_⟩
    · intro other hother
      change other ∈ stored.folders at hother
      rw [hstored.folders_eq] at hother
      exact h.slug_eq other hother
    · intro other hother
      change other ∈ stored.folders at hother
      rw [hstored.folders_eq] at hother
      exact h.path_mem other hother

/-- `next` knows the folders and files that `walk` does. -/
structure Walk.Grows (walk next : Walk) : Prop where
  pathToId : ∀ path, (walk.pathToId path).isSome → (next.pathToId path).isSome
  ingested : walk.ingested ⊆ next.ingested

theorem WalkStep.grows {started : ℕ} {entries : Entries} {walk next : Walk}
    (h : WalkStep xxh3 started entries walk next) : walk.Grows next := by
  cases h with
  | orphan path => exact ⟨fun _ hpath ↦ hpath, List.Subset.refl _⟩
  | counted => exact ⟨fun _ hpath ↦ hpath, List.Subset.refl _⟩
  | folder dir name info parentId id stored coverVersion hfolder hparent hstored =>
    refine ⟨fun path hpath ↦ ?_, List.Subset.refl _⟩
    change (Function.update walk.pathToId (dir ++ [name]) (some id) path).isSome
    by_cases hsame : path = dir ++ [name]
    · rw [hsame, Function.update_self, Option.isSome_some]
    · rw [Function.update_of_ne hsame]
      exact hpath
  | book dir name info folderId size stored row hfile hparent hsize hmax hstores hstored =>
    exact ⟨fun _ hpath ↦ hpath, List.subset_cons_self _ _⟩

theorem WalkSteps.grows {started : ℕ} {entries : Entries} {walk next : Walk}
    (h : WalkSteps xxh3 started entries walk next) : walk.Grows next := by
  apply h.invariant
  · intro middle next hstep hgrows
    exact ⟨fun path hpath ↦ hstep.grows.pathToId path (hgrows.pathToId path hpath),
      List.Subset.trans hgrows.ingested hstep.grows.ingested⟩
  · exact ⟨fun _ hpath ↦ hpath, List.Subset.refl _⟩

theorem WalkSteps.ready {walk next : Walk}
    (hsteps : WalkSteps xxh3 scan.started scan.entries walk next) (h : walk.Ready xxh3 scan db) :
    next.Ready xxh3 scan db :=
  hsteps.invariant (fun _ _ hstep hwalk ↦ hwalk.step hstep) h

/-- A directory whose statements do not fail is stored, and the walk goes on into it. -/
theorem visitFolder_stores (hslugs : scan.SlugsDistinct xxh3 db) {walk : Walk}
    (h : walk.Ready xxh3 scan db) {dir : OsPath} (hdir : (walk.pathToId dir).isSome)
    {name : OsName} {info : FolderInfo} (hfolder : (dir ++ [name], info) ∈ scan.entries.folders)
    (hfault : info.fault = false) :
    (visitFolder xxh3 scan.started walk (dir ++ [name]) info).2 = true ∧
      ((visitFolder xxh3 scan.started walk (dir ++ [name]) info).1.pathToId
        (dir ++ [name])).isSome := by
  obtain ⟨parentId, hparent⟩ := Option.isSome_iff_exists.mp hdir
  obtain ⟨parent, hmem, hid, -⟩ := h.held.folder dir parentId hparent
  have hpath : (dir ++ [name]).text ∈ scan.folderPaths db := by
    apply List.mem_append_right
    apply List.mem_cons_of_mem
    exact @List.mem_map_of_mem _ _ _ _ (fun entry ↦ entry.1.text) hfolder
  have hslug (row : FolderRow) (hrow : row ∈ walk.db.folders) :
      row.path = (dir ++ [name]).text ↔ row.slug = slugForPath xxh3 (dir ++ [name]).text := by
    rw [h.slug_eq row hrow]
    exact ⟨congrArg _, hslugs _ (h.path_mem row hrow) _ hpath⟩
  obtain ⟨stored, id, hstored⟩ := exists_upsertFolder none scan.started hfault
    (show ∀ target ∈ some parentId, ∃ parent ∈ walk.db.folders, parent.id = target by
      simpa using ⟨parent, hmem, hid⟩) hslug
  have hdrop : (dir ++ [name]).dropLast = dir := List.dropLast_concat
  simp [visitFolder, hdrop, hparent, hstored]

theorem visitFile_stores {walk : Walk} (h : walk.Held scan) {dir : OsPath}
    (hdir : (walk.pathToId dir).isSome) {name : OsName} {info : FileInfo}
    (hsupported : isSupported name = true) (hinfo : info.Ingestible) (hfault : info.fault = false) :
    dir ++ [name] ∈ (visitFile scan.started walk (dir ++ [name]) name info).ingested := by
  obtain ⟨folderId, hparent⟩ := Option.isSome_iff_exists.mp hdir
  obtain ⟨folder, hmem, hid, -⟩ := h.folder dir folderId hparent
  have hdrop : (dir ++ [name]).dropLast = dir := List.dropLast_concat
  obtain ⟨stored, hstored⟩ := @exists_upsertBook walk.db (dir ++ [name]) name folderId scan.started
    info hinfo hfault ⟨folder, hmem, hid⟩
  simp [visitFile, hsupported, hdrop, hparent, hstored]

/-- The walk has stored every directory of the listing that it can reach, and every file in them
that can be ingested and whose statements do not fail. -/
structure Listing.Stored (listing : Listing) (dir : OsPath) (walk : Walk) : Prop where
  folders : ∀ entry ∈ listing.folders isSound dir, (walk.pathToId entry.1).isSome
  files : ∀ entry ∈ listing.files isSound dir, entry.2.Ingestible → entry.2.fault = false →
    entry.1 ∈ walk.ingested

section Stored

variable {walk next : Walk} {dir : OsPath} {name : OsName} {children rest : Listing}

theorem Listing.Stored.of_grows {listing : Listing} (h : listing.Stored dir walk)
    (hgrows : walk.Grows next) : listing.Stored dir next where
  folders entry hentry := hgrows.pathToId _ (h.folders entry hentry)
  files entry hentry hinfo hfault := hgrows.ingested (h.files entry hentry hinfo hfault)

theorem Listing.Stored.cons_file {info : FileInfo} (h : rest.Stored dir walk)
    (hfile : isSupported name = true → isHidden name = false → info.Ingestible →
      info.fault = false → dir ++ [name] ∈ walk.ingested) :
    (Listing.file name info rest).Stored dir walk := by
  constructor
  · exact h.folders
  · intro entry hentry hinfo hfault
    rcases List.mem_append.mp hentry with hfirst | hentry
    · split at hfirst
      · next hpasses =>
        obtain rfl := List.mem_singleton.mp hfirst
        simp only [Bool.and_eq_true, Bool.not_eq_true'] at hpasses
        exact hfile hpasses.1 hpasses.2 hinfo hfault
      · simp at hfirst
    · exact h.files entry hentry hinfo hfault

theorem Listing.Stored.cons_dir {info : FolderInfo} (h : rest.Stored dir walk)
    (hfolder : isSound name info = true → (walk.pathToId (dir ++ [name])).isSome ∧
      children.Stored (dir ++ [name]) walk) :
    (Listing.dir name info children rest).Stored dir walk := by
  constructor
  · intro entry hentry
    rcases List.mem_append.mp hentry with hinside | hentry
    · split at hinside
      · next hsound =>
        rcases List.mem_cons.mp hinside with rfl | hinside
        · exact (hfolder hsound).1
        · exact (hfolder hsound).2.folders entry hinside
      · simp at hinside
    · exact h.folders entry hentry
  · intro entry hentry hinfo hfault
    rcases List.mem_append.mp hentry with hinside | hentry
    · split at hinside
      · next hsound => exact (hfolder hsound).2.files entry hinside hinfo hfault
      · simp at hinside
    · exact h.files entry hentry hinfo hfault

end Stored

/-- From a directory that is stored, the walk stores all it can reach. -/
theorem visit_stores (hslugs : scan.SlugsDistinct xxh3 db) {walk : Walk}
    (h : walk.Ready xxh3 scan db) {dir : OsPath} (hdir : (walk.pathToId dir).isSome)
    {listing : Listing} (hfolders : listing.folders isVisible dir ⊆ scan.entries.folders)
    (hfiles : listing.files isVisible dir ⊆ scan.entries.files) :
    listing.Stored dir (visit xxh3 scan.started walk dir listing) := by
  induction listing generalizing walk dir with
  | nil => exact ⟨by simp [Listing.folders], by simp [Listing.files]⟩
  | error rest ih =>
    have hrest := ih h hdir hfolders hfiles
    exact ⟨hrest.folders, hrest.files⟩
  | other name rest ih =>
    have hrest := ih h hdir hfolders hfiles
    exact ⟨hrest.folders, hrest.files⟩
  | file name info rest ih =>
    rw [Listing.files, List.append_subset] at hfiles
    rw [visit]
    by_cases hhidden : isHidden name = true
    · rw [if_pos hhidden]
      apply (ih h hdir hfolders hfiles.2).cons_file
      intro _ hvisible
      rw [hhidden] at hvisible
      exact Bool.noConfusion hvisible
    · rw [if_neg hhidden]
      have hsteps : WalkSteps xxh3 scan.started scan.entries walk
          (visitFile scan.started walk (dir ++ [name]) name info) :=
        visitFile_steps _ _ _ _ (mem_of_file_subset hfiles.1 hhidden)
      apply (ih (hsteps.ready h) (hsteps.grows.pathToId dir hdir) hfolders hfiles.2).cons_file
      intro hsupported _ hinfo hfault
      have hmore : WalkSteps xxh3 scan.started scan.entries _ _ :=
        visit_steps (visitFile scan.started walk (dir ++ [name]) name info) dir rest hfolders
          hfiles.2
      exact hmore.grows.ingested (visitFile_stores h.held hdir hsupported hinfo hfault)
  | dir name info children rest ihChildren ihRest =>
    obtain ⟨hinside, hrestFolders, hrestFiles⟩ := subset_of_dir hfolders hfiles
    by_cases hvisible : isVisible name info = true
    · obtain ⟨hentry, hinFolders, hinFiles⟩ := hinside hvisible
      rw [visit_dir_of_visible hvisible]
      have hdirectory := @visitDir_steps xxh3 scan.started scan.entries walk dir name info children
        hentry hinFolders hinFiles
      apply (ihRest (hdirectory.ready h) (hdirectory.grows.pathToId dir hdir) hrestFolders
        hrestFiles).cons_dir
      intro hsound
      have hfault : info.fault = false := by simpa [isSound, hvisible] using hsound
      obtain ⟨hinto, hfolder⟩ := visitFolder_stores hslugs h hdir hentry hfault
      have hentered := @visitFolder_steps xxh3 scan.started scan.entries walk dir name info
        hentry
      have hinner : WalkSteps xxh3 scan.started scan.entries _ _ :=
        visit_steps (visitFolder xxh3 scan.started walk (dir ++ [name]) info).1 (dir ++ [name])
          children hinFolders hinFiles
      have houter : WalkSteps xxh3 scan.started scan.entries _ _ :=
        visit_steps (visitDir xxh3 scan.started walk (dir ++ [name]) info children) dir rest
          hrestFolders hrestFiles
      rw [visitDir, if_pos hinto] at houter ⊢
      have hchildren := ihChildren (hentered.ready h) hfolder hinFolders hinFiles
      exact ⟨houter.grows.pathToId _ (hinner.grows.pathToId _ hfolder),
        hchildren.of_grows houter.grows⟩
    · rw [visit_dir_of_not_visible hvisible]
      apply (ihRest h hdir hrestFolders hrestFiles).cons_dir
      intro hsound
      simp [isSound, hvisible] at hsound

theorem visitFolder_orphans {started : ℕ} {walk : Walk} {dir : OsPath}
    (hdir : (walk.pathToId dir).isSome) (name : OsName) (info : FolderInfo) :
    (visitFolder xxh3 started walk (dir ++ [name]) info).1.orphans = walk.orphans ∧
      ((visitFolder xxh3 started walk (dir ++ [name]) info).2 = true →
        ((visitFolder xxh3 started walk (dir ++ [name]) info).1.pathToId
          (dir ++ [name])).isSome) := by
  obtain ⟨parentId, hparent⟩ := Option.isSome_iff_exists.mp hdir
  have hdrop : (dir ++ [name]).dropLast = dir := List.dropLast_concat
  unfold visitFolder
  rw [hdrop, hparent]
  split
  · next hnone => simp at hnone
  · split
    · exact ⟨rfl, fun hinto ↦ Bool.noConfusion hinto⟩
    · exact ⟨rfl, fun _ ↦ by simp⟩

theorem visitFile_orphans {started : ℕ} {walk : Walk} {dir : OsPath}
    (hdir : (walk.pathToId dir).isSome) (name : OsName) (info : FileInfo) :
    (visitFile started walk (dir ++ [name]) name info).orphans = walk.orphans := by
  obtain ⟨folderId, hparent⟩ := Option.isSome_iff_exists.mp hdir
  have hdrop : (dir ++ [name]).dropLast = dir := List.dropLast_concat
  unfold visitFile
  rw [hdrop, hparent]
  split
  · split
    · next hnone => simp at hnone
    · split <;> rfl
  · rfl

/-- From a directory that is stored, the walk meets no orphans. -/
theorem visit_orphans {started : ℕ} {entries : Entries} {walk : Walk} {dir : OsPath}
    (hdir : (walk.pathToId dir).isSome) {listing : Listing}
    (hfolders : listing.folders isVisible dir ⊆ entries.folders)
    (hfiles : listing.files isVisible dir ⊆ entries.files) :
    (visit xxh3 started walk dir listing).orphans = walk.orphans := by
  induction listing generalizing walk dir with
  | nil => rfl
  | error rest ih => exact ih hdir hfolders hfiles
  | other name rest ih => exact ih hdir hfolders hfiles
  | file name info rest ih =>
    rw [Listing.files, List.append_subset] at hfiles
    rw [visit]
    split
    · exact ih hdir hfolders hfiles.2
    · next hhidden =>
      have hsteps : WalkSteps xxh3 started entries walk
          (visitFile started walk (dir ++ [name]) name info) :=
        visitFile_steps _ _ _ _ (mem_of_file_subset hfiles.1 hhidden)
      rw [ih (hsteps.grows.pathToId dir hdir) hfolders hfiles.2, visitFile_orphans hdir]
  | dir name info children rest ihChildren ihRest =>
    obtain ⟨hinside, hrestFolders, hrestFiles⟩ := subset_of_dir hfolders hfiles
    by_cases hvisible : isVisible name info = true
    · obtain ⟨hentry, hinFolders, hinFiles⟩ := hinside hvisible
      rw [visit_dir_of_visible hvisible]
      have hdirectory := @visitDir_steps xxh3 started entries walk dir name info children
        hentry hinFolders hinFiles
      rw [ihRest (hdirectory.grows.pathToId dir hdir) hrestFolders hrestFiles, visitDir]
      obtain ⟨horphans, hinto⟩ := @visitFolder_orphans xxh3 started walk dir hdir name info
      split
      · next hentered => rw [ihChildren (hinto hentered) hinFolders hinFiles, horphans]
      · exact horphans
    · rw [visit_dir_of_not_visible hvisible]
      exact ihRest hdir hrestFolders hrestFiles

/-- A folder row that the walk has stored stays, and so do the rows above it. -/
theorem Walk.Held.folder_mem_prune {walk : Walk} (h : walk.Held scan) {row : FolderRow}
    (hrow : row ∈ walk.db.folders) {path : OsPath} (hpath : walk.pathToId path = some row.id) :
    row ∈ (scan.prune walk).db.folders := by
  have hstored {path : OsPath} {id : ℕ} (hpath : walk.pathToId path = some id) :
      ∃ row ∈ walk.db.folders.filter fun row ↦ ¬row.seenAt < scan.started, row.id = id := by
    obtain ⟨row, hrow, hid, -, hseenAt, -⟩ := h.folder path id hpath
    exact ⟨row, List.mem_filter.mpr ⟨hrow, by simp [hseenAt]⟩, hid⟩
  have hmem {row : FolderRow} (hrow : row ∈ walk.db.folders) {path : OsPath}
      (hpath : walk.pathToId path = some row.id) :
      row ∈ walk.db.folders.filter fun row ↦ ¬row.seenAt < scan.started := by
    obtain ⟨other, hother, hid⟩ := hstored hpath
    rw [← Db.folder_eq_of_id (List.mem_filter.mp hother).1 hrow hid]
    exact hother
  apply @mem_settle _ Db.hasParent _ fun row ↦ ∃ path, walk.pathToId path = some row.id
  · intro kept hkept hall row hrow hgood
    obtain ⟨path, hpath⟩ := hgood
    rw [Db.hasParent_iff]
    intro target htarget
    obtain ⟨same, hsame, hid, -, -, hparent⟩ := h.folder path row.id hpath
    rw [← Db.folder_eq_of_id hsame (List.mem_filter.mp hrow).1 hid] at htarget
    rcases hparent with hroot | ⟨-, parentId, hparentPath, hparentId⟩
    · rw [hroot.2] at htarget
      exact absurd htarget (Option.not_mem_none _)
    · rw [hparentId] at htarget
      obtain rfl := Option.mem_some_iff.mp htarget
      obtain ⟨parent, hparent, rfl⟩ := hstored hparentPath
      exact ⟨parent, hall parent hparent ⟨_, hparentPath⟩, rfl⟩
  · exact hmem hrow hpath
  · exact ⟨path, hpath⟩

theorem Walk.Held.book_mem_prune {walk : Walk} (h : walk.Held scan) {row : BookRow}
    (hrow : row ∈ walk.db.books) {path : OsPath} (hpath : path ∈ walk.ingested)
    (htext : row.path = path.text) : row ∈ (scan.prune walk).db.books := by
  obtain ⟨same, hsame, hsamePath, hseenAt, hfolderId⟩ := h.book path hpath
  rw [Db.book_eq_of_path hsame hrow (hsamePath.trans htext.symm)] at hseenAt hfolderId
  obtain ⟨folder, hfolder, hid, -⟩ := h.folder _ _ hfolderId
  have hkept := h.folder_mem_prune hfolder (by rw [hid]; exact hfolderId)
  apply List.mem_filter.mpr
  refine ⟨List.mem_filter.mpr ⟨hrow, by simp [hseenAt]⟩, ?_⟩
  rw [List.any_eq_true]
  exact ⟨folder, hkept, by simpa using hid⟩

/-- The directory has exactly one row, with the stamp given, under the row of its parent
directory. -/
def Db.HoldsFolder (db : Db) (started : ℕ) (path : OsPath) : Prop :=
  ∃ row, (∀ other, other ∈ db.folders ∧ other.path = path.text ↔ other = row) ∧
    row.seenAt = started ∧
    ∃ parent ∈ db.folders, parent.path = OsPath.text path.dropLast ∧ row.parentId = some parent.id

/-- The file has exactly one row, with the stamp given, in the row of its directory. -/
def Db.HoldsBook (db : Db) (started : ℕ) (path : OsPath) : Prop :=
  ∃ row, (∀ other, other ∈ db.books ∧ other.path = path.text ↔ other = row) ∧
    row.seenAt = started ∧
    ∃ folder ∈ db.folders, folder.path = OsPath.text path.dropLast ∧ row.folderId = folder.id

theorem Db.folder_unique {row : FolderRow} (hrow : row ∈ db.folders) {path : PathText}
    (hpath : row.path = path) (other : FolderRow) :
    other ∈ db.folders ∧ other.path = path ↔ other = row := by
  constructor
  · intro hother
    exact Db.folder_eq_of_path hother.1 hrow (hother.2.trans hpath.symm)
  · rintro rfl
    exact ⟨hrow, hpath⟩

theorem Db.book_unique {row : BookRow} (hrow : row ∈ db.books) {path : PathText}
    (hpath : row.path = path) (other : BookRow) :
    other ∈ db.books ∧ other.path = path ↔ other = row := by
  constructor
  · intro hother
    exact Db.book_eq_of_path hother.1 hrow (hother.2.trans hpath.symm)
  · rintro rfl
    exact ⟨hrow, hpath⟩

section Complete

variable {walked walk : Walk}

/-- A stored folder keeps its row, apart from the cover version, to the end of the scan. -/
theorem Walk.Held.exists_folder (h : walked.Held scan) (hrefreshed : Refreshed (scan.prune walked) walk)
    {path : OsPath} {id : ℕ} (hpath : walked.pathToId path = some id) :
    ∃ row ∈ walk.db.folders, row.id = id ∧ row.path = path.text ∧ row.seenAt = scan.started ∧
      (path = scan.root ∧ row.parentId = none ∨ scan.root.length < path.length ∧
        ∃ parentId, walked.pathToId path.dropLast = some parentId ∧
          row.parentId = some parentId) := by
  obtain ⟨row, hrow, hid, hrow'⟩ := h.folder path id hpath
  have hkept := h.folder_mem_prune hrow (by rw [hid]; exact hpath)
  obtain ⟨coverVersion, hrefreshedRow⟩ := hrefreshed.exists_row row hkept
  exact ⟨_, hrefreshedRow, hid, hrow'⟩

theorem Walk.Held.holdsFolder (h : walked.Held scan)
    (hrefreshed : Refreshed (scan.prune walked) walk) {path : OsPath} {id : ℕ}
    (hpath : walked.pathToId path = some id) (hbelow : scan.root.length < path.length) :
    walk.db.HoldsFolder scan.started path := by
  obtain ⟨row, hrow, -, hrowPath, hseenAt, hparent⟩ := h.exists_folder hrefreshed hpath
  obtain ⟨-, parentId, hparentPath, hparentId⟩ := hparent.resolve_left fun hroot ↦ by
    rw [hroot.1] at hbelow
    exact absurd hbelow (Nat.lt_irrefl _)
  obtain ⟨parent, hmem, hid, hparentText, -⟩ := h.exists_folder hrefreshed hparentPath
  exact ⟨row, Db.folder_unique hrow hrowPath, hseenAt, parent, hmem, hparentText, by rw [hid, hparentId]⟩

theorem Walk.Held.holdsBook (h : walked.Held scan)
    (hrefreshed : Refreshed (scan.prune walked) walk) {path : OsPath}
    (hpath : path ∈ walked.ingested) : walk.db.HoldsBook scan.started path := by
  obtain ⟨row, hrow, hrowPath, hseenAt, hfolderId⟩ := h.book path hpath
  have hkept : row ∈ walk.db.books := by
    rw [hrefreshed.books_eq]
    exact h.book_mem_prune hrow hpath hrowPath
  obtain ⟨folder, hmem, hid, hfolderPath, -⟩ := h.exists_folder hrefreshed hfolderId
  exact ⟨row, Db.book_unique hkept hrowPath, hseenAt, folder, hmem, hfolderPath, hid.symm⟩

end Complete

theorem Scan.exists_root {scans : List Scan} (h : Run xxh3 scans db) {walk : Walk}
    (hwalk : scan.complete xxh3 db = some walk) :
    ∃ row ∈ walk.db.folders, row.path = scan.root.text ∧ row.seenAt = scan.started ∧
      row.parentId = none := by
  obtain ⟨walked, hwalked, hrefreshed⟩ := Scan.complete_spec hwalk
  obtain ⟨start, hstart, hsteps⟩ := Scan.walked_spec hwalked
  have hheld := (hsteps.ready (Scan.ready_enter h.slug_eq hstart)).held
  obtain ⟨id, _, -, -, hpaths, -, -⟩ := Scan.enter_spec hstart
  have hroot : (start.pathToId scan.root).isSome := by
    rw [hpaths, Function.update_self, Option.isSome_some]
  obtain ⟨other, hother⟩ := Option.isSome_iff_exists.mp (hsteps.grows.pathToId _ hroot)
  obtain ⟨row, hrow, -, hpath, hseenAt, hparent⟩ := hheld.exists_folder hrefreshed hother
  exact ⟨row, hrow, hpath, hseenAt, (hparent.resolve_right fun hbelow ↦ Nat.lt_irrefl _ hbelow.1).2⟩

/-- **No loss.** Whatever was scanned before and at whatever time, and whichever entries fail: a
scan that returns `Ok` meets no orphans; the root, every directory reached through directories
that did not fail, and every file in them that can be ingested and did not fail, has exactly one
row, with the stamp of the scan, under the row of its parent directory; and no row that the walk
has stored is deleted. -/
theorem no_loss {scans : List Scan} (h : Run xxh3 scans db) (hslugs : scan.SlugsDistinct xxh3 db)
    {walk : Walk} (hwalk : scan.complete xxh3 db = some walk) :
    walk.orphans = [] ∧
    (∃ row, (∀ other, other ∈ walk.db.folders ∧ other.path = scan.root.text ↔ other = row) ∧
      row.seenAt = scan.started ∧ row.parentId = none) ∧
    (∀ entry ∈ scan.listing.folders isSound scan.root,
      walk.db.HoldsFolder scan.started entry.1) ∧
    (∀ entry ∈ scan.listing.files isSound scan.root, entry.2.Ingestible → entry.2.fault = false →
      walk.db.HoldsBook scan.started entry.1) ∧
    ∃ walked, scan.walked xxh3 db = some walked ∧
      (∀ row ∈ walked.db.folders, ∀ path, walked.pathToId path = some row.id →
        ∃ coverVersion, { row with coverVersion := coverVersion } ∈ walk.db.folders) ∧
      ∀ row ∈ walked.db.books, ∀ path ∈ walked.ingested, row.path = path.text →
        row ∈ walk.db.books := by
  obtain ⟨walked, hwalked, hrefreshed⟩ := Scan.complete_spec hwalk
  obtain ⟨start, hstart, hsteps⟩ := Scan.walked_spec hwalked
  have hready := Scan.ready_enter h.slug_eq hstart
  have hheld := (hsteps.ready hready).held
  obtain ⟨id, _, -, -, hpaths, horphans, -⟩ := Scan.enter_spec hstart
  have hroot : start.pathToId scan.root = some id := by rw [hpaths, Function.update_self]
  have hrootSome : (start.pathToId scan.root).isSome := by rw [hroot, Option.isSome_some]
  have hvisit : walked = visit xxh3 scan.started start scan.root scan.listing := by
    rw [Scan.walked, hstart] at hwalked
    exact (Option.some.inj hwalked).symm
  have hstores := visit_stores hslugs hready hrootSome (List.Subset.refl _) (List.Subset.refl _)
  rw [← hvisit] at hstores
  refine ⟨?_, ?_, ?_, ?_, walked, hwalked, ?_, ?_⟩
  · have hnone := @visit_orphans xxh3 scan.started scan.entries start scan.root hrootSome
      scan.listing (List.Subset.refl _) (List.Subset.refl _)
    rw [← hvisit, horphans] at hnone
    exact hrefreshed.orphans_eq.trans hnone
  · obtain ⟨row, hrow, hpath, hseenAt, hparent⟩ := Scan.exists_root h hwalk
    exact ⟨row, Db.folder_unique hrow hpath, hseenAt, hparent⟩
  · intro entry hentry
    obtain ⟨other, hother⟩ := Option.isSome_iff_exists.mp (hstores.folders entry hentry)
    exact hheld.holdsFolder hrefreshed hother (Listing.length_lt_of_mem_folders hentry)
  · intro entry hentry hinfo hfault
    exact hheld.holdsBook hrefreshed (hstores.files entry hentry hinfo hfault)
  · intro row hrow path hpath
    exact hrefreshed.exists_row row (hheld.folder_mem_prune hrow hpath)
  · intro row hrow path hpath htext
    rw [hrefreshed.books_eq]
    exact hheld.book_mem_prune hrow hpath htext

/-- The small library with a folder `b` that cannot be stored. -/
def Listing.faulty : Listing :=
  .dir (ascii "b") { FolderInfo.sample with fault := true }
    (.file (ascii "2.cbz") FileInfo.sample .nil) Listing.sample

/-- The folder `b` fails, and costs nothing outside it. -/
theorem no_loss_faulty :
    ∃ db walk, Run sampleXxh3 [Scan.sample 10 Listing.sample] db ∧
      (Scan.sample 20 Listing.faulty).complete sampleXxh3 db = some walk ∧
      walk.db.books.map BookRow.path = [["lib".toList, "a".toList, "1.cbz".toList]] ∧
      walk.orphans = [] ∧ walk.db.HoldsFolder 20 [ascii "lib", ascii "a"] ∧
      walk.db.HoldsBook 20 [ascii "lib", ascii "a", ascii "1.cbz"] := by
  have hrows : ((Scan.sample 10 Listing.sample).complete sampleXxh3 Db.empty).bind
      (fun before ↦ ((Scan.sample 20 Listing.faulty).complete sampleXxh3 before.db).map
        fun walk ↦ (before.db.folders.map FolderRow.path, walk.db.books.map BookRow.path)) =
        some ([["lib".toList], ["lib".toList, "a".toList]],
          [["lib".toList, "a".toList, "1.cbz".toList]]) := by decide
  obtain ⟨before, hbefore, hafter⟩ := Option.bind_eq_some_iff.mp hrows
  obtain ⟨walk, hwalk, hpaths⟩ := Option.map_eq_some_iff.mp hafter
  obtain ⟨hfolders, hbooks⟩ := Prod.mk.inj hpaths
  have hslugs : (Scan.sample 20 Listing.faulty).SlugsDistinct sampleXxh3 before.db := by
    rw [Scan.SlugsDistinct, Scan.folderPaths, hfolders]
    decide
  have hloss := no_loss (Run.empty.complete hbefore) hslugs hwalk
  have hinfo : FileInfo.sample.Ingestible :=
    ⟨⟨100, rfl, by decide⟩, rfl, rfl, 3, rfl, by decide, by decide⟩
  exact ⟨before.db, walk, Run.empty.complete hbefore, hwalk, hbooks, hloss.1,
    hloss.2.2.1 ([ascii "lib", ascii "a"], FolderInfo.sample) (by decide),
    hloss.2.2.2.1 ([ascii "lib", ascii "a", ascii "1.cbz"], FileInfo.sample) (by decide) hinfo rfl⟩

end ComicStream.Catalog
