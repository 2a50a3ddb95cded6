import ComicStream.Catalog.Upsert
import Mathlib.Logic.Relation

/-!
# What a step of the walk can do

Every step of a walk leaves an orphan behind, counts a file it does not store, or
stores the row of a folder or of a file under the row of its parent directory.
An invariant of these four is an invariant of the walk, whatever the listing and
whichever upserts fail. Pruning and the cover versions are described likewise.
-/

namespace ComicStream.Catalog

open Rust Archive Table

/-- The directories below `dir` that are reached through directories that `passes` lets through,
with their paths. -/
def Listing.folders (passes : OsName → FolderInfo → Bool) (dir : OsPath) :
    Listing → List (OsPath × FolderInfo)
  | .nil => []
  | .error rest => rest.folders passes dir
  | .other _ rest => rest.folders passes dir
  | .file _ _ rest => rest.folders passes dir
  | .dir name info children rest =>
    (if passes name info then
      (dir ++ [name], info) :: children.folders passes (dir ++ [name])
    else []) ++ rest.folders passes dir

/-- The files with an archive's extension and no leading dot, in `dir` and in the directories that
`passes` lets through, with their paths. -/
def Listing.files (passes : OsName → FolderInfo → Bool) (dir : OsPath) :
    Listing → List (OsPath × FileInfo)
  | .nil => []
  | .error rest => rest.files passes dir
  | .other _ rest => rest.files passes dir
  | .file name info rest =>
    (if isSupported name && !isHidden name then [(dir ++ [name], info)] else []) ++
      rest.files passes dir
  | .dir name info children rest =>
    (if passes name info then children.files passes (dir ++ [name]) else []) ++
      rest.files passes dir

/-- A directory that is neither ignored nor hidden. -/
def isVisible (name : OsName) (_ : FolderInfo) : Bool := !(isIgnored name || isHidden name)

theorem mem_of_file_subset {dir : OsPath} {name : OsName} {info : FileInfo}
    {files : List (OsPath × FileInfo)}
    (h : (if isSupported name && !isHidden name then [(dir ++ [name], info)] else []) ⊆ files)
    (hhidden : ¬isHidden name = true) (hsupported : isSupported name = true) :
    (dir ++ [name], info) ∈ files :=
  h (by simp [hsupported, hhidden])

/-- A directory that the walk enters: visible, and its upsert does not fail. -/
def isSound (name : OsName) (info : FolderInfo) : Bool := isVisible name info && !info.fault

/-- The directories and files that a walk can meet. -/
structure Entries where
  folders : List (OsPath × FolderInfo)
  files : List (OsPath × FileInfo)

/-- What a scan can meet: the visible directories, and the archives in them. -/
def Scan.entries (scan : Scan) : Entries where
  folders := scan.listing.folders isVisible scan.root
  files := scan.listing.files isVisible scan.root

/-- A step of a walk over the entries given. -/
inductive WalkStep (xxh3 : List UInt8 → UInt64) (started : ℕ) (entries : Entries) :
    Walk → Walk → Prop
  | orphan (walk : Walk) (path : OsPath) (hparent : walk.pathToId path.dropLast = none) :
      WalkStep xxh3 started entries walk { walk with orphans := path :: walk.orphans }
  | counted (walk : Walk) :
      WalkStep xxh3 started entries walk { walk with bookCount := walk.bookCount + 1 }
  | folder (walk : Walk) (dir : OsPath) (name : OsName) (info : FolderInfo) (parentId id : ℕ)
      (db : Db) (coverVersion : Option (List Char)) (hfolder : (dir ++ [name], info) ∈ entries.folders)
      (hparent : walk.pathToId dir = some parentId)
      (hstored : FolderStored walk.db db
        (folderRow xxh3 (dir ++ [name]) (some parentId) none started info id coverVersion)) :
      WalkStep xxh3 started entries walk
        { walk.execute db with
          pathToId := Function.update walk.pathToId (dir ++ [name]) (some id)
          folderCount := walk.folderCount + 1 }
  | book (walk : Walk) (dir : OsPath) (name : OsName) (info : FileInfo) (folderId size : ℕ)
      (db : Db) (row : BookRow) (hfile : (dir ++ [name], info) ∈ entries.files)
      (hparent : walk.pathToId dir = some folderId) (hsize : info.size = some size)
      (hmax : size ≤ maxArchiveBytes)
      (hstores : Stores walk.db (dir ++ [name]) name folderId started info size row)
      (hstored : BookStored walk.db db row) :
      WalkStep xxh3 started entries walk
        { walk.execute db with
          bookCount := walk.bookCount + 1
          ingested := (dir ++ [name]) :: walk.ingested }

variable {xxh3 : List UInt8 → UInt64} {started : ℕ} {entries : Entries}

/-- Any number of steps. -/
abbrev WalkSteps (xxh3 : List UInt8 → UInt64) (started : ℕ) (entries : Entries) :
    Walk → Walk → Prop :=
  Relation.ReflTransGen (WalkStep xxh3 started entries)

theorem visitFolder_steps (walk : Walk) (dir : OsPath) (name : OsName) (info : FolderInfo)
    (hfolder : (dir ++ [name], info) ∈ entries.folders) :
    WalkSteps xxh3 started entries walk (visitFolder xxh3 started walk (dir ++ [name]) info).1 := by
  have hdir : (dir ++ [name]).dropLast = dir := List.dropLast_concat
  unfold visitFolder
  split
  · next hparent => exact .single (.orphan walk _ hparent)
  · next parentId hparent =>
    rw [hdir] at hparent
    split
    · exact .refl
    · next db id hupsert =>
      obtain ⟨coverVersion, hstored⟩ := upsertFolder_spec hupsert
      exact .single (.folder walk dir name info parentId id db coverVersion hfolder hparent
        hstored)

theorem visitFile_steps (walk : Walk) (dir : OsPath) (name : OsName) (info : FileInfo)
    (hfile : isSupported name = true → (dir ++ [name], info) ∈ entries.files) :
    WalkSteps xxh3 started entries walk (visitFile started walk (dir ++ [name]) name info) := by
  have hdir : (dir ++ [name]).dropLast = dir := List.dropLast_concat
  unfold visitFile
  split
  · next hsupported =>
    split
    · next hparent => exact .single (.orphan walk _ hparent)
    · next folderId hparent =>
      rw [hdir] at hparent
      split
      · exact .refl
      · exact .single (.counted walk)
      · next db hupsert =>
        obtain ⟨size, row, hsize, hmax, -, hstores, hstored⟩ := upsertBook_spec hupsert
        exact .single (.book walk dir name info folderId size db row (hfile hsupported) hparent
          hsize hmax hstores hstored)
  · exact .refl

theorem visit_dir_of_not_visible {walk : Walk} {dir : OsPath} {name : OsName} {info : FolderInfo}
    {children rest : Listing} (h : ¬isVisible name info = true) :
    visit xxh3 started walk dir (.dir name info children rest) =
      visit xxh3 started walk dir rest := by
  rw [isVisible, Bool.not_eq_true', Bool.not_eq_false] at h
  rw [visit, if_pos h]

/-- The walk up to the end of a visible directory. -/
def visitDir (xxh3 : List UInt8 → UInt64) (started : ℕ) (walk : Walk) (path : OsPath)
    (info : FolderInfo) (children : Listing) : Walk :=
  if (visitFolder xxh3 started walk path info).2 then
    visit xxh3 started (visitFolder xxh3 started walk path info).1 path children
  else (visitFolder xxh3 started walk path info).1

theorem visit_dir_of_visible {walk : Walk} {dir : OsPath} {name : OsName} {info : FolderInfo}
    {children rest : Listing} (h : isVisible name info = true) :
    visit xxh3 started walk dir (.dir name info children rest) =
      visit xxh3 started (visitDir xxh3 started walk (dir ++ [name]) info children) dir rest := by
  rw [isVisible, Bool.not_eq_true', ← Bool.not_eq_true] at h
  rw [visit, if_neg h, visitDir]

theorem subset_of_dir {dir : OsPath} {name : OsName} {info : FolderInfo} {children rest : Listing}
    (hfolders : (Listing.dir name info children rest).folders isVisible dir ⊆ entries.folders)
    (hfiles : (Listing.dir name info children rest).files isVisible dir ⊆ entries.files) :
    (isVisible name info = true → (dir ++ [name], info) ∈ entries.folders ∧
      children.folders isVisible (dir ++ [name]) ⊆ entries.folders ∧
      children.files isVisible (dir ++ [name]) ⊆ entries.files) ∧
    rest.folders isVisible dir ⊆ entries.folders ∧ rest.files isVisible dir ⊆ entries.files := by
  rw [Listing.folders, List.append_subset] at hfolders
  rw [Listing.files, List.append_subset] at hfiles
  refine ⟨fun hvisible ↦ ?_, hfolders.2, hfiles.2⟩
  rw [if_pos hvisible] at hfolders hfiles
  obtain ⟨hentry, hchildren⟩ := List.cons_subset.mp hfolders.1
  exact ⟨hentry, hchildren, hfiles.1⟩

/-- The walk over a listing takes steps only. -/
theorem visit_steps (walk : Walk) (dir : OsPath) (listing : Listing)
    (hfolders : listing.folders isVisible dir ⊆ entries.folders)
    (hfiles : listing.files isVisible dir ⊆ entries.files) :
    WalkSteps xxh3 started entries walk (visit xxh3 started walk dir listing) := by
  induction listing generalizing walk dir with
  | nil => exact .refl
  | error rest ih => exact ih walk dir hfolders hfiles
  | other name rest ih => exact ih walk dir hfolders hfiles
  | file name info rest ih =>
    rw [Listing.files, List.append_subset] at hfiles
    rw [visit]
    refine Relation.ReflTransGen.trans ?_ (ih _ dir hfolders hfiles.2)
    split
    · exact .refl
    · next hhidden => exact visitFile_steps _ _ _ _ (mem_of_file_subset hfiles.1 hhidden)
  | dir name info children rest ihChildren ihRest =>
    obtain ⟨hinside, hrestFolders, hrestFiles⟩ := subset_of_dir hfolders hfiles
    by_cases hvisible : isVisible name info = true
    · obtain ⟨hentry, hinFolders, hinFiles⟩ := hinside hvisible
      rw [visit_dir_of_visible hvisible]
      refine Relation.ReflTransGen.trans ?_ (ihRest _ dir hrestFolders hrestFiles)
      have hfolder := @visitFolder_steps xxh3 started entries walk dir name info hentry
      rw [visitDir]
      split
      · exact hfolder.trans (ihChildren _ _ hinFolders hinFiles)
      · exact hfolder
    · rw [visit_dir_of_not_visible hvisible]
      exact ihRest walk dir hrestFolders hrestFiles

theorem visit_invariant {invariant : Walk → Prop} {files : List (OsPath × FileInfo)}
    (hfolder : ∀ walk path info, invariant walk →
      invariant (visitFolder xxh3 started walk path info).1)
    (hfile : ∀ walk path name info, (isSupported name = true → (path, info) ∈ files) →
      invariant walk → invariant (visitFile started walk path name info))
    {walk : Walk} {dir : OsPath} {listing : Listing}
    (hfiles : listing.files isVisible dir ⊆ files) (hwalk : invariant walk) :
    invariant (visit xxh3 started walk dir listing) := by
  induction listing generalizing walk dir with
  | nil => exact hwalk
  | error rest ih => exact ih hfiles hwalk
  | other name rest ih => exact ih hfiles hwalk
  | file name info rest ih =>
    rw [Listing.files, List.append_subset] at hfiles
    rw [visit]
    apply ih hfiles.2
    split
    · exact hwalk
    · next hhidden => exact hfile _ _ _ _ (mem_of_file_subset hfiles.1 hhidden) hwalk
  | dir name info children rest ihChildren ihRest =>
    rw [Listing.files, List.append_subset] at hfiles
    by_cases hvisible : isVisible name info = true
    · rw [visit_dir_of_visible hvisible]
      rw [if_pos hvisible] at hfiles
      apply ihRest hfiles.2
      have hentered := hfolder walk (dir ++ [name]) info hwalk
      rw [visitDir]
      split
      · exact ihChildren hfiles.1 hentered
      · exact hentered
    · rw [visit_dir_of_not_visible hvisible]
      exact ihRest hfiles.2 hwalk

theorem visitDir_steps (walk : Walk) {dir : OsPath} {name : OsName} {info : FolderInfo}
    {children : Listing} (hfolder : (dir ++ [name], info) ∈ entries.folders)
    (hfolders : children.folders isVisible (dir ++ [name]) ⊆ entries.folders)
    (hfiles : children.files isVisible (dir ++ [name]) ⊆ entries.files) :
    WalkSteps xxh3 started entries walk
      (visitDir xxh3 started walk (dir ++ [name]) info children) := by
  have hentered := @visitFolder_steps xxh3 started entries walk dir name info hfolder
  rw [visitDir]
  split
  · exact hentered.trans (visit_steps _ _ children hfolders hfiles)
  · exact hentered

/-- An invariant of every step is an invariant of the walk. -/
theorem WalkSteps.invariant {invariant : Walk → Prop} {walk next : Walk}
    (h : WalkSteps xxh3 started entries walk next)
    (hstep : ∀ walk next, WalkStep xxh3 started entries walk next → invariant walk → invariant next)
    (hwalk : invariant walk) : invariant next := by
  induction h with
  | refl => exact hwalk
  | tail _ hlast ih => exact hstep _ _ hlast ih

theorem Scan.enter_spec {scan : Scan} {db : Db} {walk : Walk} (h : scan.enter xxh3 db = some walk) :
    ∃ id coverVersion, FolderStored db walk.db
        (folderRow xxh3 scan.root none scan.name scan.started scan.rootInfo id coverVersion) ∧
      walk.past = [db] ∧
      walk.pathToId = Function.update (fun _ ↦ none) scan.root (some id) ∧
      walk.orphans = [] ∧ walk.ingested = [] := by
  obtain ⟨⟨next, id⟩, hupsert, hwalk⟩ := Option.map_eq_some_iff.mp h
  obtain ⟨coverVersion, hstored⟩ := upsertFolder_spec hupsert
  rw [← hwalk]
  exact ⟨id, coverVersion, hstored, rfl, rfl, rfl, rfl⟩

theorem Scan.walked_spec {scan : Scan} {db : Db} {walk : Walk}
    (h : scan.walked xxh3 db = some walk) :
    ∃ start, scan.enter xxh3 db = some start ∧
      WalkSteps xxh3 scan.started scan.entries start walk := by
  obtain ⟨start, hstart, hwalk⟩ := Option.map_eq_some_iff.mp h
  refine ⟨start, hstart, ?_⟩
  rw [← hwalk]
  exact visit_steps start scan.root scan.listing (List.Subset.refl _) (List.Subset.refl _)

theorem Db.mem_setCoverVersion {db : Db} {id : ℕ} {version : Option (List Char)} {row : FolderRow}
    (hrow : row ∈ (db.setCoverVersion id version).folders) :
    ∃ old ∈ db.folders, ∃ coverVersion, row = { old with coverVersion := coverVersion } := by
  rcases mem_updateWhere.mp hrow with ⟨old, hold, -, rfl⟩ | ⟨hrow, -⟩
  · exact ⟨old, hold, version, rfl⟩
  · exact ⟨row, hrow, row.coverVersion, rfl⟩

theorem Db.exists_setCoverVersion {db : Db} {id : ℕ} {version : Option (List Char)}
    {row : FolderRow} (hrow : row ∈ db.folders) :
    ∃ coverVersion,
      { row with coverVersion := coverVersion } ∈ (db.setCoverVersion id version).folders := by
  by_cases hid : row.id = id
  · exact ⟨version, mem_updateWhere.mpr (.inl ⟨row, hrow, hid, rfl⟩)⟩
  · exact ⟨row.coverVersion, mem_updateWhere.mpr (.inr ⟨hrow, hid⟩)⟩

theorem refreshCoverVersions_invariant {coverMtime : PathText → Option ℕ}
    {invariant : Walk → Prop} {walk : Walk}
    (hstep : ∀ walk id version, invariant walk →
      invariant (walk.execute (walk.db.setCoverVersion id version)))
    (hwalk : invariant walk) : invariant (refreshCoverVersions coverMtime walk) := by
  unfold refreshCoverVersions
  generalize walk.db.folders = rows
  induction rows generalizing walk with
  | nil => exact hwalk
  | cons row rest ih =>
    rw [List.foldl_cons]
    apply ih
    unfold refreshCoverVersion
    split
    · exact hstep _ _ _ hwalk
    · exact hwalk

/-- `next` is `walk` with other cover versions. -/
structure Refreshed (walk next : Walk) : Prop where
  folders : ∀ row ∈ next.db.folders, ∃ old ∈ walk.db.folders, ∃ coverVersion,
    row = { old with coverVersion := coverVersion }
  exists_row : ∀ old ∈ walk.db.folders, ∃ coverVersion,
    { old with coverVersion := coverVersion } ∈ next.db.folders
  books_eq : next.db.books = walk.db.books
  pathToId_eq : next.pathToId = walk.pathToId
  orphans_eq : next.orphans = walk.orphans
  ingested_eq : next.ingested = walk.ingested

theorem refreshCoverVersions_spec (coverMtime : PathText → Option ℕ) (walk : Walk) :
    Refreshed walk (refreshCoverVersions coverMtime walk) := by
  apply refreshCoverVersions_invariant
  · intro next id version hnext
    refine ⟨?_, ?_, hnext.books_eq, hnext.pathToId_eq, hnext.orphans_eq, hnext.ingested_eq⟩
    · intro row hrow
      obtain ⟨middle, hmiddle, coverVersion, rfl⟩ := Db.mem_setCoverVersion hrow
      obtain ⟨old, hold, _, rfl⟩ := hnext.folders middle hmiddle
      exact ⟨old, hold, coverVersion, rfl⟩
    · intro old hold
      obtain ⟨_, hmiddle⟩ := hnext.exists_row old hold
      obtain ⟨coverVersion, hrow⟩ := @Db.exists_setCoverVersion next.db id version _ hmiddle
      exact ⟨coverVersion, hrow⟩
  · exact ⟨fun row hrow ↦ ⟨row, hrow, row.coverVersion, rfl⟩,
      fun row hrow ↦ ⟨row.coverVersion, hrow⟩, rfl, rfl, rfl, rfl⟩

/-- A scan that returns `Ok` is a walk, the deletions and new cover versions. -/
theorem Scan.complete_spec {scan : Scan} {db : Db} {walk : Walk}
    (h : scan.complete xxh3 db = some walk) :
    ∃ walked, scan.walked xxh3 db = some walked ∧ Refreshed (scan.prune walked) walk := by
  obtain ⟨walked, hwalked, rfl⟩ := Option.map_eq_some_iff.mp h
  exact ⟨walked, hwalked, refreshCoverVersions_spec _ _⟩

/-- What holds before a scan, of every state of its walk, and after each later statement if before
it, holds of every state the scan can be stopped in, and of the last. -/
theorem Scan.states_induction {scan : Scan} {db next : Db} {stateOk : Db → Prop}
    {walkOk : Walk → Prop} (hdb : stateOk db)
    (henter : ∀ walk, scan.enter xxh3 db = some walk → walkOk walk)
    (hstep : ∀ walk next, WalkStep xxh3 scan.started scan.entries walk next → walkOk walk →
      walkOk next)
    (hwalk : ∀ walk, walkOk walk → ∀ state ∈ walk.db :: walk.past, stateOk state)
    (hbooks : ∀ state, stateOk state → stateOk (state.deleteBooks scan.started))
    (hfolders : ∀ state, stateOk state → stateOk (state.deleteFolders scan.started))
    (hcover : ∀ state id version, stateOk state → stateOk (state.setCoverVersion id version))
    (hnext : next ∈ scan.states xxh3 db) : stateOk next := by
  have hexecute (walk : Walk) (state : Db) (hstates : ∀ state ∈ walk.db :: walk.past, stateOk state)
      (hstate : stateOk state) :
      ∀ other ∈ (walk.execute state).db :: (walk.execute state).past, stateOk other := by
    intro other hother
    rcases List.mem_cons.mp hother with rfl | hother
    · exact hstate
    · exact hstates other hother
  unfold Scan.states at hnext
  split at hnext
  · next walk hcomplete =>
    obtain ⟨walked, hwalked, rfl⟩ := Option.map_eq_some_iff.mp hcomplete
    obtain ⟨start, hstart, hsteps⟩ := Scan.walked_spec hwalked
    have hstates := hwalk walked (hsteps.invariant hstep (henter start hstart))
    have hdeleted := hbooks _ (hstates _ List.mem_cons_self)
    have hpruned : ∀ state ∈ (scan.prune walked).db :: (scan.prune walked).past, stateOk state :=
      hexecute _ _ (hexecute _ _ hstates hdeleted) (hfolders _ hdeleted)
    have hrefreshed := @refreshCoverVersions_invariant scan.coverMtime
      (fun walk ↦ ∀ state ∈ walk.db :: walk.past, stateOk state) _
      (fun walk id version hwalk ↦
        hexecute walk _ hwalk (hcover _ id version (hwalk _ List.mem_cons_self))) hpruned
    exact hrefreshed next hnext
  · rw [List.mem_singleton.mp hnext]
    exact hdb

theorem FolderStored.forall_rows {db next : Db} {row : FolderRow} {folderOk : FolderRow → Prop}
    {bookOk : BookRow → Prop} (hstored : FolderStored db next row)
    (hdb : (∀ row ∈ db.folders, folderOk row) ∧ ∀ row ∈ db.books, bookOk row) (hrow : folderOk row) :
    (∀ row ∈ next.folders, folderOk row) ∧ ∀ row ∈ next.books, bookOk row := by
  rw [hstored.books_eq]
  refine ⟨fun other hother ↦ ?_, hdb.2⟩
  rcases (hstored.mem_iff other).mp hother with rfl | ⟨hold, -⟩
  · exact hrow
  · exact hdb.1 other hold

theorem BookStored.forall_rows {db next : Db} {row : BookRow} {folderOk : FolderRow → Prop}
    {bookOk : BookRow → Prop} (hstored : BookStored db next row)
    (hdb : (∀ row ∈ db.folders, folderOk row) ∧ ∀ row ∈ db.books, bookOk row) (hrow : bookOk row) :
    (∀ row ∈ next.folders, folderOk row) ∧ ∀ row ∈ next.books, bookOk row := by
  rw [hstored.folders_eq]
  refine ⟨hdb.1, fun other hother ↦ ?_⟩
  rcases (hstored.mem_iff other).mp hother with rfl | ⟨hold, -⟩
  · exact hrow
  · exact hdb.2 other hold

/-- A property of rows that every row has which a scan can store, and that does not depend on cover
versions, is kept by every state of the scan. -/
theorem Scan.rows_induction {scan : Scan} {db next : Db} {folderOk : FolderRow → Prop}
    {bookOk : BookRow → Prop}
    (hdb : (∀ row ∈ db.folders, folderOk row) ∧ ∀ row ∈ db.books, bookOk row)
    (hfolder : ∀ path parentId nameOverride info id coverVersion,
      path = scan.root ∧ info = scan.rootInfo ∨ (path, info) ∈ scan.entries.folders →
      folderOk (folderRow xxh3 path parentId nameOverride scan.started info id coverVersion))
    (hcover : ∀ row coverVersion, folderOk row →
      folderOk { row with coverVersion := coverVersion })
    (hbook : ∀ state path name folderId info size row, (∀ old ∈ state.books, bookOk old) →
      (path, info) ∈ scan.entries.files → info.size = some size →
      Stores state path name folderId scan.started info size row → bookOk row)
    (hnext : next ∈ scan.states xxh3 db) :
    (∀ row ∈ next.folders, folderOk row) ∧ ∀ row ∈ next.books, bookOk row := by
  apply @Scan.states_induction xxh3 scan db next
    (fun state ↦ (∀ row ∈ state.folders, folderOk row) ∧ ∀ row ∈ state.books, bookOk row)
    (fun walk ↦ ∀ state ∈ walk.db :: walk.past,
      (∀ row ∈ state.folders, folderOk row) ∧ ∀ row ∈ state.books, bookOk row)
    hdb ?_ ?_ (fun _ hwalk ↦ hwalk) ?_ ?_ ?_ hnext
  · intro walk henter
    obtain ⟨id, coverVersion, hstored, hpast, -⟩ := Scan.enter_spec henter
    rw [hpast, List.forall_mem_cons, List.forall_mem_singleton]
    exact ⟨hstored.forall_rows hdb (hfolder _ _ _ _ _ _ (.inl ⟨rfl, rfl⟩)), hdb⟩
  · intro walk next hstep hwalk
    cases hstep with
    | orphan path => exact hwalk
    | counted => exact hwalk
    | folder dir name info parentId id stored coverVersion hmem hparent hstored =>
      have hstate := hwalk walk.db List.mem_cons_self
      exact List.forall_mem_cons.mpr
        ⟨hstored.forall_rows hstate (hfolder _ _ _ _ _ _ (.inr hmem)), hwalk⟩
    | book dir name info folderId size stored row hfile hparent hsize hmax hstores hstored =>
      have hstate := hwalk walk.db List.mem_cons_self
      exact List.forall_mem_cons.mpr
        ⟨hstored.forall_rows hstate (hbook _ _ _ _ _ _ _ hstate.2 hfile hsize hstores), hwalk⟩
  · intro state hstate
    exact ⟨hstate.1, fun row hrow ↦ hstate.2 row (List.mem_filter.mp hrow).1⟩
  · intro state hstate
    refine ⟨fun row hrow ↦ ?_, fun row hrow ↦ hstate.2 row (List.mem_filter.mp hrow).1⟩
    exact hstate.1 row ((state.keptFolders_sublist scan.started).subset hrow)
  · intro state id version hstate
    refine ⟨fun row hrow ↦ ?_, hstate.2⟩
    obtain ⟨old, hold, coverVersion, rfl⟩ := Db.mem_setCoverVersion hrow
    exact hcover old coverVersion (hstate.1 old hold)

end ComicStream.Catalog
