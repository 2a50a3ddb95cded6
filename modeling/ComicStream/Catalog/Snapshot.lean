import ComicStream.Catalog.Incremental
import ComicStream.Rust.Stem
import Mathlib.Data.Set.Basic

/-!
# The catalog as a picture of the library

What a catalog is for: to show the folders and books of the library tree, each by
its path and under its parent. This picture is a function of what a scan reads, and
the ids, stamps and dates of the rows are no part of it. A complete scan leaves the
picture of its tree, whatever the database held before and however earlier scans
have ended, as long as the clock went on, no two paths share a slug or a text, and a
file with the size and the modification time of its row still has its content.
-/

namespace ComicStream.Catalog

open Rust Archive Table

/-- What there is to see of a folder. -/
structure FolderView where
  path : PathText
  parent : Option PathText
  name : List Char
  sortKey : List Char
  coverPath : Option PathText
  description : Option (Sourced (List Char))
  slug : List Char
  mtime : ℕ
  deriving DecidableEq, Repr

/-- What there is to see of a book. -/
structure BookView where
  path : PathText
  folder : Option PathText
  name : List Char
  sortKey : List Char
  metadata : Metadata
  deriving DecidableEq, Repr

@[ext]
structure Picture where
  folders : Set FolderView
  books : Set BookView

/-- The path of the folder with the id given. -/
def Db.pathOf (db : Db) (id : ℕ) : Option PathText :=
  (db.folders.find? (·.id = id)).map FolderRow.path

def Db.folderView (db : Db) (row : FolderRow) : FolderView where
  path := row.path
  parent := row.parentId.bind db.pathOf
  name := row.name
  sortKey := row.sortKey
  coverPath := row.coverPath
  description := row.description
  slug := row.slug
  mtime := row.mtime

def Db.bookView (db : Db) (row : BookRow) : BookView where
  path := row.path
  folder := db.pathOf row.folderId
  name := row.name
  sortKey := row.sortKey
  metadata := row.metadata

/-- The picture that the rows give. -/
def Db.picture (db : Db) : Picture where
  folders := {view | ∃ row ∈ db.folders, db.folderView row = view}
  books := {view | ∃ row ∈ db.books, db.bookView row = view}

variable (xxh3 : List UInt8 → UInt64)

/-- A directory of the library. -/
def folderViewOf (path : OsPath) (parent : Option PathText) (nameOverride : Option (List Char))
    (info : FolderInfo) : FolderView where
  path := path.text
  parent := parent
  name := folderName path nameOverride
  sortKey := Natsort.key (folderName path nameOverride)
  coverPath := info.coverPath
  description := info.description
  slug := slugForPath xxh3 path.text
  mtime := info.mtime

/-- The name that a book has by its path. -/
def titleOf (path : PathText) : List Char := stemText (path.getLast?.getD [])

/-- A file of the library, if it is a book. -/
def bookViewOf (path : OsPath) (info : FileInfo) : Option BookView :=
  (storedMetadata info none).map fun metadata ↦
    { path := path.text
      folder := some (OsPath.text path.dropLast)
      name := titleOf path.text
      sortKey := Natsort.key (titleOf path.text)
      metadata := metadata }

/-- The picture of the tree that a scan meets: the root, the directories that are reached through
directories that do not fail, and the books in them. -/
def Scan.picture (scan : Scan) : Picture where
  folders := {view | view = folderViewOf xxh3 scan.root none scan.name scan.rootInfo ∨
    ∃ entry ∈ scan.listing.folders isSound scan.root,
      view = folderViewOf xxh3 entry.1 (some (OsPath.text entry.1.dropLast)) none entry.2}
  books := {view | ∃ entry ∈ scan.listing.files isSound scan.root,
    bookViewOf entry.1 entry.2 = some view}

variable {xxh3} {scan : Scan} {db : Db}

/-- A book row has the name of its path, and sorts by it. -/
structure BookRow.Titled (row : BookRow) : Prop where
  name_eq : row.name = titleOf row.path
  sortKey_eq : row.sortKey = Natsort.key row.name

theorem titleOf_snoc (dir : OsPath) (name : OsName) :
    titleOf (dir ++ [name]).text = fromUtf8Lossy (splitExtension name).1 := by
  rw [titleOf, OsPath.text_append, fromUtf8Lossy_splitExtension]
  simp [OsPath.text]

theorem Stores.titled {dir : OsPath} {name : OsName} {folderId seenAt size : ℕ} {info : FileInfo}
    {row : BookRow} (h : Stores db (dir ++ [name]) name folderId seenAt info size row)
    (hdb : ∀ old ∈ db.books, old.Titled) : row.Titled := by
  cases h with
  | stamped old hold hpath hunchanged => exact ⟨(hdb old hold).name_eq, (hdb old hold).sortKey_eq⟩
  | written hash kind pageCount id addedAt hhash hkind hpages hpos hmax =>
    exact ⟨(titleOf_snoc dir name).symm, rfl⟩

/-- A step of a walk keeps what holds of all book rows if it holds of the row that is stored. -/
theorem WalkStep.forall_books {started : ℕ} {entries : Entries} {walk next : Walk}
    {bookOk : BookRow → Prop} (h : WalkStep xxh3 started entries walk next)
    (hbook : ∀ dir name info folderId size row, (dir ++ [name], info) ∈ entries.files →
      info.size = some size → size ≤ maxArchiveBytes →
      Stores walk.db (dir ++ [name]) name folderId started info size row → bookOk row)
    (hwalk : ∀ row ∈ walk.db.books, bookOk row) : ∀ row ∈ next.db.books, bookOk row := by
  cases h with
  | orphan path => exact hwalk
  | counted => exact hwalk
  | folder dir name info parentId id stored coverVersion hfolder hparent hstored =>
    intro row hrow
    change row ∈ stored.books at hrow
    rw [hstored.books_eq] at hrow
    exact hwalk row hrow
  | book dir name info folderId size stored row hfile hparent hsize hmax hstores hstored =>
    intro other hother
    rcases (hstored.mem_iff other).mp hother with rfl | ⟨hold, -⟩
    · exact hbook dir name info folderId size other hfile hsize hmax hstores
    · exact hwalk other hold

theorem Run.titled {scans : List Scan} (h : Run xxh3 scans db) : ∀ row ∈ db.books, row.Titled := by
  induction h with
  | empty => simp [Db.empty]
  | @scan scans db next _ scan hnext ih =>
    apply @Scan.states_induction xxh3 scan db next (fun state ↦ ∀ row ∈ state.books, row.Titled)
      (fun walk ↦ ∀ state ∈ walk.db :: walk.past, ∀ row ∈ state.books, row.Titled)
      ih ?_ ?_ (fun _ hwalk ↦ hwalk) ?_ ?_ ?_ hnext
    · intro walk henter
      obtain ⟨id, coverVersion, hstored, hpast, -⟩ := Scan.enter_spec henter
      rw [hpast, List.forall_mem_cons, List.forall_mem_singleton, hstored.books_eq]
      exact ⟨ih, ih⟩
    · intro walk next hstep hwalk
      have hcurrent := hwalk walk.db List.mem_cons_self
      have hnextBooks : ∀ row ∈ next.db.books, row.Titled :=
        hstep.forall_books (fun _ _ _ _ _ _ _ _ _ hstores ↦ hstores.titled hcurrent) hcurrent
      cases hstep with
      | orphan path => exact hwalk
      | counted => exact hwalk
      | folder => exact List.forall_mem_cons.mpr ⟨hnextBooks, hwalk⟩
      | book => exact List.forall_mem_cons.mpr ⟨hnextBooks, hwalk⟩
    · exact fun state hstate row hrow ↦ hstate row (List.mem_filter.mp hrow).1
    · exact fun state hstate row hrow ↦ hstate row (List.mem_filter.mp hrow).1
    · exact fun state _ _ hstate ↦ hstate

/-- The directories that the walk enters, and the files in them whose statements do not fail. -/
def Scan.soundEntries (scan : Scan) : Entries where
  folders := scan.listing.folders isSound scan.root
  files := (scan.listing.files isSound scan.root).filter fun entry ↦ !entry.2.fault

theorem visitDir_of_fault {started : ℕ} {walk : Walk} {dir : OsPath}
    (hdir : (walk.pathToId dir).isSome) (name : OsName) {info : FolderInfo}
    (hfault : info.fault = true) (children : Listing) :
    visitDir xxh3 started walk (dir ++ [name]) info children = walk := by
  obtain ⟨parentId, hparent⟩ := Option.isSome_iff_exists.mp hdir
  have hdrop : (dir ++ [name]).dropLast = dir := List.dropLast_concat
  simp [visitDir, visitFolder, hdrop, hparent, upsertFolder, hfault]

theorem visitFile_steps_of_fault {started : ℕ} {entries : Entries} (walk : Walk) (dir : OsPath)
    (name : OsName) {info : FileInfo} (hfault : info.fault = true) :
    WalkSteps xxh3 started entries walk (visitFile started walk (dir ++ [name]) name info) := by
  unfold visitFile
  split
  · split
    · next hparent => exact .single (.orphan walk _ hparent)
    · split
      · exact .refl
      · exact .single (.counted walk)
      · next hupsert =>
        obtain ⟨size, row, -, -, hsound, -⟩ := upsertBook_spec hupsert
        rw [hfault] at hsound
        exact Bool.noConfusion hsound
  · exact .refl

/-- From a stored directory, the walk takes steps at sound entries only. -/
theorem visit_soundSteps {started : ℕ} {entries : Entries} {walk : Walk} {dir : OsPath}
    (hdir : (walk.pathToId dir).isSome) {listing : Listing}
    (hfolders : listing.folders isSound dir ⊆ entries.folders)
    (hfiles : (listing.files isSound dir).filter (fun entry ↦ !entry.2.fault) ⊆ entries.files) :
    WalkSteps xxh3 started entries walk (visit xxh3 started walk dir listing) := by
  induction listing generalizing walk dir with
  | nil => exact .refl
  | error rest ih => exact ih hdir hfolders hfiles
  | other name rest ih => exact ih hdir hfolders hfiles
  | file name info rest ih =>
    rw [Listing.files, List.filter_append, List.append_subset] at hfiles
    rw [visit]
    split
    · exact ih hdir hfolders hfiles.2
    · next hhidden =>
      have hsteps : WalkSteps xxh3 started entries walk
          (visitFile started walk (dir ++ [name]) name info) := by
        by_cases hfault : info.fault = true
        · exact visitFile_steps_of_fault walk dir name hfault
        · apply visitFile_steps
          intro hsupported
          exact hfiles.1 (by simp [hsupported, hhidden, hfault])
      exact hsteps.trans (ih (hsteps.grows.pathToId dir hdir) hfolders hfiles.2)
  | dir name info children rest ihChildren ihRest =>
    rw [Listing.folders, List.append_subset] at hfolders
    rw [Listing.files, List.filter_append, List.append_subset] at hfiles
    by_cases hvisible : isVisible name info = true
    · rw [visit_dir_of_visible hvisible]
      by_cases hfault : info.fault = true
      · rw [visitDir_of_fault hdir name hfault]
        exact ihRest hdir hfolders.2 hfiles.2
      · have hsound : isSound name info = true := by simp [isSound, hvisible, hfault]
        rw [if_pos hsound] at hfolders hfiles
        obtain ⟨hentry, hinFolders⟩ := List.cons_subset.mp hfolders.1
        have hentered := @visitFolder_steps xxh3 started entries walk dir name info hentry
        obtain ⟨-, hinto⟩ := @visitFolder_orphans xxh3 started walk dir hdir name info
        have hdirectory : WalkSteps xxh3 started entries walk
            (visitDir xxh3 started walk (dir ++ [name]) info children) := by
          rw [visitDir]
          split
          · next hnext => exact hentered.trans (ihChildren (hinto hnext) hinFolders hfiles.1)
          · exact hentered
        exact hdirectory.trans
          (ihRest (hdirectory.grows.pathToId dir hdir) hfolders.2 hfiles.2)
    · rw [visit_dir_of_not_visible hvisible]
      exact ihRest hdir hfolders.2 hfiles.2

/-- What is known of a scan up to the end of its walk. -/
structure Scan.Walked (xxh3 : List UInt8 → UInt64) (scan : Scan) (db : Db) (start walked : Walk) :
    Prop where
  enter : scan.enter xxh3 db = some start
  steps : WalkSteps xxh3 scan.started scan.soundEntries start walked
  held : walked.Held scan
  root : (walked.pathToId scan.root).isSome
  stored : scan.listing.Stored scan.root walked

theorem Scan.exists_walked (hslugs : scan.SlugsDistinct xxh3 db)
    (hslug : ∀ row ∈ db.folders, row.slug = slugForPath xxh3 row.path) {walked : Walk}
    (h : scan.walked xxh3 db = some walked) : ∃ start, scan.Walked xxh3 db start walked := by
  obtain ⟨start, hstart, hsteps⟩ := Scan.walked_spec h
  have hready := Scan.ready_enter hslug hstart
  obtain ⟨id, -, -, -, hpaths, -⟩ := Scan.enter_spec hstart
  have hroot : (start.pathToId scan.root).isSome := by
    rw [hpaths, Function.update_self, Option.isSome_some]
  have hvisit : visit xxh3 scan.started start scan.root scan.listing = walked := by
    rw [Scan.walked, hstart] at h
    exact Option.some.inj h
  have hstored := visit_stores hslugs hready hroot (List.Subset.refl _) (List.Subset.refl _)
  have hsound := @visit_soundSteps xxh3 scan.started scan.soundEntries start scan.root hroot
    scan.listing (List.Subset.refl _) (List.Subset.refl _)
  rw [hvisit] at hstored hsound
  exact ⟨start, hstart, hsound, (hsteps.ready hready).held, hsteps.grows.pathToId _ hroot, hstored⟩

/-- A directory that the walk stores, with the name it is given and what is read of it. -/
def Scan.IsFolder (scan : Scan) (path : OsPath) (nameOverride : Option (List Char))
    (info : FolderInfo) : Prop :=
  path = scan.root ∧ nameOverride = scan.name ∧ info = scan.rootInfo ∨
    (path, info) ∈ scan.soundEntries.folders ∧ nameOverride = none

/-- The row is that of a directory which the walk has stored. -/
def Walk.Draws (xxh3 : List UInt8 → UInt64) (scan : Scan) (walk : Walk) (row : FolderRow) : Prop :=
  ∃ path nameOverride info, scan.IsFolder path nameOverride info ∧
    walk.pathToId path = some row.id ∧
    row = folderRow xxh3 path row.parentId nameOverride scan.started info row.id row.coverVersion

/-- The row is that of a file which the walk has stored, and records what a first scan would. -/
def Walk.DrawsBook (scan : Scan) (walk : Walk) (row : BookRow) : Prop :=
  ∃ entry ∈ scan.soundEntries.files, entry.1 ∈ walk.ingested ∧ row.path = entry.1.text ∧
    storedMetadata entry.2 none = some row.metadata

/-- No two directories and no two files that the walk stores have paths with the same text. -/
structure Scan.Unambiguous (scan : Scan) : Prop where
  folders : ∀ first ∈ scan.soundEntries.folders, ∀ second ∈ scan.soundEntries.folders,
    first.1.text = second.1.text → first = second
  files : ∀ first ∈ scan.soundEntries.files, ∀ second ∈ scan.soundEntries.files,
    first.1.text = second.1.text → first = second

/-- A file with the size and the modification time of its row has what the row records. -/
def Scan.Trusts (scan : Scan) (db : Db) : Prop :=
  ∀ entry ∈ scan.soundEntries.files, ∀ row ∈ db.books, row.path = entry.1.text →
    ∀ size ∈ entry.2.size, isUnchanged entry.2 size row = true →
      entry.2.metadata size = some row.metadata

theorem storedMetadata_none {info : FileInfo} {size : ℕ} (hsize : info.size = some size)
    (hmax : size ≤ maxArchiveBytes) (hfault : info.fault = false) :
    storedMetadata info none = info.metadata size := by
  simp [storedMetadata, hsize, hfault, Nat.not_lt.mpr hmax]

/-- A row that is stored for a file records what a first scan would. -/
theorem Stores.metadata_eq (hunambiguous : scan.Unambiguous) (htrusts : scan.Trusts db)
    {walk : Walk} (hwalk : ∀ row ∈ walk.db.books, row ∈ db.books ∨ walk.DrawsBook scan row)
    {path : OsPath} {name : OsName} {folderId seenAt size : ℕ} {info : FileInfo} {row : BookRow}
    (hfile : (path, info) ∈ scan.soundEntries.files) (hsize : info.size = some size)
    (hmax : size ≤ maxArchiveBytes)
    (h : Stores walk.db path name folderId seenAt info size row) :
    storedMetadata info none = some row.metadata := by
  have hfault : info.fault = false := by simpa using (List.mem_filter.mp hfile).2
  cases h with
  | stamped old hold hpath hunchanged =>
    rcases hwalk old hold with hbefore | ⟨entry, hentry, -, hentryPath, hmetadata⟩
    · rw [storedMetadata_none hsize hmax hfault]
      exact htrusts _ hfile old hbefore hpath size hsize hunchanged
    · have hsame := hunambiguous.files entry hentry _ hfile (hentryPath.symm.trans hpath)
      rw [hsame] at hmetadata
      exact hmetadata
  | written hash kind pageCount id addedAt hhash hkind hpages hpos hcount =>
    rw [storedMetadata_none hsize hmax hfault, FileInfo.metadata, hhash, hkind, hpages]
    simp only [Option.bind_some]
    rw [if_neg (by omega)]
    rfl

/-- Every row is one from before the scan or one that the walk has stored. -/
structure Walk.Drawn (xxh3 : List UInt8 → UInt64) (scan : Scan) (db : Db) (walk : Walk) : Prop where
  folders : ∀ row ∈ walk.db.folders, row ∈ db.folders ∨ walk.Draws xxh3 scan row
  books : ∀ row ∈ walk.db.books, row ∈ db.books ∨ walk.DrawsBook scan row

/-- What a step of the walk does not store, it leaves as it was before the scan. -/
theorem WalkStep.draws {walk next : Walk}
    (hstep : WalkStep xxh3 scan.started scan.soundEntries walk next)
    (h : ∀ row ∈ walk.db.folders, row ∈ db.folders ∨ walk.Draws xxh3 scan row) :
    ∀ row ∈ next.db.folders, row ∈ db.folders ∨ next.Draws xxh3 scan row := by
  cases hstep with
  | orphan path => exact h
  | counted => exact h
  | folder dir name info parentId id stored coverVersion hfolder hparent hstored =>
    intro row hrow
    rcases (hstored.mem_iff row).mp hrow with rfl | ⟨hold, hne⟩
    · right
      exact ⟨dir ++ [name], none, info, .inr ⟨hfolder, rfl⟩, Function.update_self .., rfl⟩
    · apply (h row hold).imp_right
      rintro ⟨path, nameOverride, rowInfo, hentry, hid, heq⟩
      refine ⟨path, nameOverride, rowInfo, hentry, ?_, heq⟩
      have hother : path ≠ dir ++ [name] := by
        rintro rfl
        apply hne
        rw [heq]
        rfl
      exact (Function.update_of_ne hother _ _).trans hid
  | book dir name info folderId size stored row hfile hparent hsize hmax hstores hstored =>
    intro other hother
    change other ∈ stored.folders at hother
    rw [hstored.folders_eq] at hother
    exact h other hother

theorem Walk.Drawn.step (hunambiguous : scan.Unambiguous) (htrusts : scan.Trusts db)
    {walk next : Walk} (h : walk.Drawn xxh3 scan db)
    (hstep : WalkStep xxh3 scan.started scan.soundEntries walk next) :
    next.Drawn xxh3 scan db := by
  refine ⟨hstep.draws h.folders, ?_⟩
  cases hstep with
  | orphan path => exact h.books
  | counted => exact h.books
  | folder dir name info parentId id stored coverVersion hfolder hparent hstored =>
    intro row hrow
    change row ∈ stored.books at hrow
    rw [hstored.books_eq] at hrow
    exact h.books row hrow
  | book dir name info folderId size stored row hfile hparent hsize hmax hstores hstored =>
    intro other hother
    rcases (hstored.mem_iff other).mp hother with rfl | ⟨hold, -⟩
    · right
      exact ⟨(dir ++ [name], info), hfile, List.mem_cons_self, hstores.path_eq,
        hstores.metadata_eq hunambiguous htrusts h.books hfile hsize hmax⟩
    · apply (h.books other hold).imp_right
      rintro ⟨entry, hentry, hingested, hrow⟩
      exact ⟨entry, hentry, List.mem_cons_of_mem _ hingested, hrow⟩

theorem Scan.drawn_enter {walk : Walk} (h : scan.enter xxh3 db = some walk) :
    walk.Drawn xxh3 scan db := by
  obtain ⟨id, coverVersion, hstored, -, hpaths, -⟩ := Scan.enter_spec h
  constructor
  · intro row hrow
    rcases (hstored.mem_iff row).mp hrow with rfl | ⟨hold, -⟩
    · right
      refine ⟨scan.root, scan.name, scan.rootInfo, .inl ⟨rfl, rfl, rfl⟩, ?_, rfl⟩
      rw [hpaths, Function.update_self]
      rfl
    · exact .inl hold
  · intro row hrow
    rw [hstored.books_eq] at hrow
    exact .inl hrow

/-! ## What a picture shows at a path -/

theorem of_storedMetadata {info : FileInfo} {metadata : Metadata}
    (h : storedMetadata info none = some metadata) : info.Ingestible ∧ info.fault = false := by
  obtain ⟨size, hsize, h⟩ := Option.bind_eq_some_iff.mp h
  split at h
  · simp at h
  next hsound =>
  push Not at hsound
  rw [Option.filter_none, Option.none_or] at h
  obtain ⟨hash, hhash, h⟩ := Option.bind_eq_some_iff.mp h
  obtain ⟨kind, hkind, h⟩ := Option.bind_eq_some_iff.mp h
  obtain ⟨pageCount, hpages, h⟩ := Option.bind_eq_some_iff.mp h
  split at h
  · simp at h
  next hcount =>
  exact ⟨FileInfo.ingestible_of_written hsize hsound.1 hhash hkind hpages (by omega) (by omega),
    by simpa using hsound.2⟩

theorem Scan.text_ne_root {entry : OsPath × FolderInfo}
    (h : entry ∈ scan.soundEntries.folders) : entry.1.text ≠ scan.root.text := by
  intro hsame
  have hlt := Listing.length_lt_of_mem_folders h
  have hlength := congrArg List.length hsame
  rw [OsPath.length_text, OsPath.length_text] at hlength
  omega

theorem Scan.Unambiguous.folderView_eq (h : scan.Unambiguous) {first second : FolderView}
    (hfirst : first ∈ (scan.picture xxh3).folders) (hsecond : second ∈ (scan.picture xxh3).folders)
    (hpath : first.path = second.path) : first = second := by
  rcases hfirst with rfl | ⟨entry, hentry, rfl⟩ <;> rcases hsecond with rfl | ⟨other, hother, rfl⟩
  · rfl
  · exact absurd hpath.symm (Scan.text_ne_root hother)
  · exact absurd hpath (Scan.text_ne_root hentry)
  · rw [h.folders entry hentry other hother hpath]

theorem Scan.Unambiguous.bookView_eq (h : scan.Unambiguous) {first second : BookView}
    (hfirst : first ∈ (scan.picture xxh3).books) (hsecond : second ∈ (scan.picture xxh3).books)
    (hpath : first.path = second.path) : first = second := by
  have hsound {view : BookView} (hview : view ∈ (scan.picture xxh3).books) :
      ∃ entry ∈ scan.soundEntries.files, bookViewOf entry.1 entry.2 = some view ∧
        view.path = entry.1.text := by
    obtain ⟨entry, hentry, heq⟩ := hview
    obtain ⟨metadata, hmetadata, rfl⟩ := Option.map_eq_some_iff.mp heq
    exact ⟨entry, List.mem_filter.mpr ⟨hentry, by simpa using (of_storedMetadata hmetadata).2⟩, heq,
      rfl⟩
  obtain ⟨entry, hentry, heq, hentryPath⟩ := hsound hfirst
  obtain ⟨other, hother, hotherEq, hotherPath⟩ := hsound hsecond
  have hsame := h.files entry hentry other hother
    (hentryPath.symm.trans (hpath.trans hotherPath))
  rw [hsame, hotherEq] at heq
  exact (Option.some.inj heq).symm

theorem Db.pathOf_eq {row : FolderRow} (hrow : row ∈ db.folders) :
    db.pathOf row.id = some row.path := by
  rw [pathOf, Option.map_eq_some_iff]
  have hsome : (db.folders.find? (·.id = row.id)).isSome := by
    rw [List.find?_isSome]
    exact ⟨row, hrow, by simp⟩
  obtain ⟨found, hfound⟩ := Option.isSome_iff_exists.mp hsome
  have hid : found.id = row.id := by simpa using List.find?_some hfound
  exact ⟨found, hfound, by rw [Db.folder_eq_of_id (List.mem_of_find?_eq_some hfound) hrow hid]⟩

section Complete

variable {scans : List Scan} {walked walk : Walk}

theorem Run.draws_of_complete (h : Run xxh3 scans db)
    (hlater : ∀ earlier ∈ scans, earlier.started < scan.started)
    (hrefreshed : Refreshed (scan.prune walked) walk)
    (hfolders : ∀ row ∈ walked.db.folders, row ∈ db.folders ∨ walked.Draws xxh3 scan row) :
    ∀ row ∈ walk.db.folders, walked.Draws xxh3 scan row := by
  intro row hrow
  obtain ⟨old, hold, coverVersion, rfl⟩ := hrefreshed.folders row hrow
  have hkept := List.mem_filter.mp (settle_sublist.subset hold)
  rcases hfolders old hkept.1 with hbefore | ⟨path, nameOverride, info, hentry, hid, heq⟩
  · obtain ⟨earlier, hearlier, hstamp⟩ := h.stamped.1 old hbefore
    have hstarted := hlater earlier hearlier
    have hseenAt : ¬old.seenAt < scan.started := by simpa using hkept.2
    omega
  · refine ⟨path, nameOverride, info, hentry, hid, ?_⟩
    rw [heq]
    rfl

theorem Run.books_of_complete (h : Run xxh3 scans db)
    (hlater : ∀ earlier ∈ scans, earlier.started < scan.started)
    (hrefreshed : Refreshed (scan.prune walked) walk) {bookOk : BookRow → Prop}
    (hbooks : ∀ row ∈ walked.db.books, row ∈ db.books ∨ bookOk row) :
    ∀ row ∈ walk.db.books, bookOk row := by
  intro row hrow
  rw [hrefreshed.books_eq] at hrow
  have hkept := List.mem_filter.mp (List.mem_filter.mp hrow).1
  apply (hbooks row hkept.1).resolve_left
  intro hbefore
  obtain ⟨earlier, hearlier, hstamp⟩ := h.stamped.2 row hbefore
  have hstarted := hlater earlier hearlier
  have hseenAt : ¬row.seenAt < scan.started := by simpa using hkept.2
  omega

theorem Walk.Held.folderView_mem (h : walked.Held scan)
    (hrefreshed : Refreshed (scan.prune walked) walk) {row : FolderRow}
    (hrow : row ∈ walk.db.folders) (hdraws : walked.Draws xxh3 scan row) :
    walk.db.folderView row ∈ (scan.picture xxh3).folders := by
  obtain ⟨path, nameOverride, info, hentry, hpath, heq⟩ := hdraws
  obtain ⟨same, hsame, hid, -, -, hparent⟩ := h.exists_folder hrefreshed hpath
  obtain rfl := Db.folder_eq_of_id hsame hrow hid
  have hview : walk.db.folderView same =
      folderViewOf xxh3 path (same.parentId.bind walk.db.pathOf) nameOverride info := by
    rw [heq]
    rfl
  rw [hview]
  rcases hentry with ⟨rfl, rfl, rfl⟩ | ⟨hentry, rfl⟩
  · left
    rw [(hparent.resolve_right fun hbelow ↦ Nat.lt_irrefl _ hbelow.1).2]
    rfl
  · right
    refine ⟨(path, info), hentry, ?_⟩
    have hlt := Listing.length_lt_of_mem_folders hentry
    obtain ⟨-, parentId, hparentPath, hparentId⟩ := hparent.resolve_left fun hroot ↦ by
      rw [hroot.1] at hlt
      exact Nat.lt_irrefl _ hlt
    obtain ⟨parent, hmem, rfl, hparentText, -⟩ := h.exists_folder hrefreshed hparentPath
    rw [hparentId, Option.bind_some, Db.pathOf_eq hmem, hparentText]

theorem Walk.Held.bookView_mem (h : walked.Held scan)
    (hrefreshed : Refreshed (scan.prune walked) walk) {row : BookRow}
    (hrow : row ∈ walk.db.books) (htitled : row.Titled) (hdraws : walked.DrawsBook scan row) :
    walk.db.bookView row ∈ (scan.picture xxh3).books := by
  obtain ⟨entry, hentry, hingested, hpath, hmetadata⟩ := hdraws
  refine ⟨entry, (List.mem_filter.mp hentry).1, ?_⟩
  obtain ⟨same, hsame, hsamePath, -, hfolder⟩ := h.book entry.1 hingested
  have hkept : same ∈ walk.db.books := by
    rw [hrefreshed.books_eq]
    exact h.book_mem_prune hsame hingested hsamePath
  obtain rfl := Db.book_eq_of_path hkept hrow (hsamePath.trans hpath.symm)
  obtain ⟨folder, hmem, hid, hfolderText, -⟩ := h.exists_folder hrefreshed hfolder
  rw [bookViewOf, hmetadata, Option.map_some, Option.some.injEq, Db.bookView, htitled.sortKey_eq,
    htitled.name_eq, hpath, ← hid, Db.pathOf_eq hmem, hfolderText]

/-- What a scan leaves that starts after all others. -/
theorem Run.picture_complete (h : Run xxh3 scans db)
    (hlater : ∀ earlier ∈ scans, earlier.started < scan.started)
    (hslugs : scan.SlugsDistinct xxh3 db) (hunambiguous : scan.Unambiguous)
    (htrusts : scan.Trusts db) (hwalk : scan.complete xxh3 db = some walk) :
    walk.db.picture = scan.picture xxh3 := by
  obtain ⟨walked, hwalked, hrefreshed⟩ := Scan.complete_spec hwalk
  obtain ⟨start, hscan⟩ := Scan.exists_walked hslugs h.slug_eq hwalked
  have hheld := hscan.held
  have hdrawn : walked.Drawn xxh3 scan db := hscan.steps.invariant
    (fun _ _ hstep hdrawn ↦ hdrawn.step hunambiguous htrusts hstep) (Scan.drawn_enter hscan.enter)
  have hfolders := h.draws_of_complete hlater hrefreshed hdrawn.folders
  have hbooks := h.books_of_complete hlater hrefreshed hdrawn.books
  have htitled := (h.complete hwalk).titled
  have hfolderView (row : FolderRow) (hrow : row ∈ walk.db.folders) :
      walk.db.folderView row ∈ (scan.picture xxh3).folders :=
    hheld.folderView_mem hrefreshed hrow (hfolders row hrow)
  have hbookView (row : BookRow) (hrow : row ∈ walk.db.books) :
      walk.db.bookView row ∈ (scan.picture xxh3).books :=
    hheld.bookView_mem hrefreshed hrow (htitled row hrow) (hbooks row hrow)
  have hfolder {view : FolderView} (hview : view ∈ (scan.picture xxh3).folders) {path : OsPath}
      (hpath : view.path = path.text) (hstored : (walked.pathToId path).isSome) :
      view ∈ walk.db.picture.folders := by
    obtain ⟨id, hid⟩ := Option.isSome_iff_exists.mp hstored
    obtain ⟨row, hrow, -, hrowPath, -⟩ := hheld.exists_folder hrefreshed hid
    exact ⟨row, hrow, hunambiguous.folderView_eq (hfolderView row hrow) hview
      (hrowPath.trans hpath.symm)⟩
  ext view
  · constructor
    · rintro ⟨row, hrow, rfl⟩
      exact hfolderView row hrow
    · intro hview
      rcases id hview with rfl | ⟨entry, hentry, rfl⟩
      · exact hfolder hview rfl hscan.root
      · exact hfolder hview rfl (hscan.stored.folders entry hentry)
  · constructor
    · rintro ⟨row, hrow, rfl⟩
      exact hbookView row hrow
    · intro hview
      obtain ⟨entry, hentry, heq⟩ := id hview
      obtain ⟨metadata, hmetadata, rfl⟩ := Option.map_eq_some_iff.mp heq
      obtain ⟨hinfo, hfault⟩ := of_storedMetadata hmetadata
      have hingested := hscan.stored.files entry hentry hinfo hfault
      obtain ⟨row, hrow, hpath, -⟩ := hheld.book entry.1 hingested
      have hkept : row ∈ walk.db.books := by
        rw [hrefreshed.books_eq]
        exact hheld.book_mem_prune hrow hingested hpath
      exact ⟨row, hkept, hunambiguous.bookView_eq (hbookView row hkept) hview hpath⟩

theorem Scan.SlugsDistinct.fresh (h : scan.SlugsDistinct xxh3 db) :
    scan.SlugsDistinct xxh3 Db.empty :=
  fun first hfirst second hsecond ↦ h first (List.mem_append_right _ hfirst) second
    (List.mem_append_right _ hsecond)

/-- **A complete scan leaves the picture of its tree.** Whatever was scanned before, and wherever
those scans were stopped: if all of them started in an earlier second, if no two folders, those with
rows from before among them, share a slug and no two entries the text of their paths, and if every
file with the size and the modification time of its row still has what the row records, then a scan
that returns `Ok` leaves exactly the folders and books of its tree, each once and under its parent,
and with the name, the sort key, the cover, the description and the record of content that a first
scan gives it. -/
theorem complete_picture (h : Run xxh3 scans db)
    (hlater : ∀ earlier ∈ scans, earlier.started < scan.started)
    (hslugs : scan.SlugsDistinct xxh3 db) (hunambiguous : scan.Unambiguous)
    (htrusts : scan.Trusts db) (hwalk : scan.complete xxh3 db = some walk) :
    walk.db.picture = scan.picture xxh3 ∧
      ∃ fresh, scan.complete xxh3 Db.empty = some fresh ∧ fresh.db.picture = walk.db.picture := by
  have hpicture := h.picture_complete hlater hslugs hunambiguous htrusts hwalk
  obtain ⟨walked, hwalked, -⟩ := Scan.complete_spec hwalk
  obtain ⟨freshWalked, hfreshWalked, -⟩ := Scan.walked_follows h.slug_eq hslugs hwalked
  have hfresh : scan.complete xxh3 Db.empty =
      some (refreshCoverVersions scan.coverMtime (scan.prune freshWalked)) := by
    rw [Scan.complete, hfreshWalked]
    rfl
  refine ⟨hpicture, _, hfresh, ?_⟩
  rw [hpicture]
  exact Run.empty.picture_complete (by simp) hslugs.fresh hunambiguous
    (fun _ _ _ hrow ↦ (List.not_mem_nil hrow).elim) hfresh

end Complete

/-- The folder `b` fails, and is no part of the picture. -/
theorem complete_picture_faulty :
    ∃ db walk, Run sampleXxh3 [Scan.sample 10 Listing.sample] db ∧
      (Scan.sample 20 Listing.faulty).complete sampleXxh3 db = some walk ∧
      walk.db.picture = (Scan.sample 20 Listing.faulty).picture sampleXxh3 := by
  have hslugs : ∀ first ∈ (Scan.sample 10 Listing.sample).complete sampleXxh3 Db.empty,
      (Scan.sample 20 Listing.faulty).SlugsDistinct sampleXxh3 first.db := by
    unfold Scan.SlugsDistinct
    decide
  have htrusts : ∀ first ∈ (Scan.sample 10 Listing.sample).complete sampleXxh3 Db.empty,
      (Scan.sample 20 Listing.faulty).Trusts first.db := by
    unfold Scan.Trusts
    decide
  have hrescan : (rescan (Scan.sample 10 Listing.sample)
      (Scan.sample 20 Listing.faulty)).isSome = true := by decide
  obtain ⟨walk, hwalk⟩ := Option.isSome_iff_exists.mp hrescan
  obtain ⟨first, hfirst, hcomplete⟩ := Option.bind_eq_some_iff.mp hwalk
  have hrun := Run.empty.complete hfirst
  exact ⟨first.db, walk, hrun, hcomplete, (complete_picture hrun (by decide) (hslugs first hfirst)
    ⟨by decide, by decide⟩ (htrusts first hfirst) hcomplete).1⟩

end ComicStream.Catalog
