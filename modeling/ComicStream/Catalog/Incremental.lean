import ComicStream.Catalog.Pointwise
import ComicStream.Catalog.Prune

/-!
# Scans that start from rows, and scans that start from nothing

A scan does not read a file whose size and modification time are those of its row.
A scan of the same tree into an empty database reads every file. Both are followed
step by step: at each path the two have the same record of the content, or the first
has kept the one it had.
-/

namespace ComicStream.Catalog

open Rust Archive Table

variable {xxh3 : List UInt8 → UInt64} {scan : Scan} {db : Db}

/-- What a book row records of the content of its file. -/
structure Metadata where
  hash : List Char
  format : List Char
  pageCount : ℕ
  fileSize : ℕ
  mtime : ℕ
  deriving DecidableEq, Repr

def BookRow.metadata (row : BookRow) : Metadata where
  hash := row.hash
  format := row.format
  pageCount := row.pageCount
  fileSize := row.fileSize
  mtime := row.mtime

/-- The record for the path given. -/
def Db.metadataAt (db : Db) (path : PathText) : Option Metadata :=
  (db.bookAt path).map BookRow.metadata

/-- A record has the size and the modification time of a file. -/
def Metadata.isOf (info : FileInfo) (size : ℕ) (metadata : Metadata) : Bool :=
  metadata.mtime = info.mtime && metadata.fileSize = size

/-- The record of a file that is read, if it can be stored. -/
def FileInfo.metadata (info : FileInfo) (size : ℕ) : Option Metadata :=
  info.hash.bind fun hash ↦ info.kind.bind fun kind ↦ info.pageCount.bind fun pageCount ↦
    if pageCount = 0 ∨ maxPages < pageCount then none
    else some ⟨hash, kind.format, pageCount, size, info.mtime⟩

/-- The record that a scan makes of a file, given the one that its path has. -/
def storedMetadata (info : FileInfo) (old : Option Metadata) : Option Metadata :=
  info.size.bind fun size ↦
    if maxArchiveBytes < size ∨ info.fault = true then none
    else (old.filter (Metadata.isOf info size)).or (info.metadata size)

theorem FileInfo.metadata_eq_some {info : FileInfo} {size : ℕ} {metadata : Metadata}
    (h : info.metadata size = some metadata) :
    metadata.fileSize = size ∧ metadata.mtime = info.mtime := by
  obtain ⟨hash, -, h⟩ := Option.bind_eq_some_iff.mp h
  obtain ⟨kind, -, h⟩ := Option.bind_eq_some_iff.mp h
  obtain ⟨pageCount, -, h⟩ := Option.bind_eq_some_iff.mp h
  split at h
  · simp at h
  · rw [← Option.some.inj h]
    exact ⟨rfl, rfl⟩

/-- A stored row has the record that the old record and the file make. -/
theorem storedRow_metadata (path : OsPath) (name : OsName) (folderId seenAt : ℕ) (info : FileInfo)
    (old : Option BookRow) :
    (storedRow path name folderId seenAt info old).map BookRow.metadata =
      storedMetadata info (old.map BookRow.metadata) := by
  unfold storedRow storedMetadata
  rw [Option.map_bind]
  congr 1
  funext size
  rw [Function.comp_apply]
  split
  · rfl
  · have hfilter : (old.map BookRow.metadata).filter (Metadata.isOf info size) =
        (old.filter (isUnchanged info size)).map BookRow.metadata := by
      rw [Option.filter_map]
      rfl
    rw [hfilter]
    cases old.filter (isUnchanged info size) with
    | some row => rfl
    | none =>
      unfold FileInfo.metadata
      cases info.hash with
      | none => rfl
      | some hash =>
        cases info.kind with
        | none => rfl
        | some kind =>
          cases info.pageCount with
          | none => rfl
          | some pageCount =>
            simp only [Option.bind_some, Option.map_none, Option.none_or]
            split <;> rfl

/-- The record that a walk makes of a file, if it makes one. -/
def recordedBy (walk : Walk) (path : OsPath) (name : OsName) (info : FileInfo) : Option Metadata :=
  if isSupported name = true ∧ (walk.pathToId path.dropLast).isSome = true then
    storedMetadata info (walk.db.metadataAt path.text)
  else none

theorem storedBy_metadata (walk : Walk) (started : ℕ) (path : OsPath) (name : OsName)
    (info : FileInfo) :
    (storedBy walk started path name info).map BookRow.metadata = recordedBy walk path name info := by
  unfold storedBy recordedBy
  by_cases hsupported : isSupported name = true
  · rw [if_pos hsupported]
    cases walk.pathToId path.dropLast with
    | none => simp
    | some folderId =>
      rw [Option.bind_some, if_pos ⟨hsupported, rfl⟩]
      exact storedRow_metadata path name folderId started info _
  · rw [if_neg hsupported, if_neg fun h ↦ hsupported h.1]
    rfl

theorem visitFile_metadataAt (walk : Walk) (started : ℕ) (path : OsPath) (name : OsName)
    (info : FileInfo) (hlocated : walk.Located) :
    (visitFile started walk path name info).ingested =
        (if (recordedBy walk path name info).isSome then path :: walk.ingested
          else walk.ingested) ∧
      ∀ other, (visitFile started walk path name info).db.metadataAt other =
        if other = path.text then
          (recordedBy walk path name info).or (walk.db.metadataAt other)
        else walk.db.metadataAt other := by
  obtain ⟨hingested, -, -, -, hbooks⟩ := visitFile_spec walk started path name info hlocated
  have hcolumn (row : Option BookRow) :
      row.map BookRow.metadata = (row.map BookRow.withoutId).map BookRow.metadata := by
    rw [Option.map_map]
    rfl
  constructor
  · rw [hingested, ← storedBy_metadata walk started path name info, Option.isSome_map]
  · intro other
    unfold Db.metadataAt
    rw [hcolumn, hbooks, ← storedBy_metadata walk started path name info]
    split
    · rw [Option.map_or, ← hcolumn]
    · rw [← hcolumn]

/-- The file at the path has the size and the modification time of the record. -/
def Scan.Dates (scan : Scan) (path : PathText) (metadata : Metadata) : Prop :=
  ∃ entry ∈ scan.entries.files, entry.1.text = path ∧ entry.2.size = some metadata.fileSize ∧
    entry.2.mtime = metadata.mtime

/-- What the records for one path have come to in a walk, which has started from the record `old`,
and in one that has started from nothing. -/
inductive Compared (scan : Scan) (path : PathText) (old row fresh : Option Metadata) : Prop
  /-- Both have read the file. -/
  | read (metadata : Metadata) (hrow : row = some metadata) (hfresh : fresh = some metadata)
  /-- The first walk has kept the record that it found. -/
  | kept (metadata : Metadata) (hold : old = some metadata) (hrow : row = some metadata)
      (hdates : scan.Dates path metadata)
      (hfresh : ∀ other ∈ fresh, other.fileSize = metadata.fileSize ∧ other.mtime = metadata.mtime)

section Compared

variable {path : OsPath} {old fresh : Option Metadata} {info : FileInfo} {size : ℕ}
  {metadata : Metadata}

theorem Metadata.isOf_eq_true :
    metadata.isOf info size = true ↔ metadata.mtime = info.mtime ∧ metadata.fileSize = size := by
  rw [Metadata.isOf, Bool.and_eq_true, decide_eq_true_iff, decide_eq_true_iff]

/-- Neither walk makes a record, or they compare afterwards. -/
def Advances (scan : Scan) (path : OsPath) (info : FileInfo) (old row fresh : Option Metadata) :
    Prop :=
  (storedMetadata info row = none ∧ storedMetadata info fresh = none) ∨
    Compared scan path.text old ((storedMetadata info row).or row)
      ((storedMetadata info fresh).or fresh)

/-- A file that is not accepted leaves no record, and of one that is the record depends on whether
it was read. -/
theorem advances_of_accepted {row : Option Metadata}
    (h : ∀ size, info.size = some size → ((row.filter (Metadata.isOf info size)).or
        (info.metadata size) = none ∧ (fresh.filter (Metadata.isOf info size)).or
        (info.metadata size) = none) ∨
      Compared scan path.text old (((row.filter (Metadata.isOf info size)).or
        (info.metadata size)).or row) (((fresh.filter (Metadata.isOf info size)).or
        (info.metadata size)).or fresh)) : Advances scan path info old row fresh := by
  unfold Advances storedMetadata
  cases hsize : info.size with
  | none => exact .inl ⟨rfl, rfl⟩
  | some size =>
    rw [Option.bind_some, Option.bind_some]
    split
    · exact .inl ⟨rfl, rfl⟩
    · exact h size hsize

theorem advances_kept (hfile : (path, info) ∈ scan.entries.files) (hold : old = some metadata)
    (hfresh : ∀ other ∈ fresh,
      other.fileSize = metadata.fileSize ∧ other.mtime = metadata.mtime) :
    Advances scan path info old (some metadata) fresh := by
  apply advances_of_accepted
  intro size hsize
  have hsame : ∀ other ∈ fresh, other.isOf info size = metadata.isOf info size := by
    intro other hother
    rw [Metadata.isOf, Metadata.isOf, (hfresh other hother).1, (hfresh other hother).2]
  by_cases hunchanged : metadata.isOf info size = true
  · right
    obtain ⟨hmtime, hfileSize⟩ := Metadata.isOf_eq_true.mp hunchanged
    rw [Option.filter_some_pos hunchanged, Option.some_or, Option.some_or]
    refine .kept metadata hold rfl ⟨_, hfile, rfl, by rw [hsize, hfileSize], hmtime.symm⟩ ?_
    intro other hother
    cases fresh with
    | some record =>
      rw [Option.filter_some_pos ((hsame record rfl).trans hunchanged), Option.some_or,
        Option.some_or] at hother
      exact hfresh other hother
    | none =>
      rw [Option.filter_none, Option.none_or, Option.or_none] at hother
      obtain ⟨hotherSize, hotherMtime⟩ := FileInfo.metadata_eq_some hother
      exact ⟨hotherSize.trans hfileSize.symm, hotherMtime.trans hmtime.symm⟩
  · rw [Bool.not_eq_true] at hunchanged
    have hrow : (some metadata).filter (Metadata.isOf info size) = none :=
      Option.filter_some_neg hunchanged
    have hfilter : fresh.filter (Metadata.isOf info size) = none := by
      cases fresh with
      | some record =>
        apply Option.filter_some_neg
        rw [hsame record rfl]
        exact hunchanged
      | none => rfl
    rw [hrow, hfilter, Option.none_or]
    cases hread : info.metadata size with
    | none => exact .inl ⟨rfl, rfl⟩
    | some read => exact .inr (.read read rfl rfl)

theorem advances_same (row : Option Metadata) : Advances scan path info old row row := by
  apply advances_of_accepted
  intro size hsize
  cases hread : (row.filter (Metadata.isOf info size)).or (info.metadata size) with
  | none => exact .inl ⟨rfl, rfl⟩
  | some read => exact .inr (.read read rfl rfl)

/-- A file is met in both walks. -/
theorem Compared.advances {row : Option Metadata} (hfile : (path, info) ∈ scan.entries.files)
    (h : row = old ∧ fresh = none ∨ Compared scan path.text old row fresh) :
    Advances scan path info old row fresh := by
  rcases h with ⟨rfl, rfl⟩ | h
  · cases row with
    | none => exact advances_same none
    | some metadata => exact advances_kept hfile rfl (by simp)
  · cases h with
    | read metadata hrow hfresh =>
      rw [hrow, hfresh]
      exact advances_same _
    | kept metadata hold hrow hdates hfresh =>
      rw [hrow]
      exact advances_kept hfile hold hfresh

end Compared

/-- A walk over a listing, and one over the same listing with an empty database, at the same point.
-/
structure Walk.Follows (xxh3 : List UInt8 → UInt64) (scan : Scan) (db : Db) (walk fresh : Walk) :
    Prop where
  ready : walk.Ready xxh3 scan db
  freshReady : fresh.Ready xxh3 scan Db.empty
  paths : ∀ path, (walk.pathToId path).isSome = (fresh.pathToId path).isSome
  books : ∀ path, (∀ other ∈ walk.ingested, other.text ≠ path) ∧
      walk.db.metadataAt path = db.metadataAt path ∧ fresh.db.metadataAt path = none ∨
    Compared scan path (db.metadataAt path) (walk.db.metadataAt path) (fresh.db.metadataAt path)

theorem Walk.Held.located {walk : Walk} (h : walk.Held scan) : walk.Located := by
  intro path id hpath
  obtain ⟨row, hrow, hid, -⟩ := h.folder path id hpath
  exact ⟨row, hrow, hid⟩

section Walks

variable {walk fresh : Walk}

theorem Walk.Follows.visitFile (h : Walk.Follows xxh3 scan db walk fresh) {dir : OsPath}
    {name : OsName} {info : FileInfo}
    (hfile : isSupported name = true → (dir ++ [name], info) ∈ scan.entries.files) :
    Walk.Follows xxh3 scan db (visitFile scan.started walk (dir ++ [name]) name info)
      (visitFile scan.started fresh (dir ++ [name]) name info) := by
  have hsteps : WalkSteps xxh3 scan.started scan.entries _ _ :=
    visitFile_steps walk dir name info hfile
  have hfreshSteps : WalkSteps xxh3 scan.started scan.entries _ _ :=
    visitFile_steps fresh dir name info hfile
  have hlocated := h.ready.held.located
  have hfreshLocated := h.freshReady.held.located
  obtain ⟨-, hpaths, -⟩ := visitFile_spec walk scan.started (dir ++ [name]) name info hlocated
  obtain ⟨-, hfreshPaths, -⟩ :=
    visitFile_spec fresh scan.started (dir ++ [name]) name info hfreshLocated
  obtain ⟨hingested, hrecords⟩ :=
    visitFile_metadataAt walk scan.started (dir ++ [name]) name info hlocated
  obtain ⟨-, hfreshRecords⟩ :=
    visitFile_metadataAt fresh scan.started (dir ++ [name]) name info hfreshLocated
  refine ⟨hsteps.ready h.ready, hfreshSteps.ready h.freshReady, fun path ↦ ?_, fun path ↦ ?_⟩
  · rw [hpaths, hfreshPaths, h.paths]
  rw [hingested, hrecords, hfreshRecords]
  by_cases hpath : path = (dir ++ [name]).text
  · subst hpath
    rw [if_pos rfl, if_pos rfl]
    have hadvances : (recordedBy walk (dir ++ [name]) name info = none ∧
        recordedBy fresh (dir ++ [name]) name info = none) ∨
        Compared scan (dir ++ [name]).text (db.metadataAt (dir ++ [name]).text)
          ((recordedBy walk (dir ++ [name]) name info).or (walk.db.metadataAt (dir ++ [name]).text))
          ((recordedBy fresh (dir ++ [name]) name info).or
            (fresh.db.metadataAt (dir ++ [name]).text)) := by
      unfold recordedBy
      rw [h.paths]
      split
      · next hmet =>
        exact Compared.advances (hfile hmet.1) ((h.books _).imp_left And.right)
      · exact .inl ⟨rfl, rfl⟩
    rcases hadvances with ⟨hrow, hfresh⟩ | hcompared
    · rw [hrow, hfresh, Option.none_or, Option.none_or]
      exact h.books _
    · exact .inr hcompared
  · rw [if_neg hpath, if_neg hpath]
    apply (h.books path).imp_left
    rintro ⟨hnone, hrest⟩
    refine ⟨fun other hother ↦ ?_, hrest⟩
    split at hother
    · rcases List.mem_cons.mp hother with rfl | hother
      · exact fun hsame ↦ hpath hsame.symm
      · exact hnone other hother
    · exact hnone other hother

theorem visitFolder_of_ne (walk : Walk) (started : ℕ) (path : OsPath) (info : FolderInfo) :
    (visitFolder xxh3 started walk path info).1.ingested = walk.ingested ∧
      ∀ other, other ≠ path →
        (visitFolder xxh3 started walk path info).1.pathToId other = walk.pathToId other := by
  unfold visitFolder
  split
  · exact ⟨rfl, fun _ _ ↦ rfl⟩
  · split
    · exact ⟨rfl, fun _ _ ↦ rfl⟩
    · exact ⟨rfl, fun other hother ↦ Function.update_of_ne hother _ _⟩

theorem visitFolder_of_not_stored {walk : Walk} {started : ℕ} {path : OsPath} {info : FolderInfo}
    (h : walk.pathToId path.dropLast = none ∨ info.fault = true) :
    (visitFolder xxh3 started walk path info).2 = (walk.pathToId path.dropLast).isNone ∧
      (visitFolder xxh3 started walk path info).1.pathToId = walk.pathToId := by
  unfold visitFolder
  split
  · next hnone => exact ⟨by rw [hnone]; rfl, rfl⟩
  · next parentId hparent =>
    have hfault : info.fault = true := h.resolve_left (by simp [hparent])
    rw [upsertFolder, if_pos hfault, hparent]
    exact ⟨rfl, rfl⟩

theorem Scan.SlugsDistinct.empty (h : scan.SlugsDistinct xxh3 db) :
    scan.SlugsDistinct xxh3 Db.empty :=
  fun first hfirst second hsecond ↦
    h first (List.mem_append_right _ hfirst) second (List.mem_append_right _ hsecond)

theorem Walk.Follows.visitFolder_isSome (h : Walk.Follows xxh3 scan db walk fresh)
    (hslugs : scan.SlugsDistinct xxh3 db) {dir : OsPath} {name : OsName} {info : FolderInfo}
    (hfolder : (dir ++ [name], info) ∈ scan.entries.folders) :
    (visitFolder xxh3 scan.started walk (dir ++ [name]) info).2 =
        (visitFolder xxh3 scan.started fresh (dir ++ [name]) info).2 ∧
      ((visitFolder xxh3 scan.started walk (dir ++ [name]) info).1.pathToId (dir ++ [name])).isSome =
        ((visitFolder xxh3 scan.started fresh (dir ++ [name]) info).1.pathToId
          (dir ++ [name])).isSome := by
  have hdrop : (dir ++ [name]).dropLast = dir := List.dropLast_concat
  have hparent := h.paths dir
  by_cases hstored : (walk.pathToId dir).isSome = true ∧ info.fault = false
  · obtain ⟨hdir, hfault⟩ := hstored
    have hinto := visitFolder_stores hslugs h.ready hdir hfolder hfault
    have hfreshInto := visitFolder_stores hslugs.empty h.freshReady (hparent ▸ hdir) hfolder hfault
    rw [hinto.1, hfreshInto.1, hinto.2, hfreshInto.2]
    exact ⟨rfl, rfl⟩
  · have hnot (other : Walk) (hother : (other.pathToId dir).isSome = (walk.pathToId dir).isSome) :
        other.pathToId (dir ++ [name]).dropLast = none ∨ info.fault = true := by
      rw [hdrop, ← Option.not_isSome_iff_eq_none, hother, ← Bool.not_eq_false info.fault]
      exact not_and_or.mp hstored
    obtain ⟨hinto, hpaths⟩ := @visitFolder_of_not_stored xxh3 walk scan.started _ info (hnot walk rfl)
    obtain ⟨hfreshInto, hfreshPaths⟩ :=
      @visitFolder_of_not_stored xxh3 fresh scan.started _ info (hnot fresh hparent.symm)
    rw [hinto, hfreshInto, hpaths, hfreshPaths, hdrop, ← Option.not_isSome, ← Option.not_isSome,
      hparent]
    exact ⟨rfl, h.paths _⟩

theorem Walk.Follows.visitFolder (h : Walk.Follows xxh3 scan db walk fresh)
    (hslugs : scan.SlugsDistinct xxh3 db) {dir : OsPath} {name : OsName} {info : FolderInfo}
    (hfolder : (dir ++ [name], info) ∈ scan.entries.folders) :
    Walk.Follows xxh3 scan db (visitFolder xxh3 scan.started walk (dir ++ [name]) info).1
      (visitFolder xxh3 scan.started fresh (dir ++ [name]) info).1 := by
  have hsteps := @visitFolder_steps xxh3 scan.started scan.entries walk dir name info hfolder
  have hfreshSteps := @visitFolder_steps xxh3 scan.started scan.entries fresh dir name info hfolder
  obtain ⟨hingested, hothers⟩ := @visitFolder_of_ne xxh3 walk scan.started (dir ++ [name]) info
  obtain ⟨-, hfreshOthers⟩ := @visitFolder_of_ne xxh3 fresh scan.started (dir ++ [name]) info
  refine ⟨hsteps.ready h.ready, hfreshSteps.ready h.freshReady, fun path ↦ ?_, fun path ↦ ?_⟩
  · by_cases hpath : path = dir ++ [name]
    · rw [hpath]
      exact (h.visitFolder_isSome hslugs hfolder).2
    · rw [hothers path hpath, hfreshOthers path hpath, h.paths]
  · unfold Db.metadataAt
    rw [hingested, Db.bookAt_of_books_eq (visitFolder_books walk _ _ _),
      Db.bookAt_of_books_eq (visitFolder_books fresh _ _ _)]
    exact h.books path

/-- The walks over a listing keep at the same point. -/
theorem Walk.Follows.visit (h : Walk.Follows xxh3 scan db walk fresh)
    (hslugs : scan.SlugsDistinct xxh3 db) {dir : OsPath} {listing : Listing}
    (hfolders : listing.folders isVisible dir ⊆ scan.entries.folders)
    (hfiles : listing.files isVisible dir ⊆ scan.entries.files) :
    Walk.Follows xxh3 scan db (visit xxh3 scan.started walk dir listing)
      (visit xxh3 scan.started fresh dir listing) := by
  induction listing generalizing walk fresh dir with
  | nil => exact h
  | error rest ih => exact ih h hfolders hfiles
  | other name rest ih => exact ih h hfolders hfiles
  | file name info rest ih =>
    rw [Listing.files, List.append_subset] at hfiles
    rw [Catalog.visit, Catalog.visit]
    apply ih _ hfolders hfiles.2
    split
    · exact h
    · next hhidden => exact h.visitFile (mem_of_file_subset hfiles.1 hhidden)
  | dir name info children rest ihChildren ihRest =>
    obtain ⟨hinside, hrestFolders, hrestFiles⟩ := subset_of_dir hfolders hfiles
    by_cases hvisible : isVisible name info = true
    · obtain ⟨hentry, hinFolders, hinFiles⟩ := hinside hvisible
      rw [visit_dir_of_visible hvisible, visit_dir_of_visible hvisible]
      apply ihRest _ hrestFolders hrestFiles
      have hentered := h.visitFolder hslugs hentry
      rw [visitDir, visitDir, (h.visitFolder_isSome hslugs hentry).1]
      split
      · exact ihChildren hentered hinFolders hinFiles
      · exact hentered
    · rw [visit_dir_of_not_visible hvisible, visit_dir_of_not_visible hvisible]
      exact ihRest h hrestFolders hrestFiles

end Walks

theorem Scan.exists_enter {start : Walk} (h : scan.enter xxh3 db = some start) :
    ∃ fresh, scan.enter xxh3 Db.empty = some fresh := by
  have hfault : scan.rootInfo.fault = false := by
    rw [← Bool.not_eq_true]
    intro hfault
    rw [enter, upsertFolder, if_pos hfault] at h
    simp at h
  obtain ⟨next, id, hupsert⟩ := @exists_upsertFolder xxh3 Db.empty scan.root none scan.name
    scan.started scan.rootInfo hfault (by simp) (by simp [Db.empty])
  rw [enter, hupsert]
  exact ⟨_, rfl⟩

/-- The walk over the database is followed by one over the empty database. -/
theorem Scan.walked_follows (hslug : ∀ row ∈ db.folders, row.slug = slugForPath xxh3 row.path)
    (hslugs : scan.SlugsDistinct xxh3 db) {walk : Walk} (h : scan.walked xxh3 db = some walk) :
    ∃ fresh, scan.walked xxh3 Db.empty = some fresh ∧ Walk.Follows xxh3 scan db walk fresh := by
  obtain ⟨start, hstart, rfl⟩ := Option.map_eq_some_iff.mp h
  obtain ⟨freshStart, hfreshStart⟩ := Scan.exists_enter hstart
  refine ⟨visit xxh3 scan.started freshStart scan.root scan.listing, ?_, ?_⟩
  · rw [walked, hfreshStart]
    rfl
  obtain ⟨rootId, coverVersion, hstored, -, hpaths, -, hingested⟩ := Scan.enter_spec hstart
  obtain ⟨freshId, freshVersion, hfreshStored, -, hfreshPaths, -, -⟩ :=
    Scan.enter_spec hfreshStart
  refine Walk.Follows.visit ⟨Scan.ready_enter hslug hstart,
    Scan.ready_enter (by simp [Db.empty]) hfreshStart, fun path ↦ ?_, fun path ↦ .inl ?_⟩ hslugs
    (List.Subset.refl _) (List.Subset.refl _)
  · rw [hpaths, hfreshPaths]
    by_cases hroot : path = scan.root
    · rw [hroot, Function.update_self, Function.update_self]
      rfl
    · rw [Function.update_of_ne hroot, Function.update_of_ne hroot]
  · unfold Db.metadataAt
    rw [hingested, Db.bookAt_of_books_eq hstored.books_eq,
      Db.bookAt_of_books_eq hfreshStored.books_eq]
    exact ⟨by simp, rfl, rfl⟩

/-- The scan meets a file at the path of which the record is made when it is read. -/
def Scan.Reads (scan : Scan) (path : PathText) (metadata : Metadata) : Prop :=
  ∃ entry ∈ scan.entries.files, entry.1.text = path ∧
    ∃ size, entry.2.size = some size ∧ entry.2.metadata size = some metadata

/-- Every record has been read by some scan. -/
theorem Run.reads {scans : List Scan} (h : Run xxh3 scans db) :
    ∀ row ∈ db.books, ∃ scan ∈ scans, scan.Reads row.path row.metadata := by
  have hrows : (∀ row ∈ db.folders, True) ∧
      ∀ row ∈ db.books, ∃ scan ∈ scans, scan.Reads row.path row.metadata := by
    induction h with
    | empty => simp [Db.empty]
    | @scan scans db next _ scan hnext ih =>
      apply @Scan.rows_induction xxh3 scan db next (fun _ ↦ True)
        (fun row ↦ ∃ earlier ∈ scans ++ [scan], earlier.Reads row.path row.metadata)
      · refine ⟨fun _ _ ↦ trivial, fun row hrow ↦ ?_⟩
        obtain ⟨earlier, hearlier, hreads⟩ := ih.2 row hrow
        exact ⟨earlier, List.mem_append_left _ hearlier, hreads⟩
      · exact fun _ _ _ _ _ _ _ ↦ trivial
      · exact fun _ _ _ ↦ trivial
      · intro state path name folderId info size row hold hfile hsize hstores
        cases hstores with
        | stamped old hmem hpath hunchanged => exact hold old hmem
        | written hash kind pageCount id addedAt hhash hkind hpages hpos hcount =>
          have hread : info.metadata size =
              some ⟨hash, kind.format, pageCount, size, info.mtime⟩ := by
            rw [FileInfo.metadata, hhash, hkind, hpages]
            exact if_neg (by omega)
          exact ⟨scan, List.mem_append_right _ List.mem_cons_self, _, hfile, rfl, size, hsize, hread⟩
      · exact hnext
  exact hrows.2

end ComicStream.Catalog
