import ComicStream.Catalog.Covers
import ComicStream.Server.Feeds
import ComicStream.Server.Thumbnails

/-!
# Folder covers

What stands for a folder is chosen twice: the scan chooses it to compute the cover
version, and the route chooses it to serve it. For the scan it is enough that the
path of the cover leads anywhere, while the route wants it to lead into the
library. Apart from this they choose alike, but the cover version of a file is no
more than the second in which it was modified.
-/

namespace ComicStream.Server

open Rust Archive Catalog

inductive CoverSource where
  | file (safe : OsPath)
  | thumbnail (book : BookRow)
  | nothing
  deriving DecidableEq

section Sources

variable (config : Config) (crates : Crates) (state : State)

/-- What `folder_cover` serves, or tries to, for the row. -/
def coverSource (folder : FolderRow) : CoverSource :=
  match folder.coverPath.bind fun cover ↦ state.fs.under config.libraryRoot cover.osPath with
  | some safe => .file safe
  | none =>
    match coverBook state.db folder.id with
    | some book => .thumbnail book
    | none => .nothing

/-- How `folder_cover` answers from there. -/
def CoverSource.answer : CoverSource → Response × State
  | .file safe => (serveFile state safe ((crates.mimeGuess safe).getD jpeg), state)
  | .thumbnail book => serveThumbnail config crates state book
  | .nothing => (.notFound, state)

/-- If the cover's path leads anywhere, it leads into the library. -/
def Enclosed (row : FolderRow) : Prop :=
  ∀ cover ∈ row.coverPath, (state.fs.stat cover.osPath).isSome = true →
    (state.fs.under config.libraryRoot cover.osPath).isSome = true

instance (row : FolderRow) : Decidable (Enclosed config state row) :=
  inferInstanceAs (Decidable (∀ cover ∈ row.coverPath, (state.fs.stat cover.osPath).isSome = true →
    (state.fs.under config.libraryRoot cover.osPath).isSome = true))

/-- The cover version names what `folder_cover` turns to, and how it then answers. -/
structure CoverAgrees (row : FolderRow) : Prop where
  answer : handle config crates state (.folderCover row.slug) =
    (coverSource config state row).answer config crates state
  file : ∀ mtime, row.coverVersion = some (coverToken mtime) ↔
    ∃ cover ∈ row.coverPath, ∃ safe, state.fs.under config.libraryRoot cover.osPath = some safe ∧
      coverSource config state row = .file safe ∧ mtimeSecs state.fs safe = mtime
  thumbnail : ∀ hash, (∀ mtime, hash ≠ coverToken mtime) → (row.coverVersion = some hash ↔
    ∃ book, coverSource config state row = .thumbnail book ∧ book.hash = hash ∧
      state.db.IsCoverBook row.id book)
  nothing : row.coverVersion = none ↔ coverSource config state row = .nothing
  notFound : (handle config crates state (.folderCover row.slug)).1 = .notFound ↔
    row.coverVersion = none ∨ ∃ book, coverSource config state row = .thumbnail book ∧
      state.thumbs book.hash = none ∧
      state.fs.under config.libraryRoot book.path.osPath = none

end Sources

variable {config : Config} {crates : Crates} {state : State}

theorem handle_folderCover {row : FolderRow} (hrow : row ∈ state.db.folders) :
    handle config crates state (.folderCover row.slug) =
      (coverSource config state row).answer config crates state := by
  have hslug : folderBySlug state.db row.slug = some row :=
    Table.find?_key state.db.valid.folder_slugs hrow
  rw [handle, folderCover, hslug]
  dsimp only
  unfold coverSource
  cases row.coverPath.bind fun cover ↦ state.fs.under config.libraryRoot cover.osPath with
  | some safe => rfl
  | none => cases coverBook state.db row.id <;> rfl

theorem serveFile_ne_notFound (path : OsPath) (mime : List Char) :
    serveFile state path mime ≠ .notFound := by
  unfold serveFile
  split <;> simp

theorem withPage_cases (hash : List Char) (path : PathText) (index : ℕ)
    (use : State → Sourced (List UInt8) → List Char → Response × State) :
    withPage config crates state hash path index use = (.notFound, state) ∧
        state.fs.under config.libraryRoot path.osPath = none ∨
      state.fs.under config.libraryRoot path.osPath ≠ none ∧ ∃ next,
        withPage config crates state hash path index use = (.internal, next) ∨
          ∃ body mime, withPage config crates state hash path index use = use next body mime := by
  rw [withPage, openArchive]
  cases state.fs.under config.libraryRoot path.osPath with
  | none => exact .inl ⟨rfl, rfl⟩
  | some safe =>
    refine .inr ⟨Option.some_ne_none safe, ?_⟩
    dsimp only
    generalize state.archiveCache.getOrOpen crates.reader state.fs hash safe = opened
    obtain ⟨_ | book, cache⟩ := opened
    · exact ⟨_, .inl rfl⟩
    · dsimp only
      cases book.readPage crates.reader state.fs index with
      | none => exact ⟨_, .inl rfl⟩
      | some page => exact ⟨_, .inr ⟨page.1, page.2, rfl⟩⟩

theorem serveCached_ne_notFound (cached : Option (Sourced (List UInt8))) :
    serveCached cached ≠ .notFound := by
  cases cached <;> simp [serveCached]

/-- A thumbnail is not found only if it is not there, and its archive not in the library. -/
theorem serveThumbnail_eq_notFound {book : BookRow} :
    (serveThumbnail config crates state book).1 = .notFound ↔
      state.thumbs book.hash = none ∧
        state.fs.under config.libraryRoot book.path.osPath = none := by
  unfold serveThumbnail
  cases hthumb : state.thumbs book.hash with
  | some body => simp [serveCached]
  | none =>
    rw [and_iff_right rfl]
    dsimp only
    rcases @withPage_cases config crates state book.hash book.path 0 _ with
      ⟨hpage, hunder⟩ | ⟨hunder, next, hpage | ⟨body, mime, hpage⟩⟩
    · rw [hpage]
      exact iff_of_true rfl hunder
    · rw [hpage]
      exact iff_of_false (by simp) hunder
    · rw [hpage]
      refine iff_of_false ?_ hunder
      split
      · exact serveCached_ne_notFound _
      · simp

theorem isCoverBook_of_coverBook (hforest : Forest state.db) {row : FolderRow}
    (hrow : row ∈ state.db.folders) {book : BookRow} (h : coverBook state.db row.id = some book) :
    state.db.IsCoverBook row.id book := by
  unfold coverBook at h
  split at h
  · next found hfound =>
    rw [← Option.some.inj h]
    exact .inl (isFirstBook_of_firstBySortKey hfound)
  · next hnone =>
    obtain ⟨ids, hids, -, hbelow⟩ := hforest.subtree_spec hrow
    rw [hids, Option.bind_some] at h
    have hfirst := isFirstBook_of_firstBySortKey h
    refine .inr ⟨fun other hother hsame ↦ ?_, hfirst.mem, (hbelow _).mp hfirst.folder, ?_⟩
    · have hmem : other ∈ state.db.books.filter (·.folderId = row.id) := by simpa using ⟨hother, hsame⟩
      rw [firstBySortKey_eq_none hnone] at hmem
      exact List.not_mem_nil hmem
    · exact fun other hother hfolder ↦ hfirst.first other hother ((hbelow _).mpr hfolder)

/-- The scan chooses a book as the route does. -/
theorem coverVersion_eq (hforest : Forest state.db) {row : FolderRow}
    (hrow : row ∈ state.db.folders) {mtimes : PathText → Option ℕ}
    (h : Versioned mtimes state.db row) :
    row.coverVersion = match row.coverPath.bind mtimes with
      | some mtime => some (coverToken mtime)
      | none => (coverBook state.db row.id).map BookRow.hash := by
  obtain ⟨ids, hids, -⟩ := hforest.subtree_spec hrow
  unfold Versioned coverVersionFor at h
  rw [hids] at h
  apply Option.some.inj
  rw [← h]
  cases row.coverPath.bind mtimes with
  | some mtime => exact congrArg (fun text ↦ some (some ('p' :: text))) String.toList_ofList
  | none =>
    dsimp only
    unfold coverBook
    rw [hids]
    cases firstBySortKey (state.db.books.filter (·.folderId = row.id)) <;> rfl

/-- A scan of the library as it is returns `Ok`. -/
def ScanReturns (config : Config) (crates : Crates) (state : State) (started : ℕ)
    (faults : OsPath → Bool) : Prop :=
  ((scanOf config crates state started faults).complete crates.xxh3 state.db).isSome = true

instance (started : ℕ) (faults : OsPath → Bool) :
    Decidable (ScanReturns config crates state started faults) :=
  inferInstanceAs (Decidable (((scanOf config crates state started faults).complete crates.xxh3
    state.db).isSome = true))

/-- The catalog is a forest with content hashes, and its cover versions are of the library as it
is. -/
structure JustScanned (crates : Crates) (state : State) : Prop where
  forest : Forest state.db
  versioned : ∀ row ∈ state.db.folders, Versioned (coverMtime state.fs) state.db row
  hashes : ∀ book ∈ state.db.books, ∃ bytes, book.hash = crates.blake3 bytes

theorem hashes_stateAfter (fs : Fs) (events : List Event) :
    ∀ book ∈ (stateAfter config crates fs events).db.books,
      ∃ bytes, book.hash = crates.blake3 bytes := by
  refine @Machine.run_invariant State Event (step config crates)
    (fun state ↦ ∀ book ∈ state.db.books, ∃ bytes, book.hash = crates.blake3 bytes)
    (fun state event hstate ↦ ?_) _ events (by simp [State.start, Db.empty])
  rcases @step_db config crates state event with hsame | ⟨started, faults, hnext⟩
  · rw [hsame]
    exact hstate
  · refine (@Scan.rows_induction crates.xxh3 _ _ _ (fun _ ↦ True)
      (fun book ↦ ∃ bytes, book.hash = crates.blake3 bytes) ⟨fun _ _ ↦ trivial, hstate⟩
      (fun _ _ _ _ _ _ _ ↦ trivial) (fun _ _ _ ↦ trivial) ?_ hnext).2
    intro db path name folderId info size row hrows hfile hsize hstores
    cases hstores with
    | stamped old hold hpath hunchanged => exact hrows old hold
    | written hash kind pageCount id addedAt hhash hkind hpages hpos hmax =>
      have hinfo : info = fileInfo crates.toTools faults state.fs path := info_of_mem_files hfile
      rw [hinfo] at hhash
      obtain ⟨content, -, rfl⟩ := Option.map_eq_some_iff.mp hhash
      exact ⟨content.value, rfl⟩

theorem ScanReturns.exists_walk {fs : Fs} {events : List Event} {started : ℕ}
    {faults : OsPath → Bool}
    (h : ScanReturns config crates (stateAfter config crates fs events) started faults) :
    ∃ walk, (scanOf config crates (stateAfter config crates fs events) started faults).complete
        crates.xxh3 (stateAfter config crates fs events).db = some walk ∧
      (stateAfter config crates fs (events ++ [.scan started faults none])).db = walk.db ∧
      (stateAfter config crates fs (events ++ [.scan started faults none])).fs =
        (stateAfter config crates fs events).fs := by
  obtain ⟨walk, hwalk⟩ := Option.isSome_iff_exists.mp h
  have hstate : stateAfter config crates fs (events ++ [.scan started faults none]) =
      scanned config crates (stateAfter config crates fs events) started faults :=
    Machine.run_snoc _ _ _ _
  have hscanned := scanned_eq hwalk
  rw [← hstate] at hscanned
  exact ⟨walk, hwalk, hscanned.db_eq, hscanned.fs_eq⟩

theorem justScanned_of_scanReturns {fs : Fs} {events : List Event} {started : ℕ}
    {faults : OsPath → Bool}
    (h : ScanReturns config crates (stateAfter config crates fs events) started faults) :
    JustScanned crates (stateAfter config crates fs (events ++ [.scan started faults none])) := by
  obtain ⟨walk, hwalk, hdb, hfs⟩ := h.exists_walk
  obtain ⟨scans, -, hrun⟩ := exists_run config crates fs events
  refine ⟨?_, ?_, hashes_stateAfter fs _⟩
  · rw [hdb]
    exact (hrun.complete hwalk).forest
  · rw [hdb, hfs]
    exact Scan.complete_versioned hrun hwalk

/-! ## Agreement -/

theorem under_spec {fs : Fs} {root path safe : OsPath} (h : fs.under root path = some safe) :
    fs.stat safe = fs.stat path ∧ fs.read safe = fs.read path ∧ (fs.stat path).isSome = true := by
  have hpath := (Fs.under_eq_some.mp h).1
  have hplain := Fs.plain_of_canonicalize hpath
  have hnode : (fs.nodeAt safe).isSome = true := by
    rcases List.eq_nil_or_concat safe with rfl | ⟨dir, name, rfl⟩
    · rfl
    · rw [List.concat_eq_append] at hplain ⊢
      obtain ⟨node, hnode, -⟩ := hplain dir name (List.prefix_refl _)
      rw [hnode]
      rfl
  refine ⟨?_, ?_, ?_⟩
  · rw [Fs.stat, Fs.stat, hplain.canonicalize, hpath]
  · rw [Fs.read, Fs.read, hplain.canonicalize, hpath]
  · rw [Fs.stat, hpath, Option.bind_some]
    exact hnode

theorem mtimeSecs_of_under {fs : Fs} {root path safe : OsPath}
    (h : fs.under root path = some safe) : mtimeSecs fs safe = mtimeSecs fs path := by
  rw [mtimeSecs, mtimeSecs, (under_spec h).1]

theorem coverMtime_of_under {fs : Fs} {root safe : OsPath} {cover : PathText}
    (h : fs.under root cover.osPath = some safe) :
    coverMtime fs cover = some (mtimeSecs fs safe) := by
  obtain ⟨node, hnode⟩ := Option.isSome_iff_exists.mp (under_spec h).2.2
  rw [coverMtime, hnode, Option.map_some, mtimeSecs_of_under h]

theorem coverSource_of_under {row : FolderRow} {cover : PathText} {safe : OsPath}
    (hcover : cover ∈ row.coverPath)
    (h : state.fs.under config.libraryRoot cover.osPath = some safe) :
    coverSource config state row = .file safe := by
  rw [coverSource, Option.mem_def.mp hcover, Option.bind_some, h]

/-- Without a file that the scan can find, the route does not find one either. -/
theorem coverSource_of_coverMtime {row : FolderRow}
    (h : row.coverPath.bind (coverMtime state.fs) = none) :
    coverSource config state row = match coverBook state.db row.id with
      | some book => .thumbnail book
      | none => .nothing := by
  have hunder : (row.coverPath.bind fun cover ↦
      state.fs.under config.libraryRoot cover.osPath) = none := by
    rw [Option.bind_eq_none_iff] at h ⊢
    intro cover hcover
    rw [Option.eq_none_iff_forall_ne_some]
    intro safe hsafe
    have hmtime := h cover hcover
    rw [coverMtime_of_under hsafe] at hmtime
    exact Option.some_ne_none _ hmtime
  rw [coverSource, hunder]

/-- What the route turns to, and the cover version with it. -/
inductive CoverCase (config : Config) (state : State) (row : FolderRow) : Prop
  | file (cover : PathText) (safe : OsPath) (hcover : cover ∈ row.coverPath)
      (hsafe : state.fs.under config.libraryRoot cover.osPath = some safe)
      (hsource : coverSource config state row = .file safe)
      (hversion : row.coverVersion = some (coverToken (mtimeSecs state.fs safe)))
  | thumbnail (book : BookRow) (hbook : coverBook state.db row.id = some book)
      (hsource : coverSource config state row = .thumbnail book)
      (hversion : row.coverVersion = some book.hash)
  | nothing (hsource : coverSource config state row = .nothing) (hversion : row.coverVersion = none)

theorem JustScanned.coverCase (h : JustScanned crates state) {row : FolderRow}
    (hrow : row ∈ state.db.folders) (hrowEnclosed : Enclosed config state row) :
    CoverCase config state row := by
  have hversion := coverVersion_eq h.forest hrow (h.versioned row hrow)
  cases hmtime : row.coverPath.bind (coverMtime state.fs) with
  | some mtime =>
    rw [hmtime] at hversion
    obtain ⟨cover, hcover, hfound⟩ := Option.bind_eq_some_iff.mp hmtime
    have hstat : (state.fs.stat cover.osPath).isSome = true := by
      obtain ⟨node, hnode, -⟩ := Option.map_eq_some_iff.mp hfound
      rw [hnode]
      rfl
    obtain ⟨safe, hsafe⟩ := Option.isSome_iff_exists.mp (hrowEnclosed cover hcover hstat)
    rw [coverMtime_of_under hsafe, Option.some.injEq] at hfound
    exact .file cover safe hcover hsafe (coverSource_of_under hcover hsafe) (hfound ▸ hversion)
  | none =>
    have hsource := @coverSource_of_coverMtime config _ _ hmtime
    rw [hmtime] at hversion
    cases hbook : coverBook state.db row.id with
    | some book =>
      rw [hbook] at hsource hversion
      exact .thumbnail book hbook hsource hversion
    | none =>
      rw [hbook] at hsource hversion
      exact .nothing hsource hversion

theorem JustScanned.hash_ne (h : JustScanned crates state)
    (hblake : ∀ bytes, (crates.blake3 bytes).head? ≠ some 'p') {book : BookRow}
    (hbook : book ∈ state.db.books) (mtime : ℕ) : book.hash ≠ coverToken mtime := by
  obtain ⟨bytes, hbytes⟩ := h.hashes book hbook
  intro hsame
  apply hblake bytes
  rw [← hbytes, hsame]
  rfl

/-- In the library as it was scanned, the cover version names what the route turns to. -/
theorem JustScanned.coverAgrees (h : JustScanned crates state)
    (hblake : ∀ bytes, (crates.blake3 bytes).head? ≠ some 'p') {row : FolderRow}
    (hrow : row ∈ state.db.folders) (hrowEnclosed : Enclosed config state row) :
    CoverAgrees config crates state row := by
  have hanswer := @handle_folderCover config crates state row hrow
  cases h.coverCase hrow hrowEnclosed with
  | file cover safe hcover hsafe hsource hversion =>
    constructor
    · exact hanswer
    · intro mtime
      rw [hversion, Option.some.injEq, coverToken_injective.eq_iff]
      constructor
      · exact fun hmtime ↦ ⟨cover, hcover, safe, hsafe, hsource, hmtime⟩
      · rintro ⟨other, -, found, -, hfound, hmtime⟩
        obtain rfl : safe = found := CoverSource.file.inj (hsource.symm.trans hfound)
        exact hmtime
    · intro hash hhash
      rw [hversion, hsource]
      exact iff_of_false (fun hsame ↦ hhash _ (Option.some.inj hsame).symm) (by simp)
    · rw [hversion, hsource]
      exact iff_of_false (by simp) (by simp)
    · rw [hanswer, hversion, hsource]
      exact iff_of_false (serveFile_ne_notFound _ _) (by simp)
  | thumbnail book hbook hsource hversion =>
    have hne := h.hash_ne hblake (isCoverBook_of_coverBook h.forest hrow hbook).mem
    constructor
    · exact hanswer
    · intro mtime
      rw [hversion, hsource, Option.some.injEq]
      exact iff_of_false (hne mtime) (by simp)
    · intro hash hhash
      rw [hversion, hsource, Option.some.injEq]
      constructor
      · exact fun hsame ↦ ⟨book, rfl, hsame, isCoverBook_of_coverBook h.forest hrow hbook⟩
      · rintro ⟨other, hother, hsame, -⟩
        rw [CoverSource.thumbnail.inj hother]
        exact hsame
    · rw [hversion, hsource]
      exact iff_of_false (by simp) (by simp)
    · rw [hanswer, hversion, hsource]
      refine serveThumbnail_eq_notFound.trans ?_
      simp
  | nothing hsource hversion =>
    refine ⟨hanswer, fun mtime ↦ ?_, fun hash hhash ↦ ?_, ?_, ?_⟩
    · rw [hversion, hsource]
      exact iff_of_false (by simp) (by simp)
    · rw [hversion, hsource]
      exact iff_of_false (by simp) (by simp)
    · exact iff_of_true hversion hsource
    · rw [hanswer, hsource]
      exact iff_of_true rfl (.inl hversion)

theorem plain_of_mem_folders_listingOf {tools : Tools} {faults : OsPath → Bool} {fs : Fs}
    {passes : OsName → FolderInfo → Bool} {dir : OsPath} {entries : Fs.Dir}
    (hfound : Found fs dir entries) {entry : OsPath × FolderInfo}
    (h : entry ∈ (listingOf tools faults fs dir entries).folders passes dir) :
    dir <+: entry.1 ∧ Fs.Plain fs entry.1 := by
  induction entries generalizing dir with
  | nil => simp [listingOf, Listing.folders] at h
  | file name content rest ih => exact ih hfound.file.1 h
  | symlink name target rest ih => exact ih hfound.symlink h
  | special name mtime rest ih => exact ih hfound.special h
  | dir name mtime listable children rest ihChildren ihRest =>
    rw [listingOf, Listing.folders, List.mem_append] at h
    rcases h with h | h
    · split at h
      · rcases List.mem_cons.mp h with rfl | h
        · exact ⟨List.prefix_append _ _, hfound.dir.2.plain⟩
        · split at h
          · have hbelow := ihChildren hfound.dir.2 h
            exact ⟨(List.prefix_append _ _).trans hbelow.1, hbelow.2⟩
          · simp [Listing.folders] at h
      · simp at h
    · exact ihRest hfound.dir.1 h

theorem plain_of_meets {tools : Tools} {faults : OsPath → Bool} {fs : Fs} {root path : OsPath}
    {name : Option (List Char)} {started : ℕ} {info : FolderInfo}
    (hroot : fs.canonicalize root = some root)
    (h : (Scan.ofFs tools faults fs root name started).Meets path info) :
    root <+: path ∧ Fs.Plain fs path ∧ info = folderInfo faults fs path := by
  rcases h with ⟨rfl, rfl⟩ | h
  · exact ⟨List.prefix_refl _, Fs.plain_of_canonicalize hroot, rfl⟩
  · have hinfo : info = folderInfo faults fs path := of_mem_folders h
    change (path, info) ∈ (listing tools faults fs root).folders isVisible root at h
    unfold listing at h
    split at h
    · next mtime entries hstat =>
      rw [Fs.stat, hroot, Option.bind_some] at hstat
      obtain ⟨hinside, hplain⟩ := plain_of_mem_folders_listingOf
        (found_of_nodeAt (Fs.plain_of_canonicalize hroot) hstat) h
      exact ⟨hinside, hplain, hinfo⟩
    · simp [Listing.folders] at h

theorem under_of_findCover {fs : Fs} {root path : OsPath} (hinside : root <+: path)
    (hplain : Fs.Plain fs path) (hutf8 : path.IsUtf8) {cover : PathText}
    (h : findCover fs path = some cover) : fs.under root cover.osPath = some cover.osPath := by
  obtain ⟨name, hname, hfile⟩ := List.exists_of_findSome?_eq_some h
  have hascii : ∃ text, name = utf8 text := by
    simp only [coverNames, List.mem_cons, List.not_mem_nil, or_false] at hname
    rcases hname with rfl | rfl | rfl | rfl | rfl <;> exact ⟨_, rfl⟩
  obtain ⟨text, rfl⟩ := hascii
  obtain ⟨folder, rfl⟩ := hutf8
  split at hfile
  · next content hnode =>
    rw [Fs.lstat, List.dropLast_concat, hplain.canonicalize, Option.bind_some,
      List.getLast?_concat, Option.toList_some] at hnode
    have hpath : PathText.osPath folder ++ [utf8 text] = PathText.osPath (folder ++ [text]) := by
      simp [PathText.osPath]
    have hcover : cover = folder ++ [text] := by
      rw [← Option.some.inj hfile, hpath, PathText.text_osPath]
    rw [hcover, ← hpath, Fs.under_eq_some]
    exact ⟨(hplain.snoc hnode (by simp)).canonicalize, hinside.trans (List.prefix_append _ _)⟩
  · simp at hfile

/-- A row whose directory the scan has met, at a path of UTF-8 names, has a cover in the library. -/
theorem enclosed_of_meets {started : ℕ} {faults : OsPath → Bool}
    (hroot : state.fs.canonicalize config.libraryRoot = some config.libraryRoot) {row : FolderRow}
    {path : OsPath} {info : FolderInfo}
    (hmet : (scanOf config crates state started faults).Meets path info) (hutf8 : path.IsUtf8)
    (hcover : row.coverPath = info.coverPath) : Enclosed config state row := by
  obtain ⟨hinside, hplain, rfl⟩ := plain_of_meets hroot hmet
  intro cover hmem hstat
  rw [hcover] at hmem
  rw [under_of_findCover hinside hplain hutf8 hmem]
  rfl

/-- **Cover sources.** Right after a scan that returns `Ok`, the cover version of a folder names what
`folder_cover` turns to, a file, the thumbnail of a book or nothing, unless the path of the folder's
cover leads out of the library. It does not if the scan has met the folder's directory, at a path
of UTF-8 names. -/
theorem cover_sources (hblake : ∀ bytes, (crates.blake3 bytes).head? ≠ some 'p') {fs : Fs}
    {events : List Event} {started : ℕ} {faults : OsPath → Bool} {before state : State}
    (hbefore : before = stateAfter config crates fs events)
    (h : ScanReturns config crates before started faults)
    (hstate : state = stateAfter config crates fs (events ++ [.scan started faults none])) :
    (∀ row ∈ state.db.folders, Enclosed config state row → CoverAgrees config crates state row) ∧
    (state.fs.canonicalize config.libraryRoot = some config.libraryRoot →
      ∀ row ∈ state.db.folders,
        (∀ path info, (scanOf config crates before started faults).Meets path info →
          path.text = row.path → path.IsUtf8) →
        Enclosed config state row ∨ started ≤ row.seenAt ∧
          ∃ old ∈ before.db.folders, ∃ coverVersion,
            row = { old with coverVersion := coverVersion }) := by
  subst hbefore hstate
  refine ⟨fun row hrow ↦ (justScanned_of_scanReturns h).coverAgrees hblake hrow, ?_⟩
  intro hroot row hrow hutf8
  obtain ⟨walk, hwalk, hdb, hfs⟩ := h.exists_walk
  rw [hdb] at hrow
  apply (Scan.complete_coverPath hwalk row hrow).imp_left
  rintro ⟨path, info, hmet, hpath, hcover⟩
  have hscan : scanOf config crates (stateAfter config crates fs events) started faults =
      scanOf config crates (stateAfter config crates fs (events ++ [.scan started faults none]))
        started faults := by
    rw [scanOf, scanOf, hfs]
  exact enclosed_of_meets hroot (hscan ▸ hmet) (hutf8 path info hmet hpath.symm) hcover

/-- A library in which the cover of `a` cannot be read, the archive in `b` has a name that is not
UTF-8, and the name of a third folder with a cover is stored as that of a link to another place. -/
def oddFs : Fs where
  mtime := 0
  entries := .dir (ascii "lib") 0 true
    (.dir (ascii "a") 0 true (.file (ascii "cover.jpg") ⟨jpegOf 43, 5, false⟩ .nil)
      (.dir (ascii "b") 0 true (.file (255 :: ascii ".cbz") ⟨darkZip, 5, true⟩ .nil)
        (.symlink [239, 191, 189] ⟨true, [.name (ascii "out")]⟩
          (.dir [255] 0 true (.file (ascii "cover.jpg") ⟨jpegOf 43, 7, true⟩ .nil) .nil))))
    (.dir (ascii "out") 0 true (.file (ascii "cover.jpg") ⟨jpegOf 90, 6, true⟩ .nil) .nil)
  distinct := by rfl

/-- The cover version of a folder, and the answer to the request for its cover. -/
def coverAnswer (config : Config) (crates : Crates) (state : State) (row : FolderRow) :
    Option (List Char) × Response :=
  (row.coverVersion, (handle config crates state (.folderCover row.slug)).1)

abbrev oddState : State :=
  stateAfter Config.sample Crates.replaced oddFs [.scan 10 (fun _ ↦ false) none]

set_option maxRecDepth 4000 in
/-- None of these folders is served what its cover version names: the file of `a` and the thumbnails
for the root and `b` end in errors, and for the third folder there is nothing, while its cover
version names the file that the link leads to. -/
theorem odd_covers :
    ScanReturns Config.sample Crates.replaced
      (stateAfter Config.sample Crates.replaced oddFs []) 10 (fun _ ↦ false) ∧
    oddState.db.folders.map (coverAnswer Config.sample Crates.replaced oddState) =
      [(some darkHash, .notFound), (some (coverToken 5), .internal), (some darkHash, .notFound),
        (some (coverToken 6), .notFound)] ∧
    (oddState.db.folders.map (coverSource Config.sample oddState))[3]? = some .nothing :=
  ⟨by decide +kernel, by decide +kernel, by decide +kernel⟩

/-- A library with a cover in `a`, and an archive in `b`. -/
def coverFs (shade : UInt8) (mtime : ℕ) : Fs where
  mtime := 0
  entries := .dir (ascii "lib") 0 true
    (.dir (ascii "a") 0 true (.file (ascii "cover.jpg") ⟨jpegOf shade, mtime, true⟩ .nil)
      (.dir (ascii "b") 0 true (.file (ascii "1.cbz") ⟨darkZip, 5, true⟩ .nil) .nil)) .nil
  distinct := by rfl

theorem head?_replaced (bytes : List UInt8) : (Crates.replaced.blake3 bytes).head? ≠ some 'p' := by
  change (if bytes = darkZip then darkHash
    else if bytes = lightZip then lightHash else 'x' :: bytes.map Char.ofUInt8).head? ≠ some 'p'
  split
  · decide
  · split
    · decide
    · simp

abbrev coverState : State :=
  stateAfter Config.sample Crates.replaced (coverFs 43 5) [.scan 10 (fun _ ↦ false) none]

set_option maxRecDepth 4000 in
/-- A cover, a book further down and a book of the folder itself are served. -/
theorem cover_sources_plain :
    coverState.db.folders.map FolderRow.coverVersion =
      [some darkHash, some (coverToken 5), some darkHash] ∧
    ∀ row ∈ coverState.db.folders, CoverAgrees Config.sample Crates.replaced coverState row := by
  have hscan : ScanReturns Config.sample Crates.replaced
      (stateAfter Config.sample Crates.replaced (coverFs 43 5) []) 10 (fun _ ↦ false) := by
    decide +kernel
  have hnames : ∀ entry ∈ (scanOf Config.sample Crates.replaced (stateAfter Config.sample
      Crates.replaced (coverFs 43 5) []) 10 (fun _ ↦ false)).entries.folders, entry.1.IsUtf8 := by
    decide +kernel
  have hutf8 (row : FolderRow) (path : OsPath) (info : FolderInfo)
      (hmet : (scanOf Config.sample Crates.replaced (stateAfter Config.sample Crates.replaced
        (coverFs 43 5) []) 10 (fun _ ↦ false)).Meets path info) (_ : path.text = row.path) :
      path.IsUtf8 := by
    rcases hmet with ⟨rfl, -⟩ | hmem
    · decide
    · exact hnames _ hmem
  have hsources := cover_sources head?_replaced rfl hscan rfl
  refine ⟨by decide +kernel, fun row hrow ↦ hsources.1 row hrow ?_⟩
  rcases hsources.2 (by decide +kernel) row hrow (hutf8 row) with henclosed | ⟨-, old, hold, -⟩
  · exact henclosed
  · exact absurd hold List.not_mem_nil

end ComicStream.Server
