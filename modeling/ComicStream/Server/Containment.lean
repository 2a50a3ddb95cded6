import ComicStream.Catalog.Prune
import ComicStream.Foundation.Machine
import ComicStream.Server.Steps

/-!
# Containment in the library

What a server keeps of the contents of files (descriptions and thumbnails) and
what it answers comes from files below the library root, in every run in which
three kinds of paths lead to no file outside: the descriptions in the directories
a scan walks, the paths of the rows that a scan generates thumbnails for, and the
path that a cached archive was opened at when it is used again. Everything else
is checked by the server itself.
-/

namespace ComicStream.Server

open Rust Archive Catalog Machine

/-- If the path leads to a file, then to one below the root. -/
def ReadsInside (fs : Fs) (root path : OsPath) : Prop :=
  ∀ content ∈ fs.read path, root <+: content.source

instance (fs : Fs) (root path : OsPath) : Decidable (ReadsInside fs root path) :=
  decidable_of_iff ((fs.read path).all (root.isPrefixOf ·.source) = true) <| by
    rw [ReadsInside]
    cases fs.read path <;> simp

/-- The files whose bytes a response holds. -/
def Response.sources : Response → List OsPath
  | .feed folders _ => folders.filterMap fun row ↦ row.description.map Sourced.source
  | .content body _ => [body.source]
  | .notFound => []
  | .internal => []

/-- The contents that the server keeps come from files below the root. -/
structure Contained (root : OsPath) (state : State) : Prop where
  descriptions : ∀ row ∈ state.db.folders, ∀ description ∈ row.description,
    root <+: description.source
  thumbs : ∀ hash, ∀ thumb ∈ state.thumbs hash, root <+: thumb.source
  pageThumbs : ∀ key, ∀ thumb ∈ state.pageThumbs key, root <+: thumb.source

theorem contained_start (config : Config) (fs : Fs) :
    Contained config.libraryRoot (State.start config fs) where
  descriptions := by simp [State.start, Db.empty]
  thumbs := by simp [State.start]
  pageThumbs := by simp [State.start]

/-- A response from files below the root, and a state that keeps no other contents. -/
structure Answers (root : OsPath) (result : Response × State) : Prop where
  sources : ∀ source ∈ result.1.sources, root <+: source
  contained : Contained root result.2

/-- The directories that a scan of the library can walk. -/
def walkedFolders (config : Config) (crates : Crates) (state : State) (started : ℕ)
    (faults : OsPath → Bool) : List OsPath :=
  config.libraryRoot :: (scanOf config crates state started faults).entries.folders.map Prod.fst

/-- The paths that a scan may open to generate thumbnails: those of the files it meets, as they
are stored, and of the rows it does not delete. -/
def prewarmPaths (config : Config) (crates : Crates) (state : State) (started : ℕ)
    (faults : OsPath → Bool) : List PathText :=
  (scanOf config crates state started faults).entries.files.map (·.1.text) ++
    (state.db.books.filter (started ≤ ·.seenAt)).map BookRow.path

/-- The paths that are not checked lead to no file outside the library. -/
def Guarded (config : Config) (crates : Crates) (state : State) : Event → Prop
  | .change _ => True
  | .scan started faults stop =>
    (∀ folder ∈ walkedFolders config crates state started faults, ∀ name ∈ descriptionNames,
      ReadsInside state.fs config.libraryRoot (folder ++ [name])) ∧
    (config.prewarmThumbnails = true → stop = none →
      ∀ path ∈ prewarmPaths config crates state started faults,
        ReadsInside state.fs config.libraryRoot path.osPath)
  | .request request =>
    ∀ row ∈ archiveRow config state request, ∀ book ∈ state.archiveCache.peek row.hash,
      ReadsInside state.fs config.libraryRoot book.path

variable {config : Config} {crates : Crates} {state : State}

theorem readsInside_of_under {fs : Fs} {root candidate safe : OsPath}
    (h : fs.under root candidate = some safe) : ReadsInside fs root safe := by
  intro content hcontent
  obtain ⟨hresolved, hroot⟩ := Fs.under_eq_some.mp h
  rw [Fs.source_eq_of_plain (Fs.plain_of_canonicalize hresolved) hcontent]
  exact hroot

theorem ReadsInside.page {fs : Fs} {root : OsPath} {reader : Reader} {book : Book} {index : ℕ}
    {page : Sourced (List UInt8) × List Char} (h : ReadsInside fs root book.path)
    (hpage : book.readPage reader fs index = some page) : root <+: page.1.source := by
  obtain ⟨content, hread, hsource⟩ := exists_read_of_readPage hpage
  rw [hsource]
  exact h content hread

/-- The archive that a route works with is read from below the root. -/
theorem openArchive_readsInside {hash : List Char} {path : PathText} {book : Book}
    (hguard : ∀ book ∈ state.archiveCache.peek hash,
      ReadsInside state.fs config.libraryRoot book.path)
    (h : (openArchive config crates state hash path).1 = .ok book) :
    ReadsInside state.fs config.libraryRoot book.path := by
  obtain ⟨safe, hsafe, hcached | hopen⟩ := openArchive_eq_ok h
  · exact hguard book (Lru.peek_eq_some.mpr hcached)
  · rw [path_of_openBook hopen]
    exact readsInside_of_under hsafe

theorem openArchive_error {hash : List Char} {path : PathText} {response : Response}
    (h : (openArchive config crates state hash path).1 = .error response) :
    response.sources = [] := by
  unfold openArchive at h
  split at h
  · rw [← Except.error.inj h]
    rfl
  · dsimp only at h
    split at h
    · simp at h
    · rw [← Except.error.inj h]
      rfl

theorem Contained.cache {root : OsPath} (h : Contained root state) (cache : Cache) :
    Contained root { state with archiveCache := cache } :=
  ⟨h.descriptions, h.thumbs, h.pageThumbs⟩

theorem Contained.answers {root : OsPath} (h : Contained root state) {response : Response}
    (hresponse : response.sources = []) : Answers root (response, state) where
  sources source hsource := by simp [hresponse] at hsource
  contained := h

/-- A route that reads a page answers from below the root, if what it makes of pages from there
does. -/
theorem withPage_answers {hash : List Char} {path : PathText} {index : ℕ}
    {use : State → Sourced (List UInt8) → List Char → Response × State}
    (h : Contained config.libraryRoot state)
    (hguard : ∀ book ∈ state.archiveCache.peek hash,
      ReadsInside state.fs config.libraryRoot book.path)
    (huse : ∀ cache body mime, config.libraryRoot <+: body.source →
      Answers config.libraryRoot (use { state with archiveCache := cache } body mime)) :
    Answers config.libraryRoot (withPage config crates state hash path index use) := by
  obtain ⟨cache, hnext⟩ := @openArchive_snd config crates state hash path
  unfold withPage
  split
  · next response next hopen =>
    rw [hopen] at hnext
    obtain rfl : next = _ := hnext
    exact (h.cache cache).answers (openArchive_error (by rw [hopen]))
  · next book next hopen =>
    rw [hopen] at hnext
    obtain rfl : next = _ := hnext
    have hinside := openArchive_readsInside hguard (by rw [hopen])
    split
    · next body mime hpage => exact huse cache body mime (hinside.page hpage)
    · exact (h.cache cache).answers rfl

theorem writeResized_source {source thumb : Sourced (List UInt8)} {width : ℕ}
    (h : writeResized crates source width = some thumb) : thumb.source = source.source := by
  unfold writeResized at h
  split at h
  · simp at h
  · obtain ⟨bytes, -, rfl⟩ := Option.map_eq_some_iff.mp h
    rfl

theorem ensureCached_source {Key : Type} [DecidableEq Key] {root : OsPath}
    {cached next : Key → Option (Sourced (List UInt8))} {key : Key} {width : ℕ}
    {source : Sourced (List UInt8)} (hsource : root <+: source.source)
    (hcached : ∀ key, ∀ thumb ∈ cached key, root <+: thumb.source)
    (hnext : ensureCached crates cached key width source = some next) :
    ∀ key, ∀ thumb ∈ next key, root <+: thumb.source := by
  unfold ensureCached at hnext
  split at hnext
  · rw [← Option.some.inj hnext]
    exact hcached
  · obtain ⟨thumb, hthumb, rfl⟩ := Option.map_eq_some_iff.mp hnext
    intro other stored hstored
    by_cases hsame : other = key
    · subst hsame
      rw [Function.update_self, Option.mem_some_iff] at hstored
      rw [← hstored, writeResized_source hthumb]
      exact hsource
    · rw [Function.update_of_ne hsame] at hstored
      exact hcached other stored hstored

theorem Contained.ensureThumbnail {root : OsPath} (h : Contained root state) {hash : List Char}
    {source : Sourced (List UInt8)} (hsource : root <+: source.source) {last : State}
    (hlast : ensureThumbnail crates state hash source = some last) : Contained root last := by
  obtain ⟨thumbs, hthumbs, rfl⟩ := Option.map_eq_some_iff.mp hlast
  exact ⟨h.descriptions, ensureCached_source hsource h.thumbs hthumbs, h.pageThumbs⟩

theorem Contained.ensurePageThumbnail {root : OsPath} (h : Contained root state)
    {hash : List Char} {index width : ℕ} {source : Sourced (List UInt8)}
    (hsource : root <+: source.source) {last : State}
    (hlast : ensurePageThumbnail crates state hash index width source = some last) :
    Contained root last := by
  obtain ⟨pageThumbs, hpageThumbs, rfl⟩ := Option.map_eq_some_iff.mp hlast
  exact ⟨h.descriptions, h.thumbs, ensureCached_source hsource h.pageThumbs hpageThumbs⟩

theorem serveCached_answers {root : OsPath} (h : Contained root state)
    {cached : Option (Sourced (List UInt8))} (hcached : ∀ thumb ∈ cached, root <+: thumb.source) :
    Answers root (serveCached cached, state) := by
  cases cached with
  | none => exact h.answers rfl
  | some body =>
    refine ⟨fun source hsource ↦ ?_, h⟩
    rw [List.mem_singleton.mp hsource]
    exact hcached body rfl

/-! ## Routes -/

section Routes

variable (h : Contained config.libraryRoot state)

include h

theorem serveThumbnail_answers {book : BookRow}
    (hguard : ∀ row ∈ thumbnailRow state book, ∀ archive ∈ state.archiveCache.peek row.hash,
      ReadsInside state.fs config.libraryRoot archive.path) :
    Answers config.libraryRoot (serveThumbnail config crates state book) := by
  unfold serveThumbnail
  split
  · next body hbody =>
    apply serveCached_answers h
    intro thumb hthumb
    rw [← Option.some.inj hthumb]
    exact h.thumbs book.hash body hbody
  · next hnone =>
    apply withPage_answers h (hguard book (by simp [thumbnailRow, hnone]))
    intro cache body mime hbody
    split
    · next last hlast =>
      have hstored := (h.cache cache).ensureThumbnail hbody hlast
      exact serveCached_answers hstored (hstored.thumbs book.hash)
    · exact (h.cache cache).answers rfl

theorem bookPage_answers {hash : List Char} {n : ℤ} {oneBased : Bool} {thumbnailPref : Option ℕ}
    (hguard : Guarded config crates state (.request (.bookPage hash n oneBased thumbnailPref))) :
    Answers config.libraryRoot (bookPage config crates state hash n oneBased thumbnailPref) := by
  have hcontent (cache : Cache) (body : Sourced (List UInt8)) (mime : List Char)
      (hbody : config.libraryRoot <+: body.source) :
      Answers config.libraryRoot (.content body mime, { state with archiveCache := cache }) := by
    refine ⟨fun source hsource ↦ ?_, h.cache cache⟩
    rw [List.mem_singleton.mp hsource]
    exact hbody
  simp only [Guarded, archiveRow] at hguard
  unfold bookPage
  split
  · exact h.answers rfl
  · next row hrow =>
    obtain rfl := (lookupBook_eq_some hrow).2.1
    rw [hrow, Option.bind_some] at hguard
    dsimp only
    generalize (if oneBased = true then n - 1 else n) = index at hguard ⊢
    split
    · exact h.answers rfl
    · next hrange =>
      split
      · next requested =>
        split
        · next body hbody =>
          apply serveCached_answers h
          intro thumb hthumb
          rw [← Option.some.inj hthumb]
          exact h.pageThumbs _ body hbody
        · next hnone =>
          apply withPage_answers h (hguard row (by simp [pageRow, hrange, hnone]))
          intro cache body mime hbody
          split
          · next last hlast =>
            have hstored := (h.cache cache).ensurePageThumbnail hbody hlast
            exact serveCached_answers hstored (hstored.pageThumbs _)
          · exact (h.cache cache).answers rfl
      · exact withPage_answers h (hguard row (by simp [pageRow, hrange])) hcontent

theorem bookCover_answers {hash : List Char}
    (hguard : ∀ row ∈ lookupBook state.db hash, ∀ archive ∈ state.archiveCache.peek row.hash,
      ReadsInside state.fs config.libraryRoot archive.path) :
    Answers config.libraryRoot (bookCover config crates state hash) := by
  unfold bookCover
  split
  · exact h.answers rfl
  · next row hrow =>
    replace hguard := hguard row hrow
    rw [(lookupBook_eq_some hrow).2.1] at hguard
    apply withPage_answers h hguard
    intro cache body mime hbody
    refine ⟨fun source hsource ↦ ?_, h.cache cache⟩
    rw [List.mem_singleton.mp hsource]
    exact hbody

theorem serveFile_answers {path : OsPath} {mime : List Char}
    (hpath : ReadsInside state.fs config.libraryRoot path) :
    Answers config.libraryRoot (serveFile state path mime, state) := by
  unfold serveFile
  split
  · next body hbody =>
    refine ⟨fun source hsource ↦ ?_, h⟩
    rw [List.mem_singleton.mp hsource]
    exact hpath body hbody
  · exact h.answers rfl

theorem folderCover_answers {slug : List Char}
    (hguard : ∀ row ∈ archiveRow config state (.folderCover slug),
      ∀ archive ∈ state.archiveCache.peek row.hash,
        ReadsInside state.fs config.libraryRoot archive.path) :
    Answers config.libraryRoot (folderCover config crates state slug) := by
  unfold folderCover
  split
  · exact h.answers rfl
  · next folder hfolder =>
    split
    · next safe hsafe =>
      obtain ⟨cover, -, hunder⟩ := Option.bind_eq_some_iff.mp hsafe
      exact serveFile_answers h (readsInside_of_under hunder)
    · next hcover =>
      split
      · next book hbook =>
        apply serveThumbnail_answers h
        rw [archiveRow, hfolder, Option.bind_some, hcover, if_neg (by simp), hbook,
          Option.bind_some] at hguard
        exact hguard
      · exact h.answers rfl

theorem feed_answers {folders : List FolderRow} (books : List BookRow)
    (hfolders : folders ⊆ state.db.folders) :
    Answers config.libraryRoot (.feed folders books, state) := by
  refine ⟨fun source hsource ↦ ?_, h⟩
  obtain ⟨row, hrow, hdescription⟩ := List.mem_filterMap.mp hsource
  obtain ⟨description, hsome, rfl⟩ := Option.map_eq_some_iff.mp hdescription
  exact h.descriptions row (hfolders hrow) description hsome

theorem serveFolderFeed_answers (folder : FolderRow) :
    Answers config.libraryRoot (serveFolderFeed state folder, state) := by
  apply feed_answers h
  intro row hrow
  exact (List.mem_filter.mp ((List.perm_insertionSort _ _).mem_iff.mp hrow)).1

theorem opdsSearch_answers (q : List Char) :
    Answers config.libraryRoot (handle config crates state (.opdsSearch q)) := by
  rw [handle]
  split
  · next folders books hfound => exact feed_answers h _ (subset_of_search hfound).1
  · exact h.answers rfl

theorem handle_answers {request : Request}
    (hguard : Guarded config crates state (.request request)) :
    Answers config.libraryRoot (handle config crates state request) := by
  cases request with
  | opdsRoot =>
    rw [handle]
    split
    · exact serveFolderFeed_answers h _
    · exact h.answers rfl
  | opdsFolder slug =>
    rw [handle]
    split
    · exact serveFolderFeed_answers h _
    · exact h.answers rfl
  | opdsSearch q => exact opdsSearch_answers h q
  | bookPage hash n oneBased thumbnailPref =>
    exact bookPage_answers h hguard
  | bookCover hash => exact bookCover_answers h hguard
  | bookThumbnail hash =>
    rw [handle, bookThumbnail]
    split
    · exact h.answers rfl
    · next book hbook =>
      simp only [Guarded, archiveRow, hbook, Option.bind_some] at hguard
      exact serveThumbnail_answers h hguard
  | bookFile hash =>
    rw [handle, bookFile]
    split
    · exact h.answers rfl
    · split
      · exact h.answers rfl
      · next safe hsafe => exact serveFile_answers h (readsInside_of_under hsafe)
  | folderCover slug => exact folderCover_answers h hguard

end Routes

theorem contained_of_mem_states {started : ℕ} {faults : OsPath → Bool} {db : Db}
    (h : Contained config.libraryRoot state)
    (hguard : ∀ folder ∈ walkedFolders config crates state started faults,
      ∀ name ∈ descriptionNames, ReadsInside state.fs config.libraryRoot (folder ++ [name]))
    (hdb : db ∈ (scanOf config crates state started faults).states crates.xxh3 state.db) :
    Contained config.libraryRoot { state with db := db } := by
  refine ⟨?_, h.thumbs, h.pageThumbs⟩
  have hfound {folder : OsPath} (hfolder : folder ∈ walkedFolders config crates state started faults)
      (description : Sourced (List Char)) (hdescription : findDescription state.fs folder =
        some description) : config.libraryRoot <+: description.source := by
    obtain ⟨name, hname, content, hread, hsource⟩ := exists_read_of_findDescription hdescription
    rw [hsource]
    exact hguard folder hfolder name hname content hread
  have hrows := @Scan.rows_induction crates.xxh3 (scanOf config crates state started faults)
    state.db db
    (fun row ↦ ∀ description ∈ row.description, config.libraryRoot <+: description.source)
    (fun _ ↦ True) ⟨h.descriptions, fun _ _ ↦ trivial⟩ ?_ (fun _ _ hrow ↦ hrow)
    (fun _ _ _ _ _ _ _ _ _ _ _ ↦ trivial) hdb
  · exact hrows.1
  · intro path parentId nameOverride info id coverVersion hentry description hdescription
    rcases hentry with ⟨rfl, rfl⟩ | hentry
    · exact hfound List.mem_cons_self description hdescription
    · have hinfo : info = folderInfo faults state.fs path := of_mem_folders hentry
      rw [hinfo] at hdescription
      exact hfound (List.mem_cons_of_mem _ (List.mem_map_of_mem hentry)) description hdescription

theorem Contained.prewarmBook {row : BookRow} (h : Contained config.libraryRoot state)
    (hinside : ReadsInside state.fs config.libraryRoot row.path.osPath) :
    Contained config.libraryRoot (prewarmBook config crates state row) := by
  have hboth : Contained config.libraryRoot (Server.prewarmBook config crates state row) ∧
      Thumbnailed state (Server.prewarmBook config crates state row) := by
    apply prewarmBook_induction
      (motive := fun next ↦ Contained config.libraryRoot next ∧ Thumbnailed state next)
      ⟨h, Thumbnailed.refl state⟩
    intro book next index source mime last hopen hnext hpage hlast
    rw [← path_of_openBook hopen, ← hnext.2.fs_eq] at hinside
    rcases hlast with hlast | hlast
    · exact ⟨hnext.1.ensureThumbnail (hinside.page hpage) hlast, hnext.2.ensureThumbnail hlast⟩
    · exact ⟨hnext.1.ensurePageThumbnail (hinside.page hpage) hlast,
        hnext.2.ensurePageThumbnail hlast⟩
  exact hboth.1

theorem Contained.prewarm (h : Contained config.libraryRoot state)
    (hinside : ∀ row ∈ state.db.books,
      ReadsInside state.fs config.libraryRoot row.path.osPath) :
    Contained config.libraryRoot (prewarm config crates state) := by
  have hgenerated := @List.foldlRecOn State BookRow
    (fun next ↦ Contained config.libraryRoot next ∧ Thumbnailed state next) state.db.books
    (Server.prewarmBook config crates) state ⟨h, Thumbnailed.refl state⟩
    fun next hnext row hrow ↦
      ⟨hnext.1.prewarmBook (hnext.2.fs_eq ▸ hinside row hrow), hnext.2.prewarmBook row⟩
  exact hgenerated.1

/-- A row that a complete scan leaves has one of the paths that may be opened after it. -/
theorem mem_prewarmPaths {started : ℕ} {faults : OsPath → Bool} {walk : Walk}
    (hwalk : (scanOf config crates state started faults).complete crates.xxh3 state.db = some walk)
    {row : BookRow} (hrow : row ∈ walk.db.books) :
    row.path ∈ prewarmPaths config crates state started faults := by
  rcases (Scan.complete_renews hwalk).2 row hrow with ⟨path, -, hpath, info, hfile, -⟩ | hbefore
  · apply List.mem_append_left
    rw [hpath]
    exact @List.mem_map_of_mem _ _ _ _ (fun entry ↦ entry.1.text) hfile
  · apply List.mem_append_right
    apply List.mem_map_of_mem
    have hstarted : started ≤ row.seenAt := hbefore.1
    exact List.mem_filter.mpr ⟨hbefore.2, by simpa using hstarted⟩

theorem scanned_contained {started : ℕ} {faults : OsPath → Bool}
    (h : Contained config.libraryRoot state)
    (hguard : Guarded config crates state (.scan started faults none)) :
    Contained config.libraryRoot (scanned config crates state started faults) := by
  unfold scanned
  split
  · exact h
  · next walk hwalk =>
    have hstored := contained_of_mem_states h hguard.1 (Scan.mem_states hwalk)
    split
    · next hprewarm =>
      apply hstored.prewarm
      intro row hrow
      exact hguard.2 hprewarm rfl row.path (mem_prewarmPaths hwalk hrow)
    · exact hstored

theorem stopped_contained {started statements : ℕ} {faults : OsPath → Bool}
    (h : Contained config.libraryRoot state)
    (hguard : Guarded config crates state (.scan started faults (some statements))) :
    Contained config.libraryRoot (stopped config crates state started faults statements) := by
  unfold stopped
  split
  · exact h
  · next db hdb => exact contained_of_mem_states h hguard.1 (List.mem_of_getElem? hdb)

theorem Contained.step (h : Contained config.libraryRoot state) {event : Event}
    (hguard : Guarded config crates state event) :
    Contained config.libraryRoot (step config crates state event) := by
  cases event with
  | change fs => exact ⟨h.descriptions, h.thumbs, h.pageThumbs⟩
  | scan started faults stop =>
    cases stop with
    | none => exact scanned_contained h hguard
    | some statements => exact stopped_contained h hguard
  | request request => exact (handle_answers h hguard).contained

/-- **Containment.** In every run of scans, requests and changes of the library in which the paths
that are not checked lead to no file outside, every response holds contents of files below the
library root only. -/
theorem responses_contained (fs : Fs) {events : List Event}
    (hguarded : Allowed (step config crates) (Guarded config crates) (State.start config fs) events) :
    ∀ response ∈ outputs (step config crates) (respond config crates) (State.start config fs) events,
      ∀ source ∈ response.sources, config.libraryRoot <+: source := by
  have hgood (state : State) (event : Event) (h : Contained config.libraryRoot state)
      (hguard : Guarded config crates state event) :
      ∀ response ∈ respond config crates state event,
        ∀ source ∈ response.sources, config.libraryRoot <+: source := by
    intro response hresponse
    cases event with
    | change fs => simp [respond] at hresponse
    | scan started faults stop => simp [respond] at hresponse
    | request request =>
      simp only [respond, Option.mem_some_iff] at hresponse
      rw [← hresponse]
      exact (handle_answers h hguard).sources
  exact forall_outputs_of_allowed (fun _ _ h hguard ↦ h.step hguard) hgood hguarded
    (contained_start config fs)

/-- A file outside the library `/lib`, a file in it, and a folder whose description is a link. -/
def linkedFs (target : Fs.Target) : Fs where
  mtime := 0
  entries :=
    .dir (ascii "lib") 0 true
      (.dir (ascii "a") 0 true (.symlink (ascii "description.txt") target .nil)
        (.file (ascii "notes") ⟨ascii "ours", 0, true⟩ .nil))
      (.file (ascii "secret") ⟨ascii "theirs", 0, true⟩ .nil)
  distinct := by rfl

/-- The path hash of the small library; there are no archives in it. -/
def Crates.sample : Crates where
  blake3 _ := []
  reader := ⟨fun _ ↦ none, fun _ _ ↦ none, fun _ ↦ none, fun _ ↦ none⟩
  xxh3 := sampleXxh3
  resize _ _ := none
  like _ _ := false
  mimeGuess _ := none

/-- A scan, and the feed of the root. -/
def sampleEvents : List Event := [.scan 10 (fun _ ↦ false) none, .request .opdsRoot]

/-- A description that is a link out of the library is served in the feed. -/
theorem description_escapes :
    (linkedFs ⟨true, [.name (ascii "secret")]⟩).canonicalize [ascii "lib"] = some [ascii "lib"] ∧
    ∃ response ∈ outputs (step Config.sample Crates.sample) (respond Config.sample Crates.sample)
      (State.start Config.sample (linkedFs ⟨true, [.name (ascii "secret")]⟩)) sampleEvents,
      ∃ source ∈ response.sources, ¬Config.sample.libraryRoot <+: source := by decide

/-- A description that is a link within the library is served as well. -/
theorem responses_contained_linked :
    (outputs (step Config.sample Crates.sample) (respond Config.sample Crates.sample)
      (State.start Config.sample (linkedFs ⟨false, [.parent, .name (ascii "notes")]⟩))
      sampleEvents).map Response.sources = [[[ascii "lib", ascii "notes"]]] ∧
    ∀ response ∈ outputs (step Config.sample Crates.sample) (respond Config.sample Crates.sample)
      (State.start Config.sample (linkedFs ⟨false, [.parent, .name (ascii "notes")]⟩)) sampleEvents,
      ∀ source ∈ response.sources, [ascii "lib"] <+: source := by
  refine ⟨by decide, responses_contained _ ⟨⟨by decide, ?_⟩, ?_, trivial⟩⟩
  · intro hprewarm
    exact Bool.noConfusion hprewarm
  · intro row hrow
    simp [archiveRow] at hrow

end ComicStream.Server
