import ComicStream.Server.Rescans

/-!
# The thumbnail cache

A thumbnail is stored under a content hash, and is made in steps: a route or
`prewarm` opens the archive of a row, reads a page of it, resizes the page and
renames the file into place. Between any two of these the library can change, a
scan can execute statements, and other thumbnails can be under way. Nothing is ever
removed from the cache.
-/

namespace ComicStream.Server

open Rust Archive Catalog

/-- A file of the cache: `cache_path`, or `page_thumb_path`. -/
inductive Slot where
  | cover (hash : List Char)
  | page (hash : List Char) (index width : ℕ)
  deriving DecidableEq, Repr

def Slot.hash : Slot → List Char
  | .cover hash => hash
  | .page hash _ _ => hash

/-- The page it shows. -/
def Slot.index : Slot → ℕ
  | .cover _ => 0
  | .page _ index _ => index

def Slot.width : Slot → ℕ
  | .cover _ => coverWidth
  | .page _ _ width => width

/-- The file in the slot. -/
def State.thumbAt (state : State) : Slot → Option (Sourced (List UInt8))
  | .cover hash => state.thumbs hash
  | .page hash index width => state.pageThumbs (hash, index, width)

/-- The file in the slot is replaced. -/
def State.store (state : State) (thumb : Sourced (List UInt8)) : Slot → State
  | .cover hash => { state with thumbs := Function.update state.thumbs hash (some thumb) }
  | .page hash index width =>
    { state with pageThumbs := Function.update state.pageThumbs (hash, index, width) (some thumb) }

@[simp]
theorem State.thumbAt_store (state : State) (thumb : Sourced (List UInt8)) (slot other : Slot) :
    (state.store thumb slot).thumbAt other =
      if other = slot then some thumb else state.thumbAt other := by
  cases slot with
  | cover hash =>
    cases other with
    | cover first => simp [store, thumbAt, Function.update_apply]
    | page first index width => simp [store, thumbAt]
  | page hash index width =>
    cases other with
    | cover first => simp [store, thumbAt]
    | page first place size => simp [store, thumbAt, Function.update_apply]

/-- A thumbnail under way, by the call that is next: `open_archive`, `read_page`, the check of
`ensure_thumbnail` or `ensure_page_thumbnail` and the resizing, and the renaming. -/
inductive Task where
  | opening (slot : Slot) (path : PathText)
  | reading (slot : Slot) (book : Book)
  | resizing (slot : Slot) (source : Sourced (List UInt8))
  | writing (slot : Slot) (thumb : Sourced (List UInt8))
  deriving DecidableEq

section Steps

variable (config : Config) (crates : Crates)

/-- The next call, and what is left to do. -/
def Task.proceed (state : State) : Task → State × Option Task
  | .opening slot path =>
    match openArchive config crates state slot.hash path with
    | (.ok book, next) => (next, some (.reading slot book))
    | (.error _, next) => (next, none)
  | .reading slot book =>
    (state, (book.readPage crates.reader state.fs slot.index).map fun page ↦
      .resizing slot page.1)
  | .resizing slot source =>
    match state.thumbAt slot with
    | some _ => (state, none)
    | none => (state, (writeResized crates source slot.width).map (.writing slot))
  | .writing slot thumb => (state.store thumb slot, none)

/-- `book_thumbnail`, `folder_cover` and `book_page` with a preference, up to the check whether the
thumbnail is there: the slot, and the path of the row that is to fill it. -/
def wanted (state : State) : Request → Option (Slot × PathText)
  | .bookThumbnail hash =>
    (lookupBook state.db hash).map fun book ↦ (.cover book.hash, book.path)
  | .folderCover slug =>
    (folderBySlug state.db slug).bind fun folder ↦
      if (folder.coverPath.bind fun cover ↦ state.fs.under config.libraryRoot cover.osPath).isSome
      then none
      else (coverBook state.db folder.id).map fun book ↦ (.cover book.hash, book.path)
  | .bookPage hash n oneBased (some requested) =>
    (lookupBook state.db hash).bind fun book ↦
      let index := if oneBased then n - 1 else n
      if index < 0 ∨ (book.pageCount : ℤ) ≤ index then none
      else some (.page hash index.toNat (snapWidth requested), book.path)
  | _ => none

/-- The thumbnails of a book that `prewarm` finds missing. -/
def prewarmSlots (state : State) (row : BookRow) : List Slot :=
  (.cover row.hash :: (List.range row.pageCount).map
    (.page row.hash · config.pageThumbWidth)).filter fun slot ↦ (state.thumbAt slot).isNone

/-- A server with a scan that has still to execute its statements, each of which leads to the next
of the databases, and with the thumbnails that are under way. -/
structure System where
  server : State
  statements : List Db
  tasks : List Task

def System.start (fs : Fs) : System := ⟨State.start config fs, [], []⟩

/-- What can happen next: the library changes, a scan starts, executes a statement or fails, a
request comes in, `prewarm` gets to the row of a book, or one of the thumbnails gets further. What
a scan reads of each file may be from any time. -/
inductive Action where
  | change (fs : Fs)
  | scan (scan : Scan)
  | statement
  | fail
  | request (request : Request)
  | prewarm (row : BookRow)
  | proceed (index : ℕ)

/-- A request is answered at once unless it waits for a thumbnail. -/
def System.request (system : System) (request : Request) : System :=
  match (wanted config system.server request).filter fun want ↦
      (system.server.thumbAt want.1).isNone with
  | some (slot, path) => { system with tasks := system.tasks ++ [.opening slot path] }
  | none => { system with server := (handle config crates system.server request).2 }

/-- One book in `prewarm`: the archive is opened, and its missing pages are read from it. -/
def System.prewarm (system : System) (row : BookRow) : System :=
  match prewarmSlots config system.server row with
  | [] => system
  | slots =>
    match openBook crates.reader system.server.fs row.path.osPath with
    | none => system
    | some book => { system with tasks := system.tasks ++ slots.map (.reading · book) }

def System.proceed (system : System) (index : ℕ) : System :=
  match system.tasks[index]? with
  | none => system
  | some task =>
    let next := task.proceed config crates system.server
    { system with
      server := next.1
      tasks := match next.2 with
        | some rest => system.tasks.set index rest
        | none => system.tasks.eraseIdx index }

def System.step (system : System) : Action → System
  | .change fs => { system with server := { system.server with fs := fs } }
  | .scan scan =>
    if system.statements = [] then
      { system with statements := (scan.states crates.xxh3 system.server.db).reverse }
    else system
  | .statement =>
    match system.statements with
    | [] => system
    | db :: rest => { system with server := { system.server with db := db }, statements := rest }
  | .fail => { system with statements := [] }
  | .request request => system.request config crates request
  | .prewarm row => if row ∈ system.server.db.books then system.prewarm config crates row else system
  | .proceed index => system.proceed config crates index

end Steps

variable {config : Config} {crates : Crates} {state : State}

/-! ## Undisturbed thumbnails -/

/-- `ensure_thumbnail` and `ensure_page_thumbnail`. -/
def ensureAt (crates : Crates) (state : State) (source : Sourced (List UInt8)) (slot : Slot) :
    Option State :=
  match state.thumbAt slot with
  | some _ => some state
  | none => (writeResized crates source slot.width).map (state.store · slot)

theorem ensureThumbnail_eq (hash : List Char) (source : Sourced (List UInt8)) :
    ensureThumbnail crates state hash source = ensureAt crates state source (.cover hash) := by
  unfold ensureThumbnail ensureCached ensureAt
  change Option.map _ (match state.thumbs hash with | some _ => _ | none => _) =
    match state.thumbs hash with | some _ => _ | none => _
  cases state.thumbs hash with
  | some thumb => rfl
  | none =>
    rw [Option.map_map]
    rfl

theorem ensurePageThumbnail_eq (hash : List Char) (index width : ℕ)
    (source : Sourced (List UInt8)) :
    ensurePageThumbnail crates state hash index width source =
      ensureAt crates state source (.page hash index width) := by
  unfold ensurePageThumbnail ensureCached ensureAt
  change Option.map _ (match state.pageThumbs (hash, index, width) with | some _ => _ | none => _) =
    match state.pageThumbs (hash, index, width) with | some _ => _ | none => _
  cases state.pageThumbs (hash, index, width) with
  | some thumb => rfl
  | none =>
    rw [Option.map_map]
    rfl

/-- A task by itself, for at most the number of calls given. -/
def Task.finish (config : Config) (crates : Crates) : ℕ → State × Option Task → State
  | calls + 1, (state, some task) => finish config crates calls (task.proceed config crates state)
  | _, (state, _) => state

theorem finish_reading (slot : Slot) (book : Book) :
    Task.finish config crates 3 (state, some (.reading slot book)) =
      ((book.readPage crates.reader state.fs slot.index).bind fun page ↦
        ensureAt crates state page.1 slot).getD state := by
  rw [Task.finish, Task.proceed]
  cases book.readPage crates.reader state.fs slot.index with
  | none => rfl
  | some page =>
    rw [Option.map_some, Option.bind_some, Task.finish, Task.proceed, ensureAt]
    cases state.thumbAt slot with
    | some thumb => rfl
    | none =>
      dsimp only
      cases writeResized crates page.1 slot.width <;> rfl

theorem withPage_eq_finish {use : State → Sourced (List UInt8) → List Char → Response × State}
    {slot : Slot}
    (huse : ∀ next source mime, (use next source mime).2 =
      (ensureAt crates next source slot).getD next) (path : PathText) :
    (withPage config crates state slot.hash path slot.index use).2 =
      Task.finish config crates 4 (state, some (.opening slot path)) := by
  rw [Task.finish, Task.proceed, withPage]
  generalize openArchive config crates state slot.hash path = opened
  obtain ⟨result, next⟩ := opened
  cases result with
  | error response => rfl
  | ok book =>
    dsimp only
    rw [finish_reading]
    cases book.readPage crates.reader next.fs slot.index with
    | none => rfl
    | some page => exact huse next page.1 page.2

theorem serveThumbnail_eq_finish {book : BookRow}
    (hnone : state.thumbAt (.cover book.hash) = none) :
    (serveThumbnail config crates state book).2 =
      Task.finish config crates 4 (state, some (.opening (.cover book.hash) book.path)) := by
  have hthumb : state.thumbs book.hash = none := hnone
  unfold serveThumbnail
  rw [hthumb]
  apply @withPage_eq_finish config crates state _ (.cover book.hash)
  intro next source mime
  rw [ensureThumbnail_eq]
  cases ensureAt crates next source (.cover book.hash) <;> rfl

/-- A request that waits for a thumbnail leaves the state that the undisturbed task leaves. -/
theorem handle_eq_finish {request : Request} {slot : Slot} {path : PathText}
    (hwanted : wanted config state request = some (slot, path))
    (hnone : state.thumbAt slot = none) :
    (handle config crates state request).2 =
      Task.finish config crates 4 (state, some (.opening slot path)) := by
  cases request with
  | bookThumbnail hash =>
    obtain ⟨book, hbook, hwant⟩ := Option.map_eq_some_iff.mp hwanted
    obtain ⟨rfl, rfl⟩ := Prod.mk.inj hwant
    rw [handle, bookThumbnail, hbook]
    exact serveThumbnail_eq_finish hnone
  | folderCover slug =>
    obtain ⟨folder, hfolder, hwant⟩ := Option.bind_eq_some_iff.mp hwanted
    split at hwant
    · simp at hwant
    · next hcover =>
      obtain ⟨book, hbook, hwant⟩ := Option.map_eq_some_iff.mp hwant
      obtain ⟨rfl, rfl⟩ := Prod.mk.inj hwant
      rw [Option.not_isSome_iff_eq_none] at hcover
      rw [handle, folderCover, hfolder]
      dsimp only
      rw [hcover]
      dsimp only
      rw [hbook]
      exact serveThumbnail_eq_finish hnone
  | bookPage hash n oneBased thumbnailPref =>
    cases thumbnailPref with
    | none => simp [wanted] at hwanted
    | some requested =>
      obtain ⟨book, hbook, hwant⟩ := Option.bind_eq_some_iff.mp hwanted
      obtain rfl := (lookupBook_eq_some hbook).2.1
      rw [handle, bookPage, hbook]
      dsimp only at hwant ⊢
      generalize (if oneBased = true then n - 1 else n) = index at hwant ⊢
      split at hwant
      · simp at hwant
      · next hindex =>
        obtain ⟨rfl, rfl⟩ := Prod.mk.inj (Option.some.inj hwant)
        rw [if_neg hindex]
        dsimp only [State.thumbAt] at hnone
        rw [hnone]
        apply @withPage_eq_finish config crates state _
          (.page book.hash index.toNat (snapWidth requested))
        intro next source mime
        rw [ensurePageThumbnail_eq]
        cases ensureAt crates next source (.page book.hash index.toNat (snapWidth requested)) <;> rfl
  | opdsRoot => simp [wanted] at hwanted
  | opdsFolder slug => simp [wanted] at hwanted
  | opdsSearch q => simp [wanted] at hwanted
  | bookCover hash => simp [wanted] at hwanted
  | bookFile hash => simp [wanted] at hwanted

/-- One slot after another, undisturbed. -/
def finishAll (config : Config) (crates : Crates) (book : Book) (state : State)
    (slots : List Slot) : State :=
  slots.foldl (fun next slot ↦ Task.finish config crates 3 (next, some (.reading slot book))) state

theorem prewarmPage_eq_finish (hash : List Char) (book : Book) (index : ℕ) :
    prewarmPage config crates hash book state index = Task.finish config crates 3
      (state, some (.reading (.page hash index config.pageThumbWidth) book)) := by
  rw [finish_reading, prewarmPage, Slot.index]
  cases book.readPage crates.reader state.fs index with
  | none => rfl
  | some page => exact congrArg (Option.getD · state) (ensurePageThumbnail_eq hash index _ page.1)

theorem prewarmSlots_eq (row : BookRow) :
    prewarmSlots config state row =
      (if (state.thumbs row.hash).isSome then [] else [.cover row.hash]) ++
        ((List.range row.pageCount).filter fun index ↦
          (state.pageThumbs (row.hash, index, config.pageThumbWidth)).isNone).map
            (.page row.hash · config.pageThumbWidth) := by
  have hcover : (state.thumbAt (.cover row.hash)).isNone = !(state.thumbs row.hash).isSome := by
    rw [Option.not_isSome]
    rfl
  rw [prewarmSlots, List.filter_cons, List.filter_map, hcover]
  cases (state.thumbs row.hash).isSome <;> rfl

/-- `prewarm` makes the thumbnails of a book as the undisturbed tasks do. -/
theorem prewarmBook_eq_finish (row : BookRow) :
    prewarmBook config crates state row =
      if prewarmSlots config state row = [] then state
      else
        match openBook crates.reader state.fs row.path.osPath with
        | none => state
        | some book => finishAll config crates book state (prewarmSlots config state row) := by
  unfold prewarmBook finishAll
  dsimp only
  rw [prewarmSlots_eq]
  generalize (List.range row.pageCount).filter (fun index ↦
    (state.pageThumbs (row.hash, index, config.pageThumbWidth)).isNone) = pages
  have hpages (book : Book) (state : State) : pages.foldl (prewarmPage config crates row.hash book)
      state = (pages.map (Slot.page row.hash · config.pageThumbWidth)).foldl (fun next slot ↦
        Task.finish config crates 3 (next, some (.reading slot book))) state := by
    rw [List.foldl_map]
    congr 1
    funext state index
    exact prewarmPage_eq_finish row.hash book index
  cases (state.thumbs row.hash).isSome with
  | true =>
    rw [if_pos rfl, List.nil_append]
    cases pages with
    | nil => rfl
    | cons page rest =>
      rw [if_neg (show ¬List.map _ (page :: rest) = [] by simp)]
      change (match openBook crates.reader state.fs row.path.osPath with
        | none => state
        | some book => (page :: rest).foldl (prewarmPage config crates row.hash book) state) = _
      simp only [hpages]
  | false =>
    rw [if_neg Bool.false_ne_true, List.singleton_append, if_neg (List.cons_ne_nil _ _)]
    simp only [Bool.false_and, Bool.false_eq_true, if_false]
    cases openBook crates.reader state.fs row.path.osPath with
    | none => rfl
    | some book =>
      dsimp only
      rw [List.foldl_cons, finish_reading, hpages]
      congr 1
      rw [Slot.index]
      cases book.readPage crates.reader state.fs 0 with
      | none => rfl
      | some page => exact congrArg (Option.getD · state) (ensureThumbnail_eq row.hash page.1)

theorem openArchive_thumbAt (hash : List Char) (path : PathText) (slot : Slot) :
    (openArchive config crates state hash path).2.thumbAt slot = state.thumbAt slot := by
  obtain ⟨cache, hcache⟩ := @openArchive_snd config crates state hash path
  rw [hcache]
  cases slot <;> rfl

theorem withPage_thumbAt {hash : List Char} {path : PathText} {index : ℕ}
    {use : State → Sourced (List UInt8) → List Char → Response × State}
    (huse : ∀ next source mime, (use next source mime).2 = next) (slot : Slot) :
    (withPage config crates state hash path index use).2.thumbAt slot = state.thumbAt slot := by
  have hopened := @openArchive_thumbAt config crates state hash path slot
  unfold withPage
  split
  · next response next hopen =>
    rw [hopen] at hopened
    exact hopened
  · next book next hopen =>
    rw [hopen] at hopened
    split
    · rw [huse]
      exact hopened
    · exact hopened

theorem serveThumbnail_of_isSome {book : BookRow}
    (h : (state.thumbAt (.cover book.hash)).isSome = true) :
    (serveThumbnail config crates state book).2 = state := by
  obtain ⟨thumb, hthumb⟩ := Option.isSome_iff_exists.mp h
  have hthumbs : state.thumbs book.hash = some thumb := hthumb
  rw [serveThumbnail, hthumbs]

/-- A request that does not wait for a thumbnail stores none. -/
theorem handle_thumbAt {request : Request}
    (h : ∀ want ∈ wanted config state request, (state.thumbAt want.1).isSome = true)
    (slot : Slot) : (handle config crates state request).2.thumbAt slot = state.thumbAt slot := by
  cases request with
  | opdsRoot =>
    rw [handle]
    split <;> rfl
  | opdsFolder slug =>
    rw [handle]
    split <;> rfl
  | opdsSearch q =>
    rw [handle]
    split <;> rfl
  | bookFile hash => rfl
  | bookCover hash =>
    rw [handle, bookCover]
    split
    · rfl
    · exact withPage_thumbAt (fun _ _ _ ↦ rfl) slot
  | bookThumbnail hash =>
    rw [handle, bookThumbnail]
    split
    · rfl
    · next book hbook =>
      rw [wanted, hbook] at h
      rw [serveThumbnail_of_isSome (h _ rfl)]
  | folderCover slug =>
    rw [handle, folderCover]
    split
    · rfl
    · next folder hfolder =>
      split
      · rfl
      · next hcover =>
        split
        · next book hbook =>
          rw [wanted, hfolder, Option.bind_some, hcover, if_neg (by simp), hbook] at h
          rw [serveThumbnail_of_isSome (h _ rfl)]
        · rfl
  | bookPage hash n oneBased thumbnailPref =>
    rw [handle, bookPage]
    split
    · rfl
    · next book hbook =>
      cases thumbnailPref with
      | none =>
        dsimp only
        generalize (if oneBased = true then n - 1 else n) = index
        split
        · rfl
        · exact withPage_thumbAt (fun next _ _ ↦ rfl) slot
      | some requested =>
        rw [wanted, hbook, Option.bind_some] at h
        dsimp only at h ⊢
        generalize (if oneBased = true then n - 1 else n) = index at h ⊢
        split
        · rfl
        · next hindex =>
          rw [if_neg hindex] at h
          obtain ⟨thumb, hthumb⟩ := Option.isSome_iff_exists.mp (h _ rfl)
          dsimp only [State.thumbAt] at hthumb
          rw [hthumb]

/-! ## Thumbnails of the right archive -/

/-- The page that a slot is for, of an archive with the content hash of the slot. -/
def IsPage (crates : Crates) (slot : Slot) (page : List UInt8) : Prop :=
  ∃ archive : Sourced (List UInt8), crates.blake3 archive.value = slot.hash ∧
    ∃ found ∈ pageOf crates.reader archive slot.index, found.1.value = page

/-- What resizing this page has made. -/
def IsThumbnail (crates : Crates) (slot : Slot) (thumb : List UInt8) : Prop :=
  ∃ page, IsPage crates slot page ∧ crates.resize page slot.width = some thumb

/-- What a task has in hand is from an archive with the content hash of its slot. -/
def Task.IsGenuine (crates : Crates) : Task → Prop
  | .resizing slot source => IsPage crates slot source.value
  | .writing slot thumb => IsThumbnail crates slot thumb.value
  | _ => True

structure System.Genuine (crates : Crates) (system : System) : Prop where
  stored : ∀ slot, ∀ thumb ∈ system.server.thumbAt slot, IsThumbnail crates slot thumb.value
  tasks : ∀ task ∈ system.tasks, task.IsGenuine crates

/-- If a page is about to be read from an archive, the file at the archive's path has the content
hash of the slot, and the pages that the archive was opened with. -/
def Task.ReadsRecorded (crates : Crates) (fs : Fs) : Task → Prop
  | .reading slot book => (book.readPage crates.reader fs slot.index).isSome →
    openBook crates.reader fs book.path = some book ∧
      fileHash crates.toTools fs book.path = some slot.hash
  | _ => True

/-- A page for a thumbnail is read only from a file with the content hash of the slot. -/
def Recorded (crates : Crates) (system : System) : Action → Prop
  | .proceed index => ∀ task ∈ system.tasks[index]?, task.ReadsRecorded crates system.server.fs
  | _ => True

instance (fs : Fs) : (task : Task) → Decidable (task.ReadsRecorded crates fs)
  | .opening _ _ => inferInstanceAs (Decidable True)
  | .reading slot book =>
    inferInstanceAs (Decidable ((book.readPage crates.reader fs slot.index).isSome →
      openBook crates.reader fs book.path = some book ∧
        fileHash crates.toTools fs book.path = some slot.hash))
  | .resizing _ _ => inferInstanceAs (Decidable True)
  | .writing _ _ => inferInstanceAs (Decidable True)

instance (system : System) : (action : Action) → Decidable (Recorded crates system action)
  | .proceed index => inferInstanceAs (Decidable (∀ task ∈ system.tasks[index]?,
      task.ReadsRecorded crates system.server.fs))
  | .change _ => inferInstanceAs (Decidable True)
  | .scan _ => inferInstanceAs (Decidable True)
  | .statement => inferInstanceAs (Decidable True)
  | .fail => inferInstanceAs (Decidable True)
  | .request _ => inferInstanceAs (Decidable True)
  | .prewarm _ => inferInstanceAs (Decidable True)

theorem isPage_of_readPage {fs : Fs} {slot : Slot} {book : Book}
    {page : Sourced (List UInt8) × List Char}
    (hpage : book.readPage crates.reader fs slot.index = some page)
    (hopen : openBook crates.reader fs book.path = some book)
    (hhash : fileHash crates.toTools fs book.path = some slot.hash) :
    IsPage crates slot page.1.value := by
  obtain ⟨-, content, hread, hkind, hpages⟩ := openBook_eq_some.mp hopen
  rw [fileHash, hread, Option.map_some, Option.some.injEq] at hhash
  refine ⟨content, hhash, page, ?_, rfl⟩
  rw [Book.readPage, hread] at hpage
  rw [Option.mem_def, pageOf, hkind, Option.bind_some, hpages]
  exact hpage

theorem isThumbnail_of_writeResized {slot : Slot} {source thumb : Sourced (List UInt8)}
    (h : IsPage crates slot source.value)
    (hthumb : writeResized crates source slot.width = some thumb) :
    IsThumbnail crates slot thumb.value := by
  unfold writeResized at hthumb
  split at hthumb
  · simp at hthumb
  · obtain ⟨bytes, hresize, rfl⟩ := Option.map_eq_some_iff.mp hthumb
    exact ⟨source.value, h, hresize⟩

theorem Task.proceed_genuine {task : Task} (htask : task.IsGenuine crates)
    (hstored : ∀ slot, ∀ thumb ∈ state.thumbAt slot, IsThumbnail crates slot thumb.value)
    (hreads : task.ReadsRecorded crates state.fs) :
    (∀ slot, ∀ thumb ∈ (task.proceed config crates state).1.thumbAt slot,
      IsThumbnail crates slot thumb.value) ∧
    ∀ rest ∈ (task.proceed config crates state).2, rest.IsGenuine crates := by
  cases task with
  | opening slot path =>
    have hopened := @openArchive_thumbAt config crates state slot.hash path
    rw [proceed]
    split
    · next book next hopen =>
      rw [hopen] at hopened
      refine ⟨fun other ↦ ?_, fun rest hrest ↦ ?_⟩
      · rw [hopened]
        exact hstored other
      · rw [← Option.mem_some_iff.mp hrest]
        trivial
    · next next hopen =>
      rw [hopen] at hopened
      refine ⟨fun other ↦ ?_, by simp⟩
      rw [hopened]
      exact hstored other
  | reading slot book =>
    refine ⟨hstored, fun rest hrest ↦ ?_⟩
    obtain ⟨page, hpage, rfl⟩ := Option.map_eq_some_iff.mp hrest
    obtain ⟨hopen, hhash⟩ := hreads (by rw [hpage]; rfl)
    exact isPage_of_readPage hpage hopen hhash
  | resizing slot source =>
    rw [proceed]
    split
    · exact ⟨hstored, by simp⟩
    · refine ⟨hstored, fun rest hrest ↦ ?_⟩
      obtain ⟨thumb, hthumb, rfl⟩ := Option.map_eq_some_iff.mp hrest
      exact isThumbnail_of_writeResized htask hthumb
  | writing slot thumb =>
    refine ⟨fun other found hfound ↦ ?_, by simp [proceed]⟩
    rw [proceed, State.thumbAt_store] at hfound
    split at hfound
    · next hsame =>
      rw [← Option.mem_some_iff.mp hfound, hsame]
      exact htask
    · exact hstored other found hfound

theorem System.Genuine.proceed {system : System} (h : system.Genuine crates) (index : ℕ)
    (hreads : ∀ task ∈ system.tasks[index]?, task.ReadsRecorded crates system.server.fs) :
    (system.proceed config crates index).Genuine crates := by
  unfold System.proceed
  split
  · exact h
  · next task htask =>
    obtain ⟨hstored, hrest⟩ := @Task.proceed_genuine config crates system.server task
      (h.tasks task (List.mem_of_getElem? htask)) h.stored (hreads task htask)
    refine ⟨hstored, fun other hother ↦ ?_⟩
    dsimp only at hother
    split at hother
    · next rest hnext =>
      rcases List.mem_or_eq_of_mem_set hother with hother | rfl
      · exact h.tasks other hother
      · exact hrest _ hnext
    · exact h.tasks other (List.mem_of_mem_eraseIdx hother)

theorem System.Genuine.request {system : System} (h : system.Genuine crates)
    (request : Request) : (system.request config crates request).Genuine crates := by
  unfold System.request
  split
  · refine ⟨h.stored, fun task htask ↦ ?_⟩
    rcases List.mem_append.mp htask with htask | htask
    · exact h.tasks task htask
    · rw [List.mem_singleton.mp htask]
      trivial
  · next hnone =>
    refine ⟨fun slot ↦ ?_, h.tasks⟩
    rw [handle_thumbAt]
    · exact h.stored slot
    · intro want hwant
      rw [Option.filter_eq_none_iff] at hnone
      exact Option.isSome_iff_ne_none.mpr (by simpa using hnone want hwant)

theorem System.Genuine.prewarm {system : System} (h : system.Genuine crates) (row : BookRow) :
    (system.prewarm config crates row).Genuine crates := by
  unfold System.prewarm
  split
  · exact h
  · split
    · exact h
    · refine ⟨h.stored, fun task htask ↦ ?_⟩
      rcases List.mem_append.mp htask with htask | htask
      · exact h.tasks task htask
      · obtain ⟨slot, -, rfl⟩ := List.mem_map.mp htask
        trivial

/-- Every action whose reads are recorded keeps all thumbnails genuine. -/
theorem System.Genuine.step {system : System} {action : Action} (h : system.Genuine crates)
    (haction : Recorded crates system action) :
    (system.step config crates action).Genuine crates := by
  have hsame (server : State) (statements : List Db)
      (hthumbs : server.thumbs = system.server.thumbs)
      (hpageThumbs : server.pageThumbs = system.server.pageThumbs) :
      System.Genuine crates { system with server := server, statements := statements } := by
    refine ⟨fun slot ↦ ?_, h.tasks⟩
    have hslot : server.thumbAt slot = system.server.thumbAt slot := by
      cases slot with
      | cover hash => exact congrFun hthumbs hash
      | page hash index width => exact congrFun hpageThumbs _
    rw [hslot]
    exact h.stored slot
  cases action with
  | change fs => exact hsame _ _ rfl rfl
  | scan scan =>
    rw [System.step]
    split
    · exact hsame _ _ rfl rfl
    · exact h
  | statement =>
    rw [System.step]
    split
    · exact h
    · exact hsame _ _ rfl rfl
  | fail => exact hsame _ _ rfl rfl
  | request request => exact h.request request
  | prewarm row =>
    rw [System.step]
    split
    · exact h.prewarm row
    · exact h
  | proceed index => exact h.proceed index haction

theorem pageOf_of_value_eq {archive other : Sourced (List UInt8)} {index : ℕ}
    {page : Sourced (List UInt8) × List Char} (hsame : archive.value = other.value)
    (hpage : page ∈ pageOf crates.reader other index) :
    (⟨page.1.value, archive.source⟩, page.2) ∈ pageOf crates.reader archive index := by
  obtain ⟨kind, hkind, hpage⟩ := Option.bind_eq_some_iff.mp hpage
  obtain ⟨pages, hpages, hpage⟩ := Option.bind_eq_some_iff.mp hpage
  obtain ⟨entry, hentry, hpage⟩ := Option.bind_eq_some_iff.mp hpage
  obtain ⟨data, hdata, rfl⟩ := Option.map_eq_some_iff.mp hpage
  rw [Option.mem_def, pageOf, hsame, hkind, Option.bind_some, hpages, Option.bind_some, hentry,
    Option.bind_some, hdata]
  rfl

/-- **Thumbnail cache integrity.** If every page for a thumbnail is read from a file that has, when
it is read, the content hash of the slot, every thumbnail stored is one of the page of an archive
with this content hash; without hash collisions, of every such archive. -/
theorem thumbnails_genuine {fs : Fs} {actions : List Action}
    (h : Machine.Allowed (System.step config crates) (Recorded crates) (System.start config fs)
      actions) (slot : Slot)
    (thumb : Sourced (List UInt8))
    (hthumb : (Machine.run (System.step config crates) (System.start config fs)
      actions).server.thumbAt slot = some thumb) :
    IsThumbnail crates slot thumb.value ∧
      (Function.Injective crates.blake3 → ∀ archive : Sourced (List UInt8),
        crates.blake3 archive.value = slot.hash →
          ∃ page ∈ pageOf crates.reader archive slot.index,
            crates.resize page.1.value slot.width = some thumb.value) := by
  have hstart : (System.start config fs).Genuine crates := by
    refine ⟨fun slot found hfound ↦ ?_, fun task htask ↦ (List.not_mem_nil htask).elim⟩
    cases slot <;> simp [System.start, State.start, State.thumbAt] at hfound
  have hgenuine := Machine.run_invariant_of_allowed
    (fun system action hsystem haction ↦ System.Genuine.step hsystem haction) h hstart
  have hstored := hgenuine.stored slot thumb hthumb
  refine ⟨hstored, fun hblake archive harchive ↦ ?_⟩
  obtain ⟨page, ⟨other, hother, found, hfound, rfl⟩, hresize⟩ := hstored
  have hsame : archive.value = other.value := hblake (harchive.trans hother.symm)
  exact ⟨_, pageOf_of_value_eq hsame hfound, hresize⟩

/-- The dark archive is scanned and, as far as it `isReplaced`, replaced by the light one before the
request for its thumbnail, and put back. -/
def coverActions (isReplaced : Bool) : List Action :=
  [.scan (archiveScan darkZip 10)] ++ List.replicate 8 .statement ++
    (if isReplaced then [.change (archiveFs lightZip)] else []) ++
    [.request (.bookThumbnail darkHash), .proceed 0, .proceed 0, .proceed 0, .proceed 0,
      .change (archiveFs darkZip)]

/-- The system after the first of these actions. -/
abbrev coverSystem (isReplaced : Bool) (count : ℕ) : System :=
  Machine.run (System.step Config.sample Crates.replaced)
    (System.start Config.sample (archiveFs darkZip)) ((coverActions isReplaced).take count)

theorem eq_darkZip {bytes : List UInt8} (h : Crates.replaced.blake3 bytes = darkHash) :
    bytes = darkZip := by
  have hhead : darkHash.head? = some 'd' := by decide
  by_cases hdark : bytes = darkZip
  · exact hdark
  · have hhash : Crates.replaced.blake3 bytes =
        if bytes = lightZip then lightHash else 'x' :: bytes.map Char.ofUInt8 := if_neg hdark
    rw [← h, hhash] at hhead
    split at hhead
    · exact absurd hhead (by decide)
    · exact absurd (Option.some.inj hhead) (by decide)

set_option maxRecDepth 4000 in
/-- The thumbnail of the dark archive is then one of the light archive, for good. -/
theorem replaced_thumbnail :
    (coverSystem true 16).server.thumbAt (.cover darkHash) =
      some ⟨jpegOf 90, [ascii "lib", ascii "a", ascii "1.cbz"]⟩ ∧
    ¬IsThumbnail Crates.replaced (.cover darkHash) (jpegOf 90) ∧
    (handle Config.sample Crates.replaced (coverSystem true 16).server
      (.bookThumbnail darkHash)).1 =
        .content ⟨jpegOf 90, [ascii "lib", ascii "a", ascii "1.cbz"]⟩ jpeg := by
  refine ⟨by decide +kernel, ?_, by decide +kernel⟩
  rintro ⟨page, ⟨archive, harchive, found, hfound, rfl⟩, hresize⟩
  have hvalue : archive.value = darkZip := eq_darkZip harchive
  have hpage := @pageOf_of_value_eq Crates.replaced ⟨darkZip, []⟩ archive 0 found hvalue.symm hfound
  have hdark : (pageOf Crates.replaced.reader ⟨darkZip, []⟩ 0).map (·.1.value) =
      some (jpegOf 43) := by decide +kernel
  rw [Option.mem_def.mp hpage, Option.map_some, Option.some.injEq] at hdark
  rw [hdark] at hresize
  have hresized : Crates.replaced.resize (jpegOf 43) (Slot.cover darkHash).width =
      some (jpegOf 43) := by decide +kernel
  rw [hresized, Option.some.injEq] at hresize
  exact absurd hresize (by decide +kernel)

set_option maxRecDepth 4000 in
/-- If it is not replaced, the thumbnail is its own. -/
theorem thumbnails_genuine_cover :
    (coverSystem false 15).server.thumbAt (.cover darkHash) =
      some ⟨jpegOf 43, [ascii "lib", ascii "a", ascii "1.cbz"]⟩ ∧
    IsThumbnail Crates.replaced (.cover darkHash) (jpegOf 43) := by
  have hthumb : (coverSystem false 15).server.thumbAt (.cover darkHash) =
      some ⟨jpegOf 43, [ascii "lib", ascii "a", ascii "1.cbz"]⟩ := by decide +kernel
  refine ⟨hthumb, (@thumbnails_genuine Config.sample Crates.replaced (archiveFs darkZip)
    ((coverActions false).take 15) (by decide +kernel) _ _ hthumb).1⟩

end ComicStream.Server
