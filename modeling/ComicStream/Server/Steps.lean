import ComicStream.Foundation.Machine
import ComicStream.Server.Routes

/-!
# What a step of the server can change

A request changes nothing but the archive cache, where it can put the archive of
the one row it works with, and the thumbnails. A scan that returns `Ok` changes
the database and the thumbnails.
-/

namespace ComicStream.Server

open Rust Archive Catalog

variable {config : Config} {crates : Crates} {state : State}

theorem lookupBook_eq_some {db : Db} {hash : List Char} {row : BookRow}
    (h : lookupBook db hash = some row) :
    row ∈ db.books ∧ row.hash = hash ∧
      ∀ other ∈ db.books, other.hash = hash → row.id ≤ other.id := by
  have hmem := List.mem_filter.mp (List.argmin_mem h)
  refine ⟨hmem.1, by simpa using hmem.2, fun other hother hhash ↦ ?_⟩
  exact List.le_of_mem_argmin (List.mem_filter.mpr ⟨hother, by simpa using hhash⟩) h

/-- The book, unless it has a thumbnail. -/
def thumbnailRow (state : State) (book : BookRow) : Option BookRow :=
  if (state.thumbs book.hash).isSome then none else some book

/-- The book, unless the page is out of range or has the thumbnail asked for. -/
def pageRow (state : State) (book : BookRow) (index : ℤ) (thumbnailPref : Option ℕ) :
    Option BookRow :=
  if index < 0 ∨ (book.pageCount : ℤ) ≤ index then none
  else if thumbnailPref.any fun requested ↦
      (state.pageThumbs (book.hash, index.toNat, snapWidth requested)).isSome then none
  else some book

/-- The row whose archive a request reads a page from. -/
def archiveRow (config : Config) (state : State) : Request → Option BookRow
  | .bookPage hash n oneBased thumbnailPref =>
    (lookupBook state.db hash).bind fun book ↦
      pageRow state book (if oneBased then n - 1 else n) thumbnailPref
  | .bookCover hash => lookupBook state.db hash
  | .bookThumbnail hash => (lookupBook state.db hash).bind (thumbnailRow state)
  | .folderCover slug =>
    (folderBySlug state.db slug).bind fun folder ↦
      if (folder.coverPath.bind fun cover ↦ state.fs.under config.libraryRoot cover.osPath).isSome
      then none
      else (coverBook state.db folder.id).bind (thumbnailRow state)
  | _ => none

/-- `state` is `before` with other thumbnails. -/
structure Thumbnailed (before state : State) : Prop where
  fs_eq : state.fs = before.fs
  db_eq : state.db = before.db
  cache_eq : state.archiveCache = before.archiveCache

theorem Thumbnailed.refl (state : State) : Thumbnailed state state := ⟨rfl, rfl, rfl⟩

theorem Thumbnailed.ensureThumbnail {before last : State} (h : Thumbnailed before state)
    {hash : List Char} {source : Sourced (List UInt8)}
    (hlast : ensureThumbnail crates state hash source = some last) : Thumbnailed before last := by
  obtain ⟨thumbs, -, rfl⟩ := Option.map_eq_some_iff.mp hlast
  exact ⟨h.fs_eq, h.db_eq, h.cache_eq⟩

theorem Thumbnailed.ensurePageThumbnail {before last : State} (h : Thumbnailed before state)
    {hash : List Char} {index width : ℕ} {source : Sourced (List UInt8)}
    (hlast : ensurePageThumbnail crates state hash index width source = some last) :
    Thumbnailed before last := by
  obtain ⟨pageThumbs, -, rfl⟩ := Option.map_eq_some_iff.mp hlast
  exact ⟨h.fs_eq, h.db_eq, h.cache_eq⟩

/-- What holds before `prewarm` gets to a book, and is kept when a page of the book is stored, holds
after it. -/
theorem prewarmBook_induction {motive : State → Prop} {row : BookRow} (h : motive state)
    (hstore : ∀ book next index source mime last,
      openBook crates.reader state.fs row.path.osPath = some book → motive next →
      book.readPage crates.reader next.fs index = some (source, mime) →
      (ensureThumbnail crates next row.hash source = some last ∨
        ensurePageThumbnail crates next row.hash index config.pageThumbWidth source = some last) →
      motive last) : motive (prewarmBook config crates state row) := by
  unfold prewarmBook
  dsimp only
  split
  · exact h
  · split
    · exact h
    · next book hopen =>
      apply List.foldlRecOn
      · split
        · exact h
        · split
          · next source mime hpage =>
            cases hlast : ensureThumbnail crates state row.hash source with
            | none => exact h
            | some last => exact hstore book state 0 source mime last hopen h hpage (.inl hlast)
          · exact h
      · intro next hnext index _
        unfold prewarmPage
        split
        · next source mime hpage =>
          cases hlast : ensurePageThumbnail crates next row.hash index config.pageThumbWidth
              source with
          | none => exact hnext
          | some last =>
            exact hstore book next index source mime last hopen hnext hpage (.inr hlast)
        · exact hnext

theorem Thumbnailed.prewarmBook {before : State} (h : Thumbnailed before state) (row : BookRow) :
    Thumbnailed before (prewarmBook config crates state row) := by
  apply prewarmBook_induction h
  intro book next index source mime last _ hnext _ hlast
  rcases hlast with hlast | hlast
  · exact hnext.ensureThumbnail hlast
  · exact hnext.ensurePageThumbnail hlast

theorem prewarm_thumbnailed (config : Config) (crates : Crates) (state : State) :
    Thumbnailed state (prewarm config crates state) := by
  apply List.foldlRecOn
  · exact Thumbnailed.refl state
  · exact fun next hnext row _ ↦ hnext.prewarmBook row

theorem scanned_eq {started : ℕ} {faults : OsPath → Bool} {walk : Walk}
    (h : (scanOf config crates state started faults).complete crates.xxh3 state.db = some walk) :
    Thumbnailed { state with db := walk.db } (scanned config crates state started faults) := by
  rw [scanned, h]
  dsimp only
  split
  · exact prewarm_thumbnailed config crates { state with db := walk.db }
  · exact Thumbnailed.refl _

/-- A request leaves the state with other thumbnails, and with the cache as it was or as opening
the archive of the row it works with leaves it. -/
structure Handled (config : Config) (crates : Crates) (state : State) (row : Option BookRow)
    (next : State) : Prop where
  fs_eq : next.fs = state.fs
  db_eq : next.db = state.db
  cache_eq : next.archiveCache = state.archiveCache ∨ ∃ book ∈ row,
    next.archiveCache = (openArchive config crates state book.hash book.path).2.archiveCache

theorem Handled.refl (row : Option BookRow) : Handled config crates state row state :=
  ⟨rfl, rfl, .inl rfl⟩

theorem Handled.thumbnailed {row : Option BookRow} {next last : State}
    (h : Handled config crates state row next) (hlast : Thumbnailed next last) :
    Handled config crates state row last := by
  refine ⟨hlast.fs_eq.trans h.fs_eq, hlast.db_eq.trans h.db_eq, ?_⟩
  rw [hlast.cache_eq]
  exact h.cache_eq

theorem openArchive_snd (hash : List Char) (path : PathText) :
    ∃ cache, (openArchive config crates state hash path).2 =
      { state with archiveCache := cache } := by
  unfold openArchive
  split
  · exact ⟨state.archiveCache, rfl⟩
  · exact ⟨_, rfl⟩

theorem openArchive_eq_ok {hash : List Char} {path : PathText} {book : Book}
    (h : (openArchive config crates state hash path).1 = .ok book) :
    ∃ safe, state.fs.under config.libraryRoot path.osPath = some safe ∧
      ((hash, book) ∈ state.archiveCache.entries ∨
        openBook crates.reader state.fs safe = some book) := by
  unfold openArchive at h
  split at h
  · simp at h
  · next safe hsafe =>
    refine ⟨safe, hsafe, ?_⟩
    dsimp only at h
    split at h
    · next found hfound =>
      rw [Except.ok.inj h] at hfound
      exact (Cache.getOrOpen_eq_some hfound).imp_right And.right
    · simp at h

theorem withPage_handled {book : BookRow} {index : ℕ}
    {use : State → Sourced (List UInt8) → List Char → Response × State}
    (huse : ∀ next body mime, Thumbnailed next (use next body mime).2) :
    Handled config crates state (some book)
      (withPage config crates state book.hash book.path index use).2 := by
  obtain ⟨cache, hcache⟩ := @openArchive_snd config crates state book.hash book.path
  have hopened : Handled config crates state (some book)
      (openArchive config crates state book.hash book.path).2 := by
    refine ⟨?_, ?_, .inr ⟨book, rfl, rfl⟩⟩
    · rw [hcache]
    · rw [hcache]
  unfold withPage
  split
  · next response next hopen =>
    rw [hopen] at hopened
    exact hopened
  · next opened next hopen =>
    rw [hopen] at hopened
    split
    · exact hopened.thumbnailed (huse next _ _)
    · exact hopened

theorem serveThumbnail_handled (book : BookRow) :
    Handled config crates state (thumbnailRow state book)
      (serveThumbnail config crates state book).2 := by
  unfold serveThumbnail
  split
  · exact Handled.refl _
  · next hnone =>
    rw [thumbnailRow, hnone, if_neg (by simp)]
    apply withPage_handled
    intro next body mime
    split
    · next last hlast => exact (Thumbnailed.refl next).ensureThumbnail hlast
    · exact Thumbnailed.refl next

theorem bookPage_handled (hash : List Char) (n : ℤ) (oneBased : Bool)
    (thumbnailPref : Option ℕ) :
    Handled config crates state (archiveRow config state (.bookPage hash n oneBased thumbnailPref))
      (bookPage config crates state hash n oneBased thumbnailPref).2 := by
  rw [archiveRow]
  unfold bookPage
  dsimp only
  generalize (if oneBased = true then n - 1 else n) = index
  split
  · exact Handled.refl _
  · next book hbook =>
    obtain rfl := (lookupBook_eq_some hbook).2.1
    rw [hbook, Option.bind_some]
    unfold pageRow
    split
    · exact Handled.refl _
    · cases thumbnailPref with
      | none =>
        rw [Option.any_none, if_neg Bool.false_ne_true]
        exact withPage_handled fun next _ _ ↦ Thumbnailed.refl next
      | some requested =>
        rw [Option.any_some]
        cases hthumb : state.pageThumbs (book.hash, index.toNat, snapWidth requested) with
        | some body =>
          dsimp only
          rw [hthumb]
          exact Handled.refl _
        | none =>
          dsimp only
          rw [hthumb, Option.isSome_none, if_neg Bool.false_ne_true]
          apply withPage_handled
          intro next body mime
          split
          · next last hlast => exact (Thumbnailed.refl next).ensurePageThumbnail hlast
          · exact Thumbnailed.refl next

theorem handle_handled (request : Request) :
    Handled config crates state (archiveRow config state request)
      (handle config crates state request).2 := by
  cases request with
  | opdsRoot =>
    rw [handle]
    split <;> exact Handled.refl _
  | opdsFolder slug =>
    rw [handle]
    split <;> exact Handled.refl _
  | opdsSearch q =>
    rw [handle]
    split <;> exact Handled.refl _
  | bookPage hash n oneBased thumbnailPref => exact bookPage_handled hash n oneBased thumbnailPref
  | bookCover hash =>
    rw [handle, bookCover]
    split
    · exact Handled.refl _
    · next book hbook =>
      obtain rfl := (lookupBook_eq_some hbook).2.1
      rw [archiveRow, hbook]
      exact withPage_handled fun next _ _ ↦ Thumbnailed.refl next
  | bookThumbnail hash =>
    rw [handle, bookThumbnail]
    split
    · exact Handled.refl _
    · next book hbook =>
      rw [archiveRow, hbook, Option.bind_some]
      exact serveThumbnail_handled book
  | bookFile hash => exact Handled.refl _
  | folderCover slug =>
    rw [handle, folderCover]
    split
    · exact Handled.refl _
    · next folder hfolder =>
      split
      · exact Handled.refl _
      · next hcover =>
        split
        · next book hbook =>
          rw [archiveRow, hfolder, Option.bind_some, hcover, if_neg (by simp), hbook,
            Option.bind_some]
          exact serveThumbnail_handled book
        · exact Handled.refl _

/-- Every archive in the cache after a request was there before, or is the one of the row that the
request works with, opened where the row's path leads to. -/
theorem mem_cache_handle {request : Request} {entry : List Char × Book}
    (h : entry ∈ (handle config crates state request).2.archiveCache.entries) :
    entry ∈ state.archiveCache.entries ∨
      ∃ row ∈ archiveRow config state request, ∃ safe, entry.1 = row.hash ∧
        state.archiveCache.peek row.hash = none ∧
        state.fs.under config.libraryRoot row.path.osPath = some safe ∧
        openBook crates.reader state.fs safe = some entry.2 := by
  rcases (@handle_handled config crates state request).cache_eq with hcache | ⟨row, hrow, hcache⟩
  · rw [hcache] at h
    exact .inl h
  · rw [hcache] at h
    unfold openArchive at h
    split at h
    · exact .inl h
    · next safe hsafe =>
      rcases Cache.mem_getOrOpen h with hold | ⟨hnone, hhash, hopen⟩
      · exact .inl hold
      · exact .inr ⟨row, hrow, safe, hhash, hnone, hsafe, hopen⟩

/-- Only a scan changes the database, to one of its states. -/
theorem step_db (event : Event) :
    (step config crates state event).db = state.db ∨ ∃ started faults,
      (step config crates state event).db ∈
        (scanOf config crates state started faults).states crates.xxh3 state.db := by
  cases event with
  | change fs => exact .inl rfl
  | request request => exact .inl (handle_handled request).db_eq
  | scan started faults stop =>
    cases stop with
    | none =>
      change (scanned config crates state started faults).db = _ ∨ _
      cases hcomplete :
          (scanOf config crates state started faults).complete crates.xxh3 state.db with
      | none =>
        left
        rw [scanned, hcomplete]
      | some walk =>
        right
        refine ⟨started, faults, ?_⟩
        change (scanned config crates state started faults).db ∈ _
        rw [(scanned_eq hcomplete).db_eq]
        exact Scan.mem_states hcomplete
    | some statements =>
      change (stopped config crates state started faults statements).db = _ ∨ _
      rw [stopped]
      split
      · exact .inl rfl
      · next db hdb =>
        right
        refine ⟨started, faults, ?_⟩
        change (stopped config crates state started faults statements).db ∈ _
        rw [stopped, hdb]
        exact List.mem_of_getElem? hdb

theorem exists_run (config : Config) (crates : Crates) (fs : Fs) (events : List Event) :
    ∃ scans, (∀ scan ∈ scans, scan.root = config.libraryRoot) ∧
      Run crates.xxh3 scans
        (Machine.run (step config crates) (State.start config fs) events).db := by
  refine @Machine.run_invariant State Event (step config crates) (fun state ↦ ∃ scans : List Scan,
    (∀ scan ∈ scans, scan.root = config.libraryRoot) ∧ Run crates.xxh3 scans state.db) ?_ _ events
    ⟨[], by simp, .empty⟩
  rintro state event ⟨scans, hroot, hrun⟩
  rcases @step_db config crates state event with hsame | ⟨started, faults, hnext⟩
  · rw [hsame]
    exact ⟨scans, hroot, hrun⟩
  · refine ⟨scans ++ [scanOf config crates state started faults], ?_, hrun.scan _ hnext⟩
    intro scan hscan
    rcases List.mem_append.mp hscan with hscan | hscan
    · exact hroot scan hscan
    · rw [List.mem_singleton.mp hscan]
      rfl

end ComicStream.Server
