import ComicStream.Server.Containment
import ComicStream.Server.Links
import ComicStream.Server.Thumbnails

/-!
# Contents under their hashes

What is served at an address of a book depends on nothing but the content that has
the hash in the address: not on the server, not on what else has happened to it, and
not on when it is asked. This holds as long as a file that is read has the content
that it was scanned with.
-/

namespace ComicStream.Server

open Rust Archive Catalog Machine

/-- A page of an archive with the content hash given. -/
def IsPageOf (crates : Crates) (hash : List Char) (index : ℕ) (data : List UInt8)
    (mime : List Char) : Prop :=
  ∃ archive : Sourced (List UInt8), crates.blake3 archive.value = hash ∧
    ∃ page ∈ pageOf crates.reader archive index, page.1.value = data ∧ page.2 = mime

/-- What a request for a part of a book should be answered with. -/
def IsAnswer (crates : Crates) (data : List UInt8) (mime : List Char) : Request → Prop
  | .bookPage hash n oneBased none =>
    ∃ index : ℕ, (index : ℤ) = (if oneBased then n - 1 else n) ∧
      IsPageOf crates hash index data mime
  | .bookPage hash n oneBased (some requested) =>
    ∃ index : ℕ, (index : ℤ) = (if oneBased then n - 1 else n) ∧
      IsThumbnail crates (.page hash index (snapWidth requested)) data ∧ mime = jpeg
  | .bookCover hash => IsPageOf crates hash 0 data mime
  | .bookThumbnail hash => IsThumbnail crates (.cover hash) data ∧ mime = jpeg
  | .bookFile hash =>
    crates.blake3 data = hash ∧ ∃ kind, Kind.ofMagic data = some kind ∧ mime = bookMime kind.format
  | _ => True

/-- A request for a part of a book. -/
def Request.IsOfBook : Request → Prop
  | .bookPage _ _ _ _ => True
  | .bookCover _ => True
  | .bookThumbnail _ => True
  | .bookFile _ => True
  | _ => False

section Unique

variable {crates : Crates} {hash data other mime otherMime : List Char}

theorem IsPageOf.unique (hblake : Function.Injective crates.blake3) {index : ℕ}
    {data other : List UInt8} (h : IsPageOf crates hash index data mime)
    (hother : IsPageOf crates hash index other otherMime) : data = other ∧ mime = otherMime := by
  obtain ⟨archive, harchive, page, hpage, rfl, rfl⟩ := h
  obtain ⟨second, hsecond, found, hfound, rfl, rfl⟩ := hother
  have hsame := pageOf_of_value_eq (hblake (hsecond.trans harchive.symm)) hpage
  rw [Option.mem_def] at hfound hsame
  rw [hfound, Option.some.injEq] at hsame
  rw [hsame]
  exact ⟨rfl, rfl⟩

theorem IsPageOf.isPage {slot : Slot} {data : List UInt8}
    (h : IsPageOf crates slot.hash slot.index data mime) : IsPage crates slot data := by
  obtain ⟨archive, harchive, page, hpage, hdata, -⟩ := h
  exact ⟨archive, harchive, page, hpage, hdata⟩

theorem IsThumbnail.unique (hblake : Function.Injective crates.blake3) {slot : Slot}
    {data other : List UInt8} (h : IsThumbnail crates slot data)
    (hother : IsThumbnail crates slot other) : data = other := by
  obtain ⟨page, ⟨archive, harchive, found, hfound, rfl⟩, hresize⟩ := h
  obtain ⟨second, ⟨archive', harchive', found', hfound', rfl⟩, hresize'⟩ := hother
  have hpages := @IsPageOf.unique _ _ _ _ hblake slot.index _ _
    ⟨archive, harchive, found, hfound, rfl, rfl⟩ ⟨archive', harchive', found', hfound', rfl, rfl⟩
  rw [hpages.1, hresize', Option.some.injEq] at hresize
  exact hresize.symm

/-- No request for a part of a book has two answers. -/
theorem IsAnswer.unique (hblake : Function.Injective crates.blake3) {request : Request}
    (hbook : request.IsOfBook) {data other : List UInt8} (h : IsAnswer crates data mime request)
    (hother : IsAnswer crates other otherMime request) : data = other ∧ mime = otherMime := by
  cases request with
  | bookPage hash n oneBased thumbnailPref =>
    cases thumbnailPref with
    | none =>
      obtain ⟨index, hindex, hpage⟩ := h
      obtain ⟨second, hsecond, hfound⟩ := hother
      obtain rfl : index = second := by exact_mod_cast hindex.trans hsecond.symm
      exact hpage.unique hblake hfound
    | some requested =>
      obtain ⟨index, hindex, hthumb, rfl⟩ := h
      obtain ⟨second, hsecond, hfound, rfl⟩ := hother
      obtain rfl : index = second := by exact_mod_cast hindex.trans hsecond.symm
      exact ⟨hthumb.unique hblake hfound, rfl⟩
  | bookCover hash => exact IsPageOf.unique hblake h hother
  | bookThumbnail hash => exact ⟨h.1.unique hblake hother.1, h.2.trans hother.2.symm⟩
  | bookFile hash =>
    obtain ⟨hdata, kind, hkind, rfl⟩ := h
    obtain ⟨hfound, second, hsecond, rfl⟩ := hother
    obtain rfl := hblake (hdata.trans hfound.symm)
    rw [hkind, Option.some.injEq] at hsecond
    exact ⟨rfl, by rw [hsecond]⟩
  | opdsRoot => exact hbook.elim
  | opdsFolder slug => exact hbook.elim
  | opdsSearch q => exact hbook.elim
  | folderCover slug => exact hbook.elim

end Unique

section Conditions

variable (config : Config) (crates : Crates) (state : State)

/-- The archive that is opened for the row reads a file with the content of the row. -/
def OpensCurrent (row : BookRow) : Prop :=
  ∀ book, (openArchive config crates state row.hash row.path).1 = .ok book →
    ∀ content ∈ state.fs.read book.path, crates.blake3 content.value = row.hash

/-- The file that a request reads has the content of the row it is read for. -/
def ReadsCurrent : Request → Prop
  | .bookFile hash => ∀ row ∈ lookupBook state.db hash,
    ∀ content ∈ state.fs.read row.path.osPath, crates.blake3 content.value = row.hash
  | request => ∀ row ∈ archiveRow config state request, OpensCurrent config crates state row

/-- The library may change in any way. Requests read current files, and so do scans that generate
thumbnails. -/
def StepsCurrent : Event → Prop
  | .request request => ReadsCurrent config crates state request
  | .scan started faults none => config.prewarmThumbnails = true →
    ∀ walk ∈ (scanOf config crates state started faults).complete crates.xxh3 state.db,
      ∀ row ∈ walk.db.books, ∀ content ∈ state.fs.read row.path.osPath,
        crates.blake3 content.value = row.hash
  | _ => True

end Conditions

instance (config : Config) (crates : Crates) (state : State) (row : BookRow) :
    Decidable (OpensCurrent config crates state row) :=
  match hopened : (openArchive config crates state row.hash row.path).1 with
  | .ok book => decidable_of_iff
      (∀ content ∈ state.fs.read book.path, crates.blake3 content.value = row.hash)
      ⟨fun h other hother ↦ by
        rw [hopened] at hother
        rwa [← Except.ok.inj hother], fun h ↦ h book hopened⟩
  | .error _ => isTrue fun book hbook ↦ by simp [hopened] at hbook

/-- Cached archives and thumbnails are those of the contents they are kept under. -/
structure Genuine (crates : Crates) (state : State) : Prop where
  archives : ∀ opened ∈ state.archiveCache.entries,
    Hashes crates opened.1 opened.2.kind opened.2.pages
  thumbs : ∀ slot, ∀ thumb ∈ state.thumbAt slot, IsThumbnail crates slot thumb.value

variable {config : Config} {crates : Crates} {state : State}

theorem genuine_start (fs : Fs) : Genuine crates (State.start config fs) where
  archives := by simp [State.start, Cache.new, Lru.empty]
  thumbs slot thumb hthumb := by cases slot <;> simp [State.start, State.thumbAt] at hthumb

theorem fs_ensureAt {slot : Slot} {source : Sourced (List UInt8)} {last : State}
    (hlast : ensureAt crates state source slot = some last) : last.fs = state.fs := by
  unfold ensureAt at hlast
  split at hlast
  · rw [Option.some.inj hlast]
  · obtain ⟨thumb, -, rfl⟩ := Option.map_eq_some_iff.mp hlast
    cases slot <;> rfl

theorem hash_of_mem_prewarmSlots {row : BookRow} {slot : Slot}
    (h : slot ∈ prewarmSlots config state row) : slot.hash = row.hash := by
  rcases List.mem_cons.mp (List.mem_filter.mp h).1 with rfl | hpage
  · rfl
  · obtain ⟨index, -, rfl⟩ := List.mem_map.mp hpage
    rfl

theorem Genuine.ensureAt (h : Genuine crates state) {slot : Slot} {source : Sourced (List UInt8)}
    {last : State} (hpage : IsPage crates slot source.value)
    (hlast : ensureAt crates state source slot = some last) : Genuine crates last := by
  unfold Server.ensureAt at hlast
  split at hlast
  · rwa [← Option.some.inj hlast]
  · obtain ⟨thumb, hthumb, rfl⟩ := Option.map_eq_some_iff.mp hlast
    refine ⟨?_, fun other found hfound ↦ ?_⟩
    · cases slot <;> exact h.archives
    · rw [State.thumbAt_store] at hfound
      split at hfound
      · next hsame =>
        rw [← Option.mem_some_iff.mp hfound, hsame]
        exact isThumbnail_of_writeResized hpage hthumb
      · exact h.thumbs other found hfound

theorem Genuine.openArchive (h : Genuine crates state) {row : BookRow}
    (hcurrent : OpensCurrent config crates state row) :
    Genuine crates (openArchive config crates state row.hash row.path).2 ∧
      ∀ book, (openArchive config crates state row.hash row.path).1 = .ok book →
        Hashes crates row.hash book.kind book.pages := by
  have hopened {book : Book} {safe : OsPath} (hopen : openBook crates.reader state.fs safe = some book)
      (hok : (Server.openArchive config crates state row.hash row.path).1 = .ok book) :
      Hashes crates row.hash book.kind book.pages := by
    refine hashes_of_openBook hopen fun found hfound ↦ ?_
    obtain ⟨content, hread, rfl⟩ := Option.map_eq_some_iff.mp hfound
    rw [← path_of_openBook hopen] at hread
    exact hcurrent book hok content hread
  constructor
  · refine ⟨fun entry hentry ↦ ?_, fun slot thumb hthumb ↦ ?_⟩
    · unfold Server.openArchive at hentry
      split at hentry
      · exact h.archives entry hentry
      · next safe hsafe =>
        rcases Cache.mem_getOrOpen hentry with hold | ⟨hnone, hhash, hopen⟩
        · exact h.archives entry hold
        · rw [hhash]
          apply hopened hopen
          rw [Server.openArchive, hsafe]
          dsimp only
          rw [Cache.getOrOpen_of_peek hnone, hopen]
    · rw [openArchive_thumbAt] at hthumb
      exact h.thumbs slot thumb hthumb
  · intro book hok
    obtain ⟨safe, -, hcached | hopen⟩ := openArchive_eq_ok hok
    · exact h.archives _ hcached
    · exact hopened hopen hok

/-! ## Requests -/

theorem Genuine.withPage (hblake : Function.Injective crates.blake3) (h : Genuine crates state)
    {row : BookRow} (hcurrent : OpensCurrent config crates state row) {index : ℕ}
    {use : State → Sourced (List UInt8) → List Char → Response × State}
    {good : List UInt8 → List Char → Prop}
    (huse : ∀ next body mime, Genuine crates next →
      IsPageOf crates row.hash index body.value mime →
      Genuine crates (use next body mime).2 ∧
        ∀ data type, (use next body mime).1 = .content data type → good data.value type) :
    Genuine crates (withPage config crates state row.hash row.path index use).2 ∧
      ∀ data type, (withPage config crates state row.hash row.path index use).1 =
        .content data type → good data.value type := by
  obtain ⟨hnext, hhashes⟩ := h.openArchive hcurrent
  obtain ⟨cache, hcache⟩ := @openArchive_snd config crates state row.hash row.path
  unfold Server.withPage
  split
  · next response next hopen =>
    rw [hopen] at hnext
    refine ⟨hnext, fun data type hdata ↦ ?_⟩
    have hsources := openArchive_error (congrArg Prod.fst hopen)
    rw [show response = .content data type from hdata] at hsources
    simp [Response.sources] at hsources
  · next book next hopen =>
    rw [hopen] at hnext hcache hhashes
    have hfs : next.fs = state.fs := by
      rw [show next = { state with archiveCache := cache } from hcache]
    split
    · next body mime hpage =>
      refine huse next body mime hnext ?_
      rw [hfs] at hpage
      obtain ⟨content, hread, -⟩ := exists_read_of_readPage hpage
      have hhash := hcurrent book (by rw [hopen]) content hread
      refine ⟨content, hhash, (body, mime), ?_, rfl, rfl⟩
      rw [Option.mem_def, ← readPage_eq_pageOf hblake (hhashes book rfl) hread hhash]
      exact hpage
    · exact ⟨hnext, by simp⟩

theorem Genuine.serveStored (h : Genuine crates state) {slot : Slot} {source : Sourced (List UInt8)}
    (hpage : IsPage crates slot source.value) {last : State}
    (hlast : Server.ensureAt crates state source slot = some last) {data : Sourced (List UInt8)}
    {type : List Char} (hdata : serveCached (last.thumbAt slot) = .content data type) :
    IsThumbnail crates slot data.value ∧ type = jpeg := by
  unfold serveCached at hdata
  split at hdata
  · next thumb hthumb =>
    obtain ⟨rfl, rfl⟩ := Response.content.inj hdata
    exact ⟨(h.ensureAt hpage hlast).thumbs slot thumb hthumb, rfl⟩
  · simp at hdata

theorem Genuine.serveThumbnail (hblake : Function.Injective crates.blake3)
    (h : Genuine crates state) {book : BookRow}
    (hcurrent : ∀ row ∈ thumbnailRow state book, OpensCurrent config crates state row) :
    Genuine crates (serveThumbnail config crates state book).2 ∧
      ∀ data type, (serveThumbnail config crates state book).1 = .content data type →
        IsThumbnail crates (.cover book.hash) data.value ∧ type = jpeg := by
  unfold Server.serveThumbnail
  split
  · next thumb hthumb =>
    refine ⟨h, fun data type hdata ↦ ?_⟩
    obtain ⟨rfl, rfl⟩ := Response.content.inj hdata
    exact ⟨h.thumbs (.cover book.hash) thumb hthumb, rfl⟩
  · next hnone =>
    rw [thumbnailRow, hnone, if_neg (by simp)] at hcurrent
    refine @Genuine.withPage config crates state hblake h book (hcurrent book rfl) 0 _
      (fun data type ↦ IsThumbnail crates (.cover book.hash) data ∧ type = jpeg) ?_
    intro next source mime hnext hpage
    have hsource : IsPage crates (.cover book.hash) source.value := hpage.isPage
    rw [ensureThumbnail_eq]
    cases hlast : Server.ensureAt crates next source (.cover book.hash) with
    | none => exact ⟨hnext, by simp⟩
    | some last =>
      exact ⟨hnext.ensureAt hsource hlast, fun data type hdata ↦
        hnext.serveStored hsource hlast hdata⟩

theorem Genuine.bookPage (hblake : Function.Injective crates.blake3) (h : Genuine crates state)
    {hash : List Char} {n : ℤ} {oneBased : Bool} {thumbnailPref : Option ℕ}
    (hcurrent : ReadsCurrent config crates state (.bookPage hash n oneBased thumbnailPref)) :
    Genuine crates (bookPage config crates state hash n oneBased thumbnailPref).2 ∧
      ∀ data type, (bookPage config crates state hash n oneBased thumbnailPref).1 =
        .content data type →
          IsAnswer crates data.value type (.bookPage hash n oneBased thumbnailPref) := by
  unfold ReadsCurrent archiveRow at hcurrent
  unfold Server.bookPage
  dsimp only at hcurrent ⊢
  generalize hnumber : (if oneBased = true then n - 1 else n) = index at hcurrent ⊢
  split
  · exact ⟨h, by simp⟩
  · next book hbook =>
    obtain rfl := (lookupBook_eq_some hbook).2.1
    rw [hbook, Option.bind_some, pageRow] at hcurrent
    split
    · exact ⟨h, by simp⟩
    · next hindex =>
      have hpage : (index.toNat : ℤ) = if oneBased then n - 1 else n := by
        rw [hnumber]
        exact Int.toNat_of_nonneg (by omega)
      rw [if_neg hindex] at hcurrent
      cases thumbnailPref with
      | none =>
        refine @Genuine.withPage config crates state hblake h book (hcurrent book rfl) index.toNat _
          (fun data type ↦ IsAnswer crates data type (.bookPage book.hash n oneBased none)) ?_
        intro next body mime hnext hbody
        refine ⟨hnext, fun data type hdata ↦ ?_⟩
        obtain ⟨rfl, rfl⟩ := Response.content.inj hdata
        exact ⟨index.toNat, hpage, hbody⟩
      | some requested =>
        have hslot (other : State) : other.pageThumbs (book.hash, index.toNat, snapWidth requested) =
          other.thumbAt (.page book.hash index.toNat (snapWidth requested)) := rfl
        rw [Option.any_some] at hcurrent
        simp only [hslot, ensurePageThumbnail_eq] at hcurrent ⊢
        split
        · next thumb hthumb =>
          refine ⟨h, fun data type hdata ↦ ⟨index.toNat, hpage, ?_⟩⟩
          obtain ⟨rfl, rfl⟩ := Response.content.inj hdata
          exact ⟨h.thumbs _ thumb hthumb, rfl⟩
        · next hnone =>
          rw [hnone, Option.isSome_none, if_neg Bool.false_ne_true] at hcurrent
          refine @Genuine.withPage config crates state hblake h book (hcurrent book rfl)
            index.toNat _ (fun data type ↦ IsAnswer crates data type
              (.bookPage book.hash n oneBased (some requested))) ?_
          intro next source mime hnext hsource
          have hsource : IsPage crates (.page book.hash index.toNat (snapWidth requested))
            source.value := hsource.isPage
          cases hlast : Server.ensureAt crates next source
              (.page book.hash index.toNat (snapWidth requested)) with
          | none => exact ⟨hnext, by simp⟩
          | some last =>
            refine ⟨hnext.ensureAt hsource hlast, fun data type hdata ↦ ?_⟩
            exact ⟨index.toNat, hpage, hnext.serveStored hsource hlast hdata⟩

theorem read_of_under {fs : Fs} {root candidate safe : OsPath}
    (h : fs.under root candidate = some safe) : fs.read candidate = fs.read safe := by
  obtain ⟨hsafe, -⟩ := Fs.under_eq_some.mp h
  rw [Fs.read, Fs.read, hsafe, (Fs.plain_of_canonicalize hsafe).canonicalize]

theorem isAnswer_bookFile
    (hrows : ∀ row ∈ state.db.books, ∃ bytes, Describes crates bytes row)
    (hblake : Function.Injective crates.blake3) {hash : List Char}
    (hcurrent : ReadsCurrent config crates state (.bookFile hash)) {data : Sourced (List UInt8)}
    {type : List Char} (hdata : bookFile config state hash = .content data type) :
    IsAnswer crates data.value type (.bookFile hash) := by
  unfold Server.bookFile at hdata
  split at hdata
  · simp at hdata
  · next row hrow =>
    obtain ⟨hmem, rfl, -⟩ := lookupBook_eq_some hrow
    split at hdata
    · simp at hdata
    · next safe hsafe =>
      unfold serveFile at hdata
      split at hdata
      · next body hbody =>
        obtain ⟨rfl, rfl⟩ := Response.content.inj hdata
        have hhash := hcurrent row hrow body (by rw [read_of_under hsafe, hbody]; rfl)
        obtain ⟨bytes, hbytes⟩ := hrows row hmem
        obtain rfl := hblake (hhash.trans hbytes.hash.symm)
        obtain ⟨kind, pages, hkind, hformat, -, -⟩ := hbytes.archive
        exact ⟨hhash, kind, hkind, by rw [hformat]⟩
      · simp at hdata

/-- A request is answered as it should be. -/
theorem Genuine.handle (hblake : Function.Injective crates.blake3) (h : Genuine crates state)
    (hrows : ∀ row ∈ state.db.books, ∃ bytes, Describes crates bytes row) {request : Request}
    (hcurrent : ReadsCurrent config crates state request) :
    Genuine crates (handle config crates state request).2 ∧
      ∀ data type, (handle config crates state request).1 = .content data type →
        IsAnswer crates data.value type request := by
  cases request with
  | opdsRoot =>
    rw [Server.handle]
    split <;> exact ⟨h, by simp [serveFolderFeed]⟩
  | opdsFolder slug =>
    rw [Server.handle]
    split <;> exact ⟨h, by simp [serveFolderFeed]⟩
  | opdsSearch q =>
    rw [Server.handle]
    split <;> exact ⟨h, by simp⟩
  | bookPage hash n oneBased thumbnailPref => exact h.bookPage hblake hcurrent
  | bookCover hash =>
    rw [Server.handle, bookCover]
    split
    · exact ⟨h, by simp⟩
    · next book hbook =>
      obtain rfl := (lookupBook_eq_some hbook).2.1
      refine @Genuine.withPage config crates state hblake h book (hcurrent book hbook) 0 _
        (fun data type ↦ IsAnswer crates data type (.bookCover book.hash)) ?_
      intro next body mime hnext hbody
      refine ⟨hnext, fun data type hdata ↦ ?_⟩
      obtain ⟨rfl, rfl⟩ := Response.content.inj hdata
      exact hbody
  | bookThumbnail hash =>
    rw [Server.handle, bookThumbnail]
    change ∀ row ∈ archiveRow config state (.bookThumbnail hash), _ at hcurrent
    rw [archiveRow] at hcurrent
    split
    · exact ⟨h, by simp⟩
    · next book hbook =>
      obtain rfl := (lookupBook_eq_some hbook).2.1
      rw [hbook, Option.bind_some] at hcurrent
      exact h.serveThumbnail hblake hcurrent
  | bookFile hash => exact ⟨h, fun data type hdata ↦ isAnswer_bookFile hrows hblake hcurrent hdata⟩
  | folderCover slug =>
    refine ⟨?_, fun _ _ _ ↦ trivial⟩
    rw [Server.handle, folderCover]
    change ∀ row ∈ archiveRow config state (.folderCover slug), _ at hcurrent
    rw [archiveRow] at hcurrent
    split
    · exact h
    · next folder hfolder =>
      split
      · exact h
      · next hcover =>
        split
        · next book hbook =>
          rw [hfolder, Option.bind_some, hcover, if_neg (by simp), hbook,
            Option.bind_some] at hcurrent
          exact (h.serveThumbnail hblake hcurrent).1
        · exact h

theorem Genuine.finish_reading (h : Genuine crates state) {slot : Slot} {book : Book}
    (hopen : openBook crates.reader state.fs book.path = some book)
    (hhash : fileHash crates.toTools state.fs book.path = some slot.hash) :
    Genuine crates (Task.finish config crates 3 (state, some (.reading slot book))) ∧
      (Task.finish config crates 3 (state, some (.reading slot book))).fs = state.fs := by
  rw [Server.finish_reading]
  cases hpage : book.readPage crates.reader state.fs slot.index with
  | none => exact ⟨h, rfl⟩
  | some page =>
    rw [Option.bind_some]
    cases hlast : Server.ensureAt crates state page.1 slot with
    | none => exact ⟨h, rfl⟩
    | some last => exact ⟨h.ensureAt (isPage_of_readPage hpage hopen hhash) hlast, fs_ensureAt hlast⟩

theorem Genuine.prewarmBook (h : Genuine crates state) {row : BookRow}
    (hcurrent : ∀ content ∈ state.fs.read row.path.osPath, crates.blake3 content.value = row.hash) :
    Genuine crates (prewarmBook config crates state row) := by
  rw [prewarmBook_eq_finish]
  split
  · exact h
  · split
    · exact h
    · next book hopen =>
      have hpath := path_of_openBook hopen
      have hhash : fileHash crates.toTools state.fs book.path = some row.hash := by
        obtain ⟨-, content, hread, -⟩ := openBook_eq_some.mp hopen
        rw [hpath, fileHash, hread, Option.map_some, hcurrent content hread]
      rw [← hpath] at hopen
      refine (List.foldlRecOn (prewarmSlots config state row) _
        (motive := fun next ↦ Genuine crates next ∧ next.fs = state.fs) ⟨h, rfl⟩ ?_).1
      rintro next ⟨hnext, hfs⟩ slot hslot
      rw [← hash_of_mem_prewarmSlots hslot] at hhash
      rw [← hfs] at hopen hhash ⊢
      exact hnext.finish_reading hopen hhash

theorem Genuine.prewarm (h : Genuine crates state)
    (hcurrent : ∀ row ∈ state.db.books, ∀ content ∈ state.fs.read row.path.osPath,
      crates.blake3 content.value = row.hash) : Genuine crates (prewarm config crates state) := by
  refine (List.foldlRecOn state.db.books _
    (motive := fun next ↦ Genuine crates next ∧ Thumbnailed state next)
    ⟨h, Thumbnailed.refl state⟩ ?_).1
  rintro next ⟨hnext, hsame⟩ row hrow
  refine ⟨hnext.prewarmBook ?_, hsame.prewarmBook row⟩
  rw [hsame.fs_eq]
  exact hcurrent row hrow

theorem Genuine.of_eq (h : Genuine crates state) {next : State}
    (hcache : next.archiveCache = state.archiveCache)
    (hthumbs : ∀ slot, next.thumbAt slot = state.thumbAt slot) : Genuine crates next where
  archives := by
    rw [hcache]
    exact h.archives
  thumbs slot := by
    rw [hthumbs]
    exact h.thumbs slot

theorem Genuine.step (hblake : Function.Injective crates.blake3) (h : Genuine crates state)
    (hrows : ∀ row ∈ state.db.books, ∃ bytes, Describes crates bytes row) {event : Event}
    (hcurrent : StepsCurrent config crates state event) :
    Genuine crates (step config crates state event) := by
  cases event with
  | change fs => exact h.of_eq rfl fun slot ↦ by cases slot <;> rfl
  | request request => exact (h.handle hblake hrows hcurrent).1
  | scan started faults stop =>
    cases stop with
    | some statements =>
      change Genuine crates (stopped config crates state started faults statements)
      rw [stopped]
      split
      · exact h
      · exact h.of_eq rfl fun slot ↦ by cases slot <;> rfl
    | none =>
      change Genuine crates (scanned config crates state started faults)
      unfold scanned
      split
      · exact h
      · next walk hwalk =>
        have hwalked : Genuine crates { state with db := walk.db } :=
          h.of_eq rfl fun slot ↦ by cases slot <;> rfl
        split
        · next hprewarm => exact hwalked.prewarm (hcurrent hprewarm walk hwalk)
        · exact hwalked

theorem genuine_stateAfter (hblake : Function.Injective crates.blake3) {fs : Fs}
    {events : List Event} (hcurrent : Allowed (Server.step config crates)
      (StepsCurrent config crates) (State.start config fs) events) :
    Genuine crates (stateAfter config crates fs events) := by
  induction events using List.reverseRecOn with
  | nil => exact genuine_start fs
  | append_singleton events event ih =>
    obtain ⟨hbefore, hevent, -⟩ := allowed_append.mp hcurrent
    rw [stateAfter, run_snoc]
    exact (ih hbefore).step hblake (describes_stateAfter config crates fs events) hevent

/-- Whatever has happened to a server, it answers a request as it should be. -/
theorem isAnswer_stateAfter (hblake : Function.Injective crates.blake3) {fs : Fs}
    {events : List Event} {request : Request} (hcurrent : Allowed (Server.step config crates)
      (StepsCurrent config crates) (State.start config fs) (events ++ [.request request]))
    {data : Sourced (List UInt8)} {type : List Char}
    (hdata : (Server.handle config crates (stateAfter config crates fs events) request).1 =
      .content data type) : IsAnswer crates data.value type request := by
  obtain ⟨hbefore, hrequest, -⟩ := allowed_append.mp hcurrent
  exact ((genuine_stateAfter hblake hbefore).handle hblake
    (describes_stateAfter config crates fs events) hrequest).2 data type hdata

/-- **Contents under their hashes.** Whatever happens to two servers, or to one until two points in
time, no two contents having the same hash: if every file that a request or the generation of
thumbnails reads has the content that it was scanned with, then the file, the cover, the thumbnail,
and every page of a book, in any width, are the same bytes of the same type wherever and whenever
they are served. -/
theorem answers_agree (hblake : Function.Injective crates.blake3) {request : Request}
    (hbook : request.IsOfBook) {first second : Config} {fs other : Fs} {events others : List Event}
    (hfirst : Allowed (Server.step first crates) (StepsCurrent first crates)
      (State.start first fs) (events ++ [.request request]))
    (hsecond : Allowed (Server.step second crates) (StepsCurrent second crates)
      (State.start second other) (others ++ [.request request]))
    {data found : Sourced (List UInt8)} {type kind : List Char}
    (hdata : (Server.handle first crates (stateAfter first crates fs events) request).1 =
      .content data type)
    (hfound : (Server.handle second crates (stateAfter second crates other others) request).1 =
      .content found kind) : data.value = found.value ∧ type = kind :=
  (isAnswer_stateAfter hblake hfirst hdata).unique hblake hbook
    (isAnswer_stateAfter hblake hsecond hfound)

/-- A server that has scanned a library with the archive in the folder given. -/
abbrev scannedIn (folder : OsName) : State :=
  stateAfter Config.sample Crates.zipped (zippedFs folder) [.scan 10 (fun _ ↦ false) none]

/-- Two servers that have the same archive in different folders. -/
theorem answers_agree_zipped :
    Response.content ⟨[255, 216, 255], [ascii "lib", ascii "a", ascii "1.cbz"]⟩ jpeg =
        (Server.handle Config.sample Crates.zipped (scannedIn (ascii "a"))
          (.bookCover sampleHash)).1 ∧
      Response.content ⟨[255, 216, 255], [ascii "lib", ascii "b", ascii "1.cbz"]⟩ jpeg =
        (Server.handle Config.sample Crates.zipped (scannedIn (ascii "b"))
          (.bookCover sampleHash)).1 ∧
      ([255, 216, 255] : List UInt8) = [255, 216, 255] ∧ jpeg = jpeg := by
  have hcurrent (folder : OsName) (h : ∀ row ∈ archiveRow Config.sample (scannedIn folder)
      (.bookCover sampleHash), OpensCurrent Config.sample Crates.zipped (scannedIn folder) row) :
      Allowed (Server.step Config.sample Crates.zipped) (StepsCurrent Config.sample Crates.zipped)
        (State.start Config.sample (zippedFs folder))
        ([.scan 10 (fun _ ↦ false) none] ++ [.request (.bookCover sampleHash)]) :=
    ⟨fun hprewarm ↦ absurd hprewarm (by decide), h, trivial⟩
  have hbook : (Request.bookCover sampleHash).IsOfBook := trivial
  have hfirst : Response.content ⟨[255, 216, 255], [ascii "lib", ascii "a", ascii "1.cbz"]⟩ jpeg =
      (Server.handle Config.sample Crates.zipped (scannedIn (ascii "a"))
        (.bookCover sampleHash)).1 := by decide +kernel
  have hsecond : Response.content ⟨[255, 216, 255], [ascii "lib", ascii "b", ascii "1.cbz"]⟩ jpeg =
      (Server.handle Config.sample Crates.zipped (scannedIn (ascii "b"))
        (.bookCover sampleHash)).1 := by decide +kernel
  exact ⟨hfirst, hsecond, answers_agree sampleBlake3_injective hbook
    (hcurrent (ascii "a") (by decide +kernel)) (hcurrent (ascii "b") (by decide +kernel))
    hfirst.symm hsecond.symm⟩

end ComicStream.Server
