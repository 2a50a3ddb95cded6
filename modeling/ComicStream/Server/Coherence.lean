import ComicStream.Catalog.Rescan
import ComicStream.Foundation.Machine
import ComicStream.Server.Steps

/-!
# Cached archives and the catalog

An archive is cached under a content hash, and goes on reading from the path it
was opened at. It stays the archive of the row that is looked up under the hash as
long as no scan finds the content at another path first, and as long as the
archives that are opened in between have the content of the rows they are opened
for.
-/

namespace ComicStream.Server

open Rust Archive Catalog Machine

/-- The page of an archive with the content given. -/
def pageOf (reader : Reader) (content : Sourced (List UInt8)) (index : ℕ) :
    Option (Sourced (List UInt8) × List Char) :=
  (Kind.ofMagic content.value).bind fun kind ↦
    (reader.pages content.value kind).bind fun pages ↦
      pages[index]?.bind fun entry ↦
        (reader.extract content.value entry.name kind).map fun data ↦
          (⟨data, content.source⟩, entry.mime)

section Properties

variable (config : Config) (crates : Crates) (state : State)

/-- With the row's path validated, the cache returns an archive that reads from the validated
path, has the row's number of pages, and reads the pages of the file there, whose content is the
row's. -/
def Serves (row : BookRow) : Prop :=
  ∃ path content book, state.fs.under config.libraryRoot row.path.osPath = some path ∧
    state.fs.read path = some content ∧ crates.blake3 content.value = row.hash ∧
    (state.archiveCache.getOrOpen crates.reader state.fs row.hash path).1 = some book ∧
    book.path = path ∧ book.pages.length = row.pageCount ∧
    ∀ index, book.readPage crates.reader state.fs index = pageOf crates.reader content index

/-- Every content hash in the catalog is looked up and served. -/
def Served : Prop :=
  ∀ book ∈ state.db.books, ∃ row, lookupBook state.db book.hash = some row ∧
    Serves config crates state row

/-- The archive that a request reads a page from reads from the path that the request has
validated. -/
def ReadsValidated (request : Request) : Prop :=
  ∀ row ∈ archiveRow config state request, ∀ book,
    (openArchive config crates state row.hash row.path).1 = .ok book →
    state.fs.under config.libraryRoot row.path.osPath = some book.path

/-- The row is the one that is looked up under its hash, its path does not lead through a link, and
an archive that is opened there has its content. -/
structure SteadyRow (row : BookRow) : Prop where
  chosen : lookupBook state.db row.hash = some row
  direct : ∀ path ∈ state.fs.under config.libraryRoot row.path.osPath, path = row.path.osPath
  hash : state.archiveCache.peek row.hash = none →
    (openBook crates.reader state.fs row.path.osPath).isSome →
    ∀ hash ∈ fileHash crates.toTools state.fs row.path.osPath, hash = row.hash

/-- What a scan must find in the library. -/
structure SteadyScan (started : ℕ) (faults : OsPath → Bool) : Prop where
  root : state.fs.canonicalize config.libraryRoot = some config.libraryRoot
  names : ∀ entry ∈ (scanOf config crates state started faults).entries.files, entry.1.IsUtf8
  unchanged : (scanOf config crates state started faults).Unchanged state.db
  stamps : ∀ row ∈ state.db.books, started ≤ row.seenAt →
    (scanOf config crates state started faults).Records row
  cached : ∀ opened ∈ state.archiveCache.entries,
    ∀ entry ∈ (scanOf config crates state started faults).entries.files,
      entry.2.hash = some opened.1 → entry.1 = opened.2.path ∨
        (scanOf config crates state started faults).Outranks crates.xxh3 state.db opened.1
          opened.2.path entry.1

/-- The library may change in any way; scans are complete. -/
def Steady : Event → Prop
  | .change _ => True
  | .scan started faults none => SteadyScan config crates state started faults
  | .scan _ _ (some _) => False
  | .request request => ∀ row ∈ archiveRow config state request, SteadyRow config crates state row

end Properties

variable {config : Config} {crates : Crates} {state : State}

/-- An archive of this kind and with these pages has the content hash given. -/
def Hashes (crates : Crates) (hash : List Char) (kind : Kind) (pages : List PageEntry) : Prop :=
  ∃ bytes, crates.blake3 bytes = hash ∧ Kind.ofMagic bytes = some kind ∧
    crates.reader.pages bytes kind = some pages

/-- Rows and cached archives are those of the contents they are kept under, and a cached archive
reads from the path of the row that is looked up. -/
structure Coherent (crates : Crates) (db : Db) (cache : Cache) : Prop where
  slugs : ∀ row ∈ db.folders, row.slug = slugForPath crates.xxh3 row.path
  rows : ∀ row ∈ db.books, ∃ kind pages, Hashes crates row.hash kind pages ∧
    pages.length = row.pageCount
  archives : ∀ opened ∈ cache.entries, Hashes crates opened.1 opened.2.kind opened.2.pages
  paths : ∀ opened ∈ cache.entries, ∀ row, lookupBook db opened.1 = some row →
    opened.2.path = row.path.osPath

theorem coherent_start (config : Config) (crates : Crates) (fs : Fs) :
    Coherent crates (State.start config fs).db (State.start config fs).archiveCache where
  slugs := by simp [State.start, Db.empty]
  rows := by simp [State.start, Db.empty]
  archives := by simp [State.start, Cache.new, Lru.empty]
  paths := by simp [State.start, Cache.new, Lru.empty]

theorem hashes_of_openBook {fs : Fs} {path : OsPath} {hash : List Char} {book : Book}
    (hopen : openBook crates.reader fs path = some book)
    (hhash : ∀ found ∈ fileHash crates.toTools fs path, found = hash) :
    Hashes crates hash book.kind book.pages := by
  obtain ⟨-, content, hread, hkind, hpages⟩ := openBook_eq_some.mp hopen
  refine ⟨content.value, ?_, hkind, hpages⟩
  apply hhash
  rw [fileHash, hread]
  rfl

/-- The archive of a request's row reads from the validated path. -/
theorem Coherent.readsValidated (h : Coherent crates state.db state.archiveCache)
    {request : Request}
    (hsteady : ∀ row ∈ archiveRow config state request, SteadyRow config crates state row) :
    ReadsValidated config crates state request := by
  intro row hrow book hbook
  have hrowSteady := hsteady row hrow
  obtain ⟨safe, hsafe, hcached | hopen⟩ := openArchive_eq_ok hbook
  · rw [hsafe, h.paths _ hcached row hrowSteady.chosen, hrowSteady.direct safe hsafe]
  · rw [hsafe, path_of_openBook hopen]

theorem Coherent.handle (h : Coherent crates state.db state.archiveCache) {request : Request}
    (hsteady : ∀ row ∈ archiveRow config state request, SteadyRow config crates state row) :
    Coherent crates (handle config crates state request).2.db
      (handle config crates state request).2.archiveCache := by
  rw [(@handle_handled config crates state request).db_eq]
  refine ⟨h.slugs, h.rows, ?_, ?_⟩
  · intro opened hopened
    rcases mem_cache_handle hopened with hold | ⟨row, hrow, safe, hhash, hnone, hsafe, hopen⟩
    · exact h.archives opened hold
    · have hrowSteady := hsteady row hrow
      rw [hrowSteady.direct safe hsafe] at hopen
      rw [hhash]
      exact hashes_of_openBook hopen
        (hrowSteady.hash hnone (by rw [hopen, Option.isSome_some]))
  · intro opened hopened row hlookup
    rcases mem_cache_handle hopened with hold | ⟨found, hfound, safe, hhash, -, hsafe, hopen⟩
    · exact h.paths opened hold row hlookup
    · have hfoundSteady := hsteady found hfound
      rw [hhash, hfoundSteady.chosen] at hlookup
      rw [path_of_openBook hopen, hfoundSteady.direct safe hsafe, Option.some.inj hlookup]

/-! ## Scans -/

section Scan

variable {started : ℕ} {faults : OsPath → Bool}

theorem SteadyScan.of_mem_files (h : SteadyScan config crates state started faults)
    {entry : OsPath × FileInfo}
    (hentry : entry ∈ (scanOf config crates state started faults).entries.files) :
    config.libraryRoot <+: entry.1 ∧ Fs.Plain state.fs entry.1 ∧
      entry.2 = fileInfo crates.toTools faults state.fs entry.1 := by
  obtain ⟨hroot, hplain, -, hinfo⟩ := Catalog.of_mem_files h.root hentry
  exact ⟨hroot, hplain, hinfo⟩

theorem SteadyScan.osPath_text (h : SteadyScan config crates state started faults)
    {entry : OsPath × FileInfo}
    (hentry : entry ∈ (scanOf config crates state started faults).entries.files) :
    PathText.osPath entry.1.text = entry.1 := OsPath.isUtf8_iff.mp (h.names entry hentry)

theorem SteadyScan.faithful (h : SteadyScan config crates state started faults) :
    (scanOf config crates state started faults).Faithful := by
  constructor
  intro first hfirst second hsecond htext
  have hpath : first.1 = second.1 := by
    rw [← h.osPath_text hfirst, htext, h.osPath_text hsecond]
  apply Prod.ext hpath
  rw [(h.of_mem_files hfirst).2.2, (h.of_mem_files hsecond).2.2, hpath]

theorem hashes_of_stores {db : Db} {path : OsPath} {name : OsName} {folderId seenAt size : ℕ}
    {row : BookRow}
    (hdb : ∀ old ∈ db.books, ∃ kind pages, Hashes crates old.hash kind pages ∧
      pages.length = old.pageCount)
    (h : Stores db path name folderId seenAt (fileInfo crates.toTools faults state.fs path) size
      row) :
    ∃ kind pages, Hashes crates row.hash kind pages ∧ pages.length = row.pageCount := by
  cases h with
  | stamped old hold hpath hunchanged => exact hdb old hold
  | written hash kind pageCount id addedAt hhash hkind hpages hpos hmax =>
    obtain ⟨book, hopen, hcount⟩ := Option.map_eq_some_iff.mp hpages
    refine ⟨book.kind, book.pages, ?_, hcount⟩
    apply hashes_of_openBook hopen
    intro found hfound
    exact Option.some.inj (hfound.symm.trans hhash)

variable {walk : Walk}

theorem SteadyScan.records (h : SteadyScan config crates state started faults)
    (hwalk : (scanOf config crates state started faults).complete crates.xxh3 state.db =
      some walk) :
    ∀ row ∈ walk.db.books, (scanOf config crates state started faults).Records row :=
  Scan.complete_records h.faithful h.unchanged h.stamps hwalk

/-- A steady scan does not change the path of the row that is looked up for a cached archive. -/
theorem Coherent.complete (h : Coherent crates state.db state.archiveCache)
    (hsteady : SteadyScan config crates state started faults)
    (hwalk : (scanOf config crates state started faults).complete crates.xxh3 state.db =
      some walk) : Coherent crates walk.db state.archiveCache := by
  have hrows := @Scan.rows_induction crates.xxh3 (scanOf config crates state started faults)
    state.db walk.db (fun row ↦ row.slug = slugForPath crates.xxh3 row.path)
    (fun row ↦ ∃ kind pages, Hashes crates row.hash kind pages ∧ pages.length = row.pageCount)
    ⟨h.slugs, h.rows⟩ (fun _ _ _ _ _ _ _ ↦ rfl) (fun _ _ hrow ↦ hrow) ?_ (Scan.mem_states hwalk)
  · refine ⟨hrows.1, hrows.2, h.archives, ?_⟩
    intro opened hopened row hlookup
    obtain ⟨hrow, hhash, holdest⟩ := lookupBook_eq_some hlookup
    obtain ⟨entry, hentry, hpath, hentryHash⟩ := hsteady.records hwalk row hrow
    rw [hpath, hsteady.osPath_text hentry]
    rw [hhash] at hentryHash
    apply ((hsteady.cached opened hopened entry hentry hentryHash).resolve_right _).symm
    intro houtranks
    obtain ⟨older, holder, holderHash, hlt⟩ :=
      houtranks.exists_row hsteady.faithful h.slugs hwalk (hsteady.records hwalk)
    exact Nat.lt_irrefl _ ((hlt row hrow hpath).trans_le (holdest older holder holderHash))
  · intro before path name folderId info size row hbefore hfile hsize hstores
    have hinfo : info = fileInfo crates.toTools faults state.fs path :=
      (hsteady.of_mem_files hfile).2.2
    rw [hinfo] at hstores
    exact hashes_of_stores hbefore hstores

theorem Coherent.scanned (h : Coherent crates state.db state.archiveCache)
    (hsteady : SteadyScan config crates state started faults) :
    Coherent crates (scanned config crates state started faults).db
      (scanned config crates state started faults).archiveCache := by
  cases hwalk : (scanOf config crates state started faults).complete crates.xxh3 state.db with
  | none =>
    rw [Server.scanned, hwalk]
    exact h
  | some walk =>
    have hnext := scanned_eq hwalk
    rw [hnext.db_eq, hnext.cache_eq]
    exact h.complete hsteady hwalk

/-- Every row's path is below the root, leads through no link, and has the content of the row. -/
def Settled (config : Config) (crates : Crates) (state : State) : Prop :=
  ∀ row ∈ state.db.books, config.libraryRoot <+: row.path.osPath ∧
    Fs.Plain state.fs row.path.osPath ∧
    fileHash crates.toTools state.fs row.path.osPath = some row.hash

theorem settled_scanned (hsteady : SteadyScan config crates state started faults)
    (hwalk : (scanOf config crates state started faults).complete crates.xxh3 state.db =
      some walk) : Settled config crates (scanned config crates state started faults) := by
  have hnext := scanned_eq hwalk
  unfold Settled
  rw [hnext.db_eq, hnext.fs_eq]
  intro row hrow
  obtain ⟨entry, hentry, hpath, hhash⟩ := hsteady.records hwalk row hrow
  obtain ⟨hroot, hplain, hinfo⟩ := hsteady.of_mem_files hentry
  rw [hpath, hsteady.osPath_text hentry]
  refine ⟨hroot, hplain, ?_⟩
  rw [← hhash, hinfo]
  rfl

end Scan

theorem Settled.handle (h : Settled config crates state) (request : Request) :
    Settled config crates (Server.handle config crates state request).2 := by
  have hhandled := @handle_handled config crates state request
  unfold Settled
  rw [hhandled.db_eq, hhandled.fs_eq]
  exact h

/-- A cached archive reads the pages of the file at its path, when this has the content that the
archive is cached under. -/
theorem readPage_eq_pageOf {fs : Fs} {book : Book} {hash : List Char}
    {content : Sourced (List UInt8)} (hblake : Function.Injective crates.blake3)
    (hbook : Hashes crates hash book.kind book.pages) (hread : fs.read book.path = some content)
    (hhash : crates.blake3 content.value = hash) (index : ℕ) :
    book.readPage crates.reader fs index = pageOf crates.reader content index := by
  obtain ⟨bytes, hbytes, hkind, hpages⟩ := hbook
  obtain rfl : content.value = bytes := hblake (hhash.trans hbytes.symm)
  rw [Book.readPage, pageOf, hread, hkind, Option.bind_some, hpages]
  rfl

/-- In a settled state the cache serves every row that is looked up. -/
theorem Coherent.serves (h : Coherent crates state.db state.archiveCache)
    (hblake : Function.Injective crates.blake3) (hsettled : Settled config crates state)
    {hash : List Char} {row : BookRow} (hlookup : lookupBook state.db hash = some row) :
    Serves config crates state row := by
  obtain ⟨hrow, rfl, -⟩ := lookupBook_eq_some hlookup
  obtain ⟨hroot, hplain, hfile⟩ := hsettled row hrow
  obtain ⟨content, hread, hhash⟩ := Option.map_eq_some_iff.mp hfile
  obtain ⟨kind, pages, hrowHashes, hcount⟩ := h.rows row hrow
  have hpages {book : Book} (hbook : Hashes crates row.hash book.kind book.pages) :
      book.pages.length = row.pageCount := by
    obtain ⟨bytes, hbytes, hkind, hpages⟩ := hrowHashes
    obtain ⟨others, hothers, hotherKind, hotherPages⟩ := hbook
    obtain rfl : others = bytes := hblake (hothers.trans hbytes.symm)
    rw [hkind, Option.some.injEq] at hotherKind
    rw [← hotherKind, hpages, Option.some.injEq] at hotherPages
    rw [← hotherPages, hcount]
  have hserves {book : Book} (hpath : book.path = row.path.osPath)
      (hbook : Hashes crates row.hash book.kind book.pages)
      (hopened : (state.archiveCache.getOrOpen crates.reader state.fs row.hash
        row.path.osPath).1 = some book) : Serves config crates state row := by
    refine ⟨row.path.osPath, content, book,
      Fs.under_eq_some.mpr ⟨hplain.canonicalize, hroot⟩, hread, hhash, hopened, hpath,
      hpages hbook, ?_⟩
    exact readPage_eq_pageOf hblake hbook (by rw [hpath, hread]) hhash
  cases hpeek : state.archiveCache.peek row.hash with
  | some book =>
    have hcached := Lru.peek_eq_some.mp hpeek
    exact hserves (h.paths _ hcached row hlookup) (h.archives _ hcached)
      (Cache.getOrOpen_of_mem hcached)
  | none =>
    obtain ⟨bytes, hbytes, hkind, hrowPages⟩ := hrowHashes
    obtain rfl : content.value = bytes := hblake (hhash.trans hbytes.symm)
    have hopen : openBook crates.reader state.fs row.path.osPath =
        some ⟨kind, row.path.osPath, pages⟩ :=
      openBook_eq_some.mpr ⟨rfl, content, hread, hkind, hrowPages⟩
    apply @hserves ⟨kind, row.path.osPath, pages⟩ rfl ⟨content.value, hbytes, hkind, hrowPages⟩
    rw [Cache.getOrOpen_of_peek hpeek, hopen]

theorem exists_lookupBook {db : Db} {book : BookRow} (h : book ∈ db.books) :
    ∃ row, lookupBook db book.hash = some row := by
  rw [← Option.isSome_iff_exists, Option.isSome_iff_ne_none]
  intro hnone
  have hempty := List.argmin_eq_none.mp hnone
  rw [List.filter_eq_nil_iff] at hempty
  exact hempty book h (by simp)

/-- A step of a steady run keeps rows and cached archives coherent. -/
theorem Coherent.step (h : Coherent crates state.db state.archiveCache) {event : Event}
    (hsteady : Steady config crates state event) :
    Coherent crates (step config crates state event).db
      (step config crates state event).archiveCache := by
  cases event with
  | change fs => exact h
  | scan started faults stop =>
    cases stop with
    | none => exact h.scanned hsteady
    | some statements => exact hsteady.elim
  | request request => exact h.handle hsteady

theorem Settled.run (h : Settled config crates state) (requests : List Request) :
    Settled config crates (run (Server.step config crates) state (requests.map .request)) := by
  induction requests generalizing state with
  | nil => exact h
  | cons request rest ih => exact ih (h.handle request)

/-- The state of a server that was set up over the file system given, after the events. -/
abbrev stateAfter (config : Config) (crates : Crates) (fs : Fs) (events : List Event) : State :=
  run (step config crates) (State.start config fs) events

theorem coherent_stateAfter {fs : Fs} {events : List Event}
    (hsteady : Allowed (step config crates) (Steady config crates) (State.start config fs)
      events) :
    Coherent crates (stateAfter config crates fs events).db
      (stateAfter config crates fs events).archiveCache :=
  @run_invariant_of_allowed _ _ _ _ (fun state ↦ Coherent crates state.db state.archiveCache)
    (fun _ _ h hallowed ↦ h.step hallowed) _ _ hsteady (coherent_start config crates fs)

/-- **Coherence.** In every run of complete scans, requests and changes of the library, no two
contents having the same hash: if every scan finds the content of each cached archive at its path
first, and every archive that is opened has the content of its row, then requests read archives at
the paths they have validated; and after a scan, until the library changes, the archive of every
content hash in the catalog is the one at the path that is looked up, and reads its pages. -/
theorem archives_coherent (hblake : Function.Injective crates.blake3) (fs : Fs)
    {events : List Event}
    (hsteady : Allowed (step config crates) (Steady config crates) (State.start config fs)
      events) :
    (∀ before request after, events = before ++ .request request :: after →
      ReadsValidated config crates (stateAfter config crates fs before) request) ∧
    ∀ before started faults (requests : List Request),
      events = before ++ .scan started faults none :: requests.map .request →
      ((scanOf config crates (stateAfter config crates fs before) started faults).complete
        crates.xxh3 (stateAfter config crates fs before).db).isSome →
      Served config crates (stateAfter config crates fs events) := by
  constructor
  · rintro before request after rfl
    obtain ⟨hbefore, hrequest, -⟩ := allowed_append.mp hsteady
    exact (coherent_stateAfter hbefore).readsValidated hrequest
  · intro before started faults requests hevents hcomplete book hbook
    have hlast := coherent_stateAfter hsteady
    rw [hevents] at hsteady
    obtain ⟨-, hscan, -⟩ := allowed_append.mp hsteady
    obtain ⟨walk, hwalk⟩ := Option.isSome_iff_exists.mp hcomplete
    have hsettled := (settled_scanned hscan hwalk).run requests
    obtain ⟨row, hlookup⟩ := exists_lookupBook hbook
    refine ⟨row, hlookup, hlast.serves hblake ?_ hlookup⟩
    rw [hevents, stateAfter, run_append, run_cons]
    exact hsettled

/-- A ZIP archive with the entry `1.jpg`, which is stored as it is. -/
def sampleZip : List UInt8 :=
  [80, 75, 3, 4, 10, 0, 0, 0, 0, 0, 0, 0, 33, 0, 101, 77, 58, 37, 3, 0, 0, 0, 3, 0, 0, 0, 5, 0,
    0, 0, 49, 46, 106, 112, 103, 255, 216, 255, 80, 75, 1, 2, 10, 0, 10, 0, 0, 0, 0, 0, 0, 0, 33,
    0, 101, 77, 58, 37, 3, 0, 0, 0, 3, 0, 0, 0, 5, 0, 0, 0, 0, 0, 0, 0, 0, 0, 0, 0, 0, 0, 0, 0, 0,
    0, 49, 46, 106, 112, 103, 80, 75, 5, 6, 0, 0, 0, 0, 1, 0, 1, 0, 51, 0, 0, 0, 38, 0, 0, 0, 0, 0]

/-- The BLAKE3 hash of the archive. -/
def sampleHash : List Char :=
  ['3', 'c', 'f', '8', '6', '8', '9', '4', 'f', '6', 'a', '1', '7', 'd', '0', '4', '8', 'b', '1',
    '0', '2', '1', '0', '2', '0', '4', 'a', '6', 'e', 'd', '1', '5', '0', '2', '8', '2', 'd', '3',
    '7', '2', '0', '1', '6', 'b', 'e', '7', '7', '5', 'b', 'b', '4', 'c', '6', '8', '3', '5', 'd',
    'b', 'b', 'e', 'b', '7', 'd', '8']

/-- Other contents have hashes that start differently. -/
def sampleBlake3 (bytes : List UInt8) : List Char :=
  if bytes = sampleZip then sampleHash else 'x' :: bytes.map Char.ofUInt8

/-- The archive holds its one entry; there are no other archives. -/
def Crates.zipped : Crates where
  blake3 := sampleBlake3
  reader :=
    { zipEntries := fun bytes ↦
        if bytes = sampleZip then some [⟨"1.jpg".toList, false, 3⟩] else none
      zipByName := fun bytes name ↦
        if bytes = sampleZip ∧ name = "1.jpg".toList then some [255, 216, 255] else none
      rarEntries := fun _ ↦ none
      rarMembers := fun _ ↦ none }
  xxh3 := sampleXxh3
  resize _ _ := none
  like _ _ := false
  mimeGuess _ := none

theorem sampleBlake3_injective : Function.Injective sampleBlake3 := by
  have hchar : Function.Injective Char.ofUInt8 := by
    intro first second h
    exact UInt8.toUInt32_inj.mp (congrArg Char.val h)
  have hhead : sampleHash.head? = some '3' := by decide
  have hother (bytes : List UInt8) : sampleHash ≠ 'x' :: bytes.map Char.ofUInt8 := by
    intro h
    rw [h, List.head?_cons] at hhead
    exact absurd (Option.some.inj hhead) (by decide)
  intro first second h
  by_cases hfirst : first = sampleZip
  · by_cases hsecond : second = sampleZip
    · rw [hfirst, hsecond]
    · rw [sampleBlake3, sampleBlake3, if_pos hfirst, if_neg hsecond] at h
      exact absurd h (hother second)
  · by_cases hsecond : second = sampleZip
    · rw [sampleBlake3, sampleBlake3, if_neg hfirst, if_pos hsecond] at h
      exact absurd h.symm (hother first)
    · rw [sampleBlake3, sampleBlake3, if_neg hfirst, if_neg hsecond] at h
      exact List.map_injective_iff.mpr hchar (List.cons.inj h).2

/-- The library `/lib` with the archive in the folder given. -/
def zippedFs (folder : OsName) : Fs where
  mtime := 0
  entries := .dir (ascii "lib") 0 true
    (.dir folder 0 true (.file (ascii "1.cbz") ⟨sampleZip, 5, true⟩ .nil) .nil) .nil
  distinct := by rfl

/-- A scan, a request that opens the archive, its move to another folder, and another scan. -/
def movedEvents : List Event :=
  [.scan 10 (fun _ ↦ false) none, .request (.bookPage sampleHash 0 false none),
    .change (zippedFs (ascii "b")), .scan 20 (fun _ ↦ false) none]

set_option maxRecDepth 4000 in
/-- After an archive that is cached has been moved, and scanned where it is now, the cache still
returns the archive at the old path, and a request reads it from there. -/
theorem moved_archive :
    Function.Injective Crates.zipped.blake3 ∧
    ((scanOf Config.sample Crates.zipped
      (stateAfter Config.sample Crates.zipped (zippedFs (ascii "a")) (movedEvents.take 3)) 20
      fun _ ↦ false).complete Crates.zipped.xxh3
        (stateAfter Config.sample Crates.zipped (zippedFs (ascii "a")) (movedEvents.take 3)).db).isSome ∧
    ¬Served Config.sample Crates.zipped
      (stateAfter Config.sample Crates.zipped (zippedFs (ascii "a")) movedEvents) ∧
    ¬ReadsValidated Config.sample Crates.zipped
      (stateAfter Config.sample Crates.zipped (zippedFs (ascii "a")) movedEvents)
      (.bookPage sampleHash 0 false none) := by
  refine ⟨sampleBlake3_injective, by decide +kernel, ?_⟩
  have hcached : (((stateAfter Config.sample Crates.zipped (zippedFs (ascii "a"))
      movedEvents).archiveCache.peek sampleHash).map Book.path) =
        some [ascii "lib", ascii "a", ascii "1.cbz"] := by decide +kernel
  have hrow : (lookupBook (stateAfter Config.sample Crates.zipped (zippedFs (ascii "a"))
      movedEvents).db sampleHash).map (fun row ↦ (row.pageCount, (zippedFs (ascii "b")).under
        [ascii "lib"] row.path.osPath)) =
        some (1, some [ascii "lib", ascii "b", ascii "1.cbz"]) := by decide +kernel
  have hfs : (stateAfter Config.sample Crates.zipped (zippedFs (ascii "a")) movedEvents).fs =
      zippedFs (ascii "b") := by decide +kernel
  generalize stateAfter Config.sample Crates.zipped (zippedFs (ascii "a")) movedEvents = state
    at hcached hrow hfs
  obtain ⟨book, hpeek, hbook⟩ := Option.map_eq_some_iff.mp hcached
  obtain ⟨row, hlookup, hfound⟩ := Option.map_eq_some_iff.mp hrow
  obtain ⟨hcount, hunder⟩ := Prod.mk.inj hfound
  obtain ⟨hmem, hhash, -⟩ := lookupBook_eq_some hlookup
  have hopened (path : OsPath) : (state.archiveCache.getOrOpen Crates.zipped.reader state.fs
      row.hash path).1 = some book := by
    rw [hhash]
    exact Cache.getOrOpen_of_mem (Lru.peek_eq_some.mp hpeek)
  have hne : book.path ≠ [ascii "lib", ascii "b", ascii "1.cbz"] := by
    rw [hbook]
    decide
  constructor
  · intro hserved
    obtain ⟨same, hsame, path, -, opened, hpath, -, -, hserves, hopenedPath, -⟩ :=
      hserved row hmem
    rw [hhash, hlookup, Option.some.injEq] at hsame
    subst hsame
    rw [hfs, Config.sample, hunder, Option.some.injEq] at hpath
    rw [hopened path, Option.some.injEq] at hserves
    apply hne
    rw [hserves, hopenedPath, hpath]
  · intro hreads
    have hpage : archiveRow Config.sample state (.bookPage sampleHash 0 false none) = some row := by
      rw [archiveRow, hlookup, Option.bind_some, pageRow, hcount]
      rfl
    have hvalidated := hreads row hpage book ?_
    · rw [hfs, Config.sample, hunder, Option.some.injEq] at hvalidated
      exact hne hvalidated.symm
    · rw [openArchive, hfs, Config.sample, hunder]
      dsimp only
      rw [← hfs, hopened]

/-- The archive in the folder `a` and a copy in the folder `b`. -/
def copiedFs : Fs where
  mtime := 0
  entries := .dir (ascii "lib") 0 true
    (.dir (ascii "a") 0 true (.file (ascii "1.cbz") ⟨sampleZip, 5, true⟩ .nil)
      (.dir (ascii "b") 0 true (.file (ascii "1.cbz") ⟨sampleZip, 6, true⟩ .nil) .nil)) .nil
  distinct := by rfl

/-- A scan, a request that opens the archive, a copy of it, another scan and another request. -/
def copiedEvents : List Event :=
  [.scan 10 (fun _ ↦ false) none, .request (.bookPage sampleHash 0 false none),
    .change copiedFs, .scan 20 (fun _ ↦ false) none, .request (.bookPage sampleHash 0 false none)]

/-- The row of the archive in the folder `a`. -/
def copiedRow (seenAt : ℕ) : BookRow :=
  ⟨1, 2, sampleHash, ["lib".toList, "a".toList, "1.cbz".toList], "1".toList,
    "00000000000000000001".toList, "cbz".toList, 111, 5, 1, 10, seenAt⟩

/-- The state after the first of the events. -/
abbrev copiedState (count : ℕ) : State :=
  stateAfter Config.sample Crates.zipped (zippedFs (ascii "a")) (copiedEvents.take count)

theorem steady_of_archiveRow {request : Request} {row : BookRow}
    (hrow : archiveRow config state request = some row) (h : SteadyRow config crates state row) :
    Steady config crates state (.request request) := by
  intro other hother
  rw [hrow, Option.mem_some_iff] at hother
  rw [← hother]
  exact h

theorem steadyScan_empty :
    SteadyScan Config.sample Crates.zipped (copiedState 0) 10 fun _ ↦ false where
  root := by decide +kernel
  names := by decide +kernel
  unchanged _ _ _ hrow := (List.not_mem_nil hrow).elim
  stamps _ hrow := (List.not_mem_nil hrow).elim
  cached _ hopened := (List.not_mem_nil hopened).elim

set_option maxRecDepth 4000 in
theorem outranks_copy :
    (scanOf Config.sample Crates.zipped (copiedState 3) 20 fun _ ↦ false).Outranks
      Crates.zipped.xxh3 (copiedState 3).db sampleHash [ascii "lib", ascii "a", ascii "1.cbz"]
      [ascii "lib", ascii "b", ascii "1.cbz"] where
  slugs := by
    unfold Scan.SlugsDistinct
    decide +kernel
  stored := ⟨⟨some 111, 5, some sampleHash, some .zip, some 1, false⟩, by decide +kernel,
    ⟨⟨111, rfl, by decide⟩, rfl, rfl, 1, rfl, by decide, by decide⟩, rfl, rfl⟩
  older := ⟨copiedRow 10, by decide +kernel, by decide, by decide +kernel⟩

set_option maxRecDepth 4000 in
theorem steadyScan_copied :
    SteadyScan Config.sample Crates.zipped (copiedState 3) 20 fun _ ↦ false where
  root := by decide +kernel
  names := by decide +kernel
  unchanged := by
    unfold Scan.Unchanged
    decide +kernel
  stamps := by
    have hbefore : ∀ row ∈ (copiedState 3).db.books, row.seenAt < 20 := by decide +kernel
    intro row hrow hstarted
    exact absurd hstarted (Nat.not_le.mpr (hbefore row hrow))
  cached := by
    have hcached : ∀ opened ∈ (copiedState 3).archiveCache.entries, opened.1 = sampleHash ∧
        opened.2.path = [ascii "lib", ascii "a", ascii "1.cbz"] := by decide +kernel
    have hfiles : ∀ entry ∈ (scanOf Config.sample Crates.zipped (copiedState 3) 20
        fun _ ↦ false).entries.files, entry.1 = [ascii "lib", ascii "a", ascii "1.cbz"] ∨
          entry.1 = [ascii "lib", ascii "b", ascii "1.cbz"] := by decide +kernel
    intro opened hopened entry hentry _
    rw [(hcached opened hopened).1, (hcached opened hopened).2]
    apply (hfiles entry hentry).imp_right
    intro hcopy
    rw [hcopy]
    exact outranks_copy

set_option maxRecDepth 4000 in
/-- The copy gets a row of its own, and the archive is served from where it was. -/
theorem archives_coherent_copied :
    (copiedState 5).db.books.map BookRow.path =
      [["lib".toList, "a".toList, "1.cbz".toList], ["lib".toList, "b".toList, "1.cbz".toList]] ∧
    ReadsValidated Config.sample Crates.zipped (copiedState 4)
      (.bookPage sampleHash 0 false none) ∧
    Served Config.sample Crates.zipped (copiedState 5) := by
  have hfirst : Steady Config.sample Crates.zipped (copiedState 1)
      (.request (.bookPage sampleHash 0 false none)) :=
    @steady_of_archiveRow _ _ _ _ (copiedRow 10) (by decide +kernel)
      ⟨by decide +kernel, by decide +kernel, fun _ _ ↦ by decide +kernel⟩
  have hsecond : Steady Config.sample Crates.zipped (copiedState 4)
      (.request (.bookPage sampleHash 0 false none)) :=
    @steady_of_archiveRow _ _ _ _ (copiedRow 20) (by decide +kernel)
      ⟨by decide +kernel, by decide +kernel, fun _ _ ↦ by decide +kernel⟩
  have hsteady : Allowed (step Config.sample Crates.zipped) (Steady Config.sample Crates.zipped)
      (State.start Config.sample (zippedFs (ascii "a"))) copiedEvents :=
    ⟨steadyScan_empty, hfirst, trivial, steadyScan_copied, hsecond, trivial⟩
  obtain ⟨hreads, hserved⟩ := @archives_coherent Config.sample Crates.zipped
    sampleBlake3_injective (zippedFs (ascii "a")) copiedEvents hsteady
  refine ⟨by decide +kernel, ?_, ?_⟩
  · exact hreads (copiedEvents.take 4) (.bookPage sampleHash 0 false none) [] rfl
  · exact hserved (copiedEvents.take 3) 20 (fun _ ↦ false) [.bookPage sampleHash 0 false none] rfl
      (by decide +kernel)

end ComicStream.Server
