import ComicStream.Catalog.Incremental
import ComicStream.Server.Coherence

/-!
# Scans of two trees

Two trees with the same directories that differ in the file at one path: a scan of
either leaves the same book rows at all other paths, whatever the database was
before and whatever the file is, a copy of another book included. One tree and two
databases: a scan records what one into an empty database would, unless it finds a
record with the size and the modification time that the file has now.
-/

namespace ComicStream

open Rust Server

/-- Two directories at the path `dir` with the same entries, but for the file at the path `q`,
which may be in one of them only or have another content. The modification times of directories
are of no concern. -/
inductive Fs.Dir.SameBut (q : OsPath) : OsPath → Fs.Dir → Fs.Dir → Prop
  | nil (dir : OsPath) : SameBut q dir .nil .nil
  | file {dir : OsPath} (name : OsName) (content : Fs.File) {rest others : Fs.Dir}
      (h : SameBut q dir rest others) : SameBut q dir (.file name content rest)
        (.file name content others)
  | symlink {dir : OsPath} (name : OsName) (target : Fs.Target) {rest others : Fs.Dir}
      (h : SameBut q dir rest others) : SameBut q dir (.symlink name target rest)
        (.symlink name target others)
  | special {dir : OsPath} (name : OsName) (mtime : ℕ) {rest others : Fs.Dir}
      (h : SameBut q dir rest others) : SameBut q dir (.special name mtime rest)
        (.special name mtime others)
  | dir {dir : OsPath} (name : OsName) (mtime other : ℕ) (listable : Bool)
      {children inner rest others : Fs.Dir} (hchildren : SameBut q (dir ++ [name]) children inner)
      (h : SameBut q dir rest others) : SameBut q dir (.dir name mtime listable children rest)
        (.dir name other listable inner others)
  | first {dir : OsPath} (name : OsName) (content : Fs.File) {rest others : Fs.Dir}
      (hq : dir ++ [name] = q) (h : SameBut q dir rest others) :
      SameBut q dir (.file name content rest) others
  | second {dir : OsPath} (name : OsName) (content : Fs.File) {rest others : Fs.Dir}
      (hq : dir ++ [name] = q) (h : SameBut q dir rest others) :
      SameBut q dir rest (.file name content others)

/-- Two file systems whose libraries at `root`, free of links up to there, differ in the file at
the path `q` at most. Outside the library they may differ in anything. -/
structure Fs.SameLibraryBut (q root : OsPath) (fs other : Fs) : Prop where
  canonical : fs.canonicalize root = some root
  otherCanonical : other.canonicalize root = some root
  entries : ∃ mtime otherMtime listable entries others,
    fs.nodeAt root = some (.dir mtime listable entries) ∧
      other.nodeAt root = some (.dir otherMtime listable others) ∧
      Fs.Dir.SameBut q root entries others

namespace Catalog

variable {tools : Tools} {faults : OsPath → Bool} {fs other : Fs}

theorem fileInfo_congr {path : OsPath} (hplain : Fs.Plain fs path) (hother : Fs.Plain other path)
    (hnode : fs.nodeAt path = other.nodeAt path) :
    fileInfo tools faults fs path = fileInfo tools faults other path := by
  have hstat : fs.stat path = other.stat path := by
    rw [Fs.stat, Fs.stat, hplain.canonicalize, hother.canonicalize, Option.bind_some,
      Option.bind_some, hnode]
  have hread : fs.read path = other.read path := by
    rw [Fs.read, Fs.read, hplain.canonicalize, hother.canonicalize, Option.bind_some,
      Option.bind_some, hnode]
  have hdetect : Archive.detect fs path = Archive.detect other path := by
    rw [Archive.detect, Archive.detect, hread]
  have hopen : Archive.openBook tools.reader fs path = Archive.openBook tools.reader other path := by
    rw [Archive.openBook, Archive.openBook, hread, hdetect]
  rw [fileInfo, fileInfo, mtimeSecs, mtimeSecs, fileHash, fileHash, hstat, hread, hdetect, hopen]

/-- The listings of such directories are alike. -/
theorem listingOf_alike {q dir : OsPath} {entries others : Fs.Dir}
    (h : Fs.Dir.SameBut q dir entries others) (hfound : Found fs dir entries)
    (hothers : Found other dir others) :
    Listing.Alike q.text dir (listingOf tools faults fs dir entries)
      (listingOf tools faults other dir others) := by
  induction h with
  | nil dir => exact .nil dir
  | @file dir name content rest others _ ih =>
    obtain ⟨hrest, hplain, hnode⟩ := hfound.file
    obtain ⟨hotherRest, hotherPlain, hotherNode⟩ := hothers.file
    have hinfo : fileInfo tools faults fs (dir ++ [name]) = fileInfo tools faults other (dir ++ [name]) :=
      fileInfo_congr hplain hotherPlain (hnode.trans hotherNode.symm)
    rw [listingOf, listingOf, hinfo]
    exact .file name _ (ih hrest hotherRest)
  | symlink name target _ ih => exact .other name (ih hfound.symlink hothers.symlink)
  | special name mtime _ ih => exact .other name (ih hfound.special hothers.special)
  | dir name mtime otherMtime listable _ _ ihChildren ih =>
    rw [listingOf, listingOf]
    apply @Listing.Alike.dir
    · rfl
    · cases listable with
      | true => exact ihChildren hfound.dir.2 hothers.dir.2
      | false => exact .error (.nil _)
    · exact ih hfound.dir.1 hothers.dir.1
  | first name content hq _ ih =>
    subst hq
    exact .first name _ rfl (ih hfound.file.1 hothers)
  | second name content hq _ ih =>
    subst hq
    exact .second name _ rfl (ih hfound hothers.file.1)

theorem Scan.alike_ofFs {q root : OsPath} (h : Fs.SameLibraryBut q root fs other)
    (name : Option (List Char)) (started : ℕ) :
    Scan.Alike q.text (Scan.ofFs tools faults fs root name started)
      (Scan.ofFs tools faults other root name started) where
  root := rfl
  name := rfl
  started := rfl
  fault := rfl
  listing := by
    obtain ⟨mtime, otherMtime, listable, entries, others, hnode, hotherNode, hsame⟩ := h.entries
    have hstat : fs.stat root = some (.dir mtime listable entries) := by
      rw [Fs.stat, h.canonical, Option.bind_some, hnode]
    have hotherStat : other.stat root = some (.dir otherMtime listable others) := by
      rw [Fs.stat, h.otherCanonical, Option.bind_some, hotherNode]
    change Listing.Alike q.text root (Catalog.listing tools faults fs root)
      (Catalog.listing tools faults other root)
    rw [Catalog.listing, Catalog.listing, hstat, hotherStat]
    cases listable with
    | true =>
      exact listingOf_alike hsame (found_of_nodeAt (Fs.plain_of_canonicalize h.canonical) hnode)
        (found_of_nodeAt (Fs.plain_of_canonicalize h.otherCanonical) hotherNode)
    | false => exact .error (.nil root)

/-- Scans of two libraries that differ in the file at the path `q` leave the same rows at all other
paths, but for the ids of new ones, and keep the ids of rows that were there before and the times
at which these were added. -/
theorem scan_pointwise {xxh3 : List UInt8 → UInt64} {q root : OsPath}
    (h : Fs.SameLibraryBut q root fs other) (name : Option (List Char)) (started : ℕ) (db : Db) :
    ((Scan.ofFs tools faults fs root name started).complete xxh3 db).isSome =
      ((Scan.ofFs tools faults other root name started).complete xxh3 db).isSome ∧
    ∀ walk ∈ (Scan.ofFs tools faults fs root name started).complete xxh3 db,
      ∀ next ∈ (Scan.ofFs tools faults other root name started).complete xxh3 db,
        (∀ path, path ≠ q.text → (walk.db.bookAt path).map BookRow.withoutId =
          (next.db.bookAt path).map BookRow.withoutId) ∧
        Keeps db walk.db ∧ Keeps db next.db := by
  have halike := @Scan.Alike.complete xxh3 q.text _ _
    (@Scan.alike_ofFs tools faults fs other q root h name started) db
  generalize hfirst : (Scan.ofFs tools faults fs root name started).complete xxh3 db = first
    at halike ⊢
  generalize hsecond : (Scan.ofFs tools faults other root name started).complete xxh3 db = second
    at halike ⊢
  cases halike with
  | none => simp
  | some hsame =>
    simp only [Option.isSome_some, Option.mem_def, Option.some.injEq, forall_eq', true_and]
    exact ⟨hsame.books, Scan.complete_keeps hfirst, Scan.complete_keeps hsecond⟩

/-- The copied archive's library without the copy. -/
def uncopiedFs : Fs where
  mtime := 0
  entries := .dir (ascii "lib") 0 true
    (.dir (ascii "a") 0 true (.file (ascii "1.cbz") ⟨sampleZip, 5, true⟩ .nil)
      (.dir (ascii "b") 3 true .nil .nil)) .nil
  distinct := by rfl

set_option maxRecDepth 4000 in
/-- With a copy of the archive and without it, the archive's row is the same. -/
theorem scan_pointwise_copied :
    ((Scan.ofFs Crates.zipped.toTools (fun _ ↦ false) copiedFs [ascii "lib"] none 20).complete
      sampleXxh3 (copiedState 1).db).isSome ∧
    ∀ walk ∈ (Scan.ofFs Crates.zipped.toTools (fun _ ↦ false) copiedFs [ascii "lib"] none
        20).complete sampleXxh3 (copiedState 1).db,
      ∀ next ∈ (Scan.ofFs Crates.zipped.toTools (fun _ ↦ false) uncopiedFs [ascii "lib"] none
          20).complete sampleXxh3 (copiedState 1).db,
        walk.db.bookAt ["lib".toList, "a".toList, "1.cbz".toList] = some (copiedRow 20) ∧
        (next.db.bookAt ["lib".toList, "a".toList, "1.cbz".toList]).map BookRow.withoutId =
          some (copiedRow 20).withoutId ∧ Keeps (copiedState 1).db next.db := by
  have hdiffer : Fs.SameLibraryBut [ascii "lib", ascii "b", ascii "1.cbz"] [ascii "lib"] copiedFs
      uncopiedFs := by
    refine ⟨by decide +kernel, by decide +kernel, 0, 0, true, _, _, rfl, rfl, ?_⟩
    exact .dir _ 0 0 true (.file _ _ (.nil _)) (.dir _ 0 3 true (.first _ _ rfl (.nil _)) (.nil _))
  have hwalked : ∀ walk ∈ (Scan.ofFs Crates.zipped.toTools (fun _ ↦ false) copiedFs [ascii "lib"]
      none 20).complete sampleXxh3 (copiedState 1).db,
      walk.db.bookAt ["lib".toList, "a".toList, "1.cbz".toList] = some (copiedRow 20) := by
    decide +kernel
  refine ⟨by decide +kernel, fun walk hwalk next hnext ↦ ?_⟩
  obtain ⟨hrows, -, hkeeps⟩ := (@scan_pointwise Crates.zipped.toTools (fun _ ↦ false) copiedFs
    uncopiedFs sampleXxh3 _ _ hdiffer none 20 (copiedState 1).db).2 walk hwalk next hnext
  refine ⟨hwalked walk hwalk, ?_, hkeeps⟩
  rw [← hrows _ (by decide), hwalked walk hwalk]
  rfl

end Catalog

namespace Server

open Catalog

/-- A JPEG file of one gray pixel, whose shade is in the one byte of its scan. -/
def jpegOf (shade : UInt8) : List UInt8 :=
  [255, 216, 255, 224, 0, 16, 74, 70, 73, 70, 0, 1, 2, 0, 0, 1, 0, 1, 0, 0, 255, 192, 0, 11, 8, 0,
    1, 0, 1, 1, 1, 17, 0, 255, 219, 0, 67, 0, 8, 6, 6, 7, 6, 5, 8, 7, 7, 7, 9, 9, 8, 10, 12, 20,
    13, 12, 11, 11, 12, 25, 18, 19, 15, 20, 29, 26, 31, 30, 29, 26, 28, 28, 32, 36, 46, 39, 32, 34,
    44, 35, 28, 28, 40, 55, 41, 44, 48, 49, 52, 52, 52, 31, 39, 57, 61, 56, 50, 60, 46, 51, 52, 50,
    255, 196, 0, 31, 0, 0, 1, 5, 1, 1, 1, 1, 1, 1, 0, 0, 0, 0, 0, 0, 0, 0, 1, 2, 3, 4, 5, 6, 7, 8,
    9, 10, 11, 255, 196, 0, 181, 16, 0, 2, 1, 3, 3, 2, 4, 3, 5, 5, 4, 4, 0, 0, 1, 125, 1, 2, 3, 0,
    4, 17, 5, 18, 33, 49, 65, 6, 19, 81, 97, 7, 34, 113, 20, 50, 129, 145, 161, 8, 35, 66, 177,
    193, 21, 82, 209, 240, 36, 51, 98, 114, 130, 9, 10, 22, 23, 24, 25, 26, 37, 38, 39, 40, 41, 42,
    52, 53, 54, 55, 56, 57, 58, 67, 68, 69, 70, 71, 72, 73, 74, 83, 84, 85, 86, 87, 88, 89, 90, 99,
    100, 101, 102, 103, 104, 105, 106, 115, 116, 117, 118, 119, 120, 121, 122, 131, 132, 133, 134,
    135, 136, 137, 138, 146, 147, 148, 149, 150, 151, 152, 153, 154, 162, 163, 164, 165, 166, 167,
    168, 169, 170, 178, 179, 180, 181, 182, 183, 184, 185, 186, 194, 195, 196, 197, 198, 199, 200,
    201, 202, 210, 211, 212, 213, 214, 215, 216, 217, 218, 225, 226, 227, 228, 229, 230, 231, 232,
    233, 234, 241, 242, 243, 244, 245, 246, 247, 248, 249, 250, 255, 218, 0, 8, 1, 1, 0, 0, 63, 0] ++
    [shade, 255, 217]

/-- A ZIP archive with the entry `1.jpg`, the JPEG file above with its checksum, which is stored as
it is. -/
def zipOf (shade : UInt8) (checksum : List UInt8) : List UInt8 :=
  [80, 75, 3, 4, 10, 0, 0, 0, 0, 0, 0, 0, 33, 0] ++ checksum ++
    [75, 1, 0, 0, 75, 1, 0, 0, 5, 0, 0, 0, 49, 46, 106, 112, 103] ++ jpegOf shade ++
    [80, 75, 1, 2, 10, 0, 10, 0, 0, 0, 0, 0, 0, 0, 33, 0] ++ checksum ++
    [75, 1, 0, 0, 75, 1, 0, 0, 5, 0, 0, 0, 0, 0, 0, 0, 0, 0, 0, 0, 0, 0, 0, 0, 0, 0, 49, 46, 106,
      112, 103, 80, 75, 5, 6, 0, 0, 0, 0, 1, 0, 1, 0, 51, 0, 0, 0, 110, 1, 0, 0, 0, 0]

def darkZip : List UInt8 := zipOf 43 [228, 44, 90, 237]

def lightZip : List UInt8 := zipOf 90 [131, 46, 105, 184]

/-- The BLAKE3 hash of the dark archive. -/
def darkHash : List Char :=
  ['d', '3', '4', 'c', '4', '9', '3', '7', 'f', 'e', '2', 'c', '1', '9', 'a', 'b', '4', '6', '3',
    'f', '2', '3', 'd', '8', '8', '7', '9', 'd', 'f', '4', 'f', '5', '3', '0', 'f', '1', '0', 'a',
    'f', 'c', '2', 'b', '8', '5', '7', 'b', 'd', 'd', '7', '1', '9', 'd', '3', 'c', '2', 'b', 'b',
    'c', '3', 'a', 'f', 'a', '5', 'b']

/-- The BLAKE3 hash of the light archive. -/
def lightHash : List Char :=
  ['1', 'c', '0', '7', '7', '0', 'e', 'a', '6', '9', 'c', '0', '3', '0', '7', '6', '0', '0', '1',
    'a', 'e', '2', '7', '9', 'f', '7', '9', 'f', '6', '2', 'b', '0', '4', 'c', '6', 'e', 'd', 'd',
    '0', '3', '2', 'c', 'e', '7', '8', 'e', '2', '7', 'a', 'a', 'd', 'd', '2', '4', '3', '2', 'd',
    '8', 'c', 'c', 'f', '9', '5', 'b']

/-- The crates on the two archives, which they read, and on their pages, which are encoded as they
were. Other contents have hashes that start differently. -/
def Crates.replaced : Crates where
  blake3 := fun bytes ↦
    if bytes = darkZip then darkHash
    else if bytes = lightZip then lightHash
    else 'x' :: bytes.map Char.ofUInt8
  reader :=
    { zipEntries := fun bytes ↦
        if bytes = darkZip ∨ bytes = lightZip then some [⟨"1.jpg".toList, false, 331⟩] else none
      zipByName := fun bytes name ↦
        if name = "1.jpg".toList then
          if bytes = darkZip then some (jpegOf 43)
          else if bytes = lightZip then some (jpegOf 90)
          else none
        else none
      rarEntries := fun _ ↦ none
      rarMembers := fun _ ↦ none }
  xxh3 := sampleXxh3
  resize bytes _ := if bytes = jpegOf 43 ∨ bytes = jpegOf 90 then some bytes else none
  like _ _ := false
  mimeGuess _ := none

/-- The library `/lib` with an archive of the modification time 5. -/
def archiveFs (bytes : List UInt8) : Fs where
  mtime := 0
  entries := .dir (ascii "lib") 0 true
    (.dir (ascii "a") 0 true (.file (ascii "1.cbz") ⟨bytes, 5, true⟩ .nil) .nil) .nil
  distinct := by rfl

/-- A scan of this library. -/
abbrev archiveScan (bytes : List UInt8) (started : ℕ) : Scan :=
  Scan.ofFs Crates.replaced.toTools (fun _ ↦ false) (archiveFs bytes) [ascii "lib"] none started

end Server

namespace Catalog

variable {xxh3 : List UInt8 → UInt64} {scan : Scan} {db : Db}

/-- **Incremental scans.** After a scan that returns `Ok`, a row that is not from before, with the stamp
of an earlier scan of the same second or a later one, records what a scan of the same tree into an
empty database records for its path, or what an earlier scan has read there from a file of the size
and the modification time that the file has now. -/
theorem rescan_records {scans : List Scan} (h : Run xxh3 scans db)
    (hslugs : scan.SlugsDistinct xxh3 db) {walk : Walk}
    (hwalk : scan.complete xxh3 db = some walk) :
    ∃ fresh, scan.complete xxh3 Db.empty = some fresh ∧ ∀ row ∈ walk.db.books,
      StampedLater scans scan.started row.seenAt ∧ row ∈ db.books ∨
      (∃ other ∈ fresh.db.books, other.path = row.path ∧ other.metadata = row.metadata) ∨
      scan.Dates row.path row.metadata ∧
        (∀ other ∈ fresh.db.books, other.path = row.path →
          other.fileSize = row.fileSize ∧ other.mtime = row.mtime) ∧
        ∃ earlier ∈ scans, earlier.Reads row.path row.metadata := by
  obtain ⟨walked, hwalked, hrefreshed⟩ := Scan.complete_spec hwalk
  obtain ⟨freshWalked, hfreshWalked, hfollows⟩ := Scan.walked_follows h.slug_eq hslugs hwalked
  have hfresh : scan.complete xxh3 Db.empty =
      some (refreshCoverVersions scan.coverMtime (scan.prune freshWalked)) := by
    rw [Scan.complete, hfreshWalked]
    rfl
  have hfreshBooks := (refreshCoverVersions_spec scan.coverMtime (scan.prune freshWalked)).books_eq
  have hkeptFresh {path : PathText} {other : BookRow}
      (hother : other ∈ (refreshCoverVersions scan.coverMtime (scan.prune freshWalked)).db.books)
      (hpath : other.path = path) : other.metadata ∈ freshWalked.db.metadataAt path := by
    rw [hfreshBooks] at hother
    rw [Db.metadataAt, Db.bookAt_eq_some_iff.mpr
      ⟨(List.mem_filter.mp (List.mem_filter.mp hother).1).1, hpath⟩]
    rfl
  refine ⟨_, hfresh, fun row hrow ↦ ?_⟩
  refine ((Scan.complete_renews hwalk).2 row hrow).symm.imp
    (fun hbefore ↦ ⟨h.stampedLater hbefore.2 hbefore.1, hbefore.2⟩) fun hstored ↦ ?_
  obtain ⟨path, hingested, hpath, -⟩ := hstored
  rw [hrefreshed.books_eq] at hrow
  have hrecord : walked.db.metadataAt row.path = some row.metadata := by
    rw [Db.metadataAt, Db.bookAt_eq_some_iff.mpr
      ⟨(List.mem_filter.mp (List.mem_filter.mp hrow).1).1, rfl⟩]
    rfl
  rw [hrefreshed.ingested_eq] at hingested
  rcases hfollows.books row.path with ⟨hnone, -⟩ | hcompared
  · exact absurd hpath.symm (hnone path hingested)
  · rw [hrecord] at hcompared
    cases hcompared with
    | read metadata hrow hfreshRow =>
      left
      rw [Option.some.inj hrow]
      obtain ⟨other, hother, hsame⟩ := Option.map_eq_some_iff.mp hfreshRow
      obtain ⟨hotherMem, hotherPath⟩ := Db.bookAt_eq_some hother
      refine ⟨other, ?_, hotherPath, hsame⟩
      rw [hfreshBooks]
      obtain ⟨start, hstart, hsteps⟩ := Scan.walked_spec hfreshWalked
      have hrenews : freshWalked.Renews scan Db.empty :=
        hsteps.invariant (fun _ _ hstep hwalk ↦ hwalk.step hstep) (Scan.renews_enter hstart)
      obtain ⟨otherPath, hotherIngested, htext, -⟩ :=
        (hrenews.books other hotherMem).resolve_left List.not_mem_nil
      exact hfollows.freshReady.held.book_mem_prune hotherMem hotherIngested htext
    | kept metadata hold hrow hdates hothers =>
      right
      rw [Option.some.inj hrow]
      obtain ⟨old, hmem, hsame⟩ := Option.map_eq_some_iff.mp hold
      obtain ⟨hbefore, holdPath⟩ := Db.bookAt_eq_some hmem
      refine ⟨hdates, fun other hother hotherPath ↦ ?_, ?_⟩
      · have hcolumns := hothers _ (hkeptFresh hother hotherPath)
        rw [← Option.some.inj hrow] at hcolumns
        exact hcolumns
      · rw [← hsame, ← holdPath]
        exact h.reads old hbefore

set_option maxRecDepth 4000 in
/-- An archive is replaced by another one of the same size and modification time: the scan keeps the
hash of the archive that is gone. -/
theorem archive_replaced :
    ∃ db walk fresh, Run sampleXxh3 [archiveScan darkZip 10] db ∧
      (archiveScan lightZip 20).complete sampleXxh3 db = some walk ∧
      (archiveScan lightZip 20).complete sampleXxh3 Db.empty = some fresh ∧
      ∃ row ∈ walk.db.books, ∃ other ∈ fresh.db.books, other.path = row.path ∧
        row.hash = darkHash ∧ other.hash = lightHash ∧ lightHash ≠ darkHash := by
  have hrescan : (rescan (archiveScan darkZip 10) (archiveScan lightZip 20)).map
      (fun walk ↦ walk.db.books.map fun row ↦ (row.path, row.hash)) =
        some [(["lib".toList, "a".toList, "1.cbz".toList], darkHash)] := by decide +kernel
  have hscan : ((archiveScan lightZip 20).complete sampleXxh3 Db.empty).map
      (fun walk ↦ walk.db.books.map fun row ↦ (row.path, row.hash)) =
        some [(["lib".toList, "a".toList, "1.cbz".toList], lightHash)] := by decide +kernel
  obtain ⟨walk, hwalk, hrows⟩ := Option.map_eq_some_iff.mp hrescan
  obtain ⟨fresh, hfresh, hfreshRows⟩ := Option.map_eq_some_iff.mp hscan
  obtain ⟨db, hrun, hcomplete⟩ := rescan_eq_some hwalk
  obtain ⟨row, hrow, hcolumns⟩ := List.map_eq_singleton_iff.mp hrows
  obtain ⟨other, hother, hotherColumns⟩ := List.map_eq_singleton_iff.mp hfreshRows
  rw [Prod.mk.injEq] at hcolumns hotherColumns
  refine ⟨db, walk, fresh, hrun, hcomplete, hfresh, row, ?_, other, ?_,
    hotherColumns.1.trans hcolumns.1.symm, hcolumns.2, hotherColumns.2, by decide⟩
  · rw [hrow]
    exact List.mem_singleton_self row
  · rw [hother]
    exact List.mem_singleton_self other

set_option maxRecDepth 4000 in
/-- The hash that the scan keeps has been read by the scan before. -/
theorem rescan_records_replaced :
    ∃ db walk, Run sampleXxh3 [archiveScan darkZip 10] db ∧
      (archiveScan lightZip 20).complete sampleXxh3 db = some walk ∧
      ∀ row ∈ walk.db.books, row.hash = darkHash ∧
        (archiveScan lightZip 20).Dates row.path row.metadata ∧
        (archiveScan darkZip 10).Reads row.path row.metadata := by
  have hslugs : ∀ first ∈ (archiveScan darkZip 10).complete sampleXxh3 Db.empty,
      (archiveScan lightZip 20).SlugsDistinct sampleXxh3 first.db := by
    unfold Scan.SlugsDistinct
    decide +kernel
  have hrescan : (rescan (archiveScan darkZip 10) (archiveScan lightZip 20)).map
      (fun walk ↦ walk.db.books.map BookRow.hash) = some [darkHash] := by decide +kernel
  have hfreshHashes : ∀ fresh ∈ (archiveScan lightZip 20).complete sampleXxh3 Db.empty,
      ∀ other ∈ fresh.db.books, other.hash = lightHash := by decide +kernel
  obtain ⟨walk, hwalk, hhashes⟩ := Option.map_eq_some_iff.mp hrescan
  obtain ⟨first, hfirst, hcomplete⟩ := Option.bind_eq_some_iff.mp hwalk
  have hrun := Run.empty.complete hfirst
  refine ⟨first.db, walk, hrun, hcomplete, fun row hrow ↦ ?_⟩
  have hhash : row.hash = darkHash := by
    have hmem := @List.mem_map_of_mem _ _ _ _ BookRow.hash hrow
    rw [hhashes] at hmem
    exact List.mem_singleton.mp hmem
  obtain ⟨fresh, hfresh, hrecords⟩ := rescan_records hrun (hslugs first hfirst) hcomplete
  rcases hrecords row hrow with ⟨⟨earlier, hearlier, hlater, -⟩, -⟩ | ⟨other, hother, -, hsame⟩ |
    ⟨hdates, -, earlier, hearlier, hreads⟩
  · rw [List.mem_singleton.mp hearlier] at hlater
    exact absurd hlater (by decide)
  · have hhashes : other.hash = row.hash := congrArg Metadata.hash hsame
    rw [hfreshHashes fresh hfresh other hother, hhash] at hhashes
    exact absurd hhashes (by decide)
  · rw [List.mem_singleton.mp hearlier] at hreads
    exact ⟨hhash, hdates, hreads⟩

end Catalog

end ComicStream
