import ComicStream.Catalog.Walk

/-!
# Stale rows

A scan deletes the rows stamped before the second it started in. The row of an
entry that is gone goes with them, unless another scan has stamped it in the
same second or, by a clock that was set back since, in a later one. A file that
has the size and the modification time of its row is not opened again, and keeps
the row even if it could not be read.
-/

namespace ComicStream.Catalog

open Rust Archive Table

variable {xxh3 : List UInt8 → UInt64}

/-- Every row carries the stamp of a scan of the run. -/
theorem Run.stamped {scans : List Scan} {db : Db} (h : Run xxh3 scans db) :
    (∀ row ∈ db.folders, ∃ scan ∈ scans, row.seenAt = scan.started) ∧
      ∀ row ∈ db.books, ∃ scan ∈ scans, row.seenAt = scan.started := by
  induction h with
  | empty => simp [Db.empty]
  | @scan scans db next _ scan hnext ih =>
    have hlater {stamp : ℕ} (hstamp : ∃ earlier ∈ scans, stamp = earlier.started) :
        ∃ earlier ∈ scans ++ [scan], stamp = earlier.started := by
      obtain ⟨earlier, hearlier, hstarted⟩ := hstamp
      exact ⟨earlier, List.mem_append_left _ hearlier, hstarted⟩
    have hlast : scan ∈ scans ++ [scan] := List.mem_append_right _ List.mem_cons_self
    apply @Scan.rows_induction xxh3 scan db next
      (fun row ↦ ∃ earlier ∈ scans ++ [scan], row.seenAt = earlier.started)
      (fun row ↦ ∃ earlier ∈ scans ++ [scan], row.seenAt = earlier.started)
    · exact ⟨fun row hrow ↦ hlater (ih.1 row hrow), fun row hrow ↦ hlater (ih.2 row hrow)⟩
    · exact fun _ _ _ _ _ _ _ ↦ ⟨scan, hlast, rfl⟩
    · exact fun _ _ hrow ↦ hrow
    · exact fun _ _ _ _ _ _ row _ _ _ hstores ↦ ⟨scan, hlast, hstores.seenAt_eq⟩
    · exact hnext

/-- The row of the root, or of a directory that the scan has met and stored. -/
def Walk.HasFolder (scan : Scan) (walk : Walk) (row : FolderRow) : Prop :=
  ∃ path, walk.pathToId path = some row.id ∧ row.path = path.text ∧
    (path = scan.root ∨ ∃ info, (path, info) ∈ scan.entries.folders)

/-- A file that has the size and the modification time of its row in `db`. -/
def KeptUnread (db : Db) (path : OsPath) (info : FileInfo) : Prop :=
  ∃ size ∈ info.size, size ≤ maxArchiveBytes ∧
    ∃ old ∈ db.books, old.path = path.text ∧ isUnchanged info size old = true

/-- The row of a file that the scan has met and stored, either as ingestible or unread. -/
def Walk.HasBook (scan : Scan) (db : Db) (walk : Walk) (row : BookRow) : Prop :=
  ∃ path ∈ walk.ingested, row.path = path.text ∧
    ∃ info, (path, info) ∈ scan.entries.files ∧ (info.Ingestible ∨ KeptUnread db path info)

/-- A row that the walk has not stored is one from before. -/
structure Walk.Renews (scan : Scan) (db : Db) (walk : Walk) : Prop where
  folders : ∀ row ∈ walk.db.folders, row ∈ db.folders ∨ walk.HasFolder scan row
  books : ∀ row ∈ walk.db.books, row ∈ db.books ∨ walk.HasBook scan db row

variable {scan : Scan} {db : Db}

theorem Scan.renews_enter {walk : Walk} (h : scan.enter xxh3 db = some walk) :
    walk.Renews scan db := by
  obtain ⟨id, coverVersion, hstored, -, hpaths, -, -⟩ := Scan.enter_spec h
  constructor
  · intro row hrow
    rcases (hstored.mem_iff row).mp hrow with rfl | ⟨hold, -⟩
    · right
      refine ⟨scan.root, ?_, rfl, .inl rfl⟩
      rw [hpaths, Function.update_self]
      rfl
    · exact .inl hold
  · intro row hrow
    rw [hstored.books_eq] at hrow
    exact .inl hrow

theorem Walk.HasBook.of_subset {walk next : Walk} {row other : BookRow}
    (h : walk.HasBook scan db row) (hpath : other.path = row.path)
    (hingested : walk.ingested ⊆ next.ingested) : next.HasBook scan db other := by
  obtain ⟨path, hmem, hrow, hfile⟩ := h
  exact ⟨path, hingested hmem, hpath.trans hrow, hfile⟩

theorem FileInfo.ingestible_of_written {info : FileInfo} {size pageCount : ℕ} {hash : List Char}
    {kind : Kind} (hsize : info.size = some size) (hmax : size ≤ maxArchiveBytes)
    (hhash : info.hash = some hash) (hkind : info.kind = some kind)
    (hpages : info.pageCount = some pageCount) (hpos : pageCount ≠ 0)
    (hcount : pageCount ≤ maxPages) : info.Ingestible where
  size_le := ⟨size, hsize, hmax⟩
  hash_isSome := by rw [hhash, Option.isSome_some]
  kind_isSome := by rw [hkind, Option.isSome_some]
  pages := ⟨pageCount, hpages, hpos, hcount⟩

/-- What a step of the walk does not store, it leaves as it was before the scan. -/
theorem Walk.Renews.step {walk next : Walk} (h : walk.Renews scan db)
    (hstep : WalkStep xxh3 scan.started scan.entries walk next) : next.Renews scan db := by
  cases hstep with
  | orphan path => exact ⟨h.folders, h.books⟩
  | counted => exact ⟨h.folders, h.books⟩
  | folder dir name info parentId id stored coverVersion hfolder hparent hstored =>
    constructor
    · intro row hrow
      rcases (hstored.mem_iff row).mp hrow with rfl | ⟨hold, hne⟩
      · right
        refine ⟨dir ++ [name], ?_, rfl, .inr ⟨info, hfolder⟩⟩
        exact Function.update_self ..
      · apply (h.folders row hold).imp_right
        intro hrow
        obtain ⟨path, hid, hpath, hentry⟩ := hrow
        have hother : path ≠ dir ++ [name] := by
          intro hsame
          apply hne
          rw [hpath, hsame]
          rfl
        refine ⟨path, ?_, hpath, hentry⟩
        exact (Function.update_of_ne hother _ _).trans hid
    · intro row hrow
      change row ∈ stored.books at hrow
      rw [hstored.books_eq] at hrow
      exact h.books row hrow
  | book dir name info folderId size stored row hfile hparent hsize hmax hstores hstored =>
    constructor
    · intro other hother
      change other ∈ stored.folders at hother
      rw [hstored.folders_eq] at hother
      exact h.folders other hother
    · intro other hother
      rcases (hstored.mem_iff other).mp hother with rfl | ⟨hold, -⟩
      · right
        have hnew (hinfo : info.Ingestible ∨ KeptUnread db (dir ++ [name]) info) :
            ∃ path ∈ (dir ++ [name]) :: walk.ingested, other.path = path.text ∧
              ∃ info, (path, info) ∈ scan.entries.files ∧
                (info.Ingestible ∨ KeptUnread db path info) :=
          ⟨dir ++ [name], List.mem_cons_self, hstores.path_eq, info, hfile, hinfo⟩
        cases hstores with
        | stamped old hmem hpath hunchanged =>
          rcases h.books old hmem with hbefore | hbook
          · exact hnew (.inr ⟨size, hsize, hmax, old, hbefore, hpath, hunchanged⟩)
          · exact hbook.of_subset rfl (List.subset_cons_self _ _)
        | written hash kind pageCount id addedAt hhash hkind hpages hpos hcount =>
          apply hnew
          left
          exact FileInfo.ingestible_of_written hsize hmax hhash hkind hpages hpos hcount
      · exact (h.books other hold).imp_right fun hbook ↦
          hbook.of_subset rfl (List.subset_cons_self _ _)

/-- Every row that a complete scan leaves is one it has stored, or one from before, apart from a
folder's cover version, whose stamp is not before the scan started. -/
theorem Scan.complete_renews {walk : Walk} (hwalk : scan.complete xxh3 db = some walk) :
    (∀ row ∈ walk.db.folders, walk.HasFolder scan row ∨
      scan.started ≤ row.seenAt ∧
        ∃ old ∈ db.folders, ∃ coverVersion, { old with coverVersion := coverVersion } = row) ∧
    ∀ row ∈ walk.db.books, walk.HasBook scan db row ∨
      scan.started ≤ row.seenAt ∧ row ∈ db.books := by
  obtain ⟨walked, hwalked, hrefreshed⟩ := Scan.complete_spec hwalk
  obtain ⟨start, hstart, hsteps⟩ := Scan.walked_spec hwalked
  have hrenews : walked.Renews scan db :=
    hsteps.invariant (fun _ _ hstep hwalk ↦ hwalk.step hstep) (Scan.renews_enter hstart)
  constructor
  · intro row hrow
    obtain ⟨old, hold, coverVersion, rfl⟩ := hrefreshed.folders row hrow
    have hkept := List.mem_filter.mp (settle_sublist.subset hold)
    rcases hrenews.folders old hkept.1 with hbefore | ⟨path, hid, hpath, hentry⟩
    · right
      exact ⟨by simpa using hkept.2, old, hbefore, coverVersion, rfl⟩
    · left
      refine ⟨path, ?_, hpath, hentry⟩
      rw [hrefreshed.pathToId_eq]
      exact hid
  · intro row hrow
    rw [hrefreshed.books_eq] at hrow
    have hkept := List.mem_filter.mp (List.mem_filter.mp hrow).1
    rcases hrenews.books row hkept.1 with hbefore | hbook
    · right
      exact ⟨by simpa using hkept.2, hbefore⟩
    · left
      apply hbook.of_subset rfl
      rw [hrefreshed.ingested_eq]
      exact List.Subset.refl _

/-- A stamp left by a scan that started in the second given or later. -/
def StampedLater (scans : List Scan) (started stamp : ℕ) : Prop :=
  ∃ earlier ∈ scans, started ≤ earlier.started ∧ stamp = earlier.started

theorem Run.stampedLater {scans : List Scan} (h : Run xxh3 scans db) {started : ℕ} {row : BookRow}
    (hrow : row ∈ db.books) (hstarted : started ≤ row.seenAt) :
    StampedLater scans started row.seenAt := by
  obtain ⟨earlier, hearlier, hstamp⟩ := h.stamped.2 row hrow
  exact ⟨earlier, hearlier, hstamp ▸ hstarted, hstamp⟩

theorem Run.stampedLater_folder {scans : List Scan} (h : Run xxh3 scans db) {started : ℕ}
    {row : FolderRow} (hrow : row ∈ db.folders) (hstarted : started ≤ row.seenAt) :
    StampedLater scans started row.seenAt := by
  obtain ⟨earlier, hearlier, hstamp⟩ := h.stamped.1 row hrow
  exact ⟨earlier, hearlier, hstamp ▸ hstarted, hstamp⟩

/-- **No stale rows.** After any scans, complete or not, a scan that returns `Ok` leaves only rows
that it has stored itself, and rows from before, the same but for cover versions, which are stamped
by an earlier scan that started no earlier than it. Those it has stored belong to the root, to
directories and files that it has met, and to files that it could ingest or that have the size and
modification time of their row. -/
theorem no_stale_rows {scans : List Scan} (h : Run xxh3 scans db) {walk : Walk}
    (hwalk : scan.complete xxh3 db = some walk) :
    (∀ row ∈ walk.db.folders,
      walk.HasFolder scan row ∨ StampedLater scans scan.started row.seenAt ∧
        ∃ old ∈ db.folders, ∃ coverVersion, { old with coverVersion := coverVersion } = row) ∧
    ∀ row ∈ walk.db.books,
      walk.HasBook scan db row ∨ StampedLater scans scan.started row.seenAt ∧ row ∈ db.books := by
  have hrenews := Scan.complete_renews hwalk
  constructor
  · intro row hrow
    refine (hrenews.1 row hrow).imp_right fun hbefore ↦ ?_
    obtain ⟨hstarted, old, hold, coverVersion, rfl⟩ := hbefore
    have hstamped := h.stampedLater_folder hold hstarted
    exact ⟨hstamped, old, hold, coverVersion, rfl⟩
  · intro row hrow
    refine (hrenews.2 row hrow).imp_right fun hbefore ↦ ?_
    exact ⟨h.stampedLater hbefore.2 hbefore.1, hbefore.2⟩

/-- Every row is one that the scan has stored, and every book's file can be ingested. -/
structure Walk.Fresh (scan : Scan) (walk : Walk) : Prop where
  folders : ∀ row ∈ walk.db.folders, walk.HasFolder scan row
  books : ∀ row ∈ walk.db.books, ∃ path ∈ walk.ingested, row.path = path.text ∧
    ∃ info, (path, info) ∈ scan.entries.files ∧ info.Ingestible

/-- The small library after `1.cbz` has become unreadable. -/
def Listing.unreadable : Listing :=
  .dir (ascii "a") FolderInfo.sample
    (.file (ascii "1.cbz") { FileInfo.sample with hash := none, kind := none, pageCount := none }
      .nil) .nil

/-- Two scans, of the small library and of what has become of it. -/
def rescan (first second : Scan) : Option Walk :=
  (first.complete sampleXxh3 Db.empty).bind fun walk ↦ second.complete sampleXxh3 walk.db

theorem rescan_eq_some {first second : Scan} {walk : Walk} (h : rescan first second = some walk) :
    ∃ db, Run sampleXxh3 [first] db ∧ second.complete sampleXxh3 db = some walk := by
  obtain ⟨before, hbefore, hwalk⟩ := Option.bind_eq_some_iff.mp h
  exact ⟨before.db, Run.empty.complete hbefore, hwalk⟩

/-- The book stays when the folder `a` is removed within the second of the first scan, and when
its file becomes unreadable before a later one. -/
theorem stale_rows :
    (∃ db walk, Run sampleXxh3 [Scan.sample 10 Listing.sample] db ∧
      (Scan.sample 10 .nil).complete sampleXxh3 db = some walk ∧
      ¬walk.Fresh (Scan.sample 10 .nil)) ∧
    ∃ db walk, Run sampleXxh3 [Scan.sample 10 Listing.sample] db ∧
      (Scan.sample 20 Listing.unreadable).complete sampleXxh3 db = some walk ∧
      ¬walk.Fresh (Scan.sample 20 Listing.unreadable) := by
  constructor
  · have hrows : (rescan (Scan.sample 10 Listing.sample) (Scan.sample 10 .nil)).map
        (fun walk ↦ (walk.ingested, walk.db.books.map BookRow.id)) = some ([], [1]) := by decide
    obtain ⟨walk, hwalk, hbooks⟩ := Option.map_eq_some_iff.mp hrows
    obtain ⟨hingested, hids⟩ := Prod.mk.inj hbooks
    obtain ⟨db, hrun, hcomplete⟩ := rescan_eq_some hwalk
    refine ⟨db, walk, hrun, hcomplete, fun hfresh ↦ ?_⟩
    have hid : 1 ∈ walk.db.books.map BookRow.id := by
      rw [hids]
      exact List.mem_cons_self
    obtain ⟨row, hrow, -⟩ := List.mem_map.mp hid
    obtain ⟨path, hpath, -⟩ := hfresh.books row hrow
    rw [hingested] at hpath
    exact List.not_mem_nil hpath
  · have hrows : (rescan (Scan.sample 10 Listing.sample) (Scan.sample 20 Listing.unreadable)).map
        (fun walk ↦ walk.db.books.map BookRow.id) = some [1] := by decide
    obtain ⟨walk, hwalk, hids⟩ := Option.map_eq_some_iff.mp hrows
    obtain ⟨db, hrun, hcomplete⟩ := rescan_eq_some hwalk
    refine ⟨db, walk, hrun, hcomplete, fun hfresh ↦ ?_⟩
    have hid : 1 ∈ walk.db.books.map BookRow.id := by
      rw [hids]
      exact List.mem_cons_self
    obtain ⟨row, hrow, -⟩ := List.mem_map.mp hid
    obtain ⟨path, -, -, info, hfile, hinfo⟩ := hfresh.books row hrow
    have hunreadable : ∀ entry ∈ (Scan.sample 20 Listing.unreadable).entries.files,
        entry.2.hash = none := by decide
    have hhash := hinfo.hash_isSome
    rw [hunreadable _ hfile] at hhash
    exact Bool.noConfusion hhash

/-- When the folder `a` is removed before a later scan, only the root is left. -/
theorem no_stale_rows_removed :
    ∃ db walk, Run sampleXxh3 [Scan.sample 10 Listing.sample] db ∧
      (Scan.sample 20 .nil).complete sampleXxh3 db = some walk ∧
      walk.db.folders.map FolderRow.path = [["lib".toList]] ∧ walk.db.books = [] ∧
      ∀ row ∈ walk.db.folders, walk.HasFolder (Scan.sample 20 .nil) row := by
  have hrows : (rescan (Scan.sample 10 Listing.sample) (Scan.sample 20 .nil)).map
      (fun walk ↦ (walk.db.folders.map FolderRow.path, walk.db.books)) =
        some ([["lib".toList]], []) := by decide
  obtain ⟨walk, hwalk, htables⟩ := Option.map_eq_some_iff.mp hrows
  obtain ⟨hpaths, hbooks⟩ := Prod.mk.inj htables
  obtain ⟨db, hrun, hcomplete⟩ := rescan_eq_some hwalk
  refine ⟨db, walk, hrun, hcomplete, hpaths, hbooks, fun row hrow ↦ ?_⟩
  apply ((no_stale_rows hrun hcomplete).1 row hrow).resolve_right
  rintro ⟨⟨earlier, hearlier, hlater, -⟩, -⟩
  rw [List.mem_singleton.mp hearlier] at hlater
  exact absurd hlater (by decide)

end ComicStream.Catalog
