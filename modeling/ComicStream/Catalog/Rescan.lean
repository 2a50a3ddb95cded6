import ComicStream.Catalog.NoLoss

/-!
# Rows and the files they are for

A scan keeps the ids of the rows it finds and gives larger ones to new rows. When
every file with the size and the modification time of its row still has the content
of the row, each row it leaves has the content hash of the file at its path. Of two
copies of a file, the one that was there first keeps the smaller id.
-/

namespace ComicStream.Catalog

open Rust Archive Table

variable {xxh3 : List UInt8 → UInt64} {scan : Scan} {db : Db}

/-- The rows of `db` have kept their ids, and the other rows have larger ones. -/
structure KeepsIds (db next : Db) : Prop where
  kept : ∀ old ∈ db.books, ∃ row ∈ next.books, row.path = old.path ∧ row.id = old.id
  added : ∀ row ∈ next.books, (∃ old ∈ db.books, old.path = row.path ∧ old.id = row.id) ∨
    ∀ old ∈ db.books, old.id < row.id

theorem KeepsIds.of_books_eq {before after : Db} (h : KeepsIds db before)
    (hbooks : after.books = before.books) : KeepsIds db after := by
  constructor
  · rw [hbooks]
    exact h.kept
  · rw [hbooks]
    exact h.added

theorem KeepsIds.stored {before after : Db} {row : BookRow} (h : KeepsIds db before)
    (hstored : BookStored before after row) : KeepsIds db after := by
  have hnew := (hstored.mem_iff row).mpr (.inl rfl)
  constructor
  · intro old hold
    obtain ⟨kept, hkept, hpath, hid⟩ := h.kept old hold
    by_cases hsame : kept.path = row.path
    · exact ⟨row, hnew, hsame.symm.trans hpath, (hstored.id_eq kept hkept hsame).symm.trans hid⟩
    · exact ⟨kept, (hstored.mem_iff kept).mpr (.inr ⟨hkept, hsame⟩), hpath, hid⟩
  · intro other hother
    rcases (hstored.mem_iff other).mp hother with rfl | ⟨hbefore, -⟩
    · by_cases hfresh : ∀ kept ∈ before.books, kept.path ≠ other.path
      · right
        intro old hold
        obtain ⟨kept, hkept, -, hid⟩ := h.kept old hold
        rw [← hid]
        exact hstored.id_lt hfresh kept hkept
      · push Not at hfresh
        obtain ⟨kept, hkept, hpath⟩ := hfresh
        rw [← hpath, ← hstored.id_eq kept hkept hpath]
        exact h.added kept hkept
    · exact h.added other hbefore

theorem Scan.walked_keepsIds {walked : Walk} (h : scan.walked xxh3 db = some walked) :
    KeepsIds db walked.db := by
  obtain ⟨start, hstart, hsteps⟩ := Scan.walked_spec h
  obtain ⟨id, coverVersion, hstored, -⟩ := Scan.enter_spec hstart
  have hrefl : KeepsIds db db :=
    ⟨fun old hold ↦ ⟨old, hold, rfl, rfl⟩, fun row hrow ↦ .inl ⟨row, hrow, rfl, rfl⟩⟩
  apply @WalkSteps.invariant xxh3 scan.started scan.entries (fun walk ↦ KeepsIds db walk.db) start
    walked hsteps ?_ (hrefl.of_books_eq hstored.books_eq)
  intro walk next hstep hwalk
  cases hstep with
  | orphan path => exact hwalk
  | counted => exact hwalk
  | folder dir name info parentId id stored coverVersion hfolder hparent hstored =>
    exact hwalk.of_books_eq hstored.books_eq
  | book dir name info folderId size stored row hfile hparent hsize hmax hstores hstored =>
    exact hwalk.stored hstored

/-- The files that a scan meets have one path each and render differently. -/
structure Scan.Faithful (scan : Scan) : Prop where
  info_eq : ∀ first ∈ scan.entries.files, ∀ second ∈ scan.entries.files,
    first.1.text = second.1.text → first = second

/-- A file that has the size and the modification time of its row also has its content. -/
def Scan.Unchanged (scan : Scan) (db : Db) : Prop :=
  ∀ entry ∈ scan.entries.files, ∀ row ∈ db.books, row.path = entry.1.text →
    ∀ size ∈ entry.2.size, isUnchanged entry.2 size row = true → entry.2.hash = some row.hash

/-- The row has the content hash of the file it is for. -/
def Scan.Records (scan : Scan) (row : BookRow) : Prop :=
  ∃ entry ∈ scan.entries.files, row.path = entry.1.text ∧ entry.2.hash = some row.hash

/-- A row that the walk has stored has the content hash of its file. -/
theorem Scan.walked_records (hfaithful : scan.Faithful) (hunchanged : scan.Unchanged db)
    {walked : Walk} (h : scan.walked xxh3 db = some walked) :
    ∀ row ∈ walked.db.books, row ∈ db.books ∨ scan.Records row := by
  obtain ⟨start, hstart, hsteps⟩ := Scan.walked_spec h
  obtain ⟨id, coverVersion, hentered, -⟩ := Scan.enter_spec hstart
  apply @WalkSteps.invariant xxh3 scan.started scan.entries
    (fun walk ↦ ∀ row ∈ walk.db.books, row ∈ db.books ∨ scan.Records row) start walked hsteps
  · intro walk next hstep hwalk
    cases hstep with
    | orphan path => exact hwalk
    | counted => exact hwalk
    | folder dir name info parentId id stored coverVersion hfolder hparent hstored =>
      intro row hrow
      change row ∈ stored.books at hrow
      rw [hstored.books_eq] at hrow
      exact hwalk row hrow
    | book dir name info folderId size stored row hfile hparent hsize hmax hstores hstored =>
      intro other hother
      rcases (hstored.mem_iff other).mp hother with rfl | ⟨hold, -⟩
      · right
        refine ⟨(dir ++ [name], info), hfile, hstores.path_eq, ?_⟩
        cases hstores with
        | stamped old hmem hpath hsame =>
          rcases hwalk old hmem with hbefore | ⟨entry, hentry, hentryPath, hhash⟩
          · exact hunchanged _ hfile old hbefore hpath size hsize hsame
          · have hequal : entry = (dir ++ [name], info) :=
              hfaithful.info_eq entry hentry _ hfile (hentryPath.symm.trans hpath)
            rw [← hequal]
            exact hhash
        | written hash kind pageCount id addedAt hhash hkind hpages hpos hcount => exact hhash
      · exact hwalk other hold
  · intro row hrow
    rw [hentered.books_eq] at hrow
    exact .inl hrow

/-- When the rows that a scan does not delete unseen have the content hashes of their files, so has
every row it leaves. -/
theorem Scan.complete_records (hfaithful : scan.Faithful) (hunchanged : scan.Unchanged db)
    (hstamps : ∀ row ∈ db.books, scan.started ≤ row.seenAt → scan.Records row) {walk : Walk}
    (h : scan.complete xxh3 db = some walk) : ∀ row ∈ walk.db.books, scan.Records row := by
  obtain ⟨walked, hwalked, hrefreshed⟩ := Scan.complete_spec h
  intro row hrow
  rw [hrefreshed.books_eq] at hrow
  have hkept := List.mem_filter.mp (List.mem_filter.mp hrow).1
  rcases Scan.walked_records hfaithful hunchanged hwalked row hkept.1 with hbefore | hrecords
  · exact hstamps row hbefore (by simpa using hkept.2)
  · exact hrecords

theorem Scan.exists_recorded (hslugs : scan.SlugsDistinct xxh3 db)
    (hslug : ∀ row ∈ db.folders, row.slug = slugForPath xxh3 row.path) {walk : Walk}
    (h : scan.complete xxh3 db = some walk) {entry : OsPath × FileInfo}
    (hentry : entry ∈ scan.listing.files isSound scan.root) (hinfo : entry.2.Ingestible)
    (hfault : entry.2.fault = false) :
    ∃ row ∈ walk.db.books, row.path = entry.1.text ∧
      ∀ old ∈ db.books, old.path = entry.1.text → row.id = old.id := by
  obtain ⟨walked, hwalked, hrefreshed⟩ := Scan.complete_spec h
  obtain ⟨start, hstart, hsteps⟩ := Scan.walked_spec hwalked
  have hready := Scan.ready_enter hslug hstart
  have hheld := (hsteps.ready hready).held
  obtain ⟨id, -, -, -, hpaths, -⟩ := Scan.enter_spec hstart
  have hroot : (start.pathToId scan.root).isSome := by
    rw [hpaths, Function.update_self, Option.isSome_some]
  have hvisit : walked = visit xxh3 scan.started start scan.root scan.listing := by
    rw [Scan.walked, hstart] at hwalked
    exact (Option.some.inj hwalked).symm
  have hstores := (visit_stores hslugs hready hroot (List.Subset.refl _)
    (List.Subset.refl _)).files entry hentry hinfo hfault
  rw [← hvisit] at hstores
  obtain ⟨row, hrow, hpath, -⟩ := hheld.book entry.1 hstores
  refine ⟨row, ?_, hpath, fun old hold holdPath ↦ ?_⟩
  · rw [hrefreshed.books_eq]
    exact hheld.book_mem_prune hrow hstores hpath
  · obtain ⟨kept, hkept, hkeptPath, hkeptId⟩ := (Scan.walked_keepsIds hwalked).kept old hold
    rw [← hkeptId, Db.book_eq_of_path hrow hkept (by rw [hpath, hkeptPath, holdPath])]

theorem Scan.complete_ids {walk : Walk} (h : scan.complete xxh3 db = some walk) :
    ∀ row ∈ walk.db.books, (∃ old ∈ db.books, old.path = row.path ∧ old.id = row.id) ∨
      ∀ old ∈ db.books, old.id < row.id := by
  obtain ⟨walked, hwalked, hrefreshed⟩ := Scan.complete_spec h
  intro row hrow
  rw [hrefreshed.books_eq] at hrow
  exact (Scan.walked_keepsIds hwalked).added row
    (List.mem_filter.mp (List.mem_filter.mp hrow).1).1

theorem Listing.files_subset {passes others : OsName → FolderInfo → Bool}
    (h : ∀ name info, passes name info = true → others name info = true) (listing : Listing)
    (dir : OsPath) : listing.files passes dir ⊆ listing.files others dir := by
  induction listing generalizing dir with
  | nil => exact List.Subset.refl _
  | error rest ih => exact ih dir
  | other name rest ih => exact ih dir
  | file name info rest ih =>
    rw [Listing.files, Listing.files, List.append_subset]
    exact ⟨List.subset_append_left _ _, List.subset_append_of_subset_right _ (ih dir)⟩
  | dir name info children rest ihChildren ihRest =>
    rw [Listing.files, Listing.files, List.append_subset]
    refine ⟨?_, List.subset_append_of_subset_right _ (ihRest dir)⟩
    split
    · next hpasses =>
      rw [if_pos (h name info hpasses)]
      exact List.subset_append_of_subset_left _ (ihChildren _)
    · exact List.nil_subset _

/-- The scan stores the file at the path with the content hash given, and the file has had a row
for longer than the one at the other path. -/
structure Scan.Outranks (xxh3 : List UInt8 → UInt64) (scan : Scan) (db : Db) (hash : List Char)
    (path other : OsPath) : Prop where
  slugs : scan.SlugsDistinct xxh3 db
  stored : ∃ info, (path, info) ∈ scan.listing.files isSound scan.root ∧ info.Ingestible ∧
    info.fault = false ∧ info.hash = some hash
  older : ∃ row ∈ db.books, row.path = path.text ∧
    ∀ later ∈ db.books, later.path = other.text → row.id < later.id

/-- The scan leaves a row of the first file with a smaller id than any of the second. -/
theorem Scan.Outranks.exists_row {hash : List Char} {path other : OsPath}
    (houtranks : scan.Outranks xxh3 db hash path other) (hfaithful : scan.Faithful)
    (hslug : ∀ row ∈ db.folders, row.slug = slugForPath xxh3 row.path) {walk : Walk}
    (h : scan.complete xxh3 db = some walk)
    (hrecords : ∀ row ∈ walk.db.books, scan.Records row) :
    ∃ row ∈ walk.db.books, row.hash = hash ∧
      ∀ later ∈ walk.db.books, later.path = other.text → row.id < later.id := by
  obtain ⟨info, hentry, hinfo, hfault, hhash⟩ := houtranks.stored
  obtain ⟨old, hold, holdPath, holder⟩ := houtranks.older
  obtain ⟨row, hrow, hpath, hid⟩ :=
    Scan.exists_recorded houtranks.slugs hslug h hentry hinfo hfault
  refine ⟨row, hrow, ?_, fun later hlater hlaterPath ↦ ?_⟩
  · obtain ⟨entry, hmem, hentryPath, hrowHash⟩ := hrecords row hrow
    have hvisible : (path, info) ∈ scan.entries.files := by
      apply Listing.files_subset _ scan.listing scan.root hentry
      intro name folderInfo hsound
      exact (Bool.and_eq_true_iff.mp hsound).1
    have hsame := hfaithful.info_eq entry hmem _ hvisible (hentryPath.symm.trans hpath)
    rw [hsame, hhash] at hrowHash
    exact (Option.some.inj hrowHash).symm
  · rw [hid old hold holdPath]
    rcases Scan.complete_ids h later hlater with ⟨before, hbefore, hbeforePath, hbeforeId⟩ | hnew
    · rw [← hbeforeId]
      exact holder before hbefore (hbeforePath.trans hlaterPath)
    · exact hnew old hold

end ComicStream.Catalog
