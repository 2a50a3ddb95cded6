import ComicStream.Catalog.Snapshot
import ComicStream.Server.Rescans

/-!
# Servers of one library agree

Two servers that have been through different things, with scans of their own and
scans that were stopped, and that both scan the same tree now, show the same
catalog: the feed of every folder has the same folders and books, whatever the ids
of their rows. Only items with the same sort key can stand in another order.
-/

namespace ComicStream.Server

open Rust Catalog Machine

/-- The same items, and in the same order unless two of them have the same sort key. -/
def SameListing {Item : Type} (sortKey : Item → List Char) (first second : List Item) : Prop :=
  first.Perm second ∧ ((first.map sortKey).Nodup → first = second)

theorem sameListing_of_pairwise {Item : Type} {sortKey : Item → List Char}
    {first second : List Item} (hperm : first.Perm second)
    (hfirst : first.Pairwise fun item other ↦ ¬sortKey other < sortKey item)
    (hsecond : second.Pairwise fun item other ↦ ¬sortKey other < sortKey item) :
    SameListing sortKey first second := by
  refine ⟨hperm, fun hnodup ↦ hperm.eq_of_pairwise ?_ hfirst hsecond⟩
  intro item other hitem hother hle hge
  have hkey : sortKey item = sortKey other :=
    List.le_antisymm (List.not_lt.mp hle) (List.not_lt.mp hge)
  exact List.inj_on_of_nodup_map hnodup hitem (hperm.mem_iff.mpr hother) hkey

theorem pairwise_sorted {Row : Type} (sortKey : Row → List Char) (rows : List Row) :
    (rows.insertionSort fun first second ↦ ¬sortKey second < sortKey first).Pairwise
      fun first second ↦ ¬sortKey second < sortKey first := by
  have htotal : Std.Total fun first second : Row ↦ ¬sortKey second < sortKey first :=
    ⟨fun first second ↦ (List.le_total (sortKey first) (sortKey second)).imp List.not_lt.mpr
      List.not_lt.mpr⟩
  have htrans : IsTrans Row fun first second ↦ ¬sortKey second < sortKey first :=
    ⟨fun first second third hle hnext ↦
      List.not_lt.mpr (List.le_trans (List.not_lt.mp hle) (List.not_lt.mp hnext))⟩
  exact List.pairwise_insertionSort _ rows

theorem sameListing_map {Row Item : Type} {sortKey : Item → List Char} {view other : Row → Item}
    {key : Row → List Char} {first second : List Row}
    (hview : ∀ row, sortKey (view row) = key row) (hother : ∀ row, sortKey (other row) = key row)
    (hperm : (first.map view).Perm (second.map other)) :
    SameListing sortKey
      ((first.insertionSort fun row next ↦ ¬key next < key row).map view)
      ((second.insertionSort fun row next ↦ ¬key next < key row).map other) := by
  apply sameListing_of_pairwise
  · exact ((List.perm_insertionSort _ first).map view).trans
      (hperm.trans ((List.perm_insertionSort _ second).map other).symm)
  · rw [List.pairwise_map]
    simpa only [hview] using pairwise_sorted key first
  · rw [List.pairwise_map]
    simpa only [hother] using pairwise_sorted key second

section Picture

variable {db other : Db}

theorem parent_eq_iff {row folder : FolderRow} (hrow : row ∈ db.folders)
    (hfolder : folder ∈ db.folders) :
    (db.folderView row).parent = some folder.path ↔ row.parentId = some folder.id := by
  change row.parentId.bind db.pathOf = _ ↔ _
  cases hparent : row.parentId with
  | none => simp
  | some parentId =>
    obtain ⟨parent, hmem, rfl⟩ := db.valid.folder_parents row hrow parentId (by simp [hparent])
    rw [Option.bind_some, Db.pathOf_eq hmem, Option.some.injEq, Option.some.injEq]
    constructor
    · intro hpath
      rw [Db.folder_eq_of_path hmem hfolder hpath]
    · intro hid
      rw [Db.folder_eq_of_id hmem hfolder hid]

theorem parent_eq_none_iff {row : FolderRow} (hrow : row ∈ db.folders) :
    (db.folderView row).parent = none ↔ row.parentId = none := by
  change row.parentId.bind db.pathOf = _ ↔ _
  cases hparent : row.parentId with
  | none => simp
  | some parentId =>
    obtain ⟨parent, hmem, rfl⟩ := db.valid.folder_parents row hrow parentId (by simp [hparent])
    simp [Db.pathOf_eq hmem]

theorem folder_eq_iff {book : BookRow} {folder : FolderRow} (hbook : book ∈ db.books)
    (hfolder : folder ∈ db.folders) :
    (db.bookView book).folder = some folder.path ↔ book.folderId = folder.id := by
  change db.pathOf book.folderId = _ ↔ _
  obtain ⟨parent, hmem, hid⟩ := db.valid.book_folders book hbook
  rw [← hid, Db.pathOf_eq hmem, Option.some.injEq]
  constructor
  · intro hpath
    rw [Db.folder_eq_of_path hmem hfolder hpath]
  · intro hsame
    rw [Db.folder_eq_of_id hmem hfolder hsame]

theorem nodup_folderViews : (db.folders.map db.folderView).Nodup := by
  apply List.Nodup.of_map FolderView.path
  rw [List.map_map]
  exact db.valid.folder_paths

theorem nodup_bookViews : (db.books.map db.bookView).Nodup := by
  apply List.Nodup.of_map BookView.path
  rw [List.map_map]
  exact db.valid.book_paths

theorem Picture.folder_twin (h : db.picture = other.picture) {row : FolderRow}
    (hrow : row ∈ db.folders) : ∃ twin ∈ other.folders, other.folderView twin = db.folderView row := by
  have hmem : db.folderView row ∈ db.picture.folders := ⟨row, hrow, rfl⟩
  rw [h] at hmem
  exact hmem

theorem Picture.book_twin (h : db.picture = other.picture) {row : BookRow} (hrow : row ∈ db.books) :
    ∃ twin ∈ other.books, other.bookView twin = db.bookView row := by
  have hmem : db.bookView row ∈ db.picture.books := ⟨row, hrow, rfl⟩
  rw [h] at hmem
  exact hmem

variable {folder twin : FolderRow}

theorem Picture.mem_subfolders (h : db.picture = other.picture) (hfolder : folder ∈ db.folders)
    (htwin : twin ∈ other.folders) (hpath : twin.path = folder.path) {view : FolderView}
    (hview : view ∈ (db.folders.filter (·.parentId = some folder.id)).map db.folderView) :
    view ∈ (other.folders.filter (·.parentId = some twin.id)).map other.folderView := by
  obtain ⟨row, hrow, rfl⟩ := List.mem_map.mp hview
  rw [List.mem_filter, decide_eq_true_eq] at hrow
  obtain ⟨same, hsame, hviews⟩ := Picture.folder_twin h hrow.1
  refine List.mem_map.mpr ⟨same, List.mem_filter.mpr ⟨hsame, ?_⟩, hviews⟩
  rw [decide_eq_true_eq, ← parent_eq_iff hsame htwin, hviews, hpath, parent_eq_iff hrow.1 hfolder]
  exact hrow.2

theorem Picture.mem_books (h : db.picture = other.picture) (hfolder : folder ∈ db.folders)
    (htwin : twin ∈ other.folders) (hpath : twin.path = folder.path) {view : BookView}
    (hview : view ∈ (db.books.filter (·.folderId = folder.id)).map db.bookView) :
    view ∈ (other.books.filter (·.folderId = twin.id)).map other.bookView := by
  obtain ⟨row, hrow, rfl⟩ := List.mem_map.mp hview
  rw [List.mem_filter, decide_eq_true_eq] at hrow
  obtain ⟨same, hsame, hviews⟩ := Picture.book_twin h hrow.1
  refine List.mem_map.mpr ⟨same, List.mem_filter.mpr ⟨hsame, ?_⟩, hviews⟩
  rw [decide_eq_true_eq, ← folder_eq_iff hsame htwin, hviews, hpath, folder_eq_iff hrow.1 hfolder]
  exact hrow.2

/-- What a reader sees of the rows that a feed is built from. -/
def Response.views (db : Db) : Response → Option (List FolderView × List BookView)
  | .feed folders books => some (folders.map db.folderView, books.map db.bookView)
  | _ => none

/-- No feed in both cases, or feeds with the same folders and the same books. -/
def SameFeed : Option (List FolderView × List BookView) →
    Option (List FolderView × List BookView) → Prop
  | some first, some second => SameListing FolderView.sortKey first.1 second.1 ∧
    SameListing BookView.sortKey first.2 second.2
  | none, none => True
  | _, _ => False

/-- The feeds of one folder in two databases with the same picture. -/
theorem sameFeed_serveFolderFeed {state next : State} (h : state.db.picture = next.db.picture)
    (hfolder : folder ∈ state.db.folders) (htwin : twin ∈ next.db.folders)
    (hpath : twin.path = folder.path) :
    SameFeed ((serveFolderFeed state folder).views state.db)
      ((serveFolderFeed next twin).views next.db) := by
  constructor
  · refine @sameListing_map _ _ FolderView.sortKey state.db.folderView next.db.folderView
      FolderRow.sortKey _ _ (fun _ ↦ rfl) (fun _ ↦ rfl) ?_
    rw [List.perm_ext_iff_of_nodup (nodup_folderViews.sublist (List.filter_sublist.map _))
      (nodup_folderViews.sublist (List.filter_sublist.map _))]
    exact fun view ↦ ⟨Picture.mem_subfolders h hfolder htwin hpath,
      Picture.mem_subfolders h.symm htwin hfolder hpath.symm⟩
  · refine @sameListing_map _ _ BookView.sortKey state.db.bookView next.db.bookView
      BookRow.sortKey _ _ (fun _ ↦ rfl) (fun _ ↦ rfl) ?_
    rw [List.perm_ext_iff_of_nodup (nodup_bookViews.sublist (List.filter_sublist.map _))
      (nodup_bookViews.sublist (List.filter_sublist.map _))]
    exact fun view ↦ ⟨Picture.mem_books h hfolder htwin hpath,
      Picture.mem_books h.symm htwin hfolder hpath.symm⟩

end Picture

section Servers

variable {config : Config} {crates : Crates}

/-- The requests for the feed of a folder. -/
def Request.IsFolderFeed : Request → Prop
  | .opdsRoot => True
  | .opdsFolder _ => True
  | _ => False

theorem sameFeed_handle {scan : Scan} {state next : State}
    (hstate : state.db.picture = scan.picture crates.xxh3)
    (hnext : next.db.picture = scan.picture crates.xxh3) {request : Request}
    (hrequest : request.IsFolderFeed) :
    SameFeed ((handle config crates state request).1.views state.db)
      ((handle config crates next request).1.views next.db) := by
  have hpicture := hstate.trans hnext.symm
  cases request with
  | opdsRoot =>
    have hroot {db : Db} (hdb : db.picture = scan.picture crates.xxh3) :
        ∃ root ∈ db.folders, db.folders.find? (·.parentId = none) = some root ∧
          root.path = scan.root.text := by
      have hview : folderViewOf crates.xxh3 scan.root none scan.name scan.rootInfo ∈
          db.picture.folders := by
        rw [hdb]
        exact .inl rfl
      obtain ⟨row, hrow, hrowView⟩ := hview
      have hrowParent : row.parentId = none :=
        (parent_eq_none_iff hrow).mp (congrArg FolderView.parent hrowView)
      have hsome : (db.folders.find? (·.parentId = none)).isSome :=
        List.find?_isSome.mpr ⟨row, hrow, by simpa using hrowParent⟩
      obtain ⟨root, hfound⟩ := Option.isSome_iff_exists.mp hsome
      have hmem := List.mem_of_find?_eq_some hfound
      have hparent : root.parentId = none := by simpa using List.find?_some hfound
      refine ⟨root, hmem, hfound, ?_⟩
      have hrootView : db.folderView root ∈ (scan.picture crates.xxh3).folders := by
        rw [← hdb]
        exact ⟨root, hmem, rfl⟩
      rcases hrootView with heq | ⟨entry, -, heq⟩
      · exact congrArg FolderView.path heq
      · have hnone := (parent_eq_none_iff hmem).mpr hparent
        rw [heq] at hnone
        exact absurd hnone (Option.some_ne_none _)
    obtain ⟨first, hfirst, hfirstRoot, hfirstPath⟩ := hroot hstate
    obtain ⟨second, hsecond, hsecondRoot, hsecondPath⟩ := hroot hnext
    rw [handle, handle, hfirstRoot, hsecondRoot]
    exact sameFeed_serveFolderFeed hpicture hfirst hsecond (hsecondPath.trans hfirstPath.symm)
  | opdsFolder slug =>
    have hslug {db other : Db} (hsame : db.picture = other.picture) {folder : FolderRow}
        (hfolder : folderBySlug db slug = some folder) :
        ∃ twin, folderBySlug other slug = some twin ∧ twin ∈ other.folders ∧
          folder ∈ db.folders ∧ twin.path = folder.path := by
      have hmem := List.mem_of_find?_eq_some hfolder
      have hfolderSlug : folder.slug = slug := by simpa using List.find?_some hfolder
      obtain ⟨twin, htwin, hview⟩ := Picture.folder_twin hsame hmem
      have htwinSlug : twin.slug = slug :=
        (congrArg FolderView.slug hview).trans hfolderSlug
      have hsome : (folderBySlug other slug).isSome :=
        List.find?_isSome.mpr ⟨twin, htwin, by simpa using htwinSlug⟩
      obtain ⟨found, hfound⟩ := Option.isSome_iff_exists.mp hsome
      have hfoundMem := List.mem_of_find?_eq_some hfound
      have hfoundSlug : found.slug = slug := by simpa using List.find?_some hfound
      have hequal : found = twin := Table.eq_of_key_eq other.valid.folder_slugs hfoundMem htwin
        (hfoundSlug.trans htwinSlug.symm)
      rw [hequal] at hfound
      exact ⟨twin, hfound, htwin, hmem, congrArg FolderView.path hview⟩
    cases hfolder : folderBySlug state.db slug with
    | some folder =>
      obtain ⟨twin, htwin, hmem, hfolderMem, hpath⟩ := hslug hpicture hfolder
      rw [handle, handle, hfolder, htwin]
      exact sameFeed_serveFolderFeed hpicture hfolderMem hmem hpath
    | none =>
      cases htwin : folderBySlug next.db slug with
      | some twin =>
        obtain ⟨folder, hfound, -⟩ := hslug hpicture.symm htwin
        rw [hfolder] at hfound
        exact absurd hfound (Option.some_ne_none _).symm
      | none =>
        rw [handle, handle, hfolder, htwin]
        trivial
  | opdsSearch q => exact hrequest.elim
  | bookPage hash n oneBased thumbnailPref => exact hrequest.elim
  | bookCover hash => exact hrequest.elim
  | bookThumbnail hash => exact hrequest.elim
  | bookFile hash => exact hrequest.elim
  | folderCover slug => exact hrequest.elim

/-- The time of a scan. -/
def scanTime : Event → Option ℕ
  | .scan started _ _ => some started
  | _ => none

theorem step_scan_db (state : State) (started : ℕ) (faults : OsPath → Bool) (stop : Option ℕ) :
    (step config crates state (.scan started faults stop)).db = state.db ∨
      (step config crates state (.scan started faults stop)).db ∈
        (scanOf config crates state started faults).states crates.xxh3 state.db := by
  cases stop with
  | none =>
    change (scanned config crates state started faults).db = _ ∨
      (scanned config crates state started faults).db ∈ _
    cases hcomplete : (scanOf config crates state started faults).complete crates.xxh3 state.db with
    | none =>
      left
      rw [scanned, hcomplete]
    | some walk =>
      right
      rw [(scanned_eq hcomplete).db_eq]
      exact Scan.mem_states hcomplete
  | some statements =>
    change (stopped config crates state started faults statements).db = _ ∨
      (stopped config crates state started faults statements).db ∈ _
    rw [stopped]
    split
    · exact .inl rfl
    · next db hdb => exact .inr (List.mem_of_getElem? hdb)

/-- Scans that were started at the times given lead to the database of a server. -/
theorem exists_run_timed (config : Config) (crates : Crates) (fs : Fs) (events : List Event) :
    ∃ scans, (∀ scan ∈ scans, scan.started ∈ events.filterMap scanTime) ∧
      Run crates.xxh3 scans (run (step config crates) (State.start config fs) events).db := by
  induction events using List.reverseRecOn with
  | nil => exact ⟨[], by simp, .empty⟩
  | append_singleton events event ih =>
    obtain ⟨scans, hscans, hrun⟩ := ih
    have hearlier (scan : Scan) (hscan : scan ∈ scans) :
        scan.started ∈ (events ++ [event]).filterMap scanTime := by
      rw [List.filterMap_append]
      exact List.mem_append_left _ (hscans scan hscan)
    rw [run_snoc]
    generalize run (step config crates) (State.start config fs) events = state at hrun ⊢
    cases event with
    | change fs => exact ⟨scans, hearlier, hrun⟩
    | request request =>
      refine ⟨scans, hearlier, ?_⟩
      change Run crates.xxh3 scans (handle config crates state request).2.db
      rw [(handle_handled request).db_eq]
      exact hrun
    | scan started faults stop =>
      rcases step_scan_db state started faults stop with hsame | hnext
      · refine ⟨scans, hearlier, ?_⟩
        rw [hsame]
        exact hrun
      · refine ⟨scans ++ [scanOf config crates state started faults], ?_, hrun.scan _ hnext⟩
        intro scan hscan
        rcases List.mem_append.mp hscan with hscan | hscan
        · exact hearlier scan hscan
        · rw [List.mem_singleton.mp hscan, List.filterMap_append]
          exact List.mem_append_right _ List.mem_cons_self

/-- What the scan of a server must find after the events given: that the clock has gone on, that
slugs and paths tell the entries apart, that files which look unchanged are, and that the upsert of
the root succeeds. -/
structure Settles (config : Config) (crates : Crates) (events : List Event) (state : State)
    (started : ℕ) (faults : OsPath → Bool) : Prop where
  later : ∀ time ∈ events.filterMap scanTime, time < started
  slugs : (scanOf config crates state started faults).SlugsDistinct crates.xxh3 state.db
  unambiguous : (scanOf config crates state started faults).Unambiguous
  trusts : (scanOf config crates state started faults).Trusts state.db
  complete : ((scanOf config crates state started faults).complete crates.xxh3 state.db).isSome

/-- A scan leaves the picture of the library, whatever has happened to the server. -/
theorem Settles.picture {fs : Fs} {events : List Event} {state : State} {started : ℕ}
    {faults : OsPath → Bool}
    (hstate : run (step config crates) (State.start config fs) events = state)
    (h : Settles config crates events state started faults) :
    (step config crates state (.scan started faults none)).db.picture =
      (scanOf config crates state started faults).picture crates.xxh3 := by
  obtain ⟨scans, hscans, hrun⟩ := exists_run_timed config crates fs events
  rw [hstate] at hrun
  obtain ⟨walk, hwalk⟩ := Option.isSome_iff_exists.mp h.complete
  change (scanned config crates state started faults).db.picture = _
  rw [(scanned_eq hwalk).db_eq]
  exact hrun.picture_complete (fun earlier hearlier ↦ h.later _ (hscans earlier hearlier)) h.slugs
    h.unambiguous h.trusts hwalk

/-- **Servers of one library agree.** Two servers of the same configuration start from empty
databases and go through any events, among them scans that fail or are stopped anywhere. When the
library is the same for both in the end and each scans it once more, the feed of every folder has
the same folders and books on both, and in the same order unless two of them share a sort key. -/
theorem servers_converge {fs other : Fs} {events others : List Event} {state next : State}
    {started later : ℕ} {faults : OsPath → Bool}
    (hstate : run (step config crates) (State.start config fs) events = state)
    (hnext : run (step config crates) (State.start config other) others = next)
    (hlibrary : state.fs = next.fs)
    (hsettles : Settles config crates events state started faults)
    (hothers : Settles config crates others next later faults)
    {request : Request} (hrequest : request.IsFolderFeed) :
    SameFeed
      ((handle config crates (step config crates state (.scan started faults none)) request).1.views
        (step config crates state (.scan started faults none)).db)
      ((handle config crates (step config crates next (.scan later faults none)) request).1.views
        (step config crates next (.scan later faults none)).db) := by
  have hpicture := hothers.picture hnext
  have hsame : (scanOf config crates next later faults).picture crates.xxh3 =
      (scanOf config crates state started faults).picture crates.xxh3 := by
    rw [scanOf, scanOf, hlibrary]
    rfl
  exact sameFeed_handle (hsettles.picture hstate) (hpicture.trans hsame) hrequest

end Servers

/-- A server that has scanned the library before. -/
def State.rescanned : State :=
  run (step Config.sample Crates.replaced) (State.start Config.sample (archiveFs darkZip))
    [.scan 10 (fun _ ↦ false) none]

/-- A server that is new to the library. -/
def State.moved : State :=
  run (step Config.sample Crates.replaced) (State.start Config.sample (archiveFs lightZip))
    [.change (archiveFs darkZip)]

set_option maxRecDepth 4000 in
theorem servers_converge_sample :
    SameFeed
      ((handle Config.sample Crates.replaced (step Config.sample Crates.replaced State.rescanned
        (.scan 20 (fun _ ↦ false) none)) .opdsRoot).1.views
        (step Config.sample Crates.replaced State.rescanned (.scan 20 (fun _ ↦ false) none)).db)
      ((handle Config.sample Crates.replaced (step Config.sample Crates.replaced State.moved
        (.scan 30 (fun _ ↦ false) none)) .opdsRoot).1.views
        (step Config.sample Crates.replaced State.moved (.scan 30 (fun _ ↦ false) none)).db) := by
  have hrescanned : Settles Config.sample Crates.replaced [.scan 10 (fun _ ↦ false) none]
      State.rescanned 20 fun _ ↦ false := by
    refine ⟨by decide, ?_, ⟨?_, ?_⟩, ?_, ?_⟩
    · unfold Scan.SlugsDistinct
      decide
    · decide
    · decide
    · unfold Scan.Trusts
      decide
    · decide
  have hmoved : Settles Config.sample Crates.replaced [.change (archiveFs darkZip)] State.moved 30
      fun _ ↦ false := by
    refine ⟨by decide, ?_, ⟨?_, ?_⟩, ?_, ?_⟩
    · unfold Scan.SlugsDistinct
      decide
    · decide
    · decide
    · unfold Scan.Trusts
      decide
    · decide
  exact @servers_converge Config.sample Crates.replaced (archiveFs darkZip) (archiveFs lightZip) _ _
    State.rescanned State.moved 20 30 _ rfl rfl rfl hrescanned hmoved .opdsRoot trivial

end ComicStream.Server
