import ComicStream.Catalog.NoLoss
import ComicStream.Catalog.Root
import ComicStream.Server.Coherence
import ComicStream.Server.Feeds
import ComicStream.Server.Reader

/-!
# Walking the catalog

A client that starts at `/opds` and follows the links to subsections in whatever
feeds it gets. It knows the catalog only by the documents it reads, and finds the
directory tree as it is on disk: each folder once, and in it the books that are
in the directory.
-/

namespace ComicStream.Server

open Rust Xml Catalog Opds

/-- The route at an address of the catalog. No slug in an address is written with escapes. -/
def requestOf (address : List Char) : Option Request :=
  if address = str "/opds" then some .opdsRoot
  else
    ((str "/opds/folders/").isPrefixOf? address).bind fun slug ↦
      if slug ≠ [] ∧ slug.all Char.isAlphanum then some (.opdsFolder slug) else none

/-- The addresses in the links of one relation. -/
def hrefs (rel : String) (links : List Attributes) : List (List Char) :=
  (links.filter fun attributes ↦ attributes.lookup Attr.rel = some (str rel)).filterMap
    (·.lookup Attr.href)

section Client

variable (chrono : Chrono) (clock : List Char → ℕ → chrono.DateTime) (crates : Crates) (db : Db)

/-- The feed at an address, as it is read. -/
def fetch (address : List Char) : Option Feed :=
  ((requestOf address).bind (feedDocument chrono (clock address) db crates)).bind readFeed

/-- The links to subsections, of a feed and of its entries. -/
def subsections (address : List Char) : List (List Char) :=
  (fetch chrono clock crates db address).elim [] fun feed ↦
    hrefs "subsection" (feed.links ++ feed.entries.flatMap Entry.links)

/-- The addresses met in following all of them, from `/opds` on. -/
def crawl : Option (List (List Char)) :=
  Worklist.emit (subsections chrono clock crates db) db.folders.length [str "/opds"]

end Client

/-- Where a client finds a folder: the root at `/opds`, any other by its slug. -/
def folderAddress (row : FolderRow) : List Char :=
  if row.parentId = none then str "/opds" else folderHref row.slug

/-- The feed of a folder at an address. -/
def rowFeed {chrono : Chrono} (clock : List Char → ℕ → chrono.DateTime) (db : Db) (row : FolderRow)
    (address : List Char) : Feed :=
  feedOf (fun n ↦ clock address (n + 1)) (folderCtx chrono (clock address) db row address)
    ((listedFolders db row).map toFolder) ((listedBooks db row).map toBook)

theorem hrefs_append (rel : String) (first second : List Attributes) :
    hrefs rel (first ++ second) = hrefs rel first ++ hrefs rel second := by
  rw [hrefs, List.filter_append, List.filterMap_append, hrefs, hrefs]

theorem hrefs_flatMap {α : Type} (rel : String) (links : α → List Attributes) (items : List α) :
    hrefs rel (items.flatMap links) = items.flatMap fun item ↦ hrefs rel (links item) := by
  induction items with
  | nil => rfl
  | cons item items ih => rw [List.flatMap_cons, List.flatMap_cons, hrefs_append, ih]

theorem hrefs_subsection_folder (f : Opds.Folder) :
    hrefs "subsection" (folderLinks f) = [folderHref f.slug] := rfl

theorem hrefs_subsection_book (b : Opds.Book) : hrefs "subsection" (bookLinks b) = [] := rfl

theorem flatMap_mapIdx_item {α β γ : Type} {element : ℕ → α → β} {f : β → List γ} {g : α → List γ}
    (h : ∀ n item, f (element n item) = g item) (items : List α) :
    (items.mapIdx element).flatMap f = items.flatMap g := by
  induction items generalizing element with
  | nil => rfl
  | cons item items ih =>
    rw [List.mapIdx_cons, List.flatMap_cons, List.flatMap_cons, h, ih fun n item ↦ h (n + 1) item]

section Feed

variable {chrono : Chrono} {ctx : FeedCtx chrono}

theorem hrefs_subsection_feed : hrefs "subsection" (feedLinks ctx) = [] := by
  rw [feedLinks, hrefs_append]
  cases ctx.upHref with
  | none => rfl
  | some up => rfl

theorem hrefs_up_feed : hrefs "up" (feedLinks ctx) = ctx.upHref.toList := by
  rw [feedLinks, hrefs_append]
  cases ctx.upHref with
  | none => rfl
  | some up => rfl

/-- A feed has a link to a subsection for every subfolder, and no other. -/
theorem hrefs_feedOf (now : ℕ → chrono.DateTime) (subfolders : List Opds.Folder)
    (books : List Opds.Book) :
    hrefs "subsection" ((feedOf now ctx subfolders books).links ++
      (feedOf now ctx subfolders books).entries.flatMap Entry.links) =
        subfolders.map fun f ↦ folderHref f.slug := by
  calc
    _ = hrefs "subsection" (feedLinks ctx) ++
        ((subfolders.mapIdx fun n f ↦ entryOfFolder (now n) f).flatMap
            (fun entry ↦ hrefs "subsection" entry.links) ++
          (books.mapIdx fun n b ↦ entryOfBook (now (subfolders.length + n)) b).flatMap
            (fun entry ↦ hrefs "subsection" entry.links)) := by
      rw [hrefs_append, hrefs_flatMap, feedOf, List.flatMap_append]
    _ = (subfolders.flatMap fun f ↦ [folderHref f.slug]) ++ books.flatMap fun _ ↦ [] := by
      rw [hrefs_subsection_feed, List.nil_append]
      congr 1
      · refine flatMap_mapIdx_item (fun n f ↦ ?_) subfolders
        exact hrefs_subsection_folder f
      · refine flatMap_mapIdx_item (fun n b ↦ ?_) books
        exact hrefs_subsection_book b
    _ = subfolders.map fun f ↦ folderHref f.slug := by
      rw [List.map_eq_flatMap]
      simp

end Feed

theorem requestOf_opds : requestOf (str "/opds") = some .opdsRoot := if_pos rfl

theorem isPrefixOf?_append {α : Type} [BEq α] [ReflBEq α] (first second : List α) :
    first.isPrefixOf? (first ++ second) = some second := by
  induction first with
  | nil => rfl
  | cons item first ih => simpa [List.isPrefixOf?] using ih

theorem Opds.IsSlug.isAlphanum {slug : List Char} (h : IsSlug slug) :
    slug ≠ [] ∧ slug.all Char.isAlphanum = true := by
  obtain ⟨value, rfl⟩ := h
  refine ⟨by simp [hex16], ?_⟩
  rw [List.all_eq_true]
  intro c hc
  obtain ⟨place, -, rfl⟩ := List.mem_map.mp hc
  have hdigit : ∀ digit < 16, (hexDigit digit).isAlphanum = true := by decide
  exact hdigit _ (Nat.mod_lt _ (by decide))

theorem requestOf_folderHref {slug : List Char} (h : IsSlug slug) :
    requestOf (folderHref slug) = some (.opdsFolder slug) := by
  have hne : folderHref slug ≠ str "/opds" := by
    intro heq
    have hlength := congrArg List.length heq
    simp [folderHref, str] at hlength
  rw [requestOf, if_neg hne, folderHref, isPrefixOf?_append, Option.bind_some,
    if_pos h.isAlphanum]

section Fetch

variable {chrono : Chrono} {clock : List Char → ℕ → chrono.DateTime} {crates : Crates} {db : Db}

theorem readFeed_folderFeed (htimes : ∀ time, ∀ c ∈ chrono.toRfc3339 time, IsTimeChar c)
    (hslugs : ∀ row ∈ db.folders, IsSlug row.slug) (row : FolderRow) (address : List Char) :
    readFeed (folderFeed chrono (clock address) db row address) =
      some (rowFeed clock db row address) := by
  refine readFeed_buildFeed htimes fun f hf ↦ ?_
  obtain ⟨child, hchild, rfl⟩ := List.mem_map.mp hf
  exact hslugs child (mem_listedFolders.mp hchild).1

theorem fetch_folderHref (htimes : ∀ time, ∀ c ∈ chrono.toRfc3339 time, IsTimeChar c)
    (hslugs : ∀ row ∈ db.folders, IsSlug row.slug) {row : FolderRow} (hrow : row ∈ db.folders) :
    fetch chrono clock crates db (folderHref row.slug) =
      some (rowFeed clock db row (folderHref row.slug)) := by
  have hfind : folderBySlug db row.slug = some row := Table.find?_key db.valid.folder_slugs hrow
  calc
    _ = readFeed (folderFeed chrono (clock (folderHref row.slug)) db row
        (folderHref row.slug)) := by
      rw [fetch, requestOf_folderHref (hslugs row hrow), Option.bind_some, feedDocument, hfind,
        Option.map_some, Option.bind_some]
    _ = some (rowFeed clock db row (folderHref row.slug)) := readFeed_folderFeed htimes hslugs row _

section Root

variable {root : OsPath} {start : FolderRow}

theorem fetch_opds (htimes : ∀ time, ∀ c ∈ chrono.toRfc3339 time, IsTimeChar c)
    (hslugs : ∀ row ∈ db.folders, IsSlug row.slug) (hroot : OneRoot root db)
    (hstart : start ∈ db.folders) (hnone : start.parentId = none) :
    fetch chrono clock crates db (str "/opds") = some (rowFeed clock db start (str "/opds")) := by
  have hfind : db.folders.find? (·.parentId = none) = some start := by
    cases hfind : db.folders.find? (·.parentId = none) with
    | none =>
      have hne := List.find?_eq_none.mp hfind start hstart
      simp [hnone] at hne
    | some other =>
      have hother : other.parentId = none := by simpa using List.find?_some hfind
      rw [hroot.eq_start hstart hnone (List.mem_of_find?_eq_some hfind) hother]
  calc
    _ = readFeed (folderFeed chrono (clock (str "/opds")) db start (str "/opds")) := by
      rw [fetch, requestOf_opds, Option.bind_some, feedDocument, hfind,
        Option.map_some, Option.bind_some]
    _ = some (rowFeed clock db start (str "/opds")) := readFeed_folderFeed htimes hslugs start _

theorem fetch_folderAddress (htimes : ∀ time, ∀ c ∈ chrono.toRfc3339 time, IsTimeChar c)
    (hslugs : ∀ row ∈ db.folders, IsSlug row.slug) (hroot : OneRoot root db) {row : FolderRow}
    (hrow : row ∈ db.folders) :
    fetch chrono clock crates db (folderAddress row) =
      some (rowFeed clock db row (folderAddress row)) := by
  unfold folderAddress
  split
  · next hnone => exact fetch_opds htimes hslugs hroot hrow hnone
  · exact fetch_folderHref htimes hslugs hrow

theorem subsections_folderAddress (htimes : ∀ time, ∀ c ∈ chrono.toRfc3339 time, IsTimeChar c)
    (hslugs : ∀ row ∈ db.folders, IsSlug row.slug) (hroot : OneRoot root db) {row : FolderRow}
    (hrow : row ∈ db.folders) :
    subsections chrono clock crates db (folderAddress row) =
      (listedFolders db row).map folderAddress := by
  have haddress : ∀ child ∈ listedFolders db row, folderHref child.slug = folderAddress child := by
    intro child hchild
    rw [folderAddress, (mem_listedFolders.mp hchild).2, if_neg (by simp)]
  rw [subsections, fetch_folderAddress htimes hslugs hroot hrow, Option.elim_some, rowFeed,
    hrefs_feedOf, List.map_map]
  exact List.map_congr_left haddress

/-- The feed of a subfolder links up to the feed of the folder. -/
theorem hrefs_up_rowFeed {row child : FolderRow} (hrow : row ∈ db.folders)
    (hchild : child ∈ listedFolders db row) (address : List Char) :
    hrefs "up" (rowFeed clock db child address).links = [folderHref row.slug] := by
  have hup : upHref db child = some (folderHref row.slug) := by
    rw [upHref, (mem_listedFolders.mp hchild).2, Option.bind_some,
      Table.find?_key db.valid.folder_ids hrow, Option.map_some]
  rw [rowFeed, feedOf, hrefs_up_feed, folderCtx, hup]
  rfl

/-- The ids of the subfolders, in the order of the feed. -/
def sortedChildren (db : Db) (id : ℕ) : List ℕ :=
  (sortFolders (db.folders.filter (·.parentId = some id))).map FolderRow.id

theorem exists_visited (htimes : ∀ time, ∀ c ∈ chrono.toRfc3339 time, IsTimeChar c)
    (hslugs : ∀ row ∈ db.folders, IsSlug row.slug) (hroot : OneRoot root db)
    (hforest : Forest db) (hstart : start ∈ db.folders) (hnone : start.parentId = none) :
    ∃ visited : List FolderRow, visited.Perm db.folders ∧
      crawl chrono clock crates db = some (visited.map folderAddress) := by
  have hmem : ∀ row, row ∈ db.folders → ∀ child ∈ listedFolders db row, child ∈ db.folders :=
    fun row _ child hchild ↦ (mem_listedFolders.mp hchild).1
  have hqueue : ∀ row ∈ [start], row ∈ db.folders := by simpa using hstart
  have haddresses : crawl chrono clock crates db =
      (Worklist.emit (listedFolders db) db.folders.length [start]).map (List.map folderAddress) := by
    have hfirst : [str "/opds"] = [start].map folderAddress := by
      rw [List.map_singleton, folderAddress, if_pos hnone]
    rw [crawl, hfirst]
    exact Worklist.emit_map hmem
      (fun row hrow ↦ subsections_folderAddress htimes hslugs hroot hrow) hqueue
  have hids : Worklist.emit (sortedChildren db) db.folders.length [start.id] =
      (Worklist.emit (listedFolders db) db.folders.length [start]).map (List.map FolderRow.id) :=
    @Worklist.emit_map _ _ _ FolderRow.id _ _ _ _ hmem (fun _ _ ↦ rfl) hqueue
  have hperm (id : ℕ) : (sortedChildren db id).Perm (db.children id) :=
    (List.perm_insertionSort _ _).map _
  obtain ⟨ids, hemit, hnodup, hbelow⟩ :=
    Worklist.emit_of_isForest (hforest.isForest.of_perm hperm) (List.mem_map_of_mem hstart)
  rw [List.length_map, hids] at hemit
  obtain ⟨visited, hvisited, rfl⟩ := Option.map_eq_some_iff.mp hemit
  refine ⟨visited, ?_, by rw [haddresses, hvisited, Option.map_some]⟩
  have hfolders := Worklist.forall_of_emit hmem hqueue hvisited
  rw [List.perm_ext_iff_of_nodup hnodup.of_map db.valid.folder_ids.of_map]
  refine fun row ↦ ⟨hfolders row, fun hrow ↦ ?_⟩
  have hreached : Worklist.Below (sortedChildren db) start.id row.id :=
    Relation.ReflTransGen.mono (fun parent child hchild ↦ (hperm parent).mem_iff.mpr hchild) _ _
      (hroot.below hforest hstart hnone row hrow).1
  obtain ⟨other, hother, hid⟩ := List.mem_map.mp ((hbelow row.id).mpr hreached)
  rw [← Db.folder_eq_of_id (hfolders other hother) hrow hid]
  exact hother

theorem flatMap_listedBooks (visited : List FolderRow) (hvisited : visited.Perm db.folders) :
    (visited.flatMap (listedBooks db)).Perm db.books := by
  have hnodup : (visited.map FolderRow.id).Nodup :=
    (hvisited.map _).nodup_iff.mpr db.valid.folder_ids
  rw [List.perm_ext_iff_of_nodup ?_ db.valid.book_ids.of_map]
  · intro book
    rw [List.mem_flatMap]
    constructor
    · rintro ⟨row, -, hbook⟩
      exact (mem_listedBooks.mp hbook).1
    · intro hbook
      obtain ⟨folder, hfolder, hid⟩ := db.valid.book_folders book hbook
      exact ⟨folder, hvisited.mem_iff.mpr hfolder, mem_listedBooks.mpr ⟨hbook, hid.symm⟩⟩
  · rw [List.nodup_flatMap]
    constructor
    · intro row _
      exact (List.perm_insertionSort _ _).nodup_iff.mpr (db.valid.book_ids.of_map.filter _)
    · refine (List.pairwise_map.mp hnodup).imp fun hne ↦ ?_
      intro book hfirst hsecond
      exact hne ((mem_listedBooks.mp hfirst).2.symm.trans (mem_listedBooks.mp hsecond).2)

end Root

end Fetch

/-- **Traversal of the catalog.** Whatever scans were made of one library and wherever they stopped,
in a catalog with a root row: from `/opds` on, the links to subsections lead to every folder once, and
what is at an address is the feed of its folder. A folder's feed has the folders and the books whose
paths lie in its own, every book is in the feed of one folder, once, and a subfolder's feed links up
to the address, by its slug, of the folder it was listed in. -/
theorem traversal {xxh3 : List UInt8 → UInt64} {root : OsPath} {scans : List Scan} {db : Db}
    (h : Run xxh3 scans db) (hscans : ∀ scan ∈ scans, scan.root = root) {start : FolderRow}
    (hstart : start ∈ db.folders) (hnone : start.parentId = none) {chrono : Chrono}
    (htimes : ∀ time, ∀ c ∈ chrono.toRfc3339 time, IsTimeChar c)
    (clock : List Char → ℕ → chrono.DateTime) (crates : Crates) :
    ∃ visited : List FolderRow, visited.Perm db.folders ∧
      crawl chrono clock crates db = some (visited.map folderAddress) ∧
      (∀ row ∈ db.folders,
        fetch chrono clock crates db (folderAddress row) =
            some (rowFeed clock db row (folderAddress row)) ∧
          subsections chrono clock crates db (folderAddress row) =
            (listedFolders db row).map folderAddress) ∧
      (visited.flatMap (listedBooks db)).Perm db.books ∧
      (∀ row ∈ db.folders, ∀ book ∈ db.books,
        book ∈ listedBooks db row ↔ book.path ≠ [] ∧ row.path = book.path.dropLast) ∧
      (∀ row ∈ db.folders, ∀ child ∈ db.folders,
        child ∈ listedFolders db row ↔ child.path ≠ [] ∧ row.path = child.path.dropLast) ∧
      ∀ row ∈ db.folders, ∀ child ∈ listedFolders db row,
        hrefs "up" (rowFeed clock db child (folderAddress child)).links = [folderHref row.slug] ∧
          fetch chrono clock crates db (folderHref row.slug) =
            some (rowFeed clock db row (folderHref row.slug)) := by
  have hroot := h.oneRoot hscans
  have hforest := h.forest
  have hslugs : ∀ row ∈ db.folders, IsSlug row.slug := by
    intro row hrow
    rw [h.slug_eq row hrow]
    exact isSlug_slugForPath xxh3 row.path
  obtain ⟨visited, hvisited, hcrawl⟩ :=
    @exists_visited chrono clock crates db root start htimes hslugs hroot hforest hstart hnone
  refine ⟨visited, hvisited, hcrawl, ?_, flatMap_listedBooks visited hvisited, ?_, ?_, ?_⟩
  · intro row hrow
    exact ⟨fetch_folderAddress htimes hslugs hroot hrow,
      subsections_folderAddress htimes hslugs hroot hrow⟩
  · intro row hrow book hbook
    rw [mem_listedBooks, ← hforest.folderId_eq_iff hrow hbook, and_iff_right hbook]
  · intro row hrow child hchild
    rw [mem_listedFolders, ← hroot.parentId_eq_iff hforest hstart hnone hrow hchild,
      and_iff_right hchild]
  · intro row hrow child hchild
    exact ⟨hrefs_up_rowFeed hrow hchild _, fetch_folderHref htimes hslugs hrow⟩

/-- The small library has two folders to visit. -/
theorem traversal_sample :
    ∃ (db : Db) (visited : List FolderRow), Run sampleXxh3 [Scan.sample 10 Listing.sample] db ∧
      db.folders.length = 2 ∧ visited.Perm db.folders ∧
      crawl Chrono.sample (fun _ _ ↦ (0 : ℤ)) Crates.zipped db =
        some (visited.map folderAddress) := by
  have hrows : ((Scan.sample 10 Listing.sample).complete sampleXxh3 Db.empty).map
      (fun walk ↦ (walk.db.folders.length, walk.db.folders.any (·.parentId = none))) =
        some (2, true) := by decide
  obtain ⟨walk, hwalk, hrow⟩ := Option.map_eq_some_iff.mp hrows
  obtain ⟨hlength, hany⟩ := Prod.mk.inj hrow
  obtain ⟨start, hstart, hnone⟩ := List.any_eq_true.mp hany
  have hrun := Run.empty.complete hwalk
  obtain ⟨visited, hvisited, hcrawl, -⟩ := traversal hrun
    (by
      intro scan hscan
      rw [List.nil_append, List.mem_singleton] at hscan
      rw [hscan])
    hstart (by simpa using hnone) isTimeChar_sample (fun _ _ ↦ (0 : ℤ)) Crates.zipped
  exact ⟨walk.db, visited, hrun, hlength, hvisited, hcrawl⟩

end ComicStream.Server
