import ComicStream.Archive.Book
import ComicStream.Catalog.Walk

/-!
# What a scan reads from the file system

A scan's listing and what it finds out about each entry, as calls on a file
system that stays as it is for the length of the scan. The walk does not follow
links, so the path of a file it meets is plain.
-/

namespace ComicStream.Catalog

open Rust Archive

/-- `COVER_NAMES`. -/
def coverNames : List OsName :=
  [ascii "cover.jpg", ascii "cover.jpeg", ascii "cover.png", ascii "folder.jpg", ascii "folder.png"]

/-- `DESCRIPTION_NAMES`. -/
def descriptionNames : List OsName := [ascii "description.txt"]

/-- `MAX_DESCRIPTION_BYTES`. -/
def maxDescriptionBytes : ℕ := 16 * 1024

/-- The content hash and the archive crates, and the entries whose statements fail. -/
structure Tools where
  blake3 : List UInt8 → List Char
  reader : Reader

section Reading

variable (tools : Tools) (faults : OsPath → Bool) (fs : Fs)

/-- `file_hash`. -/
def fileHash (path : OsPath) : Option (List Char) :=
  (fs.read path).map fun content ↦ tools.blake3 content.value

/-- `mtime_secs`. -/
def mtimeSecs (path : OsPath) : ℕ :=
  match fs.stat path with
  | some (.file content) => content.mtime
  | some (.dir mtime _ _) => mtime
  | some (.special mtime) => mtime
  | _ => 0

/-- `find_cover`: the first candidate that is a file and not a link. -/
def findCover (folder : OsPath) : Option PathText :=
  coverNames.findSome? fun name ↦
    match fs.lstat (folder ++ [name]) with
    | some (.file _) => some (OsPath.text (folder ++ [name]))
    | _ => none

/-- The text of a description: cut, decoded and trimmed. -/
def descriptionText (bytes : List UInt8) : List Char :=
  trim (fromUtf8Lossy (bytes.take maxDescriptionBytes))

/-- `find_description`: the first candidate that leads to a file with a text in it. -/
def findDescription (folder : OsPath) : Option (Sourced (List Char)) :=
  descriptionNames.findSome? fun name ↦
    match fs.stat (folder ++ [name]) with
    | some (.file _) =>
      (fs.read (folder ++ [name])).bind fun content ↦
        if descriptionText content.value = [] then none
        else some ⟨descriptionText content.value, content.source⟩
    | _ => none

/-- What `upsert_folder` reads of a directory. -/
def folderInfo (path : OsPath) : FolderInfo where
  mtime := mtimeSecs fs path
  coverPath := findCover fs path
  description := findDescription fs path
  fault := faults path

/-- What `upsert_book` reads of a file. -/
def fileInfo (path : OsPath) : FileInfo where
  size :=
    match fs.stat path with
    | some (.file content) => some content.bytes.length
    | _ => none
  mtime := mtimeSecs fs path
  hash := fileHash tools fs path
  kind := detect fs path
  pageCount := (openBook tools.reader fs path).map (·.pages.length)
  fault := faults path

/-- The walk of the directory `dir` with the entries given. -/
def listingOf (dir : OsPath) : Fs.Dir → Listing
  | .nil => .nil
  | .file name _ rest => .file name (fileInfo tools faults fs (dir ++ [name])) (listingOf dir rest)
  | .symlink name _ rest => .other name (listingOf dir rest)
  | .special name _ rest => .other name (listingOf dir rest)
  | .dir name _ listable children rest =>
    .dir name (folderInfo faults fs (dir ++ [name]))
      (if listable then listingOf (dir ++ [name]) children else .error .nil) (listingOf dir rest)

/-- The walk from the library root. -/
def listing (root : OsPath) : Listing :=
  match fs.stat root with
  | some (.dir _ true entries) => listingOf tools faults fs root entries
  | _ => .error .nil

/-- `std::fs::metadata` of a cover, as far as `cover_version_for` needs it. -/
def coverMtime (path : PathText) : Option ℕ :=
  (fs.stat path.osPath).map fun _ ↦ mtimeSecs fs path.osPath

/-- A scan of the file system. -/
def Scan.ofFs (root : OsPath) (name : Option (List Char)) (started : ℕ) : Scan where
  root := root
  name := name
  started := started
  rootInfo := folderInfo faults fs root
  listing := Catalog.listing tools faults fs root
  coverMtime := Catalog.coverMtime fs

end Reading

variable {tools : Tools} {faults : OsPath → Bool} {fs : Fs}

theorem of_mem_folders_listingOf {passes : OsName → FolderInfo → Bool} {dir : OsPath}
    {entries : Fs.Dir} {entry : OsPath × FolderInfo}
    (h : entry ∈ (listingOf tools faults fs dir entries).folders passes dir) :
    entry.2 = folderInfo faults fs entry.1 := by
  induction entries generalizing dir with
  | nil => simp [listingOf, Listing.folders] at h
  | file name content rest ih => exact ih h
  | symlink name target rest ih => exact ih h
  | special name mtime rest ih => exact ih h
  | dir name mtime listable children rest ihChildren ihRest =>
    rw [listingOf, Listing.folders, List.mem_append] at h
    rcases h with h | h
    · split at h
      · rcases List.mem_cons.mp h with rfl | h
        · rfl
        · split at h
          · exact ihChildren h
          · simp [Listing.folders] at h
      · simp at h
    · exact ihRest h

theorem of_mem_folders {root : OsPath} {name : Option (List Char)} {started : ℕ}
    {entry : OsPath × FolderInfo}
    (h : entry ∈ (Scan.ofFs tools faults fs root name started).entries.folders) :
    entry.2 = folderInfo faults fs entry.1 := by
  change entry ∈ (listing tools faults fs root).folders isVisible root at h
  unfold listing at h
  split at h
  · exact of_mem_folders_listingOf h
  · simp [Listing.folders] at h

theorem of_mem_files_info {passes : OsName → FolderInfo → Bool} {dir : OsPath} {entries : Fs.Dir}
    {entry : OsPath × FileInfo}
    (h : entry ∈ (listingOf tools faults fs dir entries).files passes dir) :
    entry.2 = fileInfo tools faults fs entry.1 := by
  induction entries generalizing dir with
  | nil => simp [listingOf, Listing.files] at h
  | file name content rest ih =>
    rw [listingOf, Listing.files, List.mem_append] at h
    rcases h with h | h
    · split at h
      · rw [List.mem_singleton.mp h]
      · simp at h
    · exact ih h
  | symlink name target rest ih => exact ih h
  | special name mtime rest ih => exact ih h
  | dir name mtime listable children rest ihChildren ihRest =>
    rw [listingOf, Listing.files, List.mem_append] at h
    rcases h with h | h
    · split at h
      · split at h
        · exact ihChildren h
        · simp [Listing.files] at h
      · simp at h
    · exact ihRest h

theorem info_of_mem_files {root : OsPath} {name : Option (List Char)} {started : ℕ}
    {entry : OsPath × FileInfo}
    (h : entry ∈ (Scan.ofFs tools faults fs root name started).entries.files) :
    entry.2 = fileInfo tools faults fs entry.1 := by
  change entry ∈ (listing tools faults fs root).files isVisible root at h
  unfold listing at h
  split at h
  · exact of_mem_files_info h
  · simp [Listing.files] at h

theorem exists_read_of_findDescription {folder : OsPath} {description : Sourced (List Char)}
    (h : findDescription fs folder = some description) :
    ∃ name ∈ descriptionNames, ∃ content, fs.read (folder ++ [name]) = some content ∧
      description.source = content.source := by
  obtain ⟨name, hname, hfound⟩ := List.exists_of_findSome?_eq_some h
  refine ⟨name, hname, ?_⟩
  split at hfound
  · obtain ⟨content, hread, htext⟩ := Option.bind_eq_some_iff.mp hfound
    split at htext
    · simp at htext
    · exact ⟨content, hread, by rw [← Option.some.inj htext]⟩
  · simp at hfound

theorem nodeAt_of_rest {entries rest : Fs.Dir} {dir : OsPath} {first : OsName}
    (h : ∀ name node, entries.entry name = some node → fs.nodeAt (dir ++ [name]) = some node)
    (hrest : ∀ name, first ≠ name → entries.entry name = rest.entry name)
    (hfirst : rest.names.contains first = false) (name : OsName) (node : Fs.Node)
    (hnode : rest.entry name = some node) : fs.nodeAt (dir ++ [name]) = some node := by
  apply h
  rw [hrest, hnode]
  intro hsame
  have hmem := Fs.Dir.mem_names_of_entry hnode
  rw [← hsame, ← List.contains_iff_mem, hfirst] at hmem
  exact Bool.false_ne_true hmem

/-- The entries given are found in the directory at the path `dir`, which is plain. -/
structure Found (fs : Fs) (dir : OsPath) (entries : Fs.Dir) : Prop where
  plain : Fs.Plain fs dir
  distinct : entries.isDistinct = true
  nodeAt : ∀ name node, entries.entry name = some node → fs.nodeAt (dir ++ [name]) = some node

/-- What is in a directory at a plain path is found there. -/
theorem found_of_nodeAt {dir : OsPath} {mtime : ℕ} {listable : Bool} {entries : Fs.Dir}
    (hplain : Fs.Plain fs dir) (hnode : fs.nodeAt dir = some (.dir mtime listable entries)) :
    Found fs dir entries where
  plain := hplain
  distinct := Fs.isDistinct_of_nodeAt hnode
  nodeAt name node hentry := by rw [Fs.nodeAt_snoc hnode, hentry]

theorem Found.rest {dir : OsPath} {first : OsName} {entries rest : Fs.Dir}
    (h : Found fs dir entries)
    (hrest : ∀ name, first ≠ name → entries.entry name = rest.entry name)
    (hdistinct : (!rest.names.contains first && rest.isDistinct) = true) : Found fs dir rest := by
  rw [Bool.and_eq_true, Bool.not_eq_true'] at hdistinct
  exact ⟨h.plain, hdistinct.2, nodeAt_of_rest h.nodeAt hrest hdistinct.1⟩

theorem Found.file {dir : OsPath} {name : OsName} {content : Fs.File} {rest : Fs.Dir}
    (h : Found fs dir (.file name content rest)) :
    Found fs dir rest ∧ Fs.Plain fs (dir ++ [name]) ∧
      fs.nodeAt (dir ++ [name]) = some (.file content) := by
  have hnode := h.nodeAt name (.file content) (by rw [Fs.Dir.entry, if_pos rfl])
  exact ⟨h.rest (fun other hne ↦ by rw [Fs.Dir.entry, if_neg hne]) h.distinct,
    h.plain.snoc hnode (by simp), hnode⟩

theorem Found.symlink {dir : OsPath} {name : OsName} {target : Fs.Target} {rest : Fs.Dir}
    (h : Found fs dir (.symlink name target rest)) : Found fs dir rest :=
  h.rest (fun other hne ↦ by rw [Fs.Dir.entry, if_neg hne]) h.distinct

theorem Found.special {dir : OsPath} {name : OsName} {mtime : ℕ} {rest : Fs.Dir}
    (h : Found fs dir (.special name mtime rest)) : Found fs dir rest :=
  h.rest (fun other hne ↦ by rw [Fs.Dir.entry, if_neg hne]) h.distinct

theorem Found.dir {dir : OsPath} {name : OsName} {mtime : ℕ} {listable : Bool}
    {children rest : Fs.Dir} (h : Found fs dir (.dir name mtime listable children rest)) :
    Found fs dir rest ∧ Found fs (dir ++ [name]) children := by
  have hnode := h.nodeAt name (.dir mtime listable children) (by rw [Fs.Dir.entry, if_pos rfl])
  have hdistinct := h.distinct
  rw [Fs.Dir.isDistinct, Bool.and_eq_true, Bool.and_eq_true] at hdistinct
  refine ⟨h.rest (fun other hne ↦ by rw [Fs.Dir.entry, if_neg hne])
    (Bool.and_eq_true_iff.mpr ⟨hdistinct.1.1, hdistinct.2⟩), h.plain.snoc hnode (by simp),
    hdistinct.1.2, fun other node hother ↦ ?_⟩
  rw [Fs.nodeAt_snoc hnode, hother]

theorem of_mem_files_listingOf {passes : OsName → FolderInfo → Bool} {dir : OsPath}
    {entries : Fs.Dir} (hfound : Found fs dir entries) {entry : OsPath × FileInfo}
    (h : entry ∈ (listingOf tools faults fs dir entries).files passes dir) :
    dir <+: entry.1 ∧ Fs.Plain fs entry.1 ∧
      (∃ content, fs.nodeAt entry.1 = some (.file content)) ∧
      entry.2 = fileInfo tools faults fs entry.1 := by
  induction entries generalizing dir with
  | nil => simp [listingOf, Listing.files] at h
  | file name content rest ih =>
    obtain ⟨hrest, hplain, hnode⟩ := hfound.file
    rw [listingOf, Listing.files, List.mem_append] at h
    rcases h with h | h
    · split at h
      · rw [List.mem_singleton.mp h]
        exact ⟨List.prefix_append _ _, hplain, ⟨content, hnode⟩, rfl⟩
      · simp at h
    · exact ih hrest h
  | symlink name target rest ih => exact ih hfound.symlink h
  | special name mtime rest ih => exact ih hfound.special h
  | dir name mtime listable children rest ihChildren ihRest =>
    obtain ⟨hrest, hchildren⟩ := hfound.dir
    rw [listingOf, Listing.files, List.mem_append] at h
    rcases h with h | h
    · have hlisted : entry ∈
          (listingOf tools faults fs (dir ++ [name]) children).files passes (dir ++ [name]) := by
        split at h
        · split at h
          · exact h
          · simp [Listing.files] at h
        · simp at h
      have hbelow := ihChildren hchildren hlisted
      exact ⟨(List.prefix_append _ _).trans hbelow.1, hbelow.2⟩
    · exact ihRest hrest h

/-- A file that a scan meets is at the end of a plain path below the root. -/
theorem of_mem_files {root : OsPath} {name : Option (List Char)} {started : ℕ}
    (hroot : fs.canonicalize root = some root) {entry : OsPath × FileInfo}
    (h : entry ∈ (Scan.ofFs tools faults fs root name started).entries.files) :
    root <+: entry.1 ∧ Fs.Plain fs entry.1 ∧
      (∃ content, fs.nodeAt entry.1 = some (.file content)) ∧
      entry.2 = fileInfo tools faults fs entry.1 := by
  change entry ∈ (listing tools faults fs root).files isVisible root at h
  unfold listing at h
  split at h
  · next mtime entries hstat =>
    rw [Fs.stat, hroot, Option.bind_some] at hstat
    exact of_mem_files_listingOf (found_of_nodeAt (Fs.plain_of_canonicalize hroot) hstat) h
  · simp [Listing.files] at h

end ComicStream.Catalog
