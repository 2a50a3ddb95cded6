import ComicStream.Archive.Book
import ComicStream.Catalog.NaturalOrder

/-!
# Pages and the entries they are made from

Opening an archive lists its entries, reading a page looks for the entry again: in a
ZIP archive under its name, in a RAR archive as the first one with the page's path.
Names of a ZIP archive are unique. Those of a RAR archive need not be, so that a page
can turn out to be another entry than it was made from.
-/

namespace ComicStream.Archive

open Rust

/-- An entry of an archive: the bytes of its name, whether it is a directory, the size it declares,
and its data unless they cannot be unpacked. -/
structure Member where
  filename : List UInt8
  isDir : Bool
  size : ℕ
  data : Option (List UInt8)
  deriving DecidableEq, Repr

namespace Member

/-- The name as text. -/
def name (member : Member) : List Char := fromUtf8Lossy member.filename

def isImage (member : Member) : Bool := !member.isDir && (imageMime member.name).isSome

/-- The page that an image becomes. -/
def page (member : Member) : PageEntry := ⟨member.name, (imageMime member.name).getD []⟩

/-- The data, within the bounds of a page. -/
def readable (member : Member) : Option (List UInt8) :=
  if maxPageBytes < member.size then none
  else member.data.filter (·.length ≤ maxPageBytes)

end Member

/-- The image entries of an archive. -/
def images (members : List Member) : List Member := members.filter Member.isImage

/-- The crates list and read an archive as the sequence of its entries. The names in a ZIP archive
are unique, and its entries are found by them. -/
def Lists (reader : Reader) (bytes : List UInt8) (members : List Member) : Kind → Prop
  | .zip => reader.zipEntries bytes =
        some (members.map fun member ↦ ⟨member.name, member.isDir, member.size⟩) ∧
      (members.map Member.name).Nodup ∧
      ∀ member ∈ members, reader.zipByName bytes member.name = member.data
  | .rar => reader.rarEntries bytes =
        some (members.map fun member ↦ (member.filename, member.isDir, member.size)) ∧
      reader.rarMembers bytes =
        some (members.map fun member ↦ some ⟨member.filename, member.size, member.data⟩)

/-- Names in natural order. -/
def NaturalLe (first second : Member) : Prop := Natsort.cmp first.name second.name ≠ .gt

instance : DecidableRel NaturalLe := fun first second ↦
  inferInstanceAs (Decidable (Natsort.cmp first.name second.name ≠ .gt))

/-- The images in natural order, in the order of the archive where their names compare equal. -/
structure IsReadingOrder (members order : List Member) : Prop where
  perm : order.Perm (images members)
  sorted : order.Pairwise NaturalLe
  stable : ∀ name, order.filter (fun member ↦ Natsort.cmp member.name name = .eq) =
    (images members).filter fun member ↦ Natsort.cmp member.name name = .eq

/-- The pages are the images in reading order, and each is read as the entry it was made from: with
its content and media type if that can be unpacked within the bounds, and not at all otherwise. -/
def Faithful (reader : Reader) (fs : Fs) (book : Book) (members : List Member) : Prop :=
  ∃ order, IsReadingOrder members order ∧ book.pages = order.map Member.page ∧
    ∀ index member, order[index]? = some member →
      ∃ mime, imageMime member.name = some mime ∧
        (book.readPage reader fs index).map (fun page ↦ (page.1.value, page.2)) =
          member.readable.map fun data ↦ (data, mime)

/-- The first entry with the path of an image's name reads as the image does. -/
def Unambiguous (members : List Member) : Kind → Prop
  | .zip => True
  | .rar => ∀ image ∈ images members,
      (members.find? fun member ↦ components member.filename = components (utf8 image.name)).bind
        Member.readable = image.readable

instance (members : List Member) (kind : Kind) : Decidable (Unambiguous members kind) := by
  cases kind <;> unfold Unambiguous <;> infer_instance

instance : Std.Total NaturalLe where
  total first second := by
    have hswap : Natsort.cmp second.name first.name =
        (Natsort.cmp first.name second.name).swap := Std.OrientedCmp.eq_swap
    unfold NaturalLe
    rw [hswap]
    cases Natsort.cmp first.name second.name <;> decide

instance : IsTrans Member NaturalLe where
  trans first second third h h' := by
    unfold NaturalLe at *
    rw [ne_eq, ← Ordering.isLE_iff_ne_gt] at *
    exact Std.TransCmp.isLE_trans h h'

variable {members : List Member}

/-- The images in reading order. -/
def readingOrder (members : List Member) : List Member := (images members).insertionSort NaturalLe

theorem filter_insertionSort (name : List Char) (list : List Member) :
    (list.insertionSort NaturalLe).filter (fun member ↦ Natsort.cmp member.name name = .eq) =
      list.filter fun member ↦ Natsort.cmp member.name name = .eq := by
  set equal : Member → Bool := fun member ↦ Natsort.cmp member.name name = .eq with hequal
  have hpairwise : (list.filter equal).Pairwise NaturalLe := by
    refine List.pairwise_of_forall_mem_list fun first hfirst second hsecond ↦ ?_
    have hfirst := decide_eq_true_eq.mp (List.mem_filter.mp hfirst).2
    have hsecond := decide_eq_true_eq.mp (List.mem_filter.mp hsecond).2
    have heq := Std.TransCmp.eq_trans hfirst (Std.OrientedCmp.eq_symm hsecond)
    rw [NaturalLe, heq]
    decide
  have hsublist : (list.filter equal).Sublist ((list.insertionSort NaturalLe).filter equal) := by
    have hsorted := (List.sublist_insertionSort hpairwise List.filter_sublist).filter equal
    simpa only [List.filter_filter, Bool.and_self] using hsorted
  exact (hsublist.eq_of_length ((List.perm_insertionSort _ _).filter _).length_eq.symm).symm

theorem isReadingOrder_readingOrder (members : List Member) :
    IsReadingOrder members (readingOrder members) where
  perm := List.perm_insertionSort _ _
  sorted := List.pairwise_insertionSort _ _
  stable name := filter_insertionSort name _

variable {reader : Reader} {bytes : List UInt8} {kind : Kind} {listed : List PageEntry}

/-- What listing tells of an entry. -/
def Member.entry (member : Member) : Entry := ⟨member.name, member.isDir, member.size⟩

theorem Lists.entries (h : Lists reader bytes members kind) :
    reader.entries bytes kind = some (members.map Member.entry) := by
  cases kind with
  | zip => exact h.1
  | rar =>
    rw [Reader.entries, h.1, Option.map_some, List.map_map]
    rfl

theorem filterMap_entry (members : List Member) :
    ((members.map Member.entry).filterMap fun entry ↦
      if entry.isDir then none
      else (imageMime entry.name).map fun mime ↦ (PageEntry.mk entry.name mime, entry.size)) =
        (images members).map fun image ↦ (image.page, image.size) := by
  induction members with
  | nil => rfl
  | cons member members ih =>
    have hentry : (if member.entry.isDir then none
        else (imageMime member.entry.name).map fun mime ↦
          (PageEntry.mk member.entry.name mime, member.entry.size)) =
        if member.isImage then some (member.page, member.size) else none := by
      cases hdir : member.isDir <;> cases hmime : imageMime member.name <;>
        simp [Member.entry, Member.isImage, Member.page, hdir, hmime]
    rw [List.map_cons, List.filterMap_cons, hentry, images, List.filter_cons]
    cases member.isImage with
    | true => exact congrArg ((member.page, member.size) :: ·) ih
    | false => exact ih

/-- The pages collected are those of the images, none of which declares too many bytes. -/
theorem collectPages_eq_some (h : collectPages (members.map Member.entry) = some listed) :
    listed = sortPages ((images members).map Member.page) ∧
      ∀ image ∈ images members, image.size ≤ maxPageBytes := by
  unfold collectPages at h
  dsimp only at h
  rw [filterMap_entry] at h
  split at h
  · simp at h
  · next hsizes =>
    rw [← Option.some.inj h, List.map_map]
    refine ⟨rfl, fun image himage ↦ not_lt.mp fun hlarge ↦ hsizes ?_⟩
    rw [List.any_map, List.any_eq_true]
    exact ⟨image, himage, decide_eq_true hlarge⟩

theorem sortPages_map (list : List Member) :
    sortPages (list.map Member.page) = (list.insertionSort NaturalLe).map Member.page :=
  (List.map_insertionSort NaturalLe _ Member.page list fun _ _ _ _ ↦ Iff.rfl).symm

/-- The pages of an archive are its images in reading order. -/
theorem Lists.pages_eq (h : Lists reader bytes members kind)
    (hpages : reader.pages bytes kind = some listed) :
    listed = (readingOrder members).map Member.page ∧
      ∀ image ∈ images members, image.size ≤ maxPageBytes := by
  rw [Reader.pages, h.entries, Option.bind_some] at hpages
  obtain ⟨hlisted, hsizes⟩ := collectPages_eq_some hpages
  exact ⟨by rw [hlisted, sortPages_map, readingOrder], hsizes⟩

/-! ## Reading -/

theorem findMember_map (target : List UInt8) (members : List Member) :
    findMember target (members.map fun member ↦
        some ⟨member.filename, member.size, member.data⟩) =
      (members.find? fun member ↦ components member.filename = components target).bind
        Member.readable := by
  induction members with
  | nil => rfl
  | cons member members ih =>
    rw [List.map_cons, findMember, List.find?_cons]
    split
    · next hpath =>
      rw [decide_eq_true hpath]
      rfl
    · next hpath =>
      rw [decide_eq_false hpath]
      exact ih

/-- What is found under the name of a page: in a ZIP archive the entry itself, in a RAR archive the
first entry with its path. -/
def foundFor (members : List Member) (image : Member) : Kind → Option (List UInt8)
  | .zip => image.data.filter (·.length ≤ maxPageBytes)
  | .rar => (members.find? fun member ↦
      components member.filename = components (utf8 image.name)).bind Member.readable

theorem Lists.extract (h : Lists reader bytes members kind) {image : Member}
    (himage : image ∈ images members) :
    reader.extract bytes image.name kind = foundFor members image kind := by
  cases kind with
  | zip => rw [Reader.extract, h.2.2 image (List.mem_filter.mp himage).1, foundFor]
  | rar =>
    rw [Reader.extract, h.2, Option.bind_some, findMember_map]
    rfl

/-- Reading finds what the image can be read as. -/
theorem unambiguous_iff (hsizes : ∀ image ∈ images members, image.size ≤ maxPageBytes) :
    Unambiguous members kind ↔
      ∀ image ∈ images members, foundFor members image kind = image.readable := by
  cases kind with
  | zip =>
    refine iff_of_true trivial fun image himage ↦ ?_
    rw [foundFor, Member.readable, if_neg (not_lt.mpr (hsizes image himage))]
  | rar => exact Iff.rfl

variable {fs : Fs} {path : OsPath} {book : Book} {content : Sourced (List UInt8)}

theorem pages_of_openBook (hopen : openBook reader fs path = some book)
    (hcontent : fs.read path = some content)
    (hlists : Lists reader content.value members book.kind) :
    book.pages = (readingOrder members).map Member.page ∧
      ∀ image ∈ images members, image.size ≤ maxPageBytes := by
  obtain ⟨-, other, hother, -, hpages⟩ := openBook_eq_some.mp hopen
  obtain rfl := Option.some.inj (hcontent.symm.trans hother)
  exact hlists.pages_eq hpages

theorem mem_readingOrder {image : Member} : image ∈ readingOrder members ↔ image ∈ images members :=
  List.mem_insertionSort _

/-- A page is read as what is found for the image it was made from. -/
theorem readPage_eq (hopen : openBook reader fs path = some book)
    (hcontent : fs.read path = some content) (hlists : Lists reader content.value members book.kind)
    {image : Member} (himage : image ∈ images members) {index : ℕ}
    (hpage : book.pages[index]? = some image.page) :
    book.readPage reader fs index =
      (foundFor members image book.kind).map fun data ↦ (⟨data, content.source⟩, image.page.mime) := by
  have hpath := path_of_openBook hopen
  have hextract : reader.extract content.value image.page.name book.kind =
      foundFor members image book.kind := hlists.extract himage
  rw [Book.readPage, hpage, hpath, hcontent]
  simp only [Option.bind_some, hextract]

theorem imageMime_of_mem {image : Member} (himage : image ∈ images members) :
    imageMime image.name = some image.page.mime := by
  have hsome := (Bool.and_eq_true_iff.mp (List.mem_filter.mp himage).2).2
  obtain ⟨mime, hmime⟩ := Option.isSome_iff_exists.mp hsome
  rw [Member.page, hmime]
  rfl

section Opened

variable (hopen : openBook reader fs path = some book) (hcontent : fs.read path = some content)
  (hlists : Lists reader content.value members book.kind)
include hopen hcontent hlists

theorem readPage_of_getElem? {order : List Member} (hpages : book.pages = order.map Member.page)
    {index : ℕ} {image : Member} (himage : image ∈ images members)
    (hindex : order[index]? = some image) :
    (book.readPage reader fs index).map (fun page ↦ (page.1.value, page.2)) =
      (foundFor members image book.kind).map fun data ↦ (data, image.page.mime) := by
  have hpage : book.pages[index]? = some image.page := by
    rw [hpages, List.getElem?_map, hindex]
    rfl
  rw [readPage_eq hopen hcontent hlists himage hpage, Option.map_map]
  rfl

theorem Faithful.unambiguous (h : Faithful reader fs book members) :
    Unambiguous members book.kind := by
  obtain ⟨order, horder, hpages, hread⟩ := h
  refine (unambiguous_iff (pages_of_openBook hopen hcontent hlists).2).mpr fun image himage ↦ ?_
  obtain ⟨index, hindex⟩ := List.mem_iff_getElem?.mp (horder.perm.mem_iff.mpr himage)
  obtain ⟨mime, hmime, hown⟩ := hread index image hindex
  rw [readPage_of_getElem? hopen hcontent hlists hpages himage hindex] at hown
  obtain rfl := Option.some.inj ((imageMime_of_mem himage).symm.trans hmime)
  exact Option.map_injective (fun _ _ heq ↦ (Prod.mk.inj heq).1) hown

theorem Unambiguous.faithful (h : Unambiguous members book.kind) :
    Faithful reader fs book members := by
  obtain ⟨hpages, hsizes⟩ := pages_of_openBook hopen hcontent hlists
  refine ⟨readingOrder members, isReadingOrder_readingOrder members, hpages, ?_⟩
  intro index image hindex
  have himage := mem_readingOrder.mp (List.mem_of_getElem? hindex)
  refine ⟨image.page.mime, imageMime_of_mem himage, ?_⟩
  rw [readPage_of_getElem? hopen hcontent hlists hpages himage hindex,
    (unambiguous_iff hsizes).mp h image himage]

end Opened

/-- **Pages of an archive.** For every archive that opens, the pages are its images in reading order
and each is read as the entry it was made from, if and only if the archive is unambiguous. A ZIP
archive always is. -/
theorem faithful_iff (reader : Reader) (fs : Fs) (path : OsPath) (book : Book)
    (content : Sourced (List UInt8)) (members : List Member)
    (hopen : openBook reader fs path = some book) (hcontent : fs.read path = some content)
    (hlists : Lists reader content.value members book.kind) :
    Faithful reader fs book members ↔ Unambiguous members book.kind :=
  ⟨Faithful.unambiguous hopen hcontent hlists, Unambiguous.faithful hopen hcontent hlists⟩

/-- A reader of the RAR archive with the entries given. -/
def rarReader (members : List Member) : Reader where
  zipEntries _ := none
  zipByName _ _ := none
  rarEntries _ := some (members.map fun member ↦ (member.filename, member.isDir, member.size))
  rarMembers _ := some (members.map fun member ↦ some ⟨member.filename, member.size, member.data⟩)

/-- A file system with one RAR archive. -/
def rarFs : Fs where
  mtime := 0
  entries := .file (ascii "a.cbr") ⟨ascii "Rar!" ++ [0x1A, 7, 0], 0, true⟩ .nil
  distinct := by decide

/-- Two pages of one name. -/
def twins : List Member :=
  [⟨ascii "p.jpg", false, 1, some [1]⟩, ⟨ascii "p.jpg", false, 1, some [2]⟩]

def twinsBook : Book :=
  ⟨.rar, [ascii "a.cbr"],
    [⟨"p.jpg".toList, "image/jpeg".toList⟩, ⟨"p.jpg".toList, "image/jpeg".toList⟩]⟩

/-- The first of two pages of one name is served as both of them. -/
theorem second_page_unreachable :
    openBook (rarReader twins) rarFs [ascii "a.cbr"] = some twinsBook ∧
      Lists (rarReader twins) (ascii "Rar!" ++ [0x1A, 7, 0]) twins .rar ∧
      ¬Faithful (rarReader twins) rarFs twinsBook twins ∧
      (twinsBook.readPage (rarReader twins) rarFs 0).map (·.1.value) = some [1] ∧
      (twinsBook.readPage (rarReader twins) rarFs 1).map (·.1.value) = some [1] := by
  have hopen : openBook (rarReader twins) rarFs [ascii "a.cbr"] = some twinsBook := by decide
  have hlists : Lists (rarReader twins) (ascii "Rar!" ++ [0x1A, 7, 0]) twins .rar := ⟨rfl, rfl⟩
  refine ⟨hopen, hlists, fun h ↦ ?_, by decide, by decide⟩
  have hcontent : rarFs.read [ascii "a.cbr"] =
      some ⟨ascii "Rar!" ++ [0x1A, 7, 0], [ascii "a.cbr"]⟩ := by decide
  exact absurd (h.unambiguous hopen hcontent hlists) (by decide)

/-- A page after a page of a lower number. -/
def numbered : List Member :=
  [⟨ascii "p10.jpg", false, 1, some [1]⟩, ⟨ascii "P9.png", false, 1, some [2]⟩]

def numberedBook : Book :=
  ⟨.rar, [ascii "a.cbr"],
    [⟨"P9.png".toList, "image/png".toList⟩, ⟨"p10.jpg".toList, "image/jpeg".toList⟩]⟩

theorem faithful_numbered : Faithful (rarReader numbered) rarFs numberedBook numbered :=
  (faithful_iff (rarReader numbered) rarFs [ascii "a.cbr"] numberedBook
    ⟨ascii "Rar!" ++ [0x1A, 7, 0], [ascii "a.cbr"]⟩ numbered (by decide) (by decide)
    ⟨rfl, rfl⟩).mpr (by decide)

end ComicStream.Archive
