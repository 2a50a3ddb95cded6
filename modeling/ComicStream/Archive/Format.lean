import ComicStream.Catalog.Natsort
import ComicStream.Rust.Path
import Mathlib.Data.List.Sort

/-!
# Comic archives

What an archive's bytes say about its kind, and which of its entries are pages.
The crates that read ZIP and RAR archives are a parameter: what each of their
calls makes of the bytes of an archive.
-/

namespace ComicStream.Archive

open Rust

/-- `MAX_PAGE_BYTES`. -/
def maxPageBytes : ℕ := 64 * 1024 * 1024

inductive Kind where
  | zip
  | rar
  deriving DecidableEq, Repr

/-- The `format` column. -/
def Kind.format : Kind → List Char
  | .zip => "cbz".toList
  | .rar => "cbr".toList

/-- `detect`, of the first eight bytes. -/
def Kind.ofMagic (bytes : List UInt8) : Option Kind :=
  let head := bytes.take 8
  if [[0x50, 0x4B, 3, 4], [0x50, 0x4B, 5, 6], [0x50, 0x4B, 7, 8]].any (·.isPrefixOf head) then
    some .zip
  else if [ascii "Rar!" ++ [0x1A, 7, 0], ascii "Rar!" ++ [0x1A, 7, 1]].any (·.isPrefixOf head) then
    some .rar
  else none

/-- `is_supported`. -/
def isSupported (name : OsName) : Bool :=
  (splitExtension name).2.any fun extension ↦
    [ascii "cbz", ascii "zip", ascii "cbr", ascii "rar"].contains
      (extension.map toAsciiLowercaseByte)

structure PageEntry where
  name : List Char
  mime : List Char
  deriving DecidableEq, Repr

/-- `image_mime`. -/
def imageMime (name : List Char) : Option (List Char) :=
  match (fileName (utf8 (name.map toAsciiLowercase))).bind fun file ↦ (splitExtension file).2 with
  | none => none
  | some extension =>
    if [ascii "jpg", ascii "jpeg", ascii "jpe", ascii "jfif"].contains extension then
      some "image/jpeg".toList
    else if extension = ascii "png" then some "image/png".toList
    else if extension = ascii "webp" then some "image/webp".toList
    else if extension = ascii "gif" then some "image/gif".toList
    else none

/-- What listing an archive tells about one of its entries. -/
structure Entry where
  name : List Char
  isDir : Bool
  size : ℕ
  deriving DecidableEq, Repr

/-- The pages in reading order; entries that compare equal stay in the order of the archive. -/
def sortPages (pages : List PageEntry) : List PageEntry :=
  pages.insertionSort fun a b ↦ Natsort.cmp a.name b.name ≠ .gt

/-- The pages among the entries of an archive, unless one of them declares too many bytes. -/
def collectPages (entries : List Entry) : Option (List PageEntry) :=
  let images := entries.filterMap fun entry ↦
    if entry.isDir then none
    else (imageMime entry.name).map fun mime ↦ (PageEntry.mk entry.name mime, entry.size)
  if images.any fun image ↦ maxPageBytes < image.2 then none
  else some (sortPages (images.map Prod.fst))

/-- An entry of a RAR archive as its headers are read one by one: the path in it, the size it
declares, and its data unless they cannot be unpacked. -/
structure RarMember where
  filename : List UInt8
  unpackedSize : ℕ
  data : Option (List UInt8)
  deriving DecidableEq, Repr

/-- What the calls of the two crates return for an archive of the bytes given. Listing either kind
fails as a whole. Going through the headers of a RAR archive ends at the first one that cannot be
read. -/
structure Reader where
  zipEntries : List UInt8 → Option (List Entry)
  zipByName : List UInt8 → List Char → Option (List UInt8)
  rarEntries : List UInt8 → Option (List (List UInt8 × Bool × ℕ))
  rarMembers : List UInt8 → Option (List (Option RarMember))

variable (reader : Reader)

/-- The listing that `Cbz::open` and `Cbr::open` go through. -/
def Reader.entries (bytes : List UInt8) : Kind → Option (List Entry)
  | .zip => reader.zipEntries bytes
  | .rar => (reader.rarEntries bytes).map fun headers ↦
    headers.map fun (filename, isDir, size) ↦ ⟨fromUtf8Lossy filename, isDir, size⟩

/-- `Cbz::open` and `Cbr::open`, of the bytes of the archive: its pages. -/
def Reader.pages (bytes : List UInt8) (kind : Kind) : Option (List PageEntry) :=
  (reader.entries bytes kind).bind collectPages

/-- The loop of `Cbr::read_page`: the first header whose path is the page's name. -/
def findMember (target : List UInt8) : List (Option RarMember) → Option (List UInt8)
  | [] => none
  | none :: _ => none
  | some member :: rest =>
    if components member.filename = components target then
      if maxPageBytes < member.unpackedSize then none
      else member.data.filter (·.length ≤ maxPageBytes)
    else findMember target rest

/-- The data of the page with the name given, in an archive of these bytes. -/
def Reader.extract (bytes : List UInt8) (name : List Char) : Kind → Option (List UInt8)
  | .zip => (reader.zipByName bytes name).filter (·.length ≤ maxPageBytes)
  | .rar => (reader.rarMembers bytes).bind (findMember (utf8 name))

end ComicStream.Archive
