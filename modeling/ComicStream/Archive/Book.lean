import ComicStream.Archive.Format
import ComicStream.Foundation.Lru
import ComicStream.Fs.Resolve

/-!
# Opened archives and their cache

An opened archive keeps the path it was opened at and reads its pages from there.
The cache finds it under the content hash of a book, whatever path it is asked
to open.
-/

namespace ComicStream.Archive

open Rust

variable (reader : Reader) (fs : Fs)

/-- A `Cbz` or a `Cbr`. -/
structure Book where
  kind : Kind
  path : OsPath
  pages : List PageEntry
  deriving DecidableEq, Repr

/-- `detect`. -/
def detect (path : OsPath) : Option Kind :=
  (fs.read path).bind fun content ↦ Kind.ofMagic content.value

/-- `open`: by the kind of the archive, and with its pages listed. -/
def openBook (path : OsPath) : Option Book :=
  (detect fs path).bind fun kind ↦
    (fs.read path).bind fun content ↦
      (reader.pages content.value kind).map fun pages ↦ ⟨kind, path, pages⟩

/-- `read_page`: the data of a page, read anew from the archive's path, and its media type. -/
def Book.readPage (book : Book) (index : ℕ) : Option (Sourced (List UInt8) × List Char) :=
  book.pages[index]?.bind fun entry ↦
    (fs.read book.path).bind fun content ↦
      (reader.extract content.value entry.name book.kind).map fun data ↦
        (⟨data, content.source⟩, entry.mime)

abbrev Cache := Lru (List Char) Book

/-- `Cache::new`. -/
def Cache.new (capacity : ℕ) : Cache := Lru.empty (max capacity 1)

/-- `Cache::get_or_open`. -/
def Cache.getOrOpen (cache : Cache) (hash : List Char) (path : OsPath) : Option Book × Cache :=
  match cache.get hash with
  | (some book, next) => (some book, next)
  | (none, next) =>
    match openBook reader fs path with
    | some book => (some book, next.put hash book)
    | none => (none, next)

variable {reader fs} {cache : Cache} {hash : List Char} {path : OsPath} {book : Book}

/-- The archive returned is the cached one, or has just been opened when there was none. -/
theorem Cache.getOrOpen_eq_some (h : (cache.getOrOpen reader fs hash path).1 = some book) :
    (hash, book) ∈ cache.entries ∨
      cache.peek hash = none ∧ openBook reader fs path = some book := by
  have hpeek : (cache.get hash).1 = cache.peek hash := Lru.get_fst
  unfold getOrOpen at h
  split at h
  · next found next hget =>
    rw [hget] at hpeek
    left
    rw [← Option.some.inj h]
    exact Lru.peek_eq_some.mp hpeek.symm
  · next next hget =>
    rw [hget] at hpeek
    right
    refine ⟨hpeek.symm, ?_⟩
    split at h
    · next opened hopen => rw [hopen, ← Option.some.inj h]
    · simp at h

theorem Cache.getOrOpen_of_mem (h : (hash, book) ∈ cache.entries) :
    (cache.getOrOpen reader fs hash path).1 = some book := by
  have hget : (cache.get hash).1 = some book := by rw [Lru.get_fst, Lru.peek_eq_some.mpr h]
  unfold getOrOpen
  split
  · next found next hfound =>
    rw [hfound] at hget
    exact hget
  · next next hnone =>
    rw [hnone] at hget
    simp at hget

theorem Cache.getOrOpen_of_peek (h : cache.peek hash = none) :
    (cache.getOrOpen reader fs hash path).1 = openBook reader fs path := by
  have hget : (cache.get hash).1 = none := by rw [Lru.get_fst, h]
  unfold getOrOpen
  split
  · next found next hfound =>
    rw [hfound] at hget
    simp at hget
  · split
    · next hopen => rw [hopen]
    · next hopen => rw [hopen]

/-- Every archive in the cache was there before, or has just been opened. -/
theorem Cache.mem_getOrOpen {entry : List Char × Book}
    (h : entry ∈ (cache.getOrOpen reader fs hash path).2.entries) :
    entry ∈ cache.entries ∨
      cache.peek hash = none ∧ entry.1 = hash ∧ openBook reader fs path = some entry.2 := by
  have hpeek : (cache.get hash).1 = cache.peek hash := Lru.get_fst
  have hkeep (entry : List Char × Book) (hentry : entry ∈ (cache.get hash).2.entries) :
      entry ∈ cache.entries := Lru.mem_get hentry
  unfold getOrOpen at h
  split at h
  · next found next hget =>
    rw [hget] at hkeep
    exact .inl (hkeep entry h)
  · next next hget =>
    rw [hget] at hkeep hpeek
    split at h
    · next opened hopen =>
      rcases Lru.mem_put h with rfl | hold
      · exact .inr ⟨hpeek.symm, rfl, hopen⟩
      · exact .inl (hkeep entry hold.1)
    · exact .inl (hkeep entry h)

theorem openBook_eq_some : openBook reader fs path = some book ↔
    book.path = path ∧ ∃ content, fs.read path = some content ∧
      Kind.ofMagic content.value = some book.kind ∧
      reader.pages content.value book.kind = some book.pages := by
  unfold openBook detect
  cases fs.read path with
  | none => simp
  | some content =>
    simp only [Option.bind_some, Option.bind_eq_some_iff, Option.map_eq_some_iff]
    constructor
    · rintro ⟨kind, hkind, pages, hpages, rfl⟩
      exact ⟨rfl, content, rfl, hkind, hpages⟩
    · rintro ⟨rfl, other, hother, hkind, hpages⟩
      obtain rfl := Option.some.inj hother
      exact ⟨book.kind, hkind, book.pages, hpages, rfl⟩

theorem path_of_openBook (h : openBook reader fs path = some book) : book.path = path :=
  (openBook_eq_some.mp h).1

theorem exists_read_of_readPage {index : ℕ} {page : Sourced (List UInt8) × List Char}
    (h : book.readPage reader fs index = some page) :
    ∃ content, fs.read book.path = some content ∧ page.1.source = content.source := by
  obtain ⟨entry, -, hentry⟩ := Option.bind_eq_some_iff.mp h
  obtain ⟨content, hread, hcontent⟩ := Option.bind_eq_some_iff.mp hentry
  obtain ⟨data, -, rfl⟩ := Option.map_eq_some_iff.mp hcontent
  exact ⟨content, hread, rfl⟩

end ComicStream.Archive
