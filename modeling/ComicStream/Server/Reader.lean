import ComicStream.Server.Opds

/-!
# What a client reads in a feed

A client reads the document, and in it the feed with its entries and links. It
finds what the feed was built from, in the same order, and nothing else: neither
a name nor a description can add an element, an attribute or an entry.
-/

namespace ComicStream.Server.Opds

open Rust Xml Catalog

structure Entry where
  id : List Char
  title : List Char
  updated : List Char
  summary : Option (List Char)
  links : List Attributes

structure Feed where
  id : List Char
  title : List Char
  updated : List Char
  links : List Attributes
  entries : List Entry

/-- The one item of a list. -/
def only {α : Type} : List α → Option α
  | [item] => some item
  | _ => none

@[simp]
theorem only_singleton {α : Type} (item : α) : only [item] = some item := rfl

/-- The text of the one element of a name. -/
def textOf (name : Name) (elements : List Element) : Option (List Char) :=
  (only (named name elements)).map Element.text

/-- The attributes of the links. -/
def linksOf (elements : List Element) : List Attributes :=
  (named Tag.link elements).map Element.attributes

/-- An entry has an id, a title, a time, and at most one summary. -/
def readEntry (element : Element) : Option Entry := do
  let id ← textOf Tag.id element.children
  let title ← textOf Tag.title element.children
  let updated ← textOf Tag.updated element.children
  let summary ← match named Tag.summary element.children with
    | [] => some none
    | [summary] => some (some summary.text)
    | _ => none
  some ⟨id, title, updated, summary, linksOf element.children⟩

/-- A document is one feed with an id, a title and a time. -/
def readFeed (document : List Char) : Option Feed := do
  let content ← read document
  let feed ← only content.elements
  if feed.name ≠ Tag.feed then none
  let id ← textOf Tag.id feed.children
  let title ← textOf Tag.title feed.children
  let updated ← textOf Tag.updated feed.children
  let entries ← (named Tag.entry feed.children).mapM readEntry
  some ⟨id, title, updated, linksOf feed.children, entries⟩

section Build

variable {chrono : Chrono} (now : ℕ → chrono.DateTime)

def entryOfFolder (now : chrono.DateTime) (f : Folder) : Entry where
  id := str "urn:comicstream:folder:" ++ f.slug
  title := f.name
  updated := tsToRfc3339 chrono now f.mtime
  summary := f.description
  links := folderLinks f

def entryOfBook (now : chrono.DateTime) (b : Book) : Entry where
  id := str "urn:comicstream:book:" ++ b.hash
  title := b.name
  updated := tsToRfc3339 chrono now (max b.addedAt b.mtime)
  summary := none
  links := bookLinks b

/-- An entry for every folder, and then one for every book. -/
def feedOf (ctx : FeedCtx chrono) (subfolders : List Folder) (books : List Book) : Feed where
  id := ctx.feedId
  title := ctx.title
  updated := chrono.toRfc3339 ctx.updated
  links := feedLinks ctx
  entries := (subfolders.mapIdx fun n f ↦ entryOfFolder (now n) f) ++
    books.mapIdx fun n b ↦ entryOfBook (now (subfolders.length + n)) b

end Build

/-- What `slug::for_path` makes of a path: sixteen hexadecimal digits. -/
def IsSlug (slug : List Char) : Prop := ∃ value, slug = hex16 value

theorem isSlug_slugForPath (xxh3 : List UInt8 → UInt64) (path : PathText) :
    IsSlug (slugForPath xxh3 path) := ⟨_, rfl⟩

theorem isDelimiter_hexDigit {value : ℕ} (h : value < 16) :
    hexDigit value ≠ '&' ∧ isDelimiter (hexDigit value) = false := by
  revert value
  decide

theorem IsSlug.escape {slug : List Char} (h : IsSlug slug) : escape slug = slug := by
  obtain ⟨value, rfl⟩ := h
  refine escape_eq_self fun c hc ↦ ?_
  obtain ⟨place, -, rfl⟩ := List.mem_map.mp hc
  exact isDelimiter_hexDigit (Nat.mod_lt _ (by decide))

section Named

variable {name other : Name} {elements : List Element}

@[simp]
theorem named_nil : named name [] = [] := rfl

@[simp]
theorem named_append (first second : List Element) :
    named name (first ++ second) = named name first ++ named name second :=
  List.filter_append ..

theorem named_of_forall (h : ∀ element ∈ elements, element.name = name) :
    named name elements = elements := by
  rw [named, List.filter_eq_self]
  simpa using h

theorem named_of_forall_ne (h : ∀ element ∈ elements, element.name = other) (hne : other ≠ name) :
    named name elements = [] := by
  rw [named, List.filter_eq_nil_iff]
  intro element helement
  simpa [h element helement] using hne

end Named

theorem named_eq_ite {name other : Name} {elements : List Element}
    (h : ∀ element ∈ elements, element.name = other) :
    named name elements = if other = name then elements else [] := by
  split
  · next heq => exact named_of_forall (heq ▸ h)
  · next hne => exact named_of_forall_ne h hne

theorem named_links (name : Name) (links : List Attributes) :
    named name (links.map link) = if Tag.link = name then links.map link else [] :=
  named_eq_ite (by simp [link])

theorem named_entries {α : Type} (name : Name) (elements : ℕ → α → List Element) (items : List α) :
    named name (items.mapIdx fun n item ↦ entry (elements n item)) =
      if Tag.entry = name then items.mapIdx fun n item ↦ entry (elements n item) else [] := by
  refine named_eq_ite fun element helement ↦ ?_
  obtain ⟨n, hn, rfl⟩ := List.mem_mapIdx.mp helement
  rfl

@[simp]
theorem attributes_comp_link : Element.attributes ∘ link = (fun attributes ↦ attributes) := rfl

@[simp]
theorem entry_children (elements : List Element) : (entry elements).children = elements :=
  Content.block_elements ..

variable {chrono : Chrono}

theorem readEntry_folder (now : chrono.DateTime) (f : Folder) :
    readEntry (entry (folderElements chrono now f)) = some (entryOfFolder now f) := by
  unfold readEntry linksOf textOf folderElements
  simp only [entry_children, named_append, named_links]
  cases hdesc : f.description with
  | none =>
    simp +decide [named, Element.ofText, only, Element.text, Content.text, entryOfFolder, hdesc]
  | some desc =>
    simp +decide [named, Element.ofText, only, Element.text, Content.text, entryOfFolder, hdesc]

theorem readEntry_book (now : chrono.DateTime) (b : Book) :
    readEntry (entry (bookElements chrono now b)) = some (entryOfBook now b) := by
  unfold readEntry linksOf textOf bookElements
  simp only [entry_children, named_append, named_links]
  simp +decide [named, Element.ofText, only, Element.text, Content.text, entryOfBook]

theorem mapM_mapIdx {α β γ : Type} {read : β → Option γ} {element : ℕ → α → β} {value : ℕ → α → γ}
    (h : ∀ n item, read (element n item) = some (value n item)) (items : List α) :
    (items.mapIdx element).mapM read = some (items.mapIdx value) := by
  induction items generalizing element value with
  | nil => rfl
  | cons item items ih =>
    rw [List.mapIdx_cons, List.mapIdx_cons, List.mapM_cons, h,
      ih fun n item ↦ h (n + 1) item]
    rfl

section Feed

variable {now : ℕ → chrono.DateTime} {ctx : FeedCtx chrono} {subfolders : List Folder}
  {books : List Book}

theorem read_buildFeed (htimes : ∀ time, ∀ c ∈ chrono.toRfc3339 time, IsTimeChar c)
    (hslugs : ∀ f ∈ subfolders, IsSlug f.slug) :
    read (buildFeed chrono now ctx subfolders books) =
      some (feedContent chrono now ctx subfolders books) := by
  rw [buildFeed_eq htimes fun f hf ↦ (hslugs f hf).escape]
  exact read_write _ _ rfl

/-- What is read in a feed is what it was built from. -/
theorem readFeed_buildFeed (htimes : ∀ time, ∀ c ∈ chrono.toRfc3339 time, IsTimeChar c)
    (hslugs : ∀ f ∈ subfolders, IsSlug f.slug) :
    readFeed (buildFeed chrono now ctx subfolders books) = some (feedOf now ctx subfolders books) := by
  have hread := @read_buildFeed _ now ctx _ books htimes hslugs
  have hroot : (feedContent chrono now ctx subfolders books).elements =
      [feedElement chrono now ctx subfolders books] := Content.block_elements ..
  have hchildren : (feedElement chrono now ctx subfolders books).children =
      feedElements chrono now ctx subfolders books := Content.block_elements ..
  have hfolders := mapM_mapIdx (fun n f ↦ readEntry_folder (now n) f) subfolders
  have hbooks := mapM_mapIdx
    (fun n b ↦ readEntry_book (now (subfolders.length + n)) b) books
  have hname : (feedElement chrono now ctx subfolders books).name = Tag.feed := rfl
  unfold readFeed linksOf textOf
  simp only [hread, Option.bind_eq_bind, Option.bind_some, hroot, only_singleton, hname, hchildren]
  unfold feedElements
  simp only [named_append, named_links, named_entries]
  simp +decide [named, Element.ofText, only, Element.text, Content.text, feedOf, hfolders, hbooks]

end Feed

/-- An element whose attributes are not given values. -/
def tag (name : Name) (attributes : List Name) (content : Option Content) : Element :=
  ⟨name, attributes.map fun key ↦ (key, []), content⟩

/-- A link, with what it has besides an address and a type. -/
def linkTag (more : List Name) : Element := tag Tag.link (Attr.rel :: Attr.href :: Attr.type :: more) none

/-- The elements in an entry of a folder. -/
def folderOutline (hasDescription : Bool) : Element :=
  tag Tag.entry [] (some (.block []
    ([tag Tag.id [] (some (.done [])), tag Tag.title [] (some (.done [])),
      tag Tag.updated [] (some (.done []))] ++
      (if hasDescription then [tag Tag.summary [Attr.type] (some (.done []))] else []) ++
      [linkTag [], linkTag []]) []))

/-- The elements in an entry of a book. -/
def bookOutline : Element :=
  tag Tag.entry [] (some (.block []
    [tag Tag.id [] (some (.done [])), tag Tag.title [] (some (.done [])),
      tag Tag.updated [] (some (.done [])), linkTag [], linkTag [], linkTag [Attr.pseCount],
      linkTag [Attr.length]] []))

/-- The elements of a feed. They depend on what there is to be said, not on what is said. -/
def feedOutline (hasUp : Bool) (hasDescription : List Bool) (books : ℕ) : Content :=
  .block [] [tag Tag.feed [Attr.xmlns, Attr.xmlnsOpds, Attr.xmlnsPse] (some (.block []
    ([tag Tag.id [] (some (.done [])), tag Tag.title [] (some (.done [])),
      tag Tag.updated [] (some (.done [])),
      tag Tag.author [] (some (.block [] [tag Tag.name [] (some (.done []))] [])),
      linkTag [], linkTag [], tag Tag.link [Attr.rel, Attr.type, Attr.href] none] ++
      (if hasUp then [linkTag []] else []) ++
      hasDescription.map folderOutline ++ List.replicate books bookOutline) []))] []

theorem entry_shape (elements : List Element) :
    (entry elements).shape =
      tag Tag.entry [] (some (.block [] (elements.map Element.shape) [])) := by
  rw [entry, Element.shape, Option.map_some, Content.block_shape]
  rfl

theorem folder_shape (now : chrono.DateTime) (f : Folder) :
    (entry (folderElements chrono now f)).shape = folderOutline f.description.isSome := by
  rw [entry_shape, folderElements]
  cases f.description <;> rfl

theorem book_shape (now : chrono.DateTime) (b : Book) :
    (entry (bookElements chrono now b)).shape = bookOutline := by
  rw [entry_shape]
  rfl

theorem map_shape_mapIdx {α : Type} {element : ℕ → α → Element} {outline : α → Element}
    (h : ∀ n item, (element n item).shape = outline item) (items : List α) :
    (items.mapIdx element).map Element.shape = items.map outline := by
  induction items generalizing element with
  | nil => rfl
  | cons item items ih =>
    rw [List.mapIdx_cons, List.map_cons, List.map_cons, h, ih fun n item ↦ h (n + 1) item]

/-- The elements of a feed are the same whatever the texts and the values in it. -/
theorem feedContent_shape (now : ℕ → chrono.DateTime) (ctx : FeedCtx chrono)
    (subfolders : List Folder) (books : List Book) :
    (feedContent chrono now ctx subfolders books).shape =
      feedOutline ctx.upHref.isSome (subfolders.map (·.description.isSome)) books.length := by
  have hfolders := map_shape_mapIdx (fun n f ↦ folder_shape (now n) f) subfolders
  have hbooks := map_shape_mapIdx (fun n b ↦ book_shape (now (subfolders.length + n)) b) books
  rw [feedContent, Content.block_shape, List.map_singleton, feedElement, Element.shape,
    Option.map_some, Content.block_shape, feedElements, List.map_append, List.map_append,
    List.map_append, hfolders, hbooks]
  rw [feedOutline, feedLinks, List.map_append, List.map_append]
  have houtlines : subfolders.map (fun f ↦ folderOutline f.description.isSome) =
      (subfolders.map (·.description.isSome)).map folderOutline := by
    rw [List.map_map]
    rfl
  rw [houtlines, List.map_const']
  cases ctx.upHref with
  | none => rfl
  | some up => rfl

section Lossless

variable {now : ℕ → chrono.DateTime} {ctx : FeedCtx chrono} {subfolders : List Folder}
  {books : List Book}

/-- **Feeds are lossless and free of injections.** A feed is read as a balanced document. It has the
id, the title and the links it was built with, one entry for each folder and then one for each book,
in their order, with their texts and addresses as they were; and its elements and attributes do not
depend on any of these texts. -/
theorem buildFeed_lossless (htimes : ∀ time, ∀ c ∈ chrono.toRfc3339 time, IsTimeChar c)
    (hslugs : ∀ f ∈ subfolders, IsSlug f.slug) :
    read (buildFeed chrono now ctx subfolders books) =
        some (feedContent chrono now ctx subfolders books) ∧
      readFeed (buildFeed chrono now ctx subfolders books) =
        some (feedOf now ctx subfolders books) ∧
      (read (buildFeed chrono now ctx subfolders books)).map Content.shape =
        some (feedOutline ctx.upHref.isSome (subfolders.map (·.description.isSome))
          books.length) := by
  have hread := @read_buildFeed _ now ctx _ books htimes hslugs
  refine ⟨hread, readFeed_buildFeed htimes hslugs, ?_⟩
  rw [hread, Option.map_some, feedContent_shape]

end Lossless

/-- Two times in the format of the crate. -/
def Chrono.sample : Chrono where
  DateTime := ℤ
  fromTimestamp := some
  toRfc3339 time :=
    if time = 1700000000 then str "2023-11-14T22:13:20+00:00" else str "1970-01-01T00:00:00+00:00"

def Folder.sample : Folder where
  name := str "<A> & \"B\""
  slug := hex16 10
  description := some (str "]]></summary><entry>")
  coverVersion := some (str "p1700000000")
  mtime := 1700000000

def FeedCtx.sample : FeedCtx Chrono.sample where
  selfHref := str "/opds"
  upHref := none
  feedId := str "urn:comicstream:folder:000000000000000b"
  title := str "'C'"
  updated := (1700000000 : ℤ)
  kindAcquisition := false

theorem isTimeChar_sample : ∀ time, ∀ c ∈ Chrono.sample.toRfc3339 time, IsTimeChar c := by
  intro time
  dsimp only [Chrono.sample]
  split <;> simp [IsTimeChar, str]

theorem buildFeed_lossless_sample :
    readFeed (buildFeed Chrono.sample (fun _ ↦ (0 : ℤ)) FeedCtx.sample [Folder.sample] []) =
      some (feedOf (fun _ ↦ (0 : ℤ)) FeedCtx.sample [Folder.sample] []) :=
  (buildFeed_lossless isTimeChar_sample (by
    intro f hf
    rw [List.mem_singleton.mp hf]
    exact ⟨10, rfl⟩)).2.1

end ComicStream.Server.Opds
