import ComicStream.Foundation.Xml
import ComicStream.Rust.Number
import ComicStream.Server.Routes

/-!
# Feeds

The text of a feed as it is put together line by line, and the document it is
meant to be. Times come from a crate, and so does the time of day that stands in
for one that is out of range.
-/

namespace ComicStream.Server.Opds

open Rust Xml

/-- `DateTime::<Utc>::from_timestamp` with no nanoseconds, and `to_rfc3339`. -/
structure Chrono where
  DateTime : Type
  fromTimestamp : ℤ → Option DateTime
  toRfc3339 : DateTime → List Char

/-- What a feed says of a row of the table `folder`. -/
structure Folder where
  name : List Char
  slug : List Char
  description : Option (List Char)
  coverVersion : Option (List Char)
  mtime : ℤ

/-- What a feed says of a row of the table `book`. -/
structure Book where
  hash : List Char
  name : List Char
  format : List Char
  fileSize : ℤ
  mtime : ℤ
  pageCount : ℤ
  addedAt : ℤ

structure FeedCtx (chrono : Chrono) where
  selfHref : List Char
  upHref : Option (List Char)
  feedId : List Char
  title : List Char
  updated : chrono.DateTime
  kindAcquisition : Bool

/-- What is written of a literal. -/
def str (literal : String) : List Char := literal.toList

def atomNs : List Char := str "http://www.w3.org/2005/Atom"

def opdsNs : List Char := str "http://opds-spec.org/2010/catalog"

def pseNs : List Char := str "http://vaemendis.net/opds-pse/ns"

def navType : List Char := str "application/atom+xml;profile=opds-catalog;kind=navigation"

def acqType : List Char := str "application/atom+xml;profile=opds-catalog;kind=acquisition"

def esc (input : List Char) : List Char :=
  input.flatMap fun c ↦
    match c with
    | '&' => str "&amp;"
    | '<' => str "&lt;"
    | '>' => str "&gt;"
    | '"' => str "&quot;"
    | '\'' => str "&apos;"
    | c => [c]

variable (chrono : Chrono)

/-- `ts_to_rfc3339`, with the time of day. -/
def tsToRfc3339 (now : chrono.DateTime) (secs : ℤ) : List Char :=
  chrono.toRfc3339 ((chrono.fromTimestamp secs).getD now)

/-- What `write_folder_entry` appends. -/
def writeFolderEntry (now : chrono.DateTime) (f : Folder) : List Char :=
  let coverQs := match f.coverVersion with
    | some v => str "?v=" ++ esc v
    | none => []
  str "  <entry>\n" ++
  str "    <id>urn:comicstream:folder:" ++ f.slug ++ str "</id>\n" ++
  str "    <title>" ++ esc f.name ++ str "</title>\n" ++
  str "    <updated>" ++ tsToRfc3339 chrono now f.mtime ++ str "</updated>\n" ++
  (match f.description with
    | some desc => str "    <summary type=\"text\">" ++ esc desc ++ str "</summary>\n"
    | none => []) ++
  str "    <link rel=\"http://opds-spec.org/image/thumbnail\" href=\"/folders/" ++ f.slug ++
    str "/cover" ++ coverQs ++ str "\" type=\"image/jpeg\"/>\n" ++
  str "    <link rel=\"subsection\" href=\"/opds/folders/" ++ f.slug ++ str "\" type=\"" ++
    navType ++ str "\"/>\n" ++
  str "  </entry>\n"

/-- What `write_book_entry` appends. -/
def writeBookEntry (now : chrono.DateTime) (b : Book) : List Char :=
  str "  <entry>\n" ++
  str "    <id>urn:comicstream:book:" ++ esc b.hash ++ str "</id>\n" ++
  str "    <title>" ++ esc b.name ++ str "</title>\n" ++
  str "    <updated>" ++ tsToRfc3339 chrono now (max b.addedAt b.mtime) ++
    str "</updated>\n" ++
  str "    <link rel=\"http://opds-spec.org/image\" href=\"/books/" ++ esc b.hash ++
    str "/cover\" type=\"image/jpeg\"/>\n" ++
  str "    <link rel=\"http://opds-spec.org/image/thumbnail\" href=\"/books/" ++ esc b.hash ++
    str "/thumbnail\" type=\"image/jpeg\"/>\n" ++
  str "    <link rel=\"http://vaemendis.net/opds-pse/stream\" href=\"/books/" ++ esc b.hash ++
    str "/pages/\x7bpageNumber\x7d\" type=\"image/jpeg\" pse:count=\"" ++
    decimalInt b.pageCount ++ str "\"/>\n" ++
  str "    <link rel=\"http://opds-spec.org/acquisition\" href=\"/books/" ++ esc b.hash ++
    str "/file\" type=\"" ++ bookMime b.format ++ str "\" length=\"" ++
    decimalInt b.fileSize ++ str "\"/>\n" ++
  str "  </entry>\n"

/-- `build_feed`. The time of day is read again for every entry. -/
def buildFeed (now : ℕ → chrono.DateTime) (ctx : FeedCtx chrono) (subfolders : List Folder)
    (books : List Book) : List Char :=
  let selfType := if ctx.kindAcquisition then acqType else navType
  str "<?xml version=\"1.0\" encoding=\"UTF-8\"?>\n" ++
  str "<feed xmlns=\"" ++ atomNs ++ str "\" xmlns:opds=\"" ++ opdsNs ++
    str "\" xmlns:pse=\"" ++ pseNs ++ str "\">\n" ++
  str "  <id>" ++ esc ctx.feedId ++ str "</id>\n" ++
  str "  <title>" ++ esc ctx.title ++ str "</title>\n" ++
  str "  <updated>" ++ chrono.toRfc3339 ctx.updated ++ str "</updated>\n" ++
  str "  <author><name>ComicStream</name></author>\n" ++
  str "  <link rel=\"self\" href=\"" ++ esc ctx.selfHref ++ str "\" type=\"" ++ selfType ++
    str "\"/>\n" ++
  str "  <link rel=\"start\" href=\"/opds\" type=\"" ++ navType ++ str "\"/>\n" ++
  str ("  <link rel=\"search\" type=\"application/opensearchdescription+xml\" " ++
    "href=\"/opds/opensearch.xml\"/>\n") ++
  (match ctx.upHref with
    | some up => str "  <link rel=\"up\" href=\"" ++ esc up ++ str "\" type=\"" ++ navType ++
      str "\"/>\n"
    | none => []) ++
  (subfolders.mapIdx fun n f ↦ writeFolderEntry chrono (now n) f).flatten ++
  (books.mapIdx fun n b ↦ writeBookEntry chrono (now (subfolders.length + n)) b).flatten ++
  str "</feed>\n"

namespace Tag

def feed : Name := ⟨"feed".toList, by decide, by decide⟩

def entry : Name := ⟨"entry".toList, by decide, by decide⟩

def id : Name := ⟨"id".toList, by decide, by decide⟩

def title : Name := ⟨"title".toList, by decide, by decide⟩

def updated : Name := ⟨"updated".toList, by decide, by decide⟩

def author : Name := ⟨"author".toList, by decide, by decide⟩

def name : Name := ⟨"name".toList, by decide, by decide⟩

def link : Name := ⟨"link".toList, by decide, by decide⟩

def summary : Name := ⟨"summary".toList, by decide, by decide⟩

end Tag

namespace Attr

def xmlns : Name := ⟨"xmlns".toList, by decide, by decide⟩

def xmlnsOpds : Name := ⟨"xmlns:opds".toList, by decide, by decide⟩

def xmlnsPse : Name := ⟨"xmlns:pse".toList, by decide, by decide⟩

def rel : Name := ⟨"rel".toList, by decide, by decide⟩

def href : Name := ⟨"href".toList, by decide, by decide⟩

def type : Name := ⟨"type".toList, by decide, by decide⟩

def length : Name := ⟨"length".toList, by decide, by decide⟩

def pseCount : Name := ⟨"pse:count".toList, by decide, by decide⟩

end Attr

/-- The attributes of a link. -/
def linkTo (rel : String) (href type : List Char) : Attributes :=
  [(Attr.rel, str rel), (Attr.href, href), (Attr.type, type)]

def link (attributes : Attributes) : Element := ⟨Tag.link, attributes, none⟩

/-- The address of a feed. -/
def folderHref (slug : List Char) : List Char := str "/opds/folders/" ++ slug

/-- The address of a folder's cover. -/
def coverHref (f : Folder) : List Char :=
  str "/folders/" ++ f.slug ++ str "/cover" ++ f.coverVersion.elim [] fun v ↦ str "?v=" ++ v

/-- The address of a part of a book. -/
def bookHref (b : Book) (part : String) : List Char := str "/books/" ++ b.hash ++ str part

/-- The links in a folder's entry. -/
def folderLinks (f : Folder) : List Attributes :=
  [linkTo "http://opds-spec.org/image/thumbnail" (coverHref f) (str "image/jpeg"),
    linkTo "subsection" (folderHref f.slug) navType]

/-- The links in a book's entry. -/
def bookLinks (b : Book) : List Attributes :=
  [linkTo "http://opds-spec.org/image" (bookHref b "/cover") (str "image/jpeg"),
    linkTo "http://opds-spec.org/image/thumbnail" (bookHref b "/thumbnail") (str "image/jpeg"),
    linkTo "http://vaemendis.net/opds-pse/stream" (bookHref b "/pages/\x7bpageNumber\x7d")
      (str "image/jpeg") ++ [(Attr.pseCount, decimalInt b.pageCount)],
    linkTo "http://opds-spec.org/acquisition" (bookHref b "/file") (bookMime b.format) ++
      [(Attr.length, decimalInt b.fileSize)]]

/-- The links of a feed itself. -/
def feedLinks {chrono : Chrono} (ctx : FeedCtx chrono) : List Attributes :=
  [linkTo "self" ctx.selfHref (if ctx.kindAcquisition then acqType else navType),
    linkTo "start" (str "/opds") navType,
    [(Attr.rel, str "search"), (Attr.type, str "application/opensearchdescription+xml"),
      (Attr.href, str "/opds/opensearch.xml")]] ++
    (ctx.upHref.map fun up ↦ linkTo "up" up navType).toList

/-- The elements in an entry of a folder. -/
def folderElements (now : chrono.DateTime) (f : Folder) : List Element :=
  [.ofText Tag.id [] (str "urn:comicstream:folder:" ++ f.slug),
    .ofText Tag.title [] f.name,
    .ofText Tag.updated [] (tsToRfc3339 chrono now f.mtime)] ++
    (f.description.map fun desc ↦ .ofText Tag.summary [(Attr.type, str "text")] desc).toList ++
    (folderLinks f).map link

/-- The elements in an entry of a book. -/
def bookElements (now : chrono.DateTime) (b : Book) : List Element :=
  [.ofText Tag.id [] (str "urn:comicstream:book:" ++ b.hash),
    .ofText Tag.title [] b.name,
    .ofText Tag.updated [] (tsToRfc3339 chrono now (max b.addedAt b.mtime))] ++
    (bookLinks b).map link

/-- An entry with an element on each line. -/
def entry (elements : List Element) : Element :=
  ⟨Tag.entry, [], some (.block (str "\n    ") elements (str "\n  "))⟩

/-- The elements in a feed. -/
def feedElements (now : ℕ → chrono.DateTime) (ctx : FeedCtx chrono) (subfolders : List Folder)
    (books : List Book) : List Element :=
  [.ofText Tag.id [] ctx.feedId, .ofText Tag.title [] ctx.title,
    .ofText Tag.updated [] (chrono.toRfc3339 ctx.updated),
    ⟨Tag.author, [], some (.block [] [.ofText Tag.name [] (str "ComicStream")] [])⟩] ++
    (feedLinks ctx).map link ++
    (subfolders.mapIdx fun n f ↦ entry (folderElements chrono (now n) f)) ++
    books.mapIdx fun n b ↦ entry (bookElements chrono (now (subfolders.length + n)) b)

/-- A feed with an element on each line. -/
def feedElement (now : ℕ → chrono.DateTime) (ctx : FeedCtx chrono) (subfolders : List Folder)
    (books : List Book) : Element where
  name := Tag.feed
  attributes := [(Attr.xmlns, atomNs), (Attr.xmlnsOpds, opdsNs), (Attr.xmlnsPse, pseNs)]
  content := some (.block (str "\n  ") (feedElements chrono now ctx subfolders books) (str "\n"))

/-- The document, without its declaration. -/
def feedContent (now : ℕ → chrono.DateTime) (ctx : FeedCtx chrono) (subfolders : List Folder)
    (books : List Book) : Content :=
  .block (str "\n") [feedElement chrono now ctx subfolders books] (str "\n")

/-! ## The text is the document -/

theorem esc_eq_escape (input : List Char) : esc input = escape input := by
  unfold esc escape
  congr 1
  funext c
  unfold escapeChar
  split_ifs with hamp hlt hgt hquot hapos
  · rw [hamp]; rfl
  · rw [hlt]; rfl
  · rw [hgt]; rfl
  · rw [hquot]; rfl
  · rw [hapos]; rfl
  · split <;> first | contradiction | rfl

/-- A line with an element on it. -/
def line (indent : String) (element : Element) : List Char :=
  str indent ++ (element.write ++ ['\n'])

theorem flatMap_line {before : List Char} {indent : String} (hbefore : escape before = '\n' :: str indent)
    (elements : List Element) :
    '\n' :: elements.flatMap (line indent) =
      elements.flatMap (fun element ↦ escape before ++ element.write) ++ ['\n'] := by
  induction elements with
  | nil => rfl
  | cons element elements ih =>
    calc
      _ = '\n' :: (str indent ++ element.write) ++ '\n' :: elements.flatMap (line indent) := by
        simp [line]
      _ = _ := by
        rw [ih, ← List.cons_append, ← hbefore, List.flatMap_cons]
        simp only [List.append_assoc]

theorem line_ofText {indent : String} {name : Name} {attributes : Attributes} {opening closing : String}
    (hopening : str opening = str indent ++ openTag name attributes)
    (hclosing : str closing = closeTag name ++ ['\n']) (text : List Char) :
    line indent (.ofText name attributes text) = str opening ++ (escape text ++ str closing) := by
  rw [hopening, hclosing]
  simp [line, Element.ofText, Element.write, Content.write]

theorem line_link (indent rel : String) (href type : List Char) (more : Attributes) :
    line indent (link (linkTo rel href type ++ more)) =
      str indent ++ (str "<link rel=\"" ++ (escape (str rel) ++
        (str "\" href=\"" ++ (escape href ++ (str "\" type=\"" ++ (escape type ++ '"' ::
          (writeAttributes more ++ str "/>\n"))))))) := by
  have hrel : str "<link rel=\"" = '<' :: (Tag.link.text ++ ' ' :: (Attr.rel.text ++ ['=', '"'])) := by
    decide
  have hhref : str "\" href=\"" = '"' :: ' ' :: (Attr.href.text ++ ['=', '"']) := by decide
  have htype : str "\" type=\"" = '"' :: ' ' :: (Attr.type.text ++ ['=', '"']) := by decide
  have hend : str "/>\n" = ['/', '>', '\n'] := by decide
  rw [hrel, hhref, htype, hend]
  simp only [line, link, linkTo, Element.write, emptyTag, writeAttributes_cons, List.cons_append,
    List.nil_append, List.append_assoc]

theorem line_entry (elements : List Element) :
    line "  " (entry elements) =
      str "  <entry>\n" ++ (elements.flatMap (line "    ") ++ str "  </entry>\n") := by
  have hopen : str "  <entry>\n" = str "  " ++ (openTag Tag.entry [] ++ ['\n']) := by decide
  have hclose : str "  </entry>\n" = str "  " ++ (closeTag Tag.entry ++ ['\n']) := by decide
  have hlast : escape (str "\n  ") = '\n' :: str "  " := by decide
  have hlines := flatMap_line (by decide : escape (str "\n    ") = '\n' :: str "    ") elements
  calc
    line "  " (entry elements) = str "  " ++ (openTag Tag.entry [] ++
        (elements.flatMap (fun element ↦ escape (str "\n    ") ++ element.write) ++ ['\n'] ++
          (str "  " ++ (closeTag Tag.entry ++ ['\n'])))) := by
      simp only [line, entry, Element.write, Content.block_write, hlast, List.append_assoc,
        List.cons_append, List.nil_append]
    _ = _ := by
      rw [← hlines, hopen, hclose]
      simp only [List.append_assoc, List.cons_append, List.nil_append]

theorem line_id (urn : String) (id : List Char) :
    line "    " (.ofText Tag.id [] (str urn ++ id)) =
      str "    <id>" ++ (escape (str urn) ++ (escape id ++ str "</id>\n")) := by
  rw [line_ofText (by decide : str "    <id>" = _) (by decide : str "</id>\n" = _), escape_append,
    List.append_assoc]

theorem line_title (title : List Char) :
    line "    " (.ofText Tag.title [] title) =
      str "    <title>" ++ (escape title ++ str "</title>\n") :=
  line_ofText (by decide) (by decide) title

theorem line_updated {time : List Char} (htime : escape time = time) :
    line "    " (.ofText Tag.updated [] time) =
      str "    <updated>" ++ (time ++ str "</updated>\n") := by
  rw [line_ofText (by decide : str "    <updated>" = _) (by decide : str "</updated>\n" = _), htime]

theorem line_summary (desc : List Char) :
    line "    " (.ofText Tag.summary [(Attr.type, str "text")] desc) =
      str "    <summary type=\"text\">" ++ (escape desc ++ str "</summary>\n") :=
  line_ofText (by decide) (by decide) desc

/-- The characters of a literal, which are cheaper to compare than the literal. -/
theorem str_ofList (text : List Char) : str (String.ofList text) = text := String.toList_ofList

theorem str_linkOpening {text indent rel before : List Char}
    (h : text = indent ++ (['<', 'l', 'i', 'n', 'k', ' ', 'r', 'e', 'l', '=', '"'] ++ (escape rel ++
      (['"', ' ', 'h', 'r', 'e', 'f', '=', '"'] ++ escape before)))) :
    str (String.ofList text) = str (String.ofList indent) ++ (str "<link rel=\"" ++
      (escape (str (String.ofList rel)) ++ (str "\" href=\"" ++ escape before))) := by
  have hlink : str "<link rel=\"" = ['<', 'l', 'i', 'n', 'k', ' ', 'r', 'e', 'l', '=', '"'] :=
    str_ofList _
  have hhref : str "\" href=\"" = ['"', ' ', 'h', 'r', 'e', 'f', '=', '"'] := str_ofList _
  rw [str_ofList text, str_ofList indent, str_ofList rel, hlink, hhref]
  exact h

theorem line_linkTo (indent rel : String) {opening : String} {before : List Char}
    (hopening : str opening = str indent ++ (str "<link rel=\"" ++ (escape (str rel) ++
      (str "\" href=\"" ++ escape before))))
    (href type : List Char) (more : Attributes) :
    line indent (link (linkTo rel (before ++ href) type ++ more)) =
      str opening ++ (escape href ++ (str "\" type=\"" ++ (escape type ++ '"' ::
        (writeAttributes more ++ str "/>\n")))) := by
  rw [line_link, hopening, escape_append]
  simp only [List.append_assoc]

theorem writeFolderEntry_eq (now : chrono.DateTime) (f : Folder) (hslug : escape f.slug = f.slug)
    (htime : escape (tsToRfc3339 chrono now f.mtime) = tsToRfc3339 chrono now f.mtime) :
    writeFolderEntry chrono now f = line "  " (entry (folderElements chrono now f)) := by
  have hid : str "    <id>urn:comicstream:folder:" =
      str "    <id>" ++ escape (str "urn:comicstream:folder:") := by decide
  have hcover : escape (str "/cover") = str "/cover" := by decide
  have hversion : escape (str "?v=") = str "?v=" := by decide
  have hjpeg : str "\" type=\"image/jpeg\"/>\n" =
      str "\" type=\"" ++ (escape (str "image/jpeg") ++ '"' :: str "/>\n") := by decide
  have hnav : escape navType = navType := by decide
  have hend : str "\"/>\n" = '"' :: str "/>\n" := by decide
  have hthumbnail := line_linkTo "    " "http://opds-spec.org/image/thumbnail"
    (str_linkOpening rfl : str "    <link rel=\"http://opds-spec.org/image/thumbnail\" href=\"/folders/" =
      str "    " ++ (str "<link rel=\"" ++ (escape (str "http://opds-spec.org/image/thumbnail") ++
        (str "\" href=\"" ++ escape (str "/folders/")))))
    (f.slug ++ (str "/cover" ++ f.coverVersion.elim [] fun v ↦ str "?v=" ++ v))
    (str "image/jpeg") []
  have hsubsection := line_linkTo "    " "subsection"
    (str_linkOpening rfl : str "    <link rel=\"subsection\" href=\"/opds/folders/" =
      str "    " ++ (str "<link rel=\"" ++ (escape (str "subsection") ++
        (str "\" href=\"" ++ escape (str "/opds/folders/"))))) f.slug navType []
  have hlinks : (folderLinks f).map link =
      [link (linkTo "http://opds-spec.org/image/thumbnail" (str "/folders/" ++ (f.slug ++
        (str "/cover" ++ f.coverVersion.elim [] fun v ↦ str "?v=" ++ v))) (str "image/jpeg") ++ []),
      link (linkTo "subsection" (str "/opds/folders/" ++ f.slug) navType ++ [])] := by
    simp [folderLinks, coverHref, folderHref]
  unfold writeFolderEntry
  rw [line_entry, folderElements, hlinks, List.flatMap_append, List.flatMap_append, hid, hjpeg, hend]
  simp only [List.flatMap_cons, List.flatMap_nil, hthumbnail, hsubsection, line_id, line_title,
    line_updated htime, hslug, hnav, esc_eq_escape, writeAttributes, escape_append, hcover]
  cases f.description <;> cases f.coverVersion <;>
    simp only [Option.map_none, Option.map_some, Option.toList_none, Option.toList_some,
      Option.elim_none, Option.elim_some, List.flatMap_cons, List.flatMap_nil, line_summary,
      escape_nil, escape_append, hversion, List.append_assoc, List.append_nil, List.nil_append,
      List.cons_append]

theorem isDelimiter_of_isDigit {c : Char} (h : c.isDigit = true) :
    c ≠ '&' ∧ isDelimiter c = false := by
  have hrange := isDigit_iff.mp h
  have hne (d : Char) (hd : d.toNat < 48 ∨ 57 < d.toNat) : c ≠ d := by
    rintro rfl
    omega
  simp [isDelimiter, hne]

theorem escape_decimal (n : ℕ) : escape (decimal n) = decimal n :=
  escape_eq_self fun c hc ↦ isDelimiter_of_isDigit ((isDecimal_decimal n).isDigit c hc)

theorem escape_decimalInt (n : ℤ) : escape (decimalInt n) = decimalInt n := by
  cases n with
  | ofNat n => exact escape_decimal n
  | negSucc n => rw [decimalInt, escape_cons, escape_decimal]; rfl

theorem escape_bookMime (format : List Char) : escape (bookMime format) = bookMime format := by
  unfold bookMime
  split_ifs
  · decide
  · decide
  · decide

theorem writeBookEntry_eq (now : chrono.DateTime) (b : Book)
    (htime : escape (tsToRfc3339 chrono now (max b.addedAt b.mtime)) =
      tsToRfc3339 chrono now (max b.addedAt b.mtime)) :
    writeBookEntry chrono now b = line "  " (entry (bookElements chrono now b)) := by
  have hid : str "    <id>urn:comicstream:book:" =
      str "    <id>" ++ escape (str "urn:comicstream:book:") := by
    rw [str_ofList, str_ofList, str_ofList]
    rfl
  have hcover : str "/cover\" type=\"image/jpeg\"/>\n" = escape (str "/cover") ++
      (str "\" type=\"" ++ (escape (str "image/jpeg") ++ '"' :: str "/>\n")) := by
    rw [str_ofList, str_ofList, str_ofList, str_ofList, str_ofList]
    rfl
  have hthumbnail : str "/thumbnail\" type=\"image/jpeg\"/>\n" = escape (str "/thumbnail") ++
      (str "\" type=\"" ++ (escape (str "image/jpeg") ++ '"' :: str "/>\n")) := by
    rw [str_ofList, str_ofList, str_ofList, str_ofList, str_ofList]
    rfl
  have hpages : str "/pages/\x7bpageNumber\x7d\" type=\"image/jpeg\" pse:count=\"" =
      escape (str "/pages/\x7bpageNumber\x7d") ++ (str "\" type=\"" ++
        (escape (str "image/jpeg") ++ '"' :: ' ' :: (Attr.pseCount.text ++ ['=', '"']))) := by
    rw [str_ofList, str_ofList, str_ofList, str_ofList]
    rfl
  have hfile : str "/file\" type=\"" = escape (str "/file") ++ str "\" type=\"" := by decide
  have hlength : str "\" length=\"" = '"' :: ' ' :: (Attr.length.text ++ ['=', '"']) := by decide
  have hend : str "\"/>\n" = '"' :: str "/>\n" := by decide
  have himageLine := line_linkTo "    " "http://opds-spec.org/image"
    (str_linkOpening rfl : str "    <link rel=\"http://opds-spec.org/image\" href=\"/books/" =
      str "    " ++ (str "<link rel=\"" ++ (escape (str "http://opds-spec.org/image") ++
        (str "\" href=\"" ++ escape (str "/books/")))))
    (b.hash ++ str "/cover") (str "image/jpeg") []
  have hthumbnailLine := line_linkTo "    " "http://opds-spec.org/image/thumbnail"
    (str_linkOpening rfl : str "    <link rel=\"http://opds-spec.org/image/thumbnail\" href=\"/books/" =
      str "    " ++ (str "<link rel=\"" ++ (escape (str "http://opds-spec.org/image/thumbnail") ++
        (str "\" href=\"" ++ escape (str "/books/")))))
    (b.hash ++ str "/thumbnail") (str "image/jpeg") []
  have hstreamLine := line_linkTo "    " "http://vaemendis.net/opds-pse/stream"
    (str_linkOpening rfl : str "    <link rel=\"http://vaemendis.net/opds-pse/stream\" href=\"/books/" =
      str "    " ++ (str "<link rel=\"" ++ (escape (str "http://vaemendis.net/opds-pse/stream") ++
        (str "\" href=\"" ++ escape (str "/books/")))))
    (b.hash ++ str "/pages/\x7bpageNumber\x7d") (str "image/jpeg")
    [(Attr.pseCount, decimalInt b.pageCount)]
  have hacquisitionLine := line_linkTo "    " "http://opds-spec.org/acquisition"
    (str_linkOpening rfl : str "    <link rel=\"http://opds-spec.org/acquisition\" href=\"/books/" =
      str "    " ++ (str "<link rel=\"" ++ (escape (str "http://opds-spec.org/acquisition") ++
        (str "\" href=\"" ++ escape (str "/books/")))))
    (b.hash ++ str "/file") (bookMime b.format) [(Attr.length, decimalInt b.fileSize)]
  have hlinks : (bookLinks b).map link =
      [link (linkTo "http://opds-spec.org/image" (str "/books/" ++ (b.hash ++ str "/cover"))
          (str "image/jpeg") ++ []),
        link (linkTo "http://opds-spec.org/image/thumbnail"
          (str "/books/" ++ (b.hash ++ str "/thumbnail")) (str "image/jpeg") ++ []),
        link (linkTo "http://vaemendis.net/opds-pse/stream"
          (str "/books/" ++ (b.hash ++ str "/pages/\x7bpageNumber\x7d")) (str "image/jpeg") ++
            [(Attr.pseCount, decimalInt b.pageCount)]),
        link (linkTo "http://opds-spec.org/acquisition" (str "/books/" ++ (b.hash ++ str "/file"))
          (bookMime b.format) ++ [(Attr.length, decimalInt b.fileSize)])] := by
    simp [bookLinks, bookHref]
  unfold writeBookEntry
  rw [line_entry, bookElements, hlinks, List.flatMap_append, hid, hcover, hthumbnail, hpages, hfile,
    hlength, hend]
  simp only [List.flatMap_cons, List.flatMap_nil, himageLine, hthumbnailLine, hstreamLine,
    hacquisitionLine]
  simp only [line_id, line_title, line_updated htime, esc_eq_escape, writeAttributes_cons,
    escape_decimalInt, escape_bookMime, escape_append, List.append_assoc, List.cons_append,
    List.nil_append]
  simp only [writeAttributes, List.flatMap_nil, List.nil_append]

/-- The declaration of a feed, after its first two characters. -/
def declaration : List Char := str "xml version=\"1.0\" encoding=\"UTF-8\"?>"

variable {chrono}

/-- Times are displayed with characters that need no escape. -/
def IsTimeChar (c : Char) : Prop :=
  c.isDigit = true ∨ c = '-' ∨ c = ':' ∨ c = 'T' ∨ c = '+' ∨ c = '.' ∨ c = 'Z'

theorem escape_time {time : List Char} (h : ∀ c ∈ time, IsTimeChar c) : escape time = time := by
  refine escape_eq_self fun c hc ↦ ?_
  rcases h c hc with hdigit | rfl | rfl | rfl | rfl | rfl | rfl
  · exact isDelimiter_of_isDigit hdigit
  all_goals decide

theorem flatMap_mapIdx {α : Type} {indent : String} (write : ℕ → α → List Char)
    (element : ℕ → α → Element) {items : List α}
    (h : ∀ n, ∀ item ∈ items, write n item = line indent (element n item)) :
    (items.mapIdx element).flatMap (line indent) = (items.mapIdx write).flatten := by
  induction items generalizing write element with
  | nil => rfl
  | cons item items ih =>
    rw [List.mapIdx_cons, List.mapIdx_cons, List.flatMap_cons, List.flatten_cons,
      h 0 item List.mem_cons_self,
      ih (fun n ↦ write (n + 1)) (fun n ↦ element (n + 1)) fun n other hother ↦
        h (n + 1) other (List.mem_cons_of_mem _ hother)]

theorem feedLinks_write (ctx : FeedCtx chrono) :
    ((feedLinks ctx).map link).flatMap (line "  ") =
      str "  <link rel=\"self\" href=\"" ++ (esc ctx.selfHref ++ (str "\" type=\"" ++
        ((if ctx.kindAcquisition then acqType else navType) ++ (str "\"/>\n" ++
      (str "  <link rel=\"start\" href=\"/opds\" type=\"" ++ (navType ++ (str "\"/>\n" ++
      (str ("  <link rel=\"search\" type=\"application/opensearchdescription+xml\" " ++
        "href=\"/opds/opensearch.xml\"/>\n") ++
      match ctx.upHref with
        | some up => str "  <link rel=\"up\" href=\"" ++ esc up ++ str "\" type=\"" ++ navType ++
          str "\"/>\n"
        | none => [])))))))) := by
  have hend : str "\"/>\n" = '"' :: str "/>\n" := by decide
  have hnav : escape navType = navType := by decide
  have htype : escape (if ctx.kindAcquisition then acqType else navType) =
      if ctx.kindAcquisition then acqType else navType := by
    split
    · decide
    · exact hnav
  have hself := line_linkTo "  " "self"
    (str_linkOpening rfl : str "  <link rel=\"self\" href=\"" = str "  " ++ (str "<link rel=\"" ++
      (escape (str "self") ++ (str "\" href=\"" ++ escape []))))
    ctx.selfHref (if ctx.kindAcquisition then acqType else navType) []
  have hstart : line "  " (link (linkTo "start" (str "/opds") navType)) =
      str "  <link rel=\"start\" href=\"/opds\" type=\"" ++ (navType ++ str "\"/>\n") := by decide
  have hsearch : line "  " (link [(Attr.rel, str "search"),
      (Attr.type, str "application/opensearchdescription+xml"),
      (Attr.href, str "/opds/opensearch.xml")]) =
        str ("  <link rel=\"search\" type=\"application/opensearchdescription+xml\" " ++
          "href=\"/opds/opensearch.xml\"/>\n") := by decide
  have hup (up : List Char) := line_linkTo "  " "up"
    (str_linkOpening rfl : str "  <link rel=\"up\" href=\"" = str "  " ++ (str "<link rel=\"" ++
      (escape (str "up") ++ (str "\" href=\"" ++ escape [])))) up navType []
  simp only [List.nil_append, List.append_nil] at hself hup
  unfold feedLinks
  rw [List.map_append, List.flatMap_append]
  simp only [List.map_cons, List.map_nil, List.flatMap_cons, List.flatMap_nil, hself, hstart,
    hsearch, htype, hend, esc_eq_escape, writeAttributes, List.append_assoc, List.nil_append,
    List.cons_append]
  cases ctx.upHref with
  | none => rfl
  | some up =>
    simp only [Option.map_some, Option.toList_some, List.map_cons, List.map_nil, List.flatMap_cons,
      List.flatMap_nil, hup, hnav, writeAttributes, List.nil_append, List.append_nil]

/-- A feed is written as the document it is meant to be. -/
theorem buildFeed_eq {now : ℕ → chrono.DateTime} {ctx : FeedCtx chrono} {subfolders : List Folder}
    {books : List Book} (htimes : ∀ time, ∀ c ∈ chrono.toRfc3339 time, IsTimeChar c)
    (hslugs : ∀ f ∈ subfolders, escape f.slug = f.slug) :
    buildFeed chrono now ctx subfolders books =
      '<' :: '?' :: (declaration ++ (feedContent chrono now ctx subfolders books).write) := by
  have htime (time : chrono.DateTime) : escape (chrono.toRfc3339 time) = chrono.toRfc3339 time :=
    escape_time (htimes time)
  have hfolders := flatMap_mapIdx (fun n f ↦ writeFolderEntry chrono (now n) f)
    (fun n f ↦ entry (folderElements chrono (now n) f))
    fun n f hf ↦ writeFolderEntry_eq chrono (now n) f (hslugs f hf) (htime _)
  have hbooks := flatMap_mapIdx
    (fun n b ↦ writeBookEntry chrono (now (subfolders.length + n)) b)
    (fun n b ↦ entry (bookElements chrono (now (subfolders.length + n)) b))
    fun n b (_ : b ∈ books) ↦ writeBookEntry_eq chrono (now _) b (htime _)
  have hdeclaration : str "<?xml version=\"1.0\" encoding=\"UTF-8\"?>\n" =
      '<' :: '?' :: (declaration ++ ['\n']) := by decide
  have hfeed : str "<feed xmlns=\"" ++ (atomNs ++ (str "\" xmlns:opds=\"" ++ (opdsNs ++
      (str "\" xmlns:pse=\"" ++ (pseNs ++ str "\">\n"))))) = openTag Tag.feed
        [(Attr.xmlns, atomNs), (Attr.xmlnsOpds, opdsNs), (Attr.xmlnsPse, pseNs)] ++ ['\n'] := by
    decide
  have hopen (rest : List Char) : openTag Tag.feed
      [(Attr.xmlns, atomNs), (Attr.xmlnsOpds, opdsNs), (Attr.xmlnsPse, pseNs)] ++ '\n' :: rest =
        str "<feed xmlns=\"" ++ (atomNs ++ (str "\" xmlns:opds=\"" ++ (opdsNs ++
          (str "\" xmlns:pse=\"" ++ (pseNs ++ str "\">\n"))))) ++ rest := by
    rw [hfeed, List.append_assoc, List.singleton_append]
  have hclose : str "</feed>\n" = closeTag Tag.feed ++ ['\n'] := by decide
  have hid : line "  " (.ofText Tag.id [] ctx.feedId) =
      str "  <id>" ++ (escape ctx.feedId ++ str "</id>\n") :=
    line_ofText (by decide) (by decide) _
  have htitle : line "  " (.ofText Tag.title [] ctx.title) =
      str "  <title>" ++ (escape ctx.title ++ str "</title>\n") :=
    line_ofText (by decide) (by decide) _
  have hupdated : line "  " (.ofText Tag.updated [] (chrono.toRfc3339 ctx.updated)) =
      str "  <updated>" ++ (chrono.toRfc3339 ctx.updated ++ str "</updated>\n") := by
    rw [line_ofText (by decide : str "  <updated>" = _) (by decide : str "</updated>\n" = _), htime]
  have hauthor : line "  " ⟨Tag.author, [],
      some (.block [] [.ofText Tag.name [] (str "ComicStream")] [])⟩ =
        str "  <author><name>ComicStream</name></author>\n" := by decide
  have hcontent : (feedContent chrono now ctx subfolders books).write =
      '\n' :: (openTag Tag.feed [(Attr.xmlns, atomNs), (Attr.xmlnsOpds, opdsNs),
        (Attr.xmlnsPse, pseNs)] ++ ('\n' :: (feedElements chrono now ctx subfolders books).flatMap
          (line "  ") ++ (closeTag Tag.feed ++ ['\n']))) := by
    have hnewline : escape (str "\n") = ['\n'] := by decide
    rw [flatMap_line (by decide : escape (str "\n  ") = '\n' :: str "  ")]
    simp only [feedContent, feedElement, Content.block_write, Element.write, hnewline,
      List.flatMap_cons, List.flatMap_nil, List.append_nil, List.append_assoc, List.cons_append,
      List.nil_append]
  unfold buildFeed
  rw [hcontent, hdeclaration, hclose, feedElements, List.flatMap_append, List.flatMap_append,
    List.flatMap_append, feedLinks_write, hfolders, hbooks]
  simp only [List.flatMap_cons, List.flatMap_nil, hid, htitle, hupdated, hauthor]
  simp only [hopen, esc_eq_escape, List.append_assoc, List.cons_append, List.nil_append]

end ComicStream.Server.Opds
