import ComicStream.Server.Links
import ComicStream.Server.Validity

/-!
# Browsing

What a client finds at the links of a feed, as long as nothing has changed since a
scan: the feed itself again, the feed above it, the feeds of subfolders, and of a
book the file that has the hash, the length and the type that the entry gives, and
as many pages of that file as the entry says.
-/

namespace ComicStream.Server

open Rust Xml Archive Catalog Machine Opds

/-- What a client asks for that follows a link. -/
def visit (config : Config) (href : List Char) : Dispatch :=
  dispatch config.pageThumbWidth .get (utf8 href) none

section Client

variable (chrono : Chrono) (clock : ℕ → chrono.DateTime) (config : Config) (crates : Crates)
  (state : State)

end Client

section Entries

variable {chrono : Chrono} {clock : ℕ → chrono.DateTime} {config : Config} {crates : Crates}
  {state : State}

end Entries

section Feeds

variable {chrono : Chrono} {clock : ℕ → chrono.DateTime} {config : Config} {crates : Crates}
  {state : State} {ctx : FeedCtx chrono}

end Feeds

/-! ## Searching -/

/-- The body of `opensearch_descriptor`. Its lines are continued, and so without their indents. -/
def opensearchDescriptor : List Char :=
  str "<?xml version=\"1.0\" encoding=\"UTF-8\"?>\n" ++
  str "<OpenSearchDescription xmlns=\"http://a9.com/-/spec/opensearch/1.1/\">\n" ++
  str "<ShortName>ComicStream</ShortName>\n" ++
  str "<Description>Search comic library by name</Description>\n" ++
  str "<InputEncoding>UTF-8</InputEncoding>\n" ++
  str ("<Url type=\"application/atom+xml;profile=opds-catalog;kind=acquisition\" " ++
    "template=\"/opds/search?q=\x7bsearchTerms\x7d\"/>\n") ++
  str "</OpenSearchDescription>\n"

section Runs

variable {chrono : Chrono} {clock : ℕ → chrono.DateTime} {config : Config} {crates : Crates}

end Runs

section Runs

variable {chrono : Chrono} {clock : ℕ → chrono.DateTime} {config : Config} {crates : Crates}

theorem IsWord.isXmlText {text : List Char} (h : IsWord text) : IsXmlText text :=
  fun c hc ↦ isXmlChar_of_isNameChar (by simp [isNameChar, h.2 c hc])

end Runs

/-- Two hexadecimal digits. -/
def hex2 (b : UInt8) : List Char := [hexDigit (b.toNat / 16), hexDigit (b.toNat % 16)]

/-- Other contents than the archive have hashes that spell them. -/
def spelledBlake3 (bytes : List UInt8) : List Char :=
  if bytes = sampleZip then sampleHash else 'x' :: bytes.flatMap hex2

/-- The archive holds its one entry, and hashes are words. -/
def Crates.spelled : Crates := { Crates.zipped with blake3 := spelledBlake3 }

end ComicStream.Server
