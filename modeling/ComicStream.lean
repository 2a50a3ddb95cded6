import ComicStream.Foundation.Machine
import ComicStream.Rust.Text
import ComicStream.Rust.Number
import ComicStream.Rust.IpAddr
import ComicStream.Auth.RateLimit
import ComicStream.Auth.Reference
import ComicStream.Auth.Window
import ComicStream.Auth.PeerIp
import ComicStream.Auth.Credentials
import ComicStream.Auth.Isolation
import ComicStream.Auth.Guessing
import ComicStream.Catalog.Natsort
import ComicStream.Catalog.Rows
import ComicStream.Foundation.Worklist
import ComicStream.Catalog.Scan
import ComicStream.Catalog.Upsert
import ComicStream.Catalog.Walk
import ComicStream.Catalog.Forest
import ComicStream.Catalog.Prune
import ComicStream.Catalog.NoLoss
import ComicStream.Foundation.Lru
import ComicStream.Archive.Book
import ComicStream.Catalog.Reading
import ComicStream.Server.Routes
import ComicStream.Server.Coherence
import ComicStream.Server.Containment
import ComicStream.Catalog.Rescan
import ComicStream.Server.Range
import ComicStream.Foundation.Xml
import ComicStream.Server.ScanLoop
import ComicStream.Server.Opds
import ComicStream.Server.Reader
import ComicStream.Server.Feeds
import ComicStream.Catalog.Root
import ComicStream.Server.Traversal
import ComicStream.Catalog.Tokens
import ComicStream.Server.Validity
import ComicStream.Catalog.Pointwise
import ComicStream.Server.Rescans
import ComicStream.Server.Thumbnails
import ComicStream.Catalog.Incremental
import ComicStream.Catalog.Covers
import ComicStream.Server.Covers
import ComicStream.Server.CoverTokens
import ComicStream.Server.Malformed
import ComicStream.Auth.Blocks
import ComicStream.Auth.RetryAfter
import ComicStream.Foundation.Base64
import ComicStream.Auth.Login
import ComicStream.Catalog.NaturalOrder
import ComicStream.Foundation.Lex
import ComicStream.Catalog.SortKey
import ComicStream.Foundation.Like
import ComicStream.Server.Search
import ComicStream.Archive.Pages
import ComicStream.Foundation.Prefer
import ComicStream.Server.Prefer
import ComicStream.Foundation.Inodes
import ComicStream.Foundation.Publish
import ComicStream.Rust.PathBuf
import ComicStream.Server.Publication
import ComicStream.Rust.Cut
import ComicStream.Catalog.Descriptions
import ComicStream.Auth.Memory
import ComicStream.Server.PageThumbs
import ComicStream.Rust.Stem
import ComicStream.Catalog.Snapshot
import ComicStream.Server.Convergence
import ComicStream.Foundation.Percent
import ComicStream.Server.Address
import ComicStream.Server.Links
import ComicStream.Server.Browsing
import ComicStream.Server.Immutable
import ComicStream.Server.Http
import ComicStream.Foundation.Views
import ComicStream.Auth.Gate
import ComicStream.Server.App
import ComicStream.Server.Prewarm
import ComicStream.Server.Resume
import ComicStream.Catalog.Repeat
import ComicStream.Server.Repeat
