import ComicStream.Server.CoverTokens
import ComicStream.Server.Immutable

/-!
# What a scan that generates thumbnails leaves

`prewarm` tries the books one after another and skips what is there, what cannot be
opened and what cannot be read. What it leaves is nevertheless a matter of each
thumbnail by itself, and it stays: a request that would have to wait for one of these
thumbnails finds it, whatever has become of the library.
-/

namespace ComicStream.Server

open Rust Archive Catalog Machine

/-- The thumbnail that is made from an open archive. -/
def madeFrom (crates : Crates) (fs : Fs) (slot : Slot) (book : Book) :
    Option (Sourced (List UInt8)) :=
  (book.readPage crates.reader fs slot.index).bind fun page ↦ writeResized crates page.1 slot.width

/-- The thumbnail that is made from the archive of a row. -/
def madeOf (crates : Crates) (fs : Fs) (slot : Slot) (row : BookRow) :
    Option (Sourced (List UInt8)) :=
  (openBook crates.reader fs row.path.osPath).bind (madeFrom crates fs slot)

/-- The thumbnails of a book that are generated. -/
def slotsOf (config : Config) (row : BookRow) : List Slot :=
  .cover row.hash :: (List.range row.pageCount).map (.page row.hash · config.pageThumbWidth)

/-- The thumbnail that is made for the slot, if the book has it. -/
def generated (config : Config) (crates : Crates) (fs : Fs) (slot : Slot) (row : BookRow) :
    Option (Sourced (List UInt8)) :=
  if slot ∈ slotsOf config row then madeOf crates fs slot row else none

variable {config : Config} {crates : Crates} {state : State}

theorem fs_finish_reading (slot : Slot) (book : Book) :
    (Task.finish config crates 3 (state, some (.reading slot book))).fs = state.fs := by
  rw [finish_reading]
  cases book.readPage crates.reader state.fs slot.index with
  | none => rfl
  | some page =>
    rw [Option.bind_some]
    cases hlast : ensureAt crates state page.1 slot with
    | none => rfl
    | some last => exact fs_ensureAt hlast

theorem thumbAt_finish_reading (slot other : Slot) (book : Book) :
    (Task.finish config crates 3 (state, some (.reading slot book))).thumbAt other =
      (state.thumbAt other).or
        (if other = slot then madeFrom crates state.fs slot book else none) := by
  rw [finish_reading, madeFrom]
  by_cases hsame : other = slot
  · subst hsame
    rw [if_pos rfl]
    cases book.readPage crates.reader state.fs other.index with
    | none => rw [Option.bind_none, Option.bind_none, Option.getD_none, Option.or_none]
    | some page =>
      rw [Option.bind_some, Option.bind_some, ensureAt]
      cases hthumb : state.thumbAt other with
      | some thumb => exact hthumb
      | none =>
        cases writeResized crates page.1 other.width with
        | none => exact hthumb
        | some thumb => simp
  · rw [if_neg hsame, Option.or_none]
    cases book.readPage crates.reader state.fs slot.index with
    | none => rfl
    | some page =>
      rw [Option.bind_some, ensureAt]
      cases state.thumbAt slot with
      | some thumb => rfl
      | none =>
        cases writeResized crates page.1 slot.width with
        | none => rfl
        | some thumb => simp [hsame]

/-- One slot after another, none of which gets in the way of another. -/
theorem thumbAt_finishAll (book : Book) (slots : List Slot) (slot : Slot) :
    (finishAll config crates book state slots).thumbAt slot =
      (state.thumbAt slot).or
        (if slot ∈ slots then madeFrom crates state.fs slot book else none) := by
  induction slots generalizing state with
  | nil => simp [finishAll]
  | cons first rest ih =>
    change (finishAll config crates book
      (Task.finish config crates 3 (state, some (.reading first book))) rest).thumbAt slot = _
    rw [ih, thumbAt_finish_reading, fs_finish_reading, Option.or_assoc]
    congr 1
    by_cases hsame : slot = first
    · subst hsame
      rw [if_pos rfl, if_pos List.mem_cons_self]
      split
      · exact Option.or_self
      · exact Option.or_none
    · rw [if_neg hsame, Option.none_or]
      simp only [List.mem_cons, hsame, false_or]

theorem thumbAt_prewarmBook (row : BookRow) (slot : Slot) :
    (prewarmBook config crates state row).thumbAt slot =
      (state.thumbAt slot).or (generated config crates state.fs slot row) := by
  have hmem : slot ∈ prewarmSlots config state row ↔
      slot ∈ slotsOf config row ∧ state.thumbAt slot = none := by
    rw [prewarmSlots, List.mem_filter, Option.isNone_iff_eq_none]
    rfl
  rw [prewarmBook_eq_finish, generated, madeOf]
  split
  · next hnil =>
    rw [hnil, List.mem_nil_iff, false_iff, not_and] at hmem
    split
    · next hslot =>
      obtain ⟨thumb, hthumb⟩ := Option.ne_none_iff_exists'.mp (hmem hslot)
      rw [hthumb, Option.some_or]
    · rw [Option.or_none]
  · cases openBook crates.reader state.fs row.path.osPath with
    | none => simp
    | some book =>
      dsimp only
      rw [thumbAt_finishAll, Option.bind_some]
      cases hthumb : state.thumbAt slot with
      | some thumb => rfl
      | none => simp only [hmem, hthumb, and_true]

theorem thumbAt_foldl_prewarmBook (rows : List BookRow) (slot : Slot) :
    (rows.foldl (prewarmBook config crates) state).thumbAt slot =
      (state.thumbAt slot).or (rows.findSome? (generated config crates state.fs slot)) := by
  induction rows generalizing state with
  | nil => simp
  | cons row rest ih =>
    have hfs : (prewarmBook config crates state row).fs = state.fs :=
      ((Thumbnailed.refl state).prewarmBook row).fs_eq
    rw [List.foldl_cons, ih, hfs, thumbAt_prewarmBook, Option.or_assoc, List.findSome?_cons]
    cases generated config crates state.fs slot row <;> rfl

theorem thumbAt_prewarm (slot : Slot) :
    (prewarm config crates state).thumbAt slot = (state.thumbAt slot).or
      (state.db.books.findSome? (generated config crates state.fs slot)) :=
  thumbAt_foldl_prewarmBook state.db.books slot

theorem thumbAt_withDb (db : Db) (slot : Slot) :
    ({ state with db := db } : State).thumbAt slot = state.thumbAt slot := by cases slot <;> rfl

/-- With the thumbnail there, a request that would wait for it is answered with it at once. -/
theorem handle_of_thumbAt {request : Request} {slot : Slot} {path : PathText}
    {thumb : Sourced (List UInt8)} (hwanted : wanted config state request = some (slot, path))
    (h : state.thumbAt slot = some thumb) :
    handle config crates state request = (.content thumb jpeg, state) := by
  have hserve {book : BookRow} (hcover : state.thumbAt (.cover book.hash) = some thumb) :
      serveThumbnail config crates state book = (.content thumb jpeg, state) := by
    have hthumbs : state.thumbs book.hash = some thumb := hcover
    rw [serveThumbnail, hthumbs]
    rfl
  cases request with
  | bookThumbnail hash =>
    obtain ⟨book, hbook, hwant⟩ := Option.map_eq_some_iff.mp hwanted
    obtain ⟨rfl, rfl⟩ := Prod.mk.inj hwant
    rw [handle, bookThumbnail, hbook]
    exact hserve h
  | folderCover slug =>
    obtain ⟨folder, hfolder, hwant⟩ := Option.bind_eq_some_iff.mp hwanted
    rw [handle, folderCover, hfolder]
    dsimp only
    split at hwant
    · simp at hwant
    · next hcover =>
      rw [Option.not_isSome_iff_eq_none.mp hcover]
      obtain ⟨book, hbook, hpair⟩ := Option.map_eq_some_iff.mp hwant
      obtain ⟨rfl, rfl⟩ := Prod.mk.inj hpair
      rw [hbook]
      exact hserve h
  | bookPage hash n oneBased thumbnailPref =>
    cases thumbnailPref with
    | none => simp [wanted] at hwanted
    | some requested =>
      obtain ⟨book, hbook, hwant⟩ := Option.bind_eq_some_iff.mp hwanted
      rw [handle, bookPage, hbook]
      dsimp only at hwant ⊢
      generalize (if oneBased = true then n - 1 else n) = index at hwant ⊢
      split at hwant
      · simp at hwant
      · next hindex =>
        obtain ⟨rfl, rfl⟩ := Prod.mk.inj (Option.some.inj hwant)
        dsimp only [State.thumbAt] at h
        rw [if_neg hindex, h]
        rfl
  | opdsRoot => simp [wanted] at hwanted
  | opdsFolder slug => simp [wanted] at hwanted
  | opdsSearch q => simp [wanted] at hwanted
  | bookCover hash => simp [wanted] at hwanted
  | bookFile hash => simp [wanted] at hwanted

/-- **Generated thumbnails.** After a scan that generates thumbnails, there are those that were there,
and every one that can be made from the archive of a row, whatever else fails. From then on, whatever
happens to the library and the catalog, a request that would have to wait for a thumbnail that is
there is answered with it, and changes nothing. -/
theorem prewarm_serves {started : ℕ} {faults : OsPath → Bool} {walk : Walk}
    (hprewarm : config.prewarmThumbnails = true)
    (hwalk : (scanOf config crates state started faults).complete crates.xxh3 state.db = some walk) :
    (∀ slot, (scanned config crates state started faults).thumbAt slot =
      (state.thumbAt slot).or
        (walk.db.books.findSome? (generated config crates state.fs slot))) ∧
    ∀ slot thumb, (scanned config crates state started faults).thumbAt slot = some thumb →
      ∀ events request path,
        wanted config (run (step config crates) (scanned config crates state started faults) events)
          request = some (slot, path) →
        handle config crates
          (run (step config crates) (scanned config crates state started faults) events) request =
            (.content thumb jpeg,
              run (step config crates) (scanned config crates state started faults) events) := by
  constructor
  · intro slot
    rw [scanned, hwalk]
    dsimp only
    rw [if_pos hprewarm, thumbAt_prewarm, thumbAt_withDb]
  · intro slot thumb hthumb events request path hwanted
    exact handle_of_thumbAt hwanted (thumbsKept_run events slot thumb hthumb)

/-- The configuration of a server that generates thumbnails. -/
def Config.prewarming : Config := { Config.sample with prewarmThumbnails := true }

/-- A server that has generated the thumbnails of a library with one archive. -/
abbrev prewarmed : State :=
  scanned Config.prewarming Crates.replaced (State.start Config.prewarming (archiveFs darkZip)) 10
    fun _ ↦ false

/-- The thumbnail is served after the archive is gone. -/
theorem prewarm_serves_dark :
    ∃ thumb, handle Config.prewarming Crates.replaced
      (run (step Config.prewarming Crates.replaced) prewarmed [.change (zippedFs (ascii "b"))])
        (.bookThumbnail darkHash) = (.content thumb jpeg,
      run (step Config.prewarming Crates.replaced) prewarmed [.change (zippedFs (ascii "b"))]) := by
  have hcomplete : ((scanOf Config.prewarming Crates.replaced
      (State.start Config.prewarming (archiveFs darkZip)) 10 fun _ ↦ false).complete
        Crates.replaced.xxh3 Db.empty).isSome := by decide
  obtain ⟨walk, hwalk⟩ := Option.isSome_iff_exists.mp hcomplete
  have hthere : (prewarmed.thumbAt (.cover darkHash)).isSome := by decide +kernel
  obtain ⟨thumb, hthumb⟩ := Option.isSome_iff_exists.mp hthere
  have hslot : (wanted Config.prewarming (run (step Config.prewarming Crates.replaced) prewarmed
      [.change (zippedFs (ascii "b"))]) (.bookThumbnail darkHash)).map Prod.fst =
        some (.cover darkHash) := by decide +kernel
  obtain ⟨⟨slot, path⟩, hwanted, rfl⟩ := Option.map_eq_some_iff.mp hslot
  exact ⟨thumb, (prewarm_serves rfl hwalk).2 _ thumb hthumb _ _ path hwanted⟩

end ComicStream.Server
