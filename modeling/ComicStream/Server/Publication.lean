import ComicStream.Foundation.Publish
import ComicStream.Rust.PathBuf
import ComicStream.Server.Thumbnails

/-!
# How thumbnails get into the cache

The calls of `ensure_thumbnail` and `ensure_page_thumbnail` take turns at the file
system. The steps of a call are `exists`, what `write_resized` does before there is
a file, `File::create`, `write_all`, `sync_all` and `rename`, and the `remove_file`
of a dropped `TmpGuard`, whose result is ignored.
-/

namespace ComicStream.Server

open Rust Inodes

/-- `cache_path`. -/
def cachePath (dataDir : OsPath) (hash : List Char) : OsPath :=
  (dataDir.join (ascii "thumbs")).join (utf8 hash ++ ascii ".jpg")

/-- `page_thumb_path`. -/
def pageThumbPath (dataDir : OsPath) (hash : List Char) (pageIndex width : ℕ) : OsPath :=
  ((dataDir.join (ascii "page_thumbs")).join (utf8 hash)).join
    (utf8 (decimal pageIndex ++ '_' :: decimal width) ++ ascii ".jpg")

def Slot.path (dataDir : OsPath) : Slot → OsPath
  | .cover hash => cachePath dataDir hash
  | .page hash index width => pageThumbPath dataDir hash index width

/-- `tmp_path_for`, after so many calls of it. `COUNTER` starts again at zero when it overflows. -/
def tmpPathFor (pid count : ℕ) (out : OsPath) : OsPath :=
  out.withFileName (out.fileName.getD [] ++ ascii ".tmp." ++ utf8 (decimal pid) ++
    dot :: utf8 (decimal (UInt64.ofNat count).toNat))

example : tmpPathFor 7 3 (cachePath [ascii "data"] "ab".toList) =
    [ascii "data", ascii "thumbs", ascii "ab.jpg.tmp.7.3"] := by decide

theorem Slot.exists_path_eq (dataDir : OsPath) (slot : Slot) :
    ∃ front last, slot.path dataDir = front ++ [last ++ ascii ".jpg"] := by
  cases slot with
  | cover hash => exact OsPath.join_append _ _ (by decide) (by decide)
  | page hash index width => exact OsPath.join_append _ _ (by decide) (by decide)

theorem tmpPathFor_append (pid count : ℕ) (front : OsPath) (last : OsName) :
    tmpPathFor pid count (front ++ [last ++ ascii ".jpg"]) =
      front ++ [last ++ ascii ".jpg" ++ ascii ".tmp." ++ utf8 (decimal pid) ++
        dot :: utf8 (decimal (UInt64.ofNat count).toNat)] := by
  have hne : last ++ ascii ".jpg" ≠ [dot, dot] := by
    intro heq
    have hlength := congrArg List.length heq
    simp [show (ascii ".jpg").length = 4 by decide] at hlength
  rw [tmpPathFor, OsPath.withFileName_append hne, OsPath.fileName_append hne, Option.getD_some]

/-- The process, its data directory, and where a directory's path leads. -/
structure Host (Dir : Type) where
  pid : ℕ
  dataDir : OsPath
  locate : OsPath → Dir

variable {Dir : Type} (host : Host Dir)

/-- The directory that a path is in, and the name it has there. -/
def Host.entry (path : OsPath) : Dir × OsName :=
  (host.locate path.dropLast, path.getLast?.getD [])

theorem Host.entry_append (front : OsPath) (name : OsName) :
    host.entry (front ++ [name]) = (host.locate front, name) := by
  simp [entry]

/-- The file that a slot is. -/
def Host.final (slot : Slot) : Dir × OsName := host.entry (slot.path host.dataDir)

/-- The temporary file of a call for this slot. -/
def Host.temp (slot : Slot) (count : ℕ) : Dir × OsName :=
  host.entry (tmpPathFor host.pid count (slot.path host.dataDir))

theorem append_decimal_ne (first last : OsName) (n : ℕ) :
    first ++ dot :: utf8 (decimal n) ≠ last ++ ascii ".jpg" := by
  intro heq
  have hlast : (first ++ dot :: utf8 (decimal n)).getLast? = some 103 := by
    rw [heq, List.getLast?_append]
    rfl
  have hne : utf8 (decimal n) ≠ [] := fun hnil ↦
    (isDecimal_decimal n).ne_nil (utf8_injective hnil)
  rw [List.getLast?_append, List.getLast?_cons, List.getLast?_eq_some_getLast hne] at hlast
  have hbyte : (utf8 (decimal n)).getLast hne = 103 := by simpa using hlast
  have hrange := mem_utf8_decimal (List.getLast_mem hne)
  rw [hbyte] at hrange
  exact absurd hrange.2 (by decide)

theorem Host.temp_ne_final (slot other : Slot) (count : ℕ) :
    host.temp slot count ≠ host.final other := by
  obtain ⟨front, last, hpath⟩ := slot.exists_path_eq host.dataDir
  obtain ⟨front', last', hpath'⟩ := other.exists_path_eq host.dataDir
  rw [temp, final, hpath, hpath', tmpPathFor_append, entry_append, entry_append]
  intro heq
  exact append_decimal_ne _ _ _ (Prod.mk.inj heq).2

/-- Under one process id, the number can be read off the name. -/
theorem Host.count_eq_of_temp_eq {slot other : Slot} {first second : ℕ} (hfirst : first < 2 ^ 64)
    (hsecond : second < 2 ^ 64) (h : host.temp slot first = host.temp other second) :
    first = second := by
  obtain ⟨front, last, hpath⟩ := slot.exists_path_eq host.dataDir
  obtain ⟨front', last', hpath'⟩ := other.exists_path_eq host.dataDir
  rw [temp, temp, hpath, hpath', tmpPathFor_append, tmpPathFor_append, entry_append,
    entry_append] at h
  have hnumber := (append_dot_decimal_inj (Prod.mk.inj h).2).2
  rwa [UInt64.toNat_ofNat_of_lt' hfirst, UInt64.toNat_ofNat_of_lt' hsecond] at hnumber

/-- The hash is one name of a path, as hexadecimal digits are. -/
def Slot.IsPlain (slot : Slot) : Prop :=
  slash ∉ utf8 slot.hash ∧ utf8 slot.hash ≠ [] ∧ utf8 slot.hash ≠ [dot]

theorem slash_notMem_append {raw : List UInt8} (h : slash ∉ raw) :
    slash ∉ raw ++ ascii ".jpg" := by
  rw [List.mem_append, not_or]
  exact ⟨h, by decide⟩

theorem cachePath_eq (dataDir : OsPath) {hash : List Char} (h : (Slot.cover hash).IsPlain) :
    cachePath dataDir hash = dataDir ++ [ascii "thumbs"] ++ [utf8 hash ++ ascii ".jpg"] := by
  obtain ⟨hne, hdot⟩ := @append_ne_of_length (utf8 hash) (ascii ".jpg") (by decide)
  have hslash : slash ∉ utf8 hash := h.1
  rw [cachePath, OsPath.join_of_notMem _ (slash_notMem_append hslash) hne hdot,
    OsPath.join_of_notMem _ (by decide) (by decide) (by decide)]

theorem pageThumbPath_eq (dataDir : OsPath) {hash : List Char} {index width : ℕ}
    (h : (Slot.page hash index width).IsPlain) :
    pageThumbPath dataDir hash index width = dataDir ++ [ascii "page_thumbs"] ++ [utf8 hash] ++
      [utf8 (decimal index ++ '_' :: decimal width) ++ ascii ".jpg"] := by
  have hnumbers : slash ∉ utf8 (decimal index ++ '_' :: decimal width) := by
    have hslash (n : ℕ) : slash ∉ utf8 (decimal n) := by
      intro hmem
      have hrange := mem_utf8_decimal hmem
      simp [slash] at hrange
    rw [utf8_append, utf8_cons, List.mem_append, List.mem_append]
    simp only [not_or]
    exact ⟨hslash index, by decide, hslash width⟩
  obtain ⟨hne, hdot⟩ := @append_ne_of_length (utf8 (decimal index ++ '_' :: decimal width))
    (ascii ".jpg") (by decide)
  obtain ⟨hslash, hempty, hsingle⟩ : slash ∉ utf8 hash ∧ utf8 hash ≠ [] ∧ utf8 hash ≠ [dot] := h
  rw [pageThumbPath, OsPath.join_of_notMem _ (slash_notMem_append hnumbers) hne hdot,
    OsPath.join_of_notMem _ hslash hempty hsingle,
    OsPath.join_of_notMem _ (by decide) (by decide) (by decide)]

theorem Slot.pageThumbs_prefix_iff (dataDir : OsPath) {slot : Slot} (h : slot.IsPlain) :
    dataDir ++ [ascii "page_thumbs"] <+: slot.path dataDir ↔
      ∃ index width, slot = .page slot.hash index width := by
  cases slot with
  | cover hash =>
    rw [path, cachePath_eq dataDir h, List.append_assoc, List.prefix_append_right_inj]
    refine iff_of_false (fun hprefix ↦ ?_) (by simp)
    exact absurd (List.cons_prefix_cons.mp hprefix).1 (by decide)
  | page hash index width =>
    rw [path, pageThumbPath_eq dataDir h, List.append_assoc]
    exact iff_of_true (List.prefix_append _ _) ⟨index, width, rfl⟩

theorem Host.final_cover {hash : List Char} (h : (Slot.cover hash).IsPlain) :
    host.final (.cover hash) =
      (host.locate (host.dataDir ++ [ascii "thumbs"]), utf8 hash ++ ascii ".jpg") := by
  rw [final, Slot.path, cachePath_eq _ h, entry_append]

theorem Host.final_page {hash : List Char} {index width : ℕ}
    (h : (Slot.page hash index width).IsPlain) :
    host.final (.page hash index width) =
      (host.locate (host.dataDir ++ [ascii "page_thumbs"] ++ [utf8 hash]),
        utf8 (decimal index ++ '_' :: decimal width) ++ ascii ".jpg") := by
  rw [final, Slot.path, pageThumbPath_eq _ h, entry_append]

/-- Where no two directories are one, no two slots are one file. -/
theorem Host.final_injOn (hlocate : Function.Injective host.locate) :
    Set.InjOn host.final {slot | slot.IsPlain} := by
  intro first hfirst second hsecond h
  cases first with
  | cover hash =>
    cases second with
    | cover other =>
      rw [final_cover _ hfirst, final_cover _ hsecond] at h
      rw [utf8_injective (List.append_cancel_right (Prod.mk.inj h).2)]
    | page other index width =>
      rw [final_cover _ hfirst, final_page _ hsecond] at h
      have hdir := congrArg List.length (hlocate (Prod.mk.inj h).1)
      simp at hdir
  | page hash index width =>
    cases second with
    | cover other =>
      rw [final_page _ hfirst, final_cover _ hsecond] at h
      have hdir := congrArg List.length (hlocate (Prod.mk.inj h).1)
      simp at hdir
    | page other place size =>
      rw [final_page _ hfirst, final_page _ hsecond] at h
      obtain ⟨hdir, hname⟩ := Prod.mk.inj h
      have hhash := List.append_cancel_left (hlocate hdir)
      have hunderscore (n : ℕ) : '_' ∉ decimal n := fun hmem ↦
        absurd ((isDecimal_decimal n).isDigit _ hmem) (by decide)
      obtain ⟨hindex, hwidth⟩ := append_cons_inj (hunderscore index) (hunderscore place)
        (utf8_injective (List.append_cancel_right hname))
      rw [utf8_injective (List.singleton_injective hhash), decimal_injective hindex,
        decimal_injective hwidth]

/-! ## Calls -/

/-- `ensure_thumbnail` and `ensure_page_thumbnail`, which a slot tells apart. -/
def Host.ensure (crates : Crates) :
    Publish.Protocol (Dir × OsName) Slot (Sourced (List UInt8)) UInt8 where
  final := host.final
  temp := host.temp
  prepare slot source := (writeResized crates source slot.width).map (·.value)
  period := 2 ^ 64
  temp_ne_final slot count other := host.temp_ne_final slot other count
  number_eq := host.count_eq_of_temp_eq

variable [DecidableEq Dir]

section Runs

variable (crates : Crates)

/-- The system after these actions, from an empty cache on. -/
def Host.run (actions : List (Publish.Action Slot (Sourced (List UInt8)))) :
    Publish.System (Dir × OsName) Slot (Sourced (List UInt8)) UInt8 :=
  Machine.run (Publish.System.step (host.ensure crates)) .empty actions

/-- Between two restarts, `tmp_path_for` is called at most as many times as `COUNTER` has values. -/
def Host.Unrepeated (actions : List (Publish.Action Slot (Sourced (List UInt8)))) : Prop :=
  Machine.Allowed (Publish.System.step (host.ensure crates))
    (Publish.System.InPeriod (host.ensure crates)) .empty actions

instance (actions : List (Publish.Action Slot (Sourced (List UInt8)))) :
    Decidable (host.Unrepeated crates actions) :=
  inferInstanceAs (Decidable (Machine.Allowed _ _ _ _))

end Runs

variable {host} {crates : Crates} {actions : List (Publish.Action Slot (Sourced (List UInt8)))}

theorem Host.exists_start_of_read (h : host.Unrepeated crates actions) {slot : Slot}
    {content : List UInt8}
    (hread : (host.run crates actions).files.read (host.final slot) = some content) :
    ∃ other source thumb, Publish.Action.start other source ∈ actions ∧
      host.final other = host.final slot ∧
      writeResized crates source other.width = some thumb ∧ thumb.value = content := by
  obtain ⟨call, hcall, hfinal, hprepare⟩ := (Publish.System.sound_run h).whole hread
  obtain ⟨thumb, hthumb, hvalue⟩ := Option.map_eq_some_iff.mp hprepare
  exact ⟨call.dest, call.input, thumb, Publish.System.start_mem call hcall, hfinal, hthumb, hvalue⟩

/-- **Atomic publication of thumbnails.** -/
theorem thumbnails_published (h : host.Unrepeated crates actions) :
    (∀ slot content, (host.run crates actions).files.read (host.final slot) = some content →
      ∃ other source thumb, Publish.Action.start other source ∈ actions ∧
        host.final other = host.final slot ∧
        writeResized crates source other.width = some thumb ∧ thumb.value = content) ∧
    ∀ before index move after, actions = before ++ .advance index move :: after →
      (∀ call temp, (host.run crates actions).calls[index]? = some call →
        call.stage = .failed temp → ∀ slot,
          (host.run crates before).files.Untouched
            (host.run crates (before ++ [.advance index move])).files (host.final slot)) ∧
      (∀ temp, (host.run crates before).ReturnsError
        (host.run crates (before ++ [.advance index move])) index temp → move ≠ .fail →
          ∀ name ∈ temp,
            (host.run crates (before ++ [.advance index move])).files.read name = none) ∧
      ∀ other call, (host.run crates before).calls[other]? = some call → other ≠ index →
        ∀ name ∈ call.stage.temp, (host.run crates before).files.Untouched
          (host.run crates (before ++ [.advance index move])).files name := by
  refine ⟨fun slot content hread ↦ Host.exists_start_of_read h hread, ?_⟩
  intro before index move after hactions
  have hbefore : host.Unrepeated crates before := by
    rw [hactions] at h
    exact (Machine.allowed_append.mp h).1
  have hsound := Publish.System.sound_run hbefore
  have hstep : host.run crates (before ++ [.advance index move]) =
      (host.run crates before).step (host.ensure crates) (.advance index move) :=
    Machine.run_snoc ..
  rw [hstep]
  refine ⟨fun call temp hcall hfailed slot ↦ ?_, fun temp hreturns hmove ↦ ?_,
    fun other call hcall hother ↦ ?_⟩
  · rcases hsound.read_final_step (.advance index move) slot with
      hsame | ⟨place, _, found, -, haction, -, hpublished, -, -, -⟩
    · exact hsame
    · obtain ⟨rfl, -⟩ := Publish.Action.advance.inj haction
      have hrun : host.run crates actions = Machine.run (Publish.System.step (host.ensure crates))
          ((host.run crates before).step (host.ensure crates) (.advance index move)) after := by
        rw [hactions, Host.run, Machine.run_append]
        rfl
      have hlast : (host.run crates actions).calls[index]? =
          some { found with stage := .published } := by
        rw [hrun]
        exact Publish.System.getElem?_run_of_published hpublished rfl after
      rw [Option.some.inj (hcall.symm.trans hlast)] at hfailed
      simp at hfailed
  · exact Publish.System.read_of_returnsError hreturns hmove
  · exact hsound.untouched_step index move hcall hother

/-- A call up to the name of its temporary file. -/
def namedCall (slot : Slot) (source : Sourced (List UInt8)) (index : ℕ) :
    List (Publish.Action Slot (Sourced (List UInt8))) :=
  [.start slot source, .advance index .succeed, .advance index .succeed]

/-- A process with the id 7 and the data directory `/data`. -/
def Host.sample : Host OsPath := ⟨7, [ascii "data"], id⟩

/-- The temporary file of a call for the cover of the dark archive, the first of its process. -/
def firstTemp : OsPath × OsName := Host.sample.temp (.cover darkHash) 0

/-- Two calls write for one cover at once; one fails and the other publishes. After a restart, a
third finds the cover. -/
def sharedActions : List (Publish.Action Slot (Sourced (List UInt8))) :=
  namedCall (.cover darkHash) ⟨jpegOf 43, []⟩ 0 ++ namedCall (.cover darkHash) ⟨jpegOf 90, []⟩ 1 ++
    [.advance 0 .succeed, .advance 1 .succeed, .advance 0 (.write 5), .advance 1 .succeed,
      .advance 0 .fail, .advance 1 .succeed, .advance 1 .succeed, .advance 0 .succeed, .restart] ++
    namedCall (.cover darkHash) ⟨jpegOf 43, []⟩ 2

theorem thumbnails_published_shared :
    (Host.sample.run Crates.replaced sharedActions).files.read
        (Host.sample.final (.cover darkHash)) = some (jpegOf 90) ∧
    (∃ other source thumb, Publish.Action.start other source ∈ sharedActions ∧
      Host.sample.final other = Host.sample.final (.cover darkHash) ∧
      writeResized Crates.replaced source other.width = some thumb ∧ thumb.value = jpegOf 90) ∧
    (Host.sample.run Crates.replaced (sharedActions.take 13)).files.read firstTemp =
      some [255, 216, 255, 224, 0] ∧
    (Host.sample.run Crates.replaced (sharedActions.take 13 ++
      [.advance 0 .succeed])).files.read firstTemp = none := by
  have hpublished := @thumbnails_published _ Host.sample _ Crates.replaced sharedActions
    (by decide +kernel)
  have hread : (Host.sample.run Crates.replaced sharedActions).files.read
      (Host.sample.final (.cover darkHash)) = some (jpegOf 90) := by
    decide +kernel
  refine ⟨hread, hpublished.1 _ _ hread, by decide +kernel, ?_⟩
  exact (hpublished.2 (sharedActions.take 13) 0 .succeed (sharedActions.drop 14) rfl).2.1
    (some firstTemp) (by decide +kernel) (by decide) firstTemp rfl

/-- The server's cache has in each slot what its file holds. -/
def Host.Caches (host : Host Dir) (state : State) (files : Files (Dir × OsName) UInt8) : Prop :=
  ∀ slot, slot.IsPlain → (state.thumbAt slot).map (·.value) = files.read (host.final slot)

/-- To the server, a step of a call stores a thumbnail or does nothing. -/
theorem Host.caches_step (hlocate : Function.Injective host.locate)
    (h : host.Unrepeated crates actions)
    (hplain : ∀ slot source, Publish.Action.start slot source ∈ actions → slot.IsPlain)
    {state : State} (hstate : host.Caches state (host.run crates actions).files)
    (action : Publish.Action Slot (Sourced (List UInt8))) :
    host.Caches state (host.run crates (actions ++ [action])).files ∨
    ∃ slot source thumb, Publish.Action.start slot source ∈ actions ∧
      writeResized crates source slot.width = some thumb ∧
      host.Caches (state.store thumb slot) (host.run crates (actions ++ [action])).files := by
  have hsound := Publish.System.sound_run h
  have hstep : host.run crates (actions ++ [action]) =
      (host.run crates actions).step (host.ensure crates) action :=
    Machine.run_snoc ..
  rw [hstep]
  by_cases hsame : ∀ slot, (host.run crates actions).files.Untouched
      ((host.run crates actions).step (host.ensure crates) action).files (host.final slot)
  · exact Or.inl fun slot hslot ↦ (hstate slot hslot).trans (hsame slot).2.symm
  · obtain ⟨changed, hchanged⟩ := not_forall.mp hsame
    rcases hsound.read_final_step action changed with
      huntouched | ⟨index, move, call, content, rfl, hcall, -, hfinal, hprepare, hread⟩
    · exact absurd huntouched hchanged
    · have hstart := Publish.System.start_mem call (List.mem_of_getElem? hcall)
      obtain ⟨thumb, hthumb, rfl⟩ := Option.map_eq_some_iff.mp hprepare
      refine Or.inr ⟨call.dest, call.input, thumb, hstart, hthumb, fun slot hslot ↦ ?_⟩
      rw [State.thumbAt_store]
      split
      · next heq =>
        rw [heq, Option.map_some]
        exact (hfinal ▸ hread).symm
      · next hne =>
        rw [hstate slot hslot]
        rcases hsound.read_final_step (.advance index move) slot with
          huntouched | ⟨place, _, other, _, haction, hother, -, hotherFinal, -, -⟩
        · exact huntouched.2.symm
        · obtain ⟨rfl, -⟩ := Publish.Action.advance.inj haction
          rw [Option.some.inj (hother.symm.trans hcall)] at hotherFinal
          exact absurd (Host.final_injOn host hlocate (hplain _ _ hstart) hslot hotherFinal).symm hne

/-- A step of the cache that stores a thumbnail or does nothing. -/
def State.storeSome (state : State) (stored : Option (Slot × Sourced (List UInt8))) : State :=
  stored.elim state fun item ↦ state.store item.2 item.1

/-- **Publication refines the cache.** Step by step, in every interleaving of the calls, with steps
that fail and restarts, the files of the cache hold what a cache holds that starts empty and in
which each step stores a whole thumbnail at once, one that some call was started for before, or does
nothing. -/
theorem publication_refines (hlocate : Function.Injective host.locate)
    (h : host.Unrepeated crates actions)
    (hplain : ∀ slot source, Publish.Action.start slot source ∈ actions → slot.IsPlain)
    {state : State} (hstate : ∀ slot, state.thumbAt slot = none) :
    ∃ stores : List (Option (Slot × Sourced (List UInt8))), stores.length = actions.length ∧
      (∀ n item, stores[n]? = some (some item) →
        ∃ source, Publish.Action.start item.1 source ∈ actions.take n ∧
          writeResized crates source item.1.width = some item.2) ∧
      ∀ n, host.Caches ((stores.take n).foldl State.storeSome state)
        (host.run crates (actions.take n)).files := by
  induction actions using List.reverseRecOn with
  | nil =>
    refine ⟨[], rfl, by simp, fun n slot _ ↦ ?_⟩
    rw [List.take_nil, List.take_nil, List.foldl_nil, hstate slot]
    rfl
  | append_singleton actions action ih =>
    have hbefore : host.Unrepeated crates actions := (Machine.allowed_append.mp h).1
    have hplainBefore (slot : Slot) (source : Sourced (List UInt8))
        (hmem : Publish.Action.start slot source ∈ actions) : slot.IsPlain :=
      hplain slot source (List.mem_append_left _ hmem)
    obtain ⟨stores, hlength, hstores, hcaches⟩ := ih hbefore hplainBefore
    have hlast : host.Caches (stores.foldl State.storeSome state) (host.run crates actions).files := by
      have htake := hcaches actions.length
      rwa [List.take_length, ← hlength, List.take_length] at htake
    obtain ⟨stored, hstored, hnext⟩ : ∃ stored : Option (Slot × Sourced (List UInt8)),
        (∀ item ∈ stored, ∃ source, Publish.Action.start item.1 source ∈ actions ∧
          writeResized crates source item.1.width = some item.2) ∧
        host.Caches ((stores.foldl State.storeSome state).storeSome stored)
          (host.run crates (actions ++ [action])).files := by
      rcases host.caches_step hlocate hbefore hplainBefore hlast action with
        hnext | ⟨slot, source, thumb, hstart, hthumb, hnext⟩
      · exact ⟨none, by simp, hnext⟩
      · refine ⟨some (slot, thumb), fun item hitem ↦ ?_, hnext⟩
        obtain rfl := Option.mem_some.mp hitem
        exact ⟨source, hstart, hthumb⟩
    refine ⟨stores ++ [stored], by simp [hlength], fun n item hitem ↦ ?_, fun n ↦ ?_⟩
    · rcases Nat.lt_trichotomy n stores.length with hlt | rfl | hgt
      · rw [List.getElem?_append_left hlt] at hitem
        rw [List.take_append_of_le_length (hlength ▸ hlt.le)]
        exact hstores n item hitem
      · rw [List.getElem?_concat_length] at hitem
        rw [hlength, List.take_left]
        exact hstored item (Option.some.inj hitem)
      · rw [List.getElem?_eq_none (by simpa using Nat.succ_le_of_lt hgt)] at hitem
        exact absurd hitem.symm (Option.some_ne_none _)
    · rcases Nat.lt_or_ge actions.length n with hlt | hle
      · rw [List.take_of_length_le (by simp [hlength]; omega),
          List.take_of_length_le (by simp; omega), List.foldl_append]
        exact hnext
      · rw [List.take_append_of_le_length (hlength ▸ hle), List.take_append_of_le_length hle]
        exact hcaches n

/-- The files of the two calls that share a cover, after the first of them has failed and the other
has published. -/
theorem publication_refines_shared :
    ∃ state : State, (state.thumbAt (.cover darkHash)).map (·.value) = some (jpegOf 90) ∧
      Host.sample.Caches state (Host.sample.run Crates.replaced sharedActions).files := by
  have hplain (slot : Slot) (source : Sourced (List UInt8))
      (hmem : Publish.Action.start slot source ∈ sharedActions) : slot.IsPlain := by
    have hslot : slot = .cover darkHash := by
      simp only [sharedActions, namedCall, List.mem_append, List.mem_cons, List.not_mem_nil,
        Publish.Action.start.injEq, reduceCtorEq, or_false] at hmem
      rcases hmem with (⟨rfl, -⟩ | ⟨rfl, -⟩) | ⟨rfl, -⟩ <;> rfl
    rw [hslot]
    exact ⟨by decide, by decide, by decide⟩
  have hempty (slot : Slot) :
      (State.start Config.sample (archiveFs darkZip)).thumbAt slot = none := by
    cases slot <;> rfl
  obtain ⟨stores, -, -, hcaches⟩ := @publication_refines _ Host.sample _ Crates.replaced sharedActions
    Function.injective_id (by decide +kernel) hplain
    (State.start Config.sample (archiveFs darkZip)) hempty
  have hlast := hcaches sharedActions.length
  rw [List.take_length] at hlast
  refine ⟨_, ?_, hlast⟩
  rw [hlast (.cover darkHash) ⟨by decide, by decide, by decide⟩]
  decide +kernel

/-- So many calls one after the other that can neither create nor remove their files. -/
def failedCalls (slot : Slot) (source : Sourced (List UInt8)) (index : ℕ) :
    ℕ → List (Publish.Action Slot (Sourced (List UInt8)))
  | 0 => []
  | count + 1 =>
    namedCall slot source index ++ [.advance index .fail, .advance index .fail] ++
      failedCalls slot source (index + 1) count

section Overflow

variable {files : Files (Dir × OsName) UInt8}
  {calls : List (Publish.Call (Dir × OsName) Slot (Sourced (List UInt8)) UInt8)} {count : ℕ}
  {slot : Slot} {source thumb : Sourced (List UInt8)}

theorem run_namedCall (hread : files.read (host.final slot) = none)
    (hthumb : writeResized crates source slot.width = some thumb) :
    Machine.run (Publish.System.step (host.ensure crates)) ⟨files, calls, count⟩
        (namedCall slot source calls.length) =
      ⟨files, calls ++ [⟨slot, source, .create (host.temp slot count) thumb.value⟩],
        count + 1⟩ := by
  have hprepare : (host.ensure crates).prepare slot source = some thumb.value := by
    change (writeResized crates source slot.width).map (·.value) = _
    rw [hthumb, Option.map_some]
  have hfinal : files.read ((host.ensure crates).final slot) = none := hread
  have hstart : Publish.System.step (host.ensure crates) ⟨files, calls, count⟩
      (.start slot source) = ⟨files, calls ++ [⟨slot, source, .check⟩], count⟩ := rfl
  rw [namedCall, Machine.run_cons, hstart]
  simp only [Machine.run_cons, Machine.run_nil, Publish.System.step_concat, Publish.Call.advance,
    Publish.Call.succeed, hfinal, hprepare]
  rfl

theorem run_failedCalls (hread : files.read (host.final slot) = none)
    (hthumb : writeResized crates source slot.width = some thumb) (n : ℕ) :
    ∃ later, later.length = n ∧
      Machine.run (Publish.System.step (host.ensure crates)) ⟨files, calls, count⟩
          (failedCalls slot source calls.length n) = ⟨files, calls ++ later, count + n⟩ := by
  induction n generalizing calls count with
  | zero => exact ⟨[], rfl, by rw [List.append_nil]; rfl⟩
  | succ n ih =>
    obtain ⟨later, hlength, hrun⟩ := @ih
      (calls ++ [⟨slot, source, .failed (some (host.temp slot count))⟩]) (count + 1)
    refine ⟨⟨slot, source, .failed (some (host.temp slot count))⟩ :: later,
      by rw [List.length_cons, hlength], ?_⟩
    rw [List.length_append, List.length_singleton] at hrun
    calc
      Machine.run (Publish.System.step (host.ensure crates)) ⟨files, calls, count⟩
            (failedCalls slot source calls.length (n + 1)) =
          Machine.run (Publish.System.step (host.ensure crates))
            ⟨files, calls ++ [⟨slot, source, .failed (some (host.temp slot count))⟩], count + 1⟩
            (failedCalls slot source (calls.length + 1) n) := by
        rw [failedCalls, Machine.run_append, Machine.run_append, run_namedCall hread hthumb,
          Machine.run_cons, Publish.System.step_concat, Machine.run_cons,
          Publish.System.step_concat, Machine.run_nil]
        rfl
      _ = ⟨files, calls ++ [⟨slot, source, .failed (some (host.temp slot count))⟩] ++ later,
            count + 1 + n⟩ := hrun
      _ = ⟨files, calls ++ ⟨slot, source, .failed (some (host.temp slot count))⟩ :: later,
            count + (n + 1)⟩ := by
        rw [List.append_assoc, List.singleton_append, Nat.add_assoc, Nat.add_comm 1 n]

theorem run_failedCalls_namedCall (hread : files.read (host.final slot) = none)
    (hthumb : writeResized crates source slot.width = some thumb) (n : ℕ) :
    ∃ later, later.length = n ∧
      Machine.run (Publish.System.step (host.ensure crates)) ⟨files, calls, count⟩
          (failedCalls slot source calls.length n ++ namedCall slot source (calls.length + n)) =
        ⟨files, calls ++ later ++ [⟨slot, source, .create (host.temp slot (count + n)) thumb.value⟩],
          count + n + 1⟩ := by
  obtain ⟨later, hlength, hrun⟩ := @run_failedCalls _ host _ crates files calls count slot source
    thumb hread hthumb n
  refine ⟨later, hlength, ?_⟩
  rw [Machine.run_append, hrun, ← hlength, ← List.length_append, run_namedCall hread hthumb]

end Overflow

/-- A call for the cover of the dark archive has written five bytes. -/
def writingActions : List (Publish.Action Slot (Sourced (List UInt8))) :=
  namedCall (.cover darkHash) ⟨jpegOf 43, []⟩ 0 ++ [.advance 0 .succeed, .advance 0 (.write 5)]

/-- So many calls have failed since, and one more is about to create its file. -/
def overflowingActions : List (Publish.Action Slot (Sourced (List UInt8))) :=
  writingActions ++ (failedCalls (.cover darkHash) ⟨jpegOf 43, []⟩ 1 (2 ^ 64 - 1) ++
    namedCall (.cover darkHash) ⟨jpegOf 43, []⟩ (2 ^ 64))

theorem temp_period : Host.sample.temp (.cover darkHash) (1 + (2 ^ 64 - 1)) = firstTemp := by
  have hcounter : UInt64.ofNat (1 + (2 ^ 64 - 1)) = UInt64.ofNat 0 := by decide
  rw [firstTemp, Host.temp, Host.temp, tmpPathFor, hcounter, tmpPathFor]

/-- The first call, when it has written five bytes. -/
def firstCall : Publish.Call (OsPath × OsName) Slot (Sourced (List UInt8)) UInt8 :=
  ⟨.cover darkHash, ⟨jpegOf 43, []⟩, .write firstTemp 0 5 ((jpegOf 43).drop 5)⟩

theorem run_writingActions :
    ∃ files : Files (OsPath × OsName) UInt8,
      Host.sample.run Crates.replaced writingActions = ⟨files, [firstCall], 1⟩ ∧
      files.read firstTemp = some [255, 216, 255, 224, 0] ∧
      files.read (Host.sample.final (.cover darkHash)) = none := by
  have hcalls : (Host.sample.run Crates.replaced writingActions).calls = [firstCall] := by
    decide +kernel
  have hcount : (Host.sample.run Crates.replaced writingActions).count = 1 := by
    decide +kernel
  refine ⟨(Host.sample.run Crates.replaced writingActions).files, ?_, by decide +kernel,
    by decide +kernel⟩
  rw [← hcalls, ← hcount]

/-- The first call is still under way when another is about to create a file of the same name. -/
theorem run_overflowingActions :
    ∃ (files : Files (OsPath × OsName) UInt8)
      (calls : List (Publish.Call (OsPath × OsName) Slot (Sourced (List UInt8)) UInt8))
      (count : ℕ), calls.length = 2 ^ 64 ∧ calls[0]? = some firstCall ∧
      Host.sample.run Crates.replaced overflowingActions =
        ⟨files, calls ++ [⟨.cover darkHash, ⟨jpegOf 43, []⟩, .create firstTemp (jpegOf 43)⟩],
          count⟩ ∧
      files.read firstTemp = some [255, 216, 255, 224, 0] := by
  obtain ⟨files, hwriting, hread, hfinal⟩ := run_writingActions
  have hthumb : writeResized Crates.replaced ⟨jpegOf 43, []⟩ (Slot.cover darkHash).width =
      some ⟨jpegOf 43, []⟩ := by
    decide +kernel
  obtain ⟨later, hlength, hlater⟩ := @run_failedCalls_namedCall _ Host.sample _ Crates.replaced
    files [firstCall] 1 (.cover darkHash) _ _ hfinal hthumb (2 ^ 64 - 1)
  rw [temp_period] at hlater
  refine ⟨files, [firstCall] ++ later, 1 + (2 ^ 64 - 1) + 1, ?_, rfl, ?_, hread⟩
  · rw [List.length_append, hlength, List.length_singleton]
    rfl
  · rw [Host.run] at hwriting
    rw [overflowingActions, Host.run, Machine.run_append, hwriting]
    exact hlater

/-- A call whose write and whose removal fail leaves its temporary file, and the first call to
get a number a second time empties the file of the call that got it first. -/
theorem temp_left_and_emptied :
    ((Host.sample.run Crates.replaced (writingActions ++ [.advance 0 .fail])).ReturnsError
      (Host.sample.run Crates.replaced (writingActions ++ [.advance 0 .fail, .advance 0 .fail])) 0
        (some firstTemp) ∧
      (Host.sample.run Crates.replaced
        (writingActions ++ [.advance 0 .fail, .advance 0 .fail])).files.read firstTemp =
          some [255, 216, 255, 224, 0]) ∧
    ∃ call, (Host.sample.run Crates.replaced overflowingActions).calls[0]? = some call ∧
      firstTemp ∈ call.stage.temp ∧
      (Host.sample.run Crates.replaced overflowingActions).files.read firstTemp =
        some [255, 216, 255, 224, 0] ∧
      (Host.sample.run Crates.replaced
        (overflowingActions ++ [.advance (2 ^ 64) .succeed])).files.read firstTemp = some [] := by
  refine ⟨⟨by decide +kernel, by decide +kernel⟩, ?_⟩
  obtain ⟨files, calls, count, hlength, hfirst, hrun, hread⟩ := run_overflowingActions
  refine ⟨firstCall, ?_, rfl, ?_, ?_⟩
  · rw [hrun, List.getElem?_append_left (by rw [hlength]; decide), hfirst]
  · rw [hrun]
    exact hread
  · rw [Host.run] at hrun ⊢
    rw [Machine.run_snoc, hrun, ← hlength, Publish.System.step_concat]
    obtain ⟨hfile, hcontent⟩ := files.create_self firstTemp
    exact (Files.read_of_file hfile).trans (congrArg some hcontent)

end ComicStream.Server
