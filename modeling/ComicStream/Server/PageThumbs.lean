import ComicStream.Catalog.Tokens
import ComicStream.Server.Prefer
import ComicStream.Server.Publication
import ComicStream.Server.Steps
import Mathlib.Data.Bool.AllAny

/-!
# The store of page thumbnails

Whatever pages and widths clients ask for, in whatever order with `prewarm` and
with scans, the files under `page_thumbs` are those of pages that a row of the
catalog has, in one of six widths, and while they are written a temporary file
beside each. No two of these have one path, and the page thumbnails that `prewarm`
makes are the ones looked up when no width is given.
-/

namespace ComicStream.Server

open Rust Archive Catalog

theorem snapWidth_mem (requested : ℕ) : snapWidth requested ∈ pageThumbWidths := by
  rw [snapWidth]
  cases hfind : pageThumbWidths.find? (requested ≤ ·) with
  | none => decide
  | some width => exact List.mem_of_find?_eq_some hfind

theorem snapWidth_of_mem {width : ℕ} (h : width ∈ pageThumbWidths) : snapWidth width = width := by
  have hladder : ∀ width ∈ pageThumbWidths, snapWidth width = width := by decide
  exact hladder width h

/-- What `main` makes of the width that is configured: the default of the requests and the width of
`prewarm`. -/
def Config.snapped (config : Config) (requested : ℕ) : Config :=
  { config with pageThumbWidth := snapWidth requested }

/-- A server, in which a thumbnail waits until its page has been read, and the calls that write the
thumbnails whose pages have been. -/
structure Pipeline (Dir : Type) where
  system : System
  disk : Publish.System (Dir × OsName) Slot (Sourced (List UInt8)) UInt8

/-- What can happen next: what can happen in the system, a request for a page with a `Prefer`
header, a step of a call, and a restart. -/
inductive Work where
  | act (action : Action)
  | bookPage (hash : List Char) (n : ℤ) (oneBased : Bool) (prefer : Option (List UInt8))
  | advance (index : ℕ) (move : Publish.Move)
  | restart

section Steps

variable {Dir : Type} [DecidableEq Dir] (host : Host Dir) (config : Config) (crates : Crates)

def Pipeline.start (fs : Fs) : Pipeline Dir := ⟨System.start config fs, .empty⟩

/-- The system as it sees the files. Where their bytes were read from is not kept. -/
def Pipeline.seen (pipeline : Pipeline Dir) : System :=
  { pipeline.system with
    server := { pipeline.system.server with
      thumbs := fun hash ↦
        (pipeline.disk.files.read (host.final (.cover hash))).map (⟨·, []⟩)
      pageThumbs := fun (hash, index, width) ↦
        (pipeline.disk.files.read (host.final (.page hash index width))).map (⟨·, []⟩) } }

/-- `book_page` of a request with this header. -/
def pageRequest (hash : List Char) (n : ℤ) (oneBased : Bool) (prefer : Option (List UInt8)) :
    Request :=
  .bookPage hash n oneBased (parseThumbnailPref prefer config.pageThumbWidth)

/-- When its page has been read, a thumbnail becomes a call. -/
def Pipeline.act (pipeline : Pipeline Dir) (action : Action) : Pipeline Dir :=
  let next := { pipeline with system := (pipeline.seen host).step config crates action }
  match action with
  | .proceed index =>
    match pipeline.system.tasks[index]? with
    | some (.resizing slot source) =>
      { system := { pipeline.system with tasks := pipeline.system.tasks.eraseIdx index }
        disk := pipeline.disk.step (host.ensure crates) (.start slot source) }
    | _ => next
  | _ => next

/-- Either the system takes the step, or a page that has been read becomes a call. -/
theorem Pipeline.act_cases (pipeline : Pipeline Dir) (action : Action) :
    pipeline.act host config crates action =
        { pipeline with system := (pipeline.seen host).step config crates action } ∨
      ∃ index slot source, pipeline.system.tasks[index]? = some (.resizing slot source) ∧
        pipeline.act host config crates action =
          { system := { pipeline.system with tasks := pipeline.system.tasks.eraseIdx index }
            disk := pipeline.disk.step (host.ensure crates) (.start slot source) } := by
  unfold Pipeline.act
  dsimp only
  split
  · next index =>
    split
    · next slot source htask => exact .inr ⟨index, slot, source, htask, rfl⟩
    · exact .inl rfl
  · exact .inl rfl

def Pipeline.step (pipeline : Pipeline Dir) : Work → Pipeline Dir
  | .act action => pipeline.act host config crates action
  | .bookPage hash n oneBased prefer =>
    pipeline.act host config crates (.request (pageRequest config hash n oneBased prefer))
  | .advance index move =>
    { pipeline with disk := pipeline.disk.step (host.ensure crates) (.advance index move) }
  | .restart =>
    { system := ⟨{ pipeline.system.server with
        archiveCache := Cache.new config.archiveCacheSize }, [], []⟩
      disk := pipeline.disk.step (host.ensure crates) .restart }

/-- The server after these steps, from an empty catalog and an empty cache on. -/
def Pipeline.run (fs : Fs) (works : List Work) : Pipeline Dir :=
  Machine.run (Pipeline.step host config crates) (.start config fs) works

/-- The thumbnails that a step of the system asks for. -/
def Action.Asks (state : State) : Action → Slot → Prop
  | .request received, slot => ∃ path, wanted config state received = some (slot, path)
  | .prewarm row, slot => row ∈ state.db.books ∧ slot ∈ prewarmSlots config state row
  | _, _ => False

def Work.Asks (pipeline : Pipeline Dir) : Work → Slot → Prop
  | .act action, slot => action.Asks config (pipeline.seen host).server slot
  | .bookPage hash n oneBased prefer, slot =>
    (Action.request (pageRequest config hash n oneBased prefer)).Asks config
      (pipeline.seen host).server slot
  | _, _ => False

end Steps

/-- A row of the catalog has the hash, and the page; a page is in one of the six widths. -/
def Slot.IsListed (db : Db) (slot : Slot) : Prop :=
  ∃ row ∈ db.books, row.hash = slot.hash ∧
    match slot with
    | .cover _ => True
    | .page _ index width => index < row.pageCount ∧ width ∈ pageThumbWidths

/-! ## What is asked for -/

variable {config : Config} {crates : Crates} {state : State}

theorem coverBook_mem {db : Db} {id : ℕ} {book : BookRow} (h : coverBook db id = some book) :
    book ∈ db.books := by
  unfold coverBook at h
  split at h
  · next found hfound =>
    rw [← Option.some.inj h]
    exact (List.mem_filter.mp (firstBySortKey_mem hfound)).1
  · obtain ⟨ids, -, hfirst⟩ := Option.bind_eq_some_iff.mp h
    exact (List.mem_filter.mp (firstBySortKey_mem hfirst)).1

theorem isListed_of_wanted {request : Request} {slot : Slot} {path : PathText}
    (h : wanted config state request = some (slot, path)) : slot.IsListed state.db := by
  cases request with
  | bookThumbnail hash =>
    obtain ⟨book, hbook, hwant⟩ := Option.map_eq_some_iff.mp h
    obtain ⟨rfl, -⟩ := Prod.mk.inj hwant
    exact ⟨book, (lookupBook_eq_some hbook).1, rfl, trivial⟩
  | folderCover slug =>
    obtain ⟨folder, -, hwant⟩ := Option.bind_eq_some_iff.mp h
    split at hwant
    · simp at hwant
    · obtain ⟨book, hbook, hwant⟩ := Option.map_eq_some_iff.mp hwant
      obtain ⟨rfl, -⟩ := Prod.mk.inj hwant
      exact ⟨book, coverBook_mem hbook, rfl, trivial⟩
  | bookPage hash n oneBased thumbnailPref =>
    cases thumbnailPref with
    | none => simp [wanted] at h
    | some requested =>
      obtain ⟨book, hbook, hwant⟩ := Option.bind_eq_some_iff.mp h
      obtain ⟨hmem, hhash, -⟩ := lookupBook_eq_some hbook
      dsimp only at hwant
      generalize (if oneBased = true then n - 1 else n) = index at hwant
      split at hwant
      · simp at hwant
      · next hindex =>
        obtain ⟨rfl, -⟩ := Prod.mk.inj (Option.some.inj hwant)
        exact ⟨book, hmem, hhash, by omega, snapWidth_mem requested⟩
  | opdsRoot => simp [wanted] at h
  | opdsFolder slug => simp [wanted] at h
  | opdsSearch q => simp [wanted] at h
  | bookCover hash => simp [wanted] at h
  | bookFile hash => simp [wanted] at h

theorem isListed_of_mem_prewarmSlots {row : BookRow} {slot : Slot} (hrow : row ∈ state.db.books)
    (hwidth : config.pageThumbWidth ∈ pageThumbWidths)
    (h : slot ∈ prewarmSlots config state row) : slot.IsListed state.db := by
  rcases List.mem_cons.mp (List.mem_filter.mp h).1 with rfl | hpage
  · exact ⟨row, hrow, rfl, trivial⟩
  · obtain ⟨index, hindex, rfl⟩ := List.mem_map.mp hpage
    exact ⟨row, hrow, rfl, List.mem_range.mp hindex, hwidth⟩

theorem Action.Asks.isListed {action : Action} {slot : Slot}
    (hwidth : config.pageThumbWidth ∈ pageThumbWidths) (h : action.Asks config state slot) :
    slot.IsListed state.db := by
  cases action with
  | request request =>
    obtain ⟨path, hwanted⟩ := h
    exact isListed_of_wanted hwanted
  | prewarm row => exact isListed_of_mem_prewarmSlots h.1 hwidth h.2
  | _ => exact h.elim

theorem Work.Asks.isListed {Dir : Type} [DecidableEq Dir] {host : Host Dir}
    {pipeline : Pipeline Dir} {work : Work} {slot : Slot}
    (hwidth : config.pageThumbWidth ∈ pageThumbWidths) (h : work.Asks host config pipeline slot) :
    slot.IsListed pipeline.system.server.db := by
  have hlisted (action : Action) (haction : action.Asks config (pipeline.seen host).server slot) :
      slot.IsListed pipeline.system.server.db :=
    @Action.Asks.isListed config (pipeline.seen host).server action slot hwidth haction
  cases work with
  | act action => exact hlisted action h
  | bookPage hash n oneBased prefer =>
    exact hlisted (.request (pageRequest config hash n oneBased prefer)) h
  | advance index move => exact h.elim
  | restart => exact h.elim

/-- The thumbnail that a task makes. -/
def Task.slot : Task → Slot
  | .opening slot _ => slot
  | .reading slot _ => slot
  | .resizing slot _ => slot
  | .writing slot _ => slot

theorem Task.slot_proceed {task rest : Task} (h : rest ∈ (task.proceed config crates state).2) :
    rest.slot = task.slot := by
  cases task with
  | opening slot path =>
    rw [proceed] at h
    split at h
    · rw [← Option.mem_some_iff.mp h]
      rfl
    · simp at h
  | reading slot book =>
    obtain ⟨page, -, rfl⟩ := Option.map_eq_some_iff.mp h
    rfl
  | resizing slot source =>
    rw [proceed] at h
    split at h
    · simp at h
    · obtain ⟨thumb, -, rfl⟩ := Option.map_eq_some_iff.mp h
      rfl
  | writing slot thumb => simp [proceed] at h

/-- A task of the next system is for a thumbnail that there was a task for, or that was just asked
for. -/
theorem System.exists_slot_of_step {system : System} {action : Action} {task : Task}
    (h : task ∈ (system.step config crates action).tasks) :
    (∃ old ∈ system.tasks, old.slot = task.slot) ∨ action.Asks config system.server task.slot := by
  have hold (hmem : task ∈ system.tasks) : (∃ old ∈ system.tasks, old.slot = task.slot) ∨
      action.Asks config system.server task.slot := .inl ⟨task, hmem, rfl⟩
  cases action with
  | change fs => exact hold h
  | scan scan =>
    rw [System.step] at h
    split at h <;> exact hold h
  | statement =>
    rw [System.step] at h
    split at h <;> exact hold h
  | fail => exact hold h
  | request request =>
    rw [System.step, System.request] at h
    split at h
    · next slot path hwant =>
      rcases List.mem_append.mp h with hmem | hmem
      · exact hold hmem
      · obtain rfl := List.mem_singleton.mp hmem
        exact .inr ⟨path, (Option.filter_eq_some_iff.mp hwant).1⟩
    · exact hold h
  | prewarm row =>
    rw [System.step] at h
    split at h
    · next hrow =>
      rw [System.prewarm] at h
      split at h
      · exact hold h
      · split at h
        · exact hold h
        · rcases List.mem_append.mp h with hmem | hmem
          · exact hold hmem
          · obtain ⟨slot, hslot, rfl⟩ := List.mem_map.mp hmem
            exact .inr ⟨hrow, hslot⟩
    · exact hold h
  | proceed index =>
    rw [System.step, System.proceed] at h
    split at h
    · exact hold h
    · next found hfound =>
      dsimp only at h
      split at h
      · next rest hrest =>
        rcases List.mem_or_eq_of_mem_set h with hmem | rfl
        · exact hold hmem
        · exact .inl ⟨found, List.mem_of_getElem? hfound, (Task.slot_proceed hrest).symm⟩
      · exact hold (List.mem_of_mem_eraseIdx h)

section Traced

variable {Dir : Type} [DecidableEq Dir] {host : Host Dir} {pipeline : Pipeline Dir}

/-- Each task and each call is for a thumbnail that was asked for. -/
structure Pipeline.Traced (host : Host Dir) (crates : Crates) (asked : Slot → Prop)
    (pipeline : Pipeline Dir) : Prop where
  tasks : ∀ task ∈ pipeline.system.tasks, asked task.slot
  disk : ∃ actions, pipeline.disk = host.run crates actions ∧
    ∀ slot source, Publish.Action.start slot source ∈ actions → asked slot

variable {asked : Slot → Prop}

theorem Pipeline.Traced.mono {later : Slot → Prop} (h : pipeline.Traced host crates asked)
    (hlater : ∀ slot, asked slot → later slot) : pipeline.Traced host crates later := by
  obtain ⟨actions, hdisk, hstarts⟩ := h.disk
  exact ⟨fun task htask ↦ hlater _ (h.tasks task htask), actions, hdisk,
    fun slot source hstart ↦ hlater _ (hstarts slot source hstart)⟩

theorem Pipeline.Traced.disk_step (h : pipeline.Traced host crates asked) {system : System}
    (hsystem : ∀ task ∈ system.tasks, asked task.slot)
    (action : Publish.Action Slot (Sourced (List UInt8)))
    (hstart : ∀ slot source, action = .start slot source → asked slot) :
    Pipeline.Traced host crates asked ⟨system, pipeline.disk.step (host.ensure crates) action⟩ := by
  obtain ⟨actions, hdisk, hstarts⟩ := h.disk
  refine ⟨hsystem, actions ++ [action], ?_, fun slot source hmem ↦ ?_⟩
  · rw [hdisk, Host.run, Host.run, Machine.run_snoc]
  · rcases List.mem_append.mp hmem with hmem | hmem
    · exact hstarts slot source hmem
    · exact hstart slot source (List.mem_singleton.mp hmem).symm

theorem Pipeline.Traced.act (h : pipeline.Traced host crates asked) {action : Action}
    (hasks : ∀ slot, action.Asks config (pipeline.seen host).server slot → asked slot) :
    (pipeline.act host config crates action).Traced host crates asked := by
  rcases pipeline.act_cases host config crates action with hact | ⟨index, slot, source, htask, hact⟩
  · rw [hact]
    refine ⟨fun task hmem ↦ ?_, h.disk⟩
    rcases System.exists_slot_of_step hmem with ⟨old, hold, hslot⟩ | hnew
    · exact hslot ▸ h.tasks old hold
    · exact hasks _ hnew
  · rw [hact]
    apply h.disk_step fun task hmem ↦ h.tasks task (List.mem_of_mem_eraseIdx hmem)
    intro other input hstart
    obtain ⟨rfl, -⟩ := Publish.Action.start.inj hstart
    exact h.tasks _ (List.mem_of_getElem? htask)

theorem Pipeline.Traced.step (h : pipeline.Traced host crates asked) {work : Work}
    (hasks : ∀ slot, work.Asks host config pipeline slot → asked slot) :
    (pipeline.step host config crates work).Traced host crates asked := by
  cases work with
  | act action => exact h.act hasks
  | bookPage hash n oneBased prefer =>
    exact @Pipeline.Traced.act config crates _ _ host pipeline asked h
      (.request (pageRequest config hash n oneBased prefer)) hasks
  | advance index move => exact h.disk_step h.tasks (.advance index move) (by simp)
  | restart => exact h.disk_step (List.forall_mem_nil _) .restart (by simp)

/-- The thumbnails asked for in a run. -/
def Asked (host : Host Dir) (config : Config) (crates : Crates) (fs : Fs) (works : List Work)
    (slot : Slot) : Prop :=
  ∃ before work after, works = before ++ work :: after ∧
    work.Asks host config (Pipeline.run host config crates fs before) slot

theorem Asked.snoc {fs : Fs} {works : List Work} {work : Work} {slot : Slot}
    (h : Asked host config crates fs works slot) :
    Asked host config crates fs (works ++ [work]) slot := by
  obtain ⟨before, asking, after, rfl, hasks⟩ := h
  exact ⟨before, asking, after ++ [work], by simp, hasks⟩

theorem Pipeline.traced_run (host : Host Dir) (config : Config) (crates : Crates) (fs : Fs)
    (works : List Work) : (Pipeline.run host config crates fs works).Traced host crates
      (Asked host config crates fs works) := by
  induction works using List.reverseRecOn with
  | nil =>
    exact ⟨fun task htask ↦ (List.not_mem_nil htask).elim, [], rfl,
      fun slot source hstart ↦ (List.not_mem_nil hstart).elim⟩
  | append_singleton works work ih =>
    rw [Pipeline.run, Machine.run_snoc]
    apply (ih.mono fun slot hslot ↦ hslot.snoc).step
    intro slot hasks
    exact ⟨works, work, [], rfl, hasks⟩

/-- Every file is that of a thumbnail asked for, or a temporary file of it. -/
theorem exists_asked_of_file {fs : Fs} {works : List Work} {name : Dir × OsName}
    (h : ((Pipeline.run host config crates fs works).disk.files.file name).isSome) :
    ∃ slot, (name = host.final slot ∨ ∃ count, name = host.temp slot count) ∧
      Asked host config crates fs works slot := by
  obtain ⟨actions, hdisk, hstarts⟩ := (Pipeline.traced_run host config crates fs works).disk
  rw [hdisk] at h
  obtain ⟨slot, source, hstart, hname⟩ := Publish.System.exists_start_of_file h
  exact ⟨slot, hname, hstarts slot source hstart⟩

end Traced

/-! ## Hashes and paths -/

/-- What `file_hash` returns: 64 lowercase hexadecimal digits. -/
def IsHash (hash : List Char) : Prop :=
  hash.length = 64 ∧ ∀ c ∈ hash, c ∈ "0123456789abcdef".toList

instance (hash : List Char) : Decidable (IsHash hash) :=
  @instDecidableAnd _ _ _ (List.decidableBAll _ hash)

/-- All hashes that the scan reads are of this form. -/
def ReadsHashes (scan : Scan) : Prop :=
  ∀ entry ∈ scan.entries.files, ∀ hash ∈ entry.2.hash, IsHash hash

instance (scan : Scan) : Decidable (ReadsHashes scan) :=
  inferInstanceAs (Decidable (∀ entry ∈ scan.entries.files, ∀ hash ∈ entry.2.hash, IsHash hash))

theorem IsHash.isPlain {slot : Slot} (h : IsHash slot.hash) : slot.IsPlain := by
  have hdigit : ∀ c ∈ "0123456789abcdef".toList, slash ∉ String.utf8EncodeChar c :=
    List.all_iff_forall_prop.mp (by decide)
  refine ⟨fun hslash ↦ ?_, fun hnil ↦ ?_, fun hdot ↦ ?_⟩
  · obtain ⟨c, hc, hmem⟩ := List.mem_flatMap.mp hslash
    exact hdigit c (h.2 c hc) hmem
  · have hempty : slot.hash = [] := utf8_injective hnil
    have hlength := h.1
    simp [hempty] at hlength
  · have hsingle : slot.hash = ['.'] := utf8_injective hdot
    have hlength := h.1
    simp [hsingle] at hlength

theorem Slot.path_injOn (dataDir : OsPath) :
    Set.InjOn (Slot.path dataDir) {slot | IsHash slot.hash} := by
  intro first hfirst second hsecond heq
  have hfinal : (⟨0, dataDir, id⟩ : Host OsPath).final first =
      (⟨0, dataDir, id⟩ : Host OsPath).final second := by
    rw [Host.final, Host.final, heq]
  exact Host.final_injOn _ Function.injective_id (IsHash.isPlain hfirst) (IsHash.isPlain hsecond)
    hfinal

/-- Every row has the hash of a file. -/
def HashedRows (db : Db) : Prop := ∀ row ∈ db.books, IsHash row.hash

theorem HashedRows.of_mem_states {xxh3 : List UInt8 → UInt64} {scan : Scan} {db next : Db}
    (h : HashedRows db) (hscan : ReadsHashes scan) (hnext : next ∈ scan.states xxh3 db) :
    HashedRows next := by
  refine (@Scan.rows_induction xxh3 scan db next (fun _ ↦ True) (fun row ↦ IsHash row.hash)
    ⟨fun _ _ ↦ trivial, h⟩ (fun _ _ _ _ _ _ _ ↦ trivial) (fun _ _ _ ↦ trivial) ?_ hnext).2
  intro db path name folderId info size row hrows hentry hsize hstores
  cases hstores with
  | stamped old hold hpath hunchanged => exact hrows old hold
  | written hash kind pageCount id addedAt hhash => exact hscan (path, info) hentry hash hhash

structure System.Hashed (system : System) : Prop where
  rows : HashedRows system.server.db
  statements : ∀ db ∈ system.statements, HashedRows db

theorem Task.db_proceed (task : Task) : (task.proceed config crates state).1.db = state.db := by
  cases task with
  | opening slot path =>
    obtain ⟨cache, hcache⟩ := @openArchive_snd config crates state slot.hash path
    rw [proceed]
    split
    · next book next hopen =>
      rw [hopen] at hcache
      dsimp only at hcache ⊢
      rw [hcache]
    · next response next hopen =>
      rw [hopen] at hcache
      dsimp only at hcache ⊢
      rw [hcache]
  | reading slot book => rfl
  | resizing slot source =>
    rw [proceed]
    split <;> rfl
  | writing slot thumb => cases slot <;> rfl

theorem System.Hashed.step {system : System} {action : Action} (h : system.Hashed)
    (haction : ∀ scan, action = .scan scan → ReadsHashes scan) :
    (system.step config crates action).Hashed := by
  cases action with
  | change fs => exact ⟨h.rows, h.statements⟩
  | scan scan =>
    rw [System.step]
    split
    · refine ⟨h.rows, fun db hdb ↦ ?_⟩
      exact h.rows.of_mem_states (haction scan rfl) (List.mem_reverse.mp hdb)
    · exact h
  | statement =>
    rw [System.step]
    split
    · exact h
    · next db rest hstatements =>
      have hall := h.statements
      rw [hstatements, List.forall_mem_cons] at hall
      exact ⟨hall.1, hall.2⟩
  | fail => exact ⟨h.rows, List.forall_mem_nil _⟩
  | request request =>
    rw [System.step, System.request]
    split
    · exact ⟨h.rows, h.statements⟩
    · refine ⟨?_, h.statements⟩
      dsimp only
      rw [(handle_handled request).db_eq]
      exact h.rows
  | prewarm row =>
    rw [System.step]
    split
    · rw [System.prewarm]
      split
      · exact h
      · split
        · exact h
        · exact ⟨h.rows, h.statements⟩
    · exact h
  | proceed index =>
    rw [System.step, System.proceed]
    split
    · exact h
    · next task htask =>
      refine ⟨?_, h.statements⟩
      dsimp only
      rw [Task.db_proceed]
      exact h.rows

section Hashed

variable {Dir : Type} [DecidableEq Dir] {host : Host Dir} {pipeline : Pipeline Dir}

theorem Pipeline.hashed_act (h : pipeline.system.Hashed) {action : Action}
    (haction : ∀ scan, action = .scan scan → ReadsHashes scan) :
    (pipeline.act host config crates action).system.Hashed := by
  have hseen : (pipeline.seen host).Hashed := ⟨h.rows, h.statements⟩
  rcases pipeline.act_cases host config crates action with hact | ⟨index, slot, source, -, hact⟩
  · rw [hact]
    exact hseen.step haction
  · rw [hact]
    exact ⟨h.rows, h.statements⟩

theorem Pipeline.hashed_step (h : pipeline.system.Hashed) {work : Work}
    (hwork : ∀ scan, work = .act (.scan scan) → ReadsHashes scan) :
    (pipeline.step host config crates work).system.Hashed := by
  cases work with
  | act action => exact hashed_act h fun scan heq ↦ hwork scan (congrArg Work.act heq)
  | bookPage hash n oneBased prefer => exact hashed_act h (by simp)
  | advance index move => exact h
  | restart => exact ⟨h.rows, List.forall_mem_nil _⟩

theorem Pipeline.hashed_run {fs : Fs} {works : List Work}
    (hscans : ∀ scan, Work.act (.scan scan) ∈ works → ReadsHashes scan) :
    (Pipeline.run host config crates fs works).system.Hashed := by
  induction works using List.reverseRecOn with
  | nil => exact ⟨List.forall_mem_nil _, List.forall_mem_nil _⟩
  | append_singleton works work ih =>
    rw [Pipeline.run, Machine.run_snoc]
    apply hashed_step
    · exact ih fun scan hmem ↦ hscans scan (List.mem_append_left _ hmem)
    · rintro scan rfl
      exact hscans scan (by simp)

/-- In some state of the run, a row of the catalog has the hash. -/
def Catalogued (host : Host Dir) (config : Config) (crates : Crates) (fs : Fs) (works : List Work)
    (hash : List Char) : Prop :=
  ∃ before, before <+: works ∧
    ∃ row ∈ (Pipeline.run host config crates fs before).system.server.db.books, row.hash = hash

theorem Catalogued.isHash {fs : Fs} {works : List Work} {hash : List Char}
    (hscans : ∀ scan, Work.act (.scan scan) ∈ works → ReadsHashes scan)
    (h : Catalogued host config crates fs works hash) : IsHash hash := by
  obtain ⟨before, ⟨after, rfl⟩, row, hrow, rfl⟩ := h
  have hbefore : (Pipeline.run host config crates fs before).system.Hashed :=
    Pipeline.hashed_run fun scan hmem ↦ hscans scan (List.mem_append_left _ hmem)
  exact hbefore.rows row hrow

end Hashed

/-- The header is read as a preference for a thumbnail, and nothing in it as a width. -/
def LacksWidth (prefer : Option (List UInt8)) : Prop :=
  ∃ raw, prefer.bind Auth.toStr = some raw ∧ thumbnailPair ∈ said raw ∧
    ∀ pair ∈ said raw, widthOf pair = none

theorem parseThumbnailPref_of_lacksWidth {prefer : Option (List UInt8)} (h : LacksWidth prefer)
    (defaultWidth : ℕ) : parseThumbnailPref prefer defaultWidth = some defaultWidth := by
  obtain ⟨raw, hraw, hthumbnail, hwidths⟩ := h
  have hlast : lastWidth (said raw) = none := by
    rw [lastWidth, List.filterMap_eq_nil_iff.mpr hwidths]
    rfl
  rw [parseThumbnailPref, hraw, Option.bind_some, foldl_prefStep]
  change (if (false || decide (thumbnailPair ∈ said raw)) = true then
    some (((lastWidth (said raw)).or none).getD defaultWidth) else none) = _
  rw [hlast, decide_eq_true hthumbnail]
  rfl

/-- The page thumbnails that `prewarm` makes are those of the default width. -/
theorem mem_prewarmSlots_page {row : BookRow} {index width : ℕ} (hindex : index < row.pageCount) :
    .page row.hash index width ∈ prewarmSlots config state row ↔
      width = config.pageThumbWidth ∧
        state.thumbAt (.page row.hash index config.pageThumbWidth) = none := by
  rw [prewarmSlots, List.mem_filter, Option.isNone_iff_eq_none]
  constructor
  · rintro ⟨hmem, hnone⟩
    rcases List.mem_cons.mp hmem with hcover | hpage
    · simp at hcover
    · obtain ⟨other, -, heq⟩ := List.mem_map.mp hpage
      obtain ⟨-, rfl, rfl⟩ := Slot.page.inj heq
      exact ⟨rfl, hnone⟩
  · rintro ⟨rfl, hnone⟩
    refine ⟨List.mem_cons_of_mem _ (List.mem_map.mpr ⟨index, ?_, rfl⟩), hnone⟩
    exact List.mem_range.mpr hindex

theorem wanted_pageRequest {prefer : Option (List UInt8)} (h : LacksWidth prefer)
    (hwidth : config.pageThumbWidth ∈ pageThumbWidths) {row : BookRow} {hash : List Char}
    (hrow : lookupBook state.db hash = some row) {n : ℤ} {oneBased : Bool} {index : ℕ}
    (hn : (if oneBased then n - 1 else n) = index) (hindex : index < row.pageCount) :
    wanted config state (pageRequest config hash n oneBased prefer) =
      some (.page row.hash index config.pageThumbWidth, row.path) := by
  obtain ⟨-, rfl, -⟩ := lookupBook_eq_some hrow
  rw [pageRequest, parseThumbnailPref_of_lacksWidth h, wanted, hrow, Option.bind_some, hn,
    snapWidth_of_mem hwidth]
  rw [if_neg (by omega)]
  rfl

/-- **The store of page thumbnails.** In every run, each file is that of a thumbnail or a temporary one
beside it, and the thumbnail was asked for when a row of the catalog had its hash and its page. Of
catalogued hashes, those under `page_thumbs` are thumbnails of pages, and no two thumbnails have one
path. A request without a width looks up the thumbnail that `prewarm` makes of the page. -/
theorem pageThumbs_bounded {Dir : Type} [DecidableEq Dir] (host : Host Dir) (config : Config)
    (crates : Crates) (requested : ℕ) (fs : Fs) (works : List Work)
    (hscans : ∀ scan, Work.act (.scan scan) ∈ works → ReadsHashes scan) :
    (∀ name, ((Pipeline.run host (config.snapped requested) crates fs works).disk.files.file
        name).isSome →
      ∃ slot, (name = host.final slot ∨ ∃ count, name = host.temp slot count) ∧
        ∃ before work after, works = before ++ work :: after ∧
          work.Asks host (config.snapped requested)
            (Pipeline.run host (config.snapped requested) crates fs before) slot ∧
          slot.IsListed
            (Pipeline.run host (config.snapped requested) crates fs before).system.server.db) ∧
    (∀ slot : Slot, Catalogued host (config.snapped requested) crates fs works slot.hash →
      (host.dataDir ++ [ascii "page_thumbs"] <+: slot.path host.dataDir ↔
        ∃ index width, slot = .page slot.hash index width)) ∧
    (∀ first second : Slot,
      Catalogued host (config.snapped requested) crates fs works first.hash →
      Catalogued host (config.snapped requested) crates fs works second.hash →
      first.path host.dataDir = second.path host.dataDir → first = second) ∧
    ∀ (state : State) (hash : List Char) (row : BookRow) (n : ℤ) (oneBased : Bool) (index : ℕ)
      (prefer : Option (List UInt8)), LacksWidth prefer → lookupBook state.db hash = some row →
      (if oneBased then n - 1 else n) = index → index < row.pageCount →
      ∃ width, wanted (config.snapped requested) state
          (pageRequest (config.snapped requested) hash n oneBased prefer) =
            some (.page row.hash index width, row.path) ∧
        ∀ other, .page row.hash index other ∈ prewarmSlots (config.snapped requested) state row ↔
          other = width ∧ state.thumbAt (.page row.hash index width) = none := by
  have hwidth : (config.snapped requested).pageThumbWidth ∈ pageThumbWidths :=
    snapWidth_mem requested
  refine ⟨fun name hname ↦ ?_,
    fun slot hslot ↦ Slot.pageThumbs_prefix_iff _ (IsHash.isPlain (hslot.isHash hscans)),
    fun first second hfirst hsecond hpath ↦ ?_, ?_⟩
  · obtain ⟨slot, hslot, before, work, after, hworks, hasks⟩ := exists_asked_of_file hname
    exact ⟨slot, hslot, before, work, after, hworks, hasks, hasks.isListed hwidth⟩
  · exact Slot.path_injOn host.dataDir (hfirst.isHash hscans) (hsecond.isHash hscans) hpath
  · intro state hash row n oneBased index prefer hprefer hrow hn hindex
    exact ⟨_, wanted_pageRequest hprefer hwidth hrow hn hindex,
      fun other ↦ mem_prewarmSlots_page hindex⟩

/-- `Prefer: variant=thumbnail`. -/
def thumbnailHeader : Option (List UInt8) := some (utf8 "variant=thumbnail".toList)

/-- The dark archive is scanned. A client asks for a thumbnail of its first page, for which a
temporary file is then created. -/
def pageWorks : List Work :=
  .act (.scan (archiveScan darkZip 10)) :: List.replicate 8 (.act .statement) ++
    [.bookPage darkHash 1 true thumbnailHeader, .act (.proceed 0), .act (.proceed 0),
      .act (.proceed 0), .advance 0 .succeed, .advance 0 .succeed, .advance 0 .succeed]

/-- The pipeline after the first of these steps, where a width of 500 is configured. -/
abbrev pagePipeline (works : List Work) : Pipeline OsPath :=
  Pipeline.run Host.sample (Config.sample.snapped 500) Crates.replaced (archiveFs darkZip) works

/-- The temporary file. -/
def firstPageTemp : OsPath × OsName := Host.sample.temp (.page darkHash 0 600) 0

/-- It is under `page_thumbs`, and is the file of no thumbnail. -/
theorem temp_under_pageThumbs :
    ((pagePipeline pageWorks).disk.files.file firstPageTemp).isSome ∧
    firstPageTemp = ([ascii "data", ascii "page_thumbs", utf8 darkHash],
      ascii "0_600.jpg.tmp.7.0") ∧
    ∀ slot, firstPageTemp ≠ Host.sample.final slot :=
  ⟨by decide +kernel, by decide +kernel, fun slot ↦ Host.temp_ne_final _ _ _ _⟩

theorem pageThumbs_bounded_sample :
    (∃ slot, (firstPageTemp = Host.sample.final slot ∨
        ∃ count, firstPageTemp = Host.sample.temp slot count) ∧
      ∃ before, before <+: pageWorks ∧ slot.IsListed (pagePipeline before).system.server.db) ∧
    ∃ row width, lookupBook (pagePipeline pageWorks).system.server.db darkHash = some row ∧
      wanted (Config.sample.snapped 500) (pagePipeline pageWorks).system.server
        (pageRequest (Config.sample.snapped 500) darkHash 1 true thumbnailHeader) =
          some (.page row.hash 0 width, row.path) := by
  have hscans : ∀ scan, Work.act (.scan scan) ∈ pageWorks → ReadsHashes scan := by
    intro scan hmem
    have hscan : scan = archiveScan darkZip 10 := by simpa [pageWorks, List.replicate] using hmem
    rw [hscan]
    decide +kernel
  obtain ⟨hfiles, -, -, hlookups⟩ := pageThumbs_bounded Host.sample Config.sample Crates.replaced 500
    (archiveFs darkZip) pageWorks hscans
  constructor
  · obtain ⟨slot, hslot, before, work, after, hworks, -, hlisted⟩ := hfiles firstPageTemp
      (by decide +kernel)
    exact ⟨slot, hslot, before, ⟨work :: after, hworks.symm⟩, hlisted⟩
  · have hlacks : LacksWidth thumbnailHeader :=
      ⟨"variant=thumbnail".toList, by decide +kernel, by decide +kernel, by decide +kernel⟩
    have hsome : ((lookupBook (pagePipeline pageWorks).system.server.db darkHash).map
        BookRow.pageCount) = some 1 := by
      decide +kernel
    obtain ⟨row, hrow, hcount⟩ := Option.map_eq_some_iff.mp hsome
    obtain ⟨width, hwanted, -⟩ := hlookups (pagePipeline pageWorks).system.server darkHash row 1 true 0
      thumbnailHeader hlacks hrow (by decide) (by omega)
    exact ⟨row, width, hrow, hwanted⟩

end ComicStream.Server
