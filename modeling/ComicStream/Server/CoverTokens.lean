import ComicStream.Server.Covers

/-!
# Covers kept by clients

A client keeps a cover for a day under the address that the feed gives, in which
only the cover version can change. A thumbnail is never replaced once there is one
for the hash, so two that are served under one hash are the same. The version of a
cover that is a file of its own tells no more than the second in which the file was
modified, and two files of one second have the same.
-/

namespace ComicStream.Server

open Rust Archive Catalog

variable {config : Config} {crates : Crates} {state : State}

/-- Every thumbnail that there is in `first` is in `next`. -/
def ThumbsKept (first next : State) : Prop :=
  ∀ slot thumb, first.thumbAt slot = some thumb → next.thumbAt slot = some thumb

theorem ThumbsKept.refl (state : State) : ThumbsKept state state := fun _ _ hthumb ↦ hthumb

theorem ThumbsKept.trans {first next last : State} (h : ThumbsKept first next)
    (hlast : ThumbsKept next last) : ThumbsKept first last :=
  fun slot thumb hthumb ↦ hlast slot thumb (h slot thumb hthumb)

theorem thumbsKept_of_eq {next : State} (h : ∀ slot, next.thumbAt slot = state.thumbAt slot) :
    ThumbsKept state next := by
  intro slot thumb hthumb
  rw [h, hthumb]

theorem thumbsKept_ensureAt {source : Sourced (List UInt8)} {slot : Slot} {next : State}
    (h : ensureAt crates state source slot = some next) : ThumbsKept state next := by
  unfold ensureAt at h
  split at h
  · rw [← Option.some.inj h]
    exact ThumbsKept.refl state
  · next hnone =>
    obtain ⟨thumb, -, rfl⟩ := Option.map_eq_some_iff.mp h
    intro other found hfound
    have hne : other ≠ slot := by
      rintro rfl
      rw [hnone] at hfound
      simp at hfound
    rw [State.thumbAt_store, if_neg hne]
    exact hfound

theorem thumbsKept_finish_reading (slot : Slot) (book : Book) :
    ThumbsKept state (Task.finish config crates 3 (state, some (.reading slot book))) := by
  rw [finish_reading]
  cases hnext : (book.readPage crates.reader state.fs slot.index).bind fun page ↦
      ensureAt crates state page.1 slot with
  | none => exact ThumbsKept.refl state
  | some next =>
    obtain ⟨page, -, hensured⟩ := Option.bind_eq_some_iff.mp hnext
    exact thumbsKept_ensureAt hensured

theorem thumbsKept_finish_opening (slot : Slot) (path : PathText) :
    ThumbsKept state (Task.finish config crates 4 (state, some (.opening slot path))) := by
  have hopened : ThumbsKept state (openArchive config crates state slot.hash path).2 :=
    thumbsKept_of_eq (openArchive_thumbAt slot.hash path)
  rw [Task.finish, Task.proceed]
  split
  · next book next hopen =>
    rw [hopen] at hopened
    exact hopened.trans (thumbsKept_finish_reading slot book)
  · next response next hopen =>
    rw [hopen] at hopened
    exact hopened

theorem thumbsKept_handle (request : Request) :
    ThumbsKept state (handle config crates state request).2 := by
  by_cases h : ∀ want ∈ wanted config state request, (state.thumbAt want.1).isSome = true
  · exact thumbsKept_of_eq (handle_thumbAt h)
  · push Not at h
    obtain ⟨⟨slot, path⟩, hwanted, hnone⟩ := h
    rw [handle_eq_finish hwanted (Option.not_isSome_iff_eq_none.mp hnone)]
    exact thumbsKept_finish_opening slot path

theorem thumbsKept_prewarm : ThumbsKept state (prewarm config crates state) := by
  apply List.foldlRecOn
  · exact ThumbsKept.refl state
  · intro next hnext row _
    apply hnext.trans
    rw [prewarmBook_eq_finish]
    split
    · exact ThumbsKept.refl next
    · split
      · exact ThumbsKept.refl next
      · apply List.foldlRecOn
        · exact ThumbsKept.refl next
        · exact fun last hlast slot _ ↦ hlast.trans (thumbsKept_finish_reading slot _)

/-- No step removes or replaces a thumbnail. -/
theorem thumbsKept_step (event : Event) : ThumbsKept state (step config crates state event) := by
  have hdb (db : Db) : ThumbsKept state { state with db := db } :=
    thumbsKept_of_eq fun slot ↦ by cases slot <;> rfl
  cases event with
  | change fs => exact thumbsKept_of_eq fun slot ↦ by cases slot <;> rfl
  | request request => exact thumbsKept_handle request
  | scan started faults stop =>
    cases stop with
    | none =>
      rw [step, scanned]
      split
      · exact ThumbsKept.refl state
      · split
        · exact (hdb _).trans thumbsKept_prewarm
        · exact hdb _
    | some statements =>
      rw [step, stopped]
      split
      · exact ThumbsKept.refl state
      · exact hdb _

theorem thumbsKept_run (events : List Event) :
    ThumbsKept state (Machine.run (step config crates) state events) :=
  Machine.run_invariant (fun _ event h ↦ h.trans (thumbsKept_step event)) events
    (ThumbsKept.refl state)

/-- The bytes that a response shows. -/
def Response.image : Response → Option (List UInt8)
  | .content body _ => some body.value
  | _ => none

theorem image_serveFile (path : OsPath) (mime : List Char) :
    (serveFile state path mime).image = (state.fs.read path).map Sourced.value := by
  unfold serveFile
  cases state.fs.read path <;> rfl

theorem exists_thumb_of_serveThumbnail {book : BookRow} {image : List UInt8}
    (h : image ∈ (serveThumbnail config crates state book).1.image) :
    ∃ thumb, (serveThumbnail config crates state book).2.thumbs book.hash = some thumb ∧
      thumb.value = image := by
  have hcached (cached : Option (Sourced (List UInt8))) (hmem : image ∈ (serveCached cached).image) :
      ∃ thumb, cached = some thumb ∧ thumb.value = image := by
    cases cached with
    | none => simp [serveCached, Response.image] at hmem
    | some thumb => exact ⟨thumb, rfl, Option.some.inj hmem⟩
  unfold serveThumbnail at h ⊢
  cases hthumb : state.thumbs book.hash with
  | some thumb =>
    rw [hthumb] at h
    exact ⟨thumb, hthumb, Option.some.inj h⟩
  | none =>
    rw [hthumb] at h
    dsimp only at h ⊢
    rcases @withPage_cases config crates state book.hash book.path 0 _ with
      ⟨hpage, -⟩ | ⟨-, next, hpage | ⟨body, mime, hpage⟩⟩
    · rw [hpage] at h
      simp [Response.image] at h
    · rw [hpage] at h
      simp [Response.image] at h
    · rw [hpage] at h ⊢
      split at h
      · exact hcached _ h
      · simp [Response.image] at h

section Covers

variable {row : FolderRow} {slug : List Char}

theorem folderBySlug_eq_some {db : Db} (h : folderBySlug db slug = some row) :
    row ∈ db.folders ∧ row.slug = slug :=
  ⟨List.mem_of_find?_eq_some h, by simpa using List.find?_some h⟩

theorem image_of_under (hrow : folderBySlug state.db slug = some row) {cover : PathText}
    (hcover : cover ∈ row.coverPath)
    (h : (state.fs.under config.libraryRoot cover.osPath).isSome = true) :
    (handle config crates state (.folderCover slug)).1.image =
      (state.fs.read cover.osPath).map Sourced.value := by
  obtain ⟨hmem, rfl⟩ := folderBySlug_eq_some hrow
  obtain ⟨safe, hsafe⟩ := Option.isSome_iff_exists.mp h
  rw [handle_folderCover hmem, coverSource_of_under hcover hsafe, CoverSource.answer, image_serveFile,
    (under_spec hsafe).2.1]

/-- If the scan finds no cover, what is served is a thumbnail for the hash in the cover version. -/
theorem JustScanned.exists_thumb (h : JustScanned crates state)
    (hrow : folderBySlug state.db slug = some row)
    (hmtime : row.coverPath.bind (coverMtime state.fs) = none) {image : List UInt8}
    (himage : image ∈ (handle config crates state (.folderCover slug)).1.image) :
    ∃ book ∈ state.db.books, row.coverVersion = some book.hash ∧
      ∃ thumb, (handle config crates state (.folderCover slug)).2.thumbs book.hash = some thumb ∧
        thumb.value = image := by
  obtain ⟨hmem, rfl⟩ := folderBySlug_eq_some hrow
  have hversion := coverVersion_eq h.forest hmem (h.versioned row hmem)
  rw [hmtime] at hversion
  rw [handle_folderCover hmem, coverSource_of_coverMtime hmtime] at himage ⊢
  cases hbook : coverBook state.db row.id with
  | none => simp [hbook, CoverSource.answer, Response.image] at himage
  | some book =>
    rw [hbook] at himage hversion
    exact ⟨book, (isCoverBook_of_coverBook h.forest hmem hbook).mem, hversion,
      exists_thumb_of_serveThumbnail himage⟩

theorem JustScanned.coverVersion_of_coverMtime (h : JustScanned crates state)
    (hrow : folderBySlug state.db slug = some row) {mtime : ℕ}
    (hmtime : row.coverPath.bind (coverMtime state.fs) = some mtime) :
    row.coverVersion = some (coverToken mtime) := by
  have hmem := (folderBySlug_eq_some hrow).1
  rw [coverVersion_eq h.forest hmem (h.versioned row hmem), hmtime]

end Covers

section Tokens

variable (config : Config) (crates : Crates) (first second : State) (row other : FolderRow)

/-- If the covers that two scans have found were modified in one second, they are in the library,
and the same if they can be read. -/
def SameSecondSameImage : Prop :=
  ∀ cover ∈ row.coverPath, ∀ later ∈ other.coverPath,
    (coverMtime first.fs cover).isSome = true →
    coverMtime first.fs cover = coverMtime second.fs later →
    (first.fs.under config.libraryRoot cover.osPath).isSome = true ∧
      (second.fs.under config.libraryRoot later.osPath).isSome = true ∧
      ∀ body ∈ first.fs.read cover.osPath, ∀ changed ∈ second.fs.read later.osPath,
        body.value = changed.value

/-- If the images that are served differ, so do the cover versions and the addresses with them. -/
def Distinguishes (slug : List Char) : Prop :=
  ∀ image ∈ (handle config crates first (.folderCover slug)).1.image,
    ∀ changed ∈ (handle config crates second (.folderCover slug)).1.image, image ≠ changed →
      row.coverVersion ≠ other.coverVersion ∧
        Opds.coverHref (toFolder row) ≠ Opds.coverHref (toFolder other)

end Tokens

variable {first second : State} {row other : FolderRow} {slug : List Char}

theorem coverVersion_eq_of_coverHref {f g : Opds.Folder} (hslug : f.slug = g.slug)
    (h : Opds.coverHref f = Opds.coverHref g) : f.coverVersion = g.coverVersion := by
  have hmark : Opds.str "?v=" ≠ [] := by
    rw [Opds.str, String.toList_ofList]
    simp
  rw [Opds.coverHref, Opds.coverHref, hslug, List.append_cancel_left_eq] at h
  cases hfirst : f.coverVersion with
  | none =>
    cases hsecond : g.coverVersion with
    | none => rfl
    | some version =>
      rw [hfirst, hsecond] at h
      exact absurd (List.append_eq_nil_iff.mp h.symm).1 hmark
  | some version =>
    cases hsecond : g.coverVersion with
    | none =>
      rw [hfirst, hsecond] at h
      exact absurd (List.append_eq_nil_iff.mp h).1 hmark
    | some other =>
      rw [hfirst, hsecond] at h
      rw [List.append_cancel_left h]

/-- Two images under one cover version are the same, if those are that come from files of one
second. -/
theorem image_eq_of_coverVersion_eq (hblake : ∀ bytes, (crates.blake3 bytes).head? ≠ some 'p')
    (hfirst : JustScanned crates first) (hsecond : JustScanned crates second)
    (hkept : ThumbsKept (handle config crates first (.folderCover slug)).2 second)
    (hrow : folderBySlug first.db slug = some row)
    (hother : folderBySlug second.db slug = some other)
    (hsame : SameSecondSameImage config first second row other) {image changed : List UInt8}
    (himage : image ∈ (handle config crates first (.folderCover slug)).1.image)
    (hchanged : changed ∈ (handle config crates second (.folderCover slug)).1.image)
    (hversion : row.coverVersion = other.coverVersion) : image = changed := by
  cases hmtime : row.coverPath.bind (coverMtime first.fs) with
  | some mtime =>
    rw [hfirst.coverVersion_of_coverMtime hrow hmtime] at hversion
    cases hlater : other.coverPath.bind (coverMtime second.fs) with
    | some later =>
      rw [hsecond.coverVersion_of_coverMtime hother hlater, Option.some.injEq] at hversion
      obtain rfl := coverToken_injective hversion
      obtain ⟨cover, hcover, hfound⟩ := Option.bind_eq_some_iff.mp hmtime
      obtain ⟨next, hnext, hfoundNext⟩ := Option.bind_eq_some_iff.mp hlater
      obtain ⟨hunder, hunderNext, hbytes⟩ := hsame cover hcover next hnext
        (Option.isSome_of_eq_some hfound) (hfound.trans hfoundNext.symm)
      rw [image_of_under hrow hcover hunder] at himage
      rw [image_of_under hother hnext hunderNext] at hchanged
      obtain ⟨body, hbody, rfl⟩ := Option.map_eq_some_iff.mp himage
      obtain ⟨content, hcontent, rfl⟩ := Option.map_eq_some_iff.mp hchanged
      exact hbytes body hbody content hcontent
    | none =>
      obtain ⟨book, hbook, hhash, -⟩ := hsecond.exists_thumb hother hlater hchanged
      rw [hhash] at hversion
      exact absurd (Option.some.inj hversion).symm (hsecond.hash_ne hblake hbook mtime)
  | none =>
    obtain ⟨book, hbook, hhash, thumb, hthumb, rfl⟩ := hfirst.exists_thumb hrow hmtime himage
    rw [hhash] at hversion
    cases hlater : other.coverPath.bind (coverMtime second.fs) with
    | some later =>
      rw [hsecond.coverVersion_of_coverMtime hother hlater] at hversion
      exact absurd (Option.some.inj hversion) (hfirst.hash_ne hblake hbook later)
    | none =>
      obtain ⟨found, -, hfound, last, hlast, rfl⟩ := hsecond.exists_thumb hother hlater hchanged
      rw [hfound, Option.some.injEq] at hversion
      rw [← hversion] at hlast
      have hhandled : ThumbsKept second (handle config crates second (.folderCover slug)).2 :=
        thumbsKept_handle (.folderCover slug)
      have hstays : (handle config crates second (.folderCover slug)).2.thumbs book.hash =
          some thumb :=
        (hkept.trans hhandled) (.cover book.hash) thumb hthumb
      exact congrArg Sourced.value (Option.some.inj (hstays.symm.trans hlast))

/-- **Freshness of cover tokens.** Two scans return `Ok`, and each is followed by a request for the
cover of a folder. If the images differ, so do the cover versions, provided that covers that were
modified in one second are in the library and the same. For folders with covers in the library or
nowhere, this is all that it takes. -/
theorem cover_tokens_fresh (hblake : ∀ bytes, (crates.blake3 bytes).head? ≠ some 'p') {fs : Fs}
    {events later : List Event} {started restarted : ℕ} {faults refaults : OsPath → Bool}
    (hscan : ScanReturns config crates (stateAfter config crates fs events) started faults)
    (hfirst : first = stateAfter config crates fs (events ++ [.scan started faults none]))
    (hrescan : ScanReturns config crates (Machine.run (step config crates) first
      (.request (.folderCover slug) :: later)) restarted refaults)
    (hsecond : second = Machine.run (step config crates) first
      (.request (.folderCover slug) :: later ++ [.scan restarted refaults none]))
    (hrow : folderBySlug first.db slug = some row)
    (hother : folderBySlug second.db slug = some other) :
    (SameSecondSameImage config first second row other →
      Distinguishes config crates first second row other slug) ∧
    (Enclosed config first row → Enclosed config second other →
      Distinguishes config crates first second row other slug →
        SameSecondSameImage config first second row other) := by
  have hfirstScanned : JustScanned crates first := hfirst ▸ justScanned_of_scanReturns hscan
  have hsecondScanned : JustScanned crates second := by
    rw [hsecond, hfirst, ← Machine.run_append, ← List.append_assoc]
    apply justScanned_of_scanReturns
    rw [hfirst, ← Machine.run_append] at hrescan
    exact hrescan
  constructor
  · intro hsame image himage changed hchanged hne
    have hkept : ThumbsKept (handle config crates first (.folderCover slug)).2 second := by
      rw [hsecond]
      exact thumbsKept_run (later ++ [.scan restarted refaults none])
    have hversions : row.coverVersion ≠ other.coverVersion := fun hversion ↦
      hne (image_eq_of_coverVersion_eq hblake hfirstScanned hsecondScanned hkept hrow hother hsame
        himage hchanged hversion)
    have hslugs : row.slug = other.slug :=
      (folderBySlug_eq_some hrow).2.trans (folderBySlug_eq_some hother).2.symm
    exact ⟨hversions, fun hhref ↦ hversions (coverVersion_eq_of_coverHref hslugs hhref)⟩
  · intro hrowEnclosed hotherEnclosed hdistinguishes cover hcover next hnext hsome hmtimes
    have hstat {state : State} {path : PathText}
        (h : (coverMtime state.fs path).isSome = true) :
        (state.fs.stat path.osPath).isSome = true := by
      rwa [coverMtime, Option.isSome_map] at h
    have hunder := hrowEnclosed cover hcover (hstat hsome)
    have hunderNext := hotherEnclosed next hnext (hstat (hmtimes ▸ hsome))
    refine ⟨hunder, hunderNext, fun body hbody changed hchanged ↦ ?_⟩
    by_contra hne
    have himage : body.value ∈ (handle config crates first (.folderCover slug)).1.image := by
      rw [image_of_under hrow hcover hunder, Option.mem_def.mp hbody]
      rfl
    have hchangedImage :
        changed.value ∈ (handle config crates second (.folderCover slug)).1.image := by
      rw [image_of_under hother hnext hunderNext, Option.mem_def.mp hchanged]
      rfl
    obtain ⟨mtime, hmtime⟩ := Option.isSome_iff_exists.mp hsome
    apply (hdistinguishes _ himage _ hchangedImage hne).1
    rw [hfirstScanned.coverVersion_of_coverMtime hrow
        (Option.bind_eq_some_iff.mpr ⟨cover, hcover, hmtime⟩),
      hsecondScanned.coverVersion_of_coverMtime hother
        (Option.bind_eq_some_iff.mpr ⟨next, hnext, hmtimes ▸ hmtime⟩)]

/-- The slug of the folder `a`. -/
def coverSlug : List Char := slugForPath sampleXxh3 ["lib".toList, "a".toList]

/-- The server after the request for the cover of `a`, its replacement by a lighter one that was
modified in the second given, and another scan. -/
abbrev newCoverState (mtime : ℕ) : State :=
  Machine.run (step Config.sample Crates.replaced) coverState
    (.request (.folderCover coverSlug) :: [.change (coverFs 90 mtime)] ++
      [.scan 20 (fun _ ↦ false) none])

set_option maxRecDepth 4000 in
/-- A cover that is replaced by another one of the same second keeps its cover version, and so its
address in the feed. -/
theorem same_second_cover :
    ScanReturns Config.sample Crates.replaced
      (stateAfter Config.sample Crates.replaced (coverFs 43 5) []) 10 (fun _ ↦ false) ∧
    ScanReturns Config.sample Crates.replaced
      (Machine.run (step Config.sample Crates.replaced) coverState
        (.request (.folderCover coverSlug) :: [.change (coverFs 90 5)])) 20 (fun _ ↦ false) ∧
    ∃ row other, folderBySlug coverState.db coverSlug = some row ∧
      folderBySlug (newCoverState 5).db coverSlug = some other ∧
      ¬Distinguishes Config.sample Crates.replaced coverState (newCoverState 5) row other
        coverSlug := by
  have hrow : (folderBySlug coverState.db coverSlug).map FolderRow.coverVersion =
      some (some (coverToken 5)) := by decide +kernel
  have hother : (folderBySlug (newCoverState 5).db coverSlug).map FolderRow.coverVersion =
      some (some (coverToken 5)) := by decide +kernel
  obtain ⟨row, hrow, hversion⟩ := Option.map_eq_some_iff.mp hrow
  obtain ⟨other, hother, hotherVersion⟩ := Option.map_eq_some_iff.mp hother
  refine ⟨by decide +kernel, by decide +kernel, row, other, hrow, hother, fun hdistinguishes ↦ ?_⟩
  have himage : (handle Config.sample Crates.replaced coverState
      (.folderCover coverSlug)).1.image = some (jpegOf 43) := by decide +kernel
  have hchanged : (handle Config.sample Crates.replaced (newCoverState 5)
      (.folderCover coverSlug)).1.image = some (jpegOf 90) := by decide +kernel
  apply (hdistinguishes _ himage _ hchanged (by decide +kernel)).1
  rw [hversion, hotherVersion]

set_option maxRecDepth 4000 in
/-- If it is replaced by one of a later second, the cover version changes. -/
theorem cover_tokens_fresh_later :
    ∃ row other, folderBySlug coverState.db coverSlug = some row ∧
      folderBySlug (newCoverState 6).db coverSlug = some other ∧
      row.coverVersion ≠ other.coverVersion ∧
      Opds.coverHref (toFolder row) ≠ Opds.coverHref (toFolder other) := by
  have hrow : (folderBySlug coverState.db coverSlug).map FolderRow.coverPath =
      some (some ["lib".toList, "a".toList, "cover.jpg".toList]) := by decide +kernel
  have hother : (folderBySlug (newCoverState 6).db coverSlug).map FolderRow.coverPath =
      some (some ["lib".toList, "a".toList, "cover.jpg".toList]) := by decide +kernel
  obtain ⟨row, hrow, hcover⟩ := Option.map_eq_some_iff.mp hrow
  obtain ⟨other, hother, hotherCover⟩ := Option.map_eq_some_iff.mp hother
  have hseconds : SameSecondSameImage Config.sample coverState (newCoverState 6) row other := by
    rw [SameSecondSameImage, hcover, hotherCover]
    rintro _ ⟨rfl⟩ _ ⟨rfl⟩ - hsame
    exact absurd hsame (by decide +kernel)
  have himage : (handle Config.sample Crates.replaced coverState
      (.folderCover coverSlug)).1.image = some (jpegOf 43) := by decide +kernel
  have hchanged : (handle Config.sample Crates.replaced (newCoverState 6)
      (.folderCover coverSlug)).1.image = some (jpegOf 90) := by decide +kernel
  have hscan : ScanReturns Config.sample Crates.replaced
      (stateAfter Config.sample Crates.replaced (coverFs 43 5) []) 10 (fun _ ↦ false) := by
    decide +kernel
  have hrescan : ScanReturns Config.sample Crates.replaced
      (Machine.run (step Config.sample Crates.replaced) coverState
        (.request (.folderCover coverSlug) :: [.change (coverFs 90 6)])) 20 (fun _ ↦ false) := by
    decide +kernel
  have hfirst : coverState = stateAfter Config.sample Crates.replaced (coverFs 43 5)
      ([] ++ [.scan 10 (fun _ ↦ false) none]) := rfl
  have hdistinguishes := (cover_tokens_fresh head?_replaced hscan hfirst hrescan rfl hrow hother).1
    hseconds
  exact ⟨row, other, hrow, hother, hdistinguishes _ himage _ hchanged (by decide +kernel)⟩

end ComicStream.Server
