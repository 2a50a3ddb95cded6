import ComicStream.Server.Immutable
import ComicStream.Server.Range

/-!
# Interrupted downloads

A client that has received the first bytes of a book asks for the rest, gets some of
it, and asks again later. In the meantime the library is scanned, the book is moved,
or another server answers. What the client has put together is always a first part of
the one content that has the hash.
-/

namespace ComicStream.Server

open Rust Archive Catalog Machine

/-- One request of a download: the state it is answered in, its `Range` header, and how many bytes
arrive before the connection breaks. -/
structure Attempt where
  state : State
  range : Option (List Char)
  arrived : ℕ

section Client

variable (config : Config) (crates : Crates) (hash : List Char)

/-- What arrives is put behind what there is. Of a failed request nothing is. -/
def receive (received : List UInt8) (attempt : Attempt) : List UInt8 :=
  received ++ (bodyOf (bookFileWithRange config attempt.state hash attempt.range)).take
    attempt.arrived

/-- The client asks for what is missing: for everything, or from the first byte on that it does not
have. -/
def AsksForRest (received : List UInt8) : Option (List Char) → Prop
  | none => received = []
  | some raw => IsRangeHeader (.fromFirst received.length) raw

/-- The rest is asked for, and the file that is read has the content of its row. -/
structure Continues (received : List UInt8) (attempt : Attempt) : Prop where
  asks : AsksForRest received attempt.range
  current : ReadsCurrent config crates attempt.state (.bookFile hash)

end Client

variable {config : Config} {crates : Crates} {state : State} {hash : List Char}
  {content : List UInt8} {range : Option (List Char)} {received : List UInt8}

theorem serveFileWithRange_of_current (hblake : Function.Injective crates.blake3)
    (hcontent : crates.blake3 content = hash)
    (hcurrent : ReadsCurrent config crates state (.bookFile hash)) {response : FileResponse}
    (h : bookFileWithRange config state hash range = some (.ok response)) :
    ∃ mime, serveFileWithRange (some content) mime range = some (.ok response) := by
  unfold bookFileWithRange at h
  split at h
  · simp at h
  · next row hrow =>
    obtain ⟨-, rfl, -⟩ := lookupBook_eq_some hrow
    split at h
    · simp at h
    · next safe hsafe =>
      cases hread : state.fs.read safe with
      | none => simp [hread, serveFileWithRange] at h
      | some body =>
        have hhash := hcurrent row hrow body (by rw [read_of_under hsafe, hread]; rfl)
        obtain rfl := hblake (hhash.trans hcontent.symm)
        rw [hread] at h
        exact ⟨_, h⟩

theorem Selects.body_fromFirst {first : ℕ} {response : FileResponse}
    (h : Selects content ((ByteRange.fromFirst first).positions content.length) response) :
    response.body = content.drop first := by
  rcases h with ⟨hempty, -, hbody⟩ | ⟨start, endInclusive, hle, hIcc, -, -, -, hbody⟩
  · have hend : content.length ≤ first := by
      by_contra hlt
      exact Set.eq_empty_iff_forall_notMem.mp hempty first ⟨by omega, Nat.le_refl first⟩
    rw [hbody, List.drop_eq_nil_of_le hend]
  · have hstart : start ∈ Set.Icc start endInclusive := ⟨Nat.le_refl start, hle⟩
    have hstop : endInclusive ∈ Set.Icc start endInclusive := ⟨hle, Nat.le_refl endInclusive⟩
    rw [← hIcc] at hstart hstop
    have hfirst : first ∈ (ByteRange.fromFirst first).positions content.length :=
      ⟨by have := hstart.1; have := hstart.2; omega, Nat.le_refl first⟩
    have hlast : content.length - 1 ∈ (ByteRange.fromFirst first).positions content.length :=
      ⟨by have := hstart.1; omega, by have := hstart.1; have := hstart.2; omega⟩
    rw [hIcc] at hfirst hlast
    obtain rfl : start = first := Nat.le_antisymm hfirst.1 hstart.2
    have hcount : endInclusive - start + 1 = content.length - start := by
      have := hstop.1
      have := hlast.2
      omega
    rw [hbody, slice, hcount]
    exact List.take_of_length_le (by rw [List.length_drop])

/-- What a client that asks for the rest is sent is the rest. -/
theorem body_of_asksForRest (hlength : content.length < 2 ^ 64)
    (hasks : AsksForRest received range) {mime : List Char} {response : FileResponse}
    (h : serveFileWithRange (some content) mime range = some (.ok response)) :
    response.body = content.drop received.length := by
  cases range with
  | none =>
    obtain rfl : received = [] := hasks
    rw [serveFileWithRange] at h
    obtain rfl := Except.ok.inj (Option.some.inj h)
    rfl
  | some raw =>
    obtain ⟨found, hfound, hselects⟩ := IsRangeHeader.serveFileWithRange hasks mime hlength
    rw [h, Option.some.injEq] at hfound
    obtain rfl := Except.ok.inj hfound
    exact hselects.body_fromFirst

theorem Continues.receive_ok (hblake : Function.Injective crates.blake3)
    (hcontent : crates.blake3 content = hash) (hlength : content.length < 2 ^ 64) {attempt : Attempt}
    (h : Continues config crates hash received attempt) {response : FileResponse}
    (hanswer : bookFileWithRange config attempt.state hash attempt.range = some (.ok response)) :
    response.body = content.drop received.length ∧ receive config hash received attempt =
      received ++ (content.drop received.length).take attempt.arrived := by
  obtain ⟨mime, hserved⟩ := serveFileWithRange_of_current hblake hcontent h.current hanswer
  have hbody := body_of_asksForRest hlength h.asks hserved
  refine ⟨hbody, ?_⟩
  rw [receive, hanswer, bodyOf, hbody]

/-- An attempt keeps what a client has a first part of the content. -/
theorem Continues.receive_prefix (hblake : Function.Injective crates.blake3)
    (hcontent : crates.blake3 content = hash) (hlength : content.length < 2 ^ 64) {attempt : Attempt}
    (h : Continues config crates hash received attempt) (hreceived : received <+: content) :
    receive config hash received attempt <+: content := by
  have hfailed (hbody : bodyOf (bookFileWithRange config attempt.state hash attempt.range) = []) :
      receive config hash received attempt <+: content := by
    rw [receive, hbody, List.take_nil, List.append_nil]
    exact hreceived
  cases hanswer : bookFileWithRange config attempt.state hash attempt.range with
  | none => exact hfailed (by rw [hanswer]; rfl)
  | some answer =>
    cases answer with
    | error failure => exact hfailed (by rw [hanswer]; rfl)
    | ok response =>
      rw [(h.receive_ok hblake hcontent hlength hanswer).2]
      obtain ⟨rest, rfl⟩ := hreceived
      rw [List.drop_left]
      exact (List.prefix_append_right_inj received).mpr (List.take_prefix _ _)

/-- **Interrupted downloads.** However often a download is interrupted and taken up again, and
whatever happens to the library in between, no two contents having the same hash: as long as the file
that is read has the content it was scanned with, the client has a first part of the content that has
the hash, and has all of it when an attempt has got through to its end. -/
theorem resumed_download (hblake : Function.Injective crates.blake3)
    (hcontent : crates.blake3 content = hash) (hlength : content.length < 2 ^ 64)
    {attempts : List Attempt}
    (hattempts : Allowed (receive config hash) (Continues config crates hash) [] attempts) :
    run (receive config hash) [] attempts <+: content ∧
    ∀ before last, attempts = before ++ [last] →
      (∃ response, bookFileWithRange config last.state hash last.range = some (.ok response) ∧
        response.body.length ≤ last.arrived) →
      run (receive config hash) [] attempts = content := by
  have hpart {attempts : List Attempt}
      (h : Allowed (receive config hash) (Continues config crates hash) [] attempts) :
      run (receive config hash) [] attempts <+: content :=
    @run_invariant_of_allowed _ _ _ _ (· <+: content)
      (fun _ _ hreceived hnext ↦ hnext.receive_prefix hblake hcontent hlength hreceived) _ _ h
      (List.nil_prefix)
  refine ⟨hpart hattempts, ?_⟩
  rintro before last rfl ⟨response, hanswer, harrived⟩
  obtain ⟨hbefore, hlast, -⟩ := allowed_append.mp hattempts
  obtain ⟨hbody, hreceive⟩ := hlast.receive_ok hblake hcontent hlength hanswer
  obtain ⟨rest, hrest⟩ := hpart hbefore
  rw [run_snoc, hreceive]
  rw [← hrest, List.drop_left] at hbody ⊢
  rw [List.take_of_length_le (by rw [← hbody]; exact harrived)]

/-- Ten bytes arrive; the rest is asked of a server that has the archive in another folder. -/
def sampleAttempts : List Attempt :=
  [⟨scannedIn (ascii "a"), none, 10⟩, ⟨scannedIn (ascii "b"), some "bytes=10-".toList, 200⟩]

theorem resumed_download_zipped :
    run (receive Config.sample sampleHash) [] sampleAttempts = sampleZip := by
  have hcurrent (folder : OsName) (h : ∀ row ∈ lookupBook (scannedIn folder).db sampleHash,
      ∀ content ∈ (scannedIn folder).fs.read row.path.osPath,
        Crates.zipped.blake3 content.value = row.hash) :
      ReadsCurrent Config.sample Crates.zipped (scannedIn folder) (.bookFile sampleHash) := h
  have harrived : (receive Config.sample sampleHash []
      ⟨scannedIn (ascii "a"), none, 10⟩).length = 10 := by decide +kernel
  have hheader : IsRangeHeader (.fromFirst 10) "bytes=10-".toList :=
    @IsRangeHeader.written (.fromFirst 10) "bytes=".toList ['1', '0'] [] [] [] [] [] []
      (by decide) (.fromFirst (isDecimal_decimal 10) (by decide)) (by simp)
  have hfirst : Continues Config.sample Crates.zipped sampleHash []
      ⟨scannedIn (ascii "a"), none, 10⟩ := ⟨rfl, hcurrent (ascii "a") (by decide +kernel)⟩
  have hsecond : Continues Config.sample Crates.zipped sampleHash
      (receive Config.sample sampleHash [] ⟨scannedIn (ascii "a"), none, 10⟩)
      ⟨scannedIn (ascii "b"), some "bytes=10-".toList, 200⟩ := by
    refine ⟨?_, hcurrent (ascii "b") (by decide +kernel)⟩
    rw [AsksForRest, harrived]
    exact hheader
  have hserved : ∃ response, bookFileWithRange Config.sample (scannedIn (ascii "b")) sampleHash
      (some "bytes=10-".toList) = some (.ok response) ∧ response.body.length ≤ 200 := by
    have hany : (bookFileWithRange Config.sample (scannedIn (ascii "b")) sampleHash
        (some "bytes=10-".toList)).any (fun answer ↦
          answer.toOption.any (·.body.length ≤ 200)) = true := by decide +kernel
    obtain ⟨answer, hanswer, hok⟩ := (Option.any_eq_true _ _).mp hany
    cases answer with
    | error failure => simp [Except.toOption] at hok
    | ok response => exact ⟨response, hanswer, by simpa [Except.toOption] using hok⟩
  have hattempts : Allowed (receive Config.sample sampleHash)
      (Continues Config.sample Crates.zipped sampleHash) [] sampleAttempts :=
    ⟨hfirst, hsecond, trivial⟩
  exact (resumed_download sampleBlake3_injective (by decide) (by decide)
    hattempts).2 [⟨scannedIn (ascii "a"), none, 10⟩] _ rfl hserved

end ComicStream.Server
