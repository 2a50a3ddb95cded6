import ComicStream.Server.Browsing
import ComicStream.Server.Immutable
import ComicStream.Server.Range
import ComicStream.Server.ScanLoop

/-!
# Responses

The whole of what a request is answered with: the status, the fields and the body.
Of a response that may be stored, the fields that it says it varies with are those
that it was made from, and of one for a part of a book, no later request that these
fields and the target agree with is answered otherwise.
-/

namespace ComicStream.Server

open Rust Archive Catalog Machine Opds

/-- A request, with the fields and the peer that the credential check reads. -/
structure HttpRequest extends Auth.Request where
  method : Method
  target : List UInt8

/-- What becomes of a request: a response of the router's own, or of an extractor, nothing as a
number has left its range, or a response. -/
inductive Reply where
  | framework
  | overflow
  | response (response : FileResponse)

/-- `apply_feed_response_headers`. -/
def applyFeedResponseHeaders (headers : HeaderMap) : HeaderMap :=
  ((headers.insert .cacheControl "private, max-age=60".toList).insert
    .vary "Authorization".toList).insert .xContentTypeOptions "nosniff".toList

/-- A text, as the framework makes a response of it. -/
def textResponse (status : ℕ) (text : String) : FileResponse where
  status := status
  headers := HeaderMap.empty.insert .contentType "text/plain; charset=utf-8".toList
  body := utf8 text.toList

/-- The response with a document that changes. -/
def documentResponse (contentType : String) (document : List Char) : FileResponse where
  status := 200
  headers := applyFeedResponseHeaders (HeaderMap.empty.insert .contentType contentType.toList)
  body := utf8 document

/-- The response with a feed. -/
def feedResponse (acquisition : Bool) (document : List Char) : FileResponse :=
  documentResponse (if acquisition then "application/atom+xml;profile=opds-catalog;kind=acquisition"
    else "application/atom+xml;profile=opds-catalog;kind=navigation") document

/-- `image_response`. -/
def imageResponse (bytes : List UInt8) (mime : List Char) : FileResponse where
  status := 200
  headers := applyImmutableResponseHeaders (HeaderMap.empty.insert .contentType mime)
  body := bytes

/-- The response of `serve_file`. -/
def fileResponse (content : List UInt8) (contentType : List Char) : FileResponse where
  status := 200
  headers := applyImmutableResponseHeaders
    ((HeaderMap.empty.insert .contentType (contentTypeValue contentType)).insert
      .contentLength (decimal content.length))
  body := content

/-- `vary_on_prefer`. -/
def varyOnPrefer (response : FileResponse) : FileResponse :=
  { response with headers := response.headers.insert .vary "Authorization, Prefer".toList }

/-- `AppError::into_response`. -/
def errorResponse : Response → FileResponse
  | .notFound => textResponse 404 "not found"
  | _ => textResponse 500 "internal error"

/-- Contents as the route sends them, or the error. -/
def respondWith (build : List UInt8 → List Char → FileResponse) : Response → FileResponse
  | .content body mime => build body.value mime
  | failure => errorResponse failure

section Answer

variable (chrono : Chrono) (clock : ℕ → chrono.DateTime) (config : Config) (crates : Crates)
  (sent : ScanLoop.Answer) (state : State)

/-- The response of `serve_folder_feed`, of the folder that is looked up. -/
def folderResponse (selfHref : List Char) : Option FolderRow → FileResponse
  | some folder => feedResponse (!(listedBooks state.db folder).isEmpty)
      (folderFeed chrono clock state.db folder selfHref)
  | none => errorResponse .notFound

/-- What a route makes of the contents that it sends. -/
def buildOf : Request → List UInt8 → List Char → FileResponse
  | .bookPage _ _ _ none => fun bytes mime ↦ varyOnPrefer (imageResponse bytes mime)
  | .bookPage _ _ _ (some _) => fun bytes mime ↦ varyOnPrefer (fileResponse bytes mime)
  | .bookCover _ => imageResponse
  | _ => fileResponse

/-- The answer to a request that reads the catalog or the library. -/
def catalogReply (range : Option (List Char)) : Request → Reply
  | .opdsRoot => .response (folderResponse chrono clock state (str "/opds")
      (state.db.folders.find? (·.parentId = none)))
  | .opdsFolder slug =>
    .response (folderResponse chrono clock state (folderHref slug) (folderBySlug state.db slug))
  | .opdsSearch q =>
    .response (match search state.db crates.like (trim q) with
      | some (folders, books) =>
        feedResponse true (searchFeed chrono clock crates (trim q) folders books)
      | none => errorResponse .internal)
  | .bookFile hash =>
    match bookFileWithRange config state hash range with
    | none => .overflow
    | some (.ok response) => .response response
    | some (.error failure) => .response (errorResponse failure)
  | request => .response (respondWith (buildOf request) (handle config crates state request).1)

/-- The answer to a request, by what becomes of it. -/
def dispatchReply (range : Option (List Char)) : Dispatch → Reply
  | .noRoute => .framework
  | .methodNotAllowed => .framework
  | .badRequest => .framework
  | .health => .response (textResponse 200 "ok")
  | .descriptor =>
    .response (documentResponse "application/opensearchdescription+xml" opensearchDescriptor)
  | .rescan => .response (textResponse sent.response.1 sent.response.2)
  | .catalog request => catalogReply chrono clock config crates state range request

/-- The response to `HEAD` has no body. -/
def FileResponse.strip (full : FileResponse) : Method → FileResponse
  | .head => { full with body := [] }
  | _ => full

def Reply.strip (method : Method) : Reply → Reply
  | .response full => .response (full.strip method)
  | reply => reply

/-- What a request asks for. -/
def HttpRequest.dispatch (request : HttpRequest) : Dispatch :=
  Server.dispatch config.pageThumbWidth request.method request.target (request.header "prefer")

/-- The answer to a request. -/
def httpReply (request : HttpRequest) : Reply :=
  (dispatchReply chrono clock config crates sent state ((request.header "range").bind Auth.toStr)
    (request.dispatch config)).strip request.method

end Answer

/-- The response with a whole file that a part could have been asked of. -/
def downloadResponse (content : List UInt8) (contentType : List Char) : FileResponse where
  status := 200
  headers := (applyImmutableResponseHeaders
    ((HeaderMap.empty.insert .contentType (contentTypeValue contentType)).insert
      .acceptRanges "bytes".toList)).insert .contentLength (decimal content.length)
  body := content

/-- The response with what is answered to a request for a part of a book. -/
def contentResponse : Request → List UInt8 → List Char → FileResponse
  | .bookFile _ => downloadResponse
  | request => buildOf request

section Book

variable {chrono : Chrono} {clock : ℕ → chrono.DateTime} {config : Config} {crates : Crates}
  {state : State} {range : Option (List Char)} {response : FileResponse}

theorem errorResponse_status (failure : Response) : (errorResponse failure).status ≠ 200 := by
  cases failure <;> simp [errorResponse, textResponse]

theorem bookFileWithRange_ok {hash : List Char}
    (h : bookFileWithRange config state hash range = some (.ok response))
    (hstatus : response.status = 200) : ∃ body mime,
      bookFile config state hash = .content body mime ∧
        response = downloadResponse body.value mime := by
  unfold bookFileWithRange at h
  unfold bookFile
  cases hbook : lookupBook state.db hash with
  | none => simp [hbook] at h
  | some book =>
    simp only [hbook] at h ⊢
    cases hsafe : state.fs.under config.libraryRoot book.path.osPath with
    | none => simp [hsafe] at h
    | some safe =>
      simp only [hsafe] at h ⊢
      unfold serveFileWithRange at h
      unfold serveFile
      cases hread : state.fs.read safe with
      | none => simp [hread] at h
      | some body =>
        rw [hread, Option.map_some] at h
        refine ⟨body, _, rfl, ?_⟩
        obtain ⟨found, hfound, hok⟩ := Option.map_eq_some_iff.mp h
        obtain rfl := Except.ok.inj hok
        obtain ⟨spec, -, hspec⟩ := Option.bind_eq_some_iff.mp hfound
        cases spec with
        | full =>
          rw [← Option.some.inj hspec]
          rfl
        | partialRange start endInclusive =>
          obtain ⟨count, -, rfl⟩ := Option.map_eq_some_iff.mp hspec
          simp at hstatus
        | unsatisfiable =>
          rw [← Option.some.inj hspec] at hstatus
          simp at hstatus

/-- Every response with the status 200 holds what the request is answered with. -/
theorem catalogReply_ok {request : Request} (hbook : request.IsOfBook)
    (h : catalogReply chrono clock config crates state range request = .response response)
    (hstatus : response.status = 200) : ∃ body mime,
      (handle config crates state request).1 = .content body mime ∧
        response = contentResponse request body.value mime := by
  have hrespond {build : List UInt8 → List Char → FileResponse} {answer : Response}
      (hanswer : respondWith build answer = response) :
      ∃ body mime, answer = .content body mime ∧ response = build body.value mime := by
    cases answer with
    | content body mime => exact ⟨body, mime, rfl, hanswer.symm⟩
    | feed folders books => exact absurd (hanswer ▸ hstatus) (errorResponse_status _)
    | notFound => exact absurd (hanswer ▸ hstatus) (errorResponse_status _)
    | internal => exact absurd (hanswer ▸ hstatus) (errorResponse_status _)
  cases request with
  | bookPage hash n oneBased thumbnailPref => exact hrespond (Reply.response.inj h)
  | bookCover hash => exact hrespond (Reply.response.inj h)
  | bookThumbnail hash => exact hrespond (Reply.response.inj h)
  | bookFile hash =>
    rw [catalogReply] at h
    split at h
    · simp at h
    · next found hfound =>
      obtain rfl := Reply.response.inj h
      exact bookFileWithRange_ok hfound hstatus
    · next failure hfailure =>
      exact absurd ((Reply.response.inj h) ▸ hstatus) (errorResponse_status _)
  | opdsRoot => exact hbook.elim
  | opdsFolder slug => exact hbook.elim
  | opdsSearch q => exact hbook.elim
  | folderCover slug => exact hbook.elim

end Book

/-- The fields of a request that a response says it varies with. -/
def FileResponse.varies (response : FileResponse) : List (List Char) :=
  (((response.headers .vary).getD []).splitOn ',').map fun name ↦
    (trim name).map toAsciiLowercase

/-- A cache with the response to the first request may answer the second one from it. -/
structure MayReuse (response : FileResponse) (first second : HttpRequest) : Prop where
  method : second.method = first.method
  target : second.target = first.target
  fields : ∀ name : String, name.toList ∈ response.varies →
    second.fieldLines name = first.fieldLines name

theorem varies_varyOnPrefer (response : FileResponse) :
    (varyOnPrefer response).varies = ["authorization".toList, "prefer".toList] := by
  rw [FileResponse.varies, varyOnPrefer]
  dsimp only
  rw [HeaderMap.insert_self]
  decide

theorem varies_bookPage {hash : List Char} {n : ℤ} {oneBased : Bool} {thumbnailPref : Option ℕ}
    (data : List UInt8) (mime : List Char) : "prefer".toList ∈
      (contentResponse (.bookPage hash n oneBased thumbnailPref) data mime).varies := by
  cases thumbnailPref with
  | none =>
    change _ ∈ (varyOnPrefer (imageResponse data mime)).varies
    simp [varies_varyOnPrefer]
  | some requested =>
    change _ ∈ (varyOnPrefer (fileResponse data mime)).varies
    simp [varies_varyOnPrefer]

theorem extract_prefer {width : ℕ} {prefer other : Option (List UInt8)} {query : List UInt8}
    {handler : Handler} {params : List (List UInt8)} {asked : Request}
    (h : extract width prefer query handler params = .catalog asked)
    (hprefer : ∀ hash n oneBased pref, asked = .bookPage hash n oneBased pref → other = prefer) :
    extract width other query handler params = .catalog asked := by
  unfold extract at h
  split at h
  case h_7 hash n =>
    split at h
    · next page index oneBased hhash hn hparams =>
      rw [hprefer _ _ _ _ (Dispatch.catalog.inj h).symm, extract, hhash, hn, hparams]
      exact h
    · simp at h
  case h_12 => simp at h
  all_goals exact h

theorem dispatch_prefer {width : ℕ} {method : Method} {target : List UInt8}
    {prefer other : Option (List UInt8)} {asked : Request}
    (h : Server.dispatch width method target prefer = .catalog asked)
    (hprefer : ∀ hash n oneBased pref, asked = .bookPage hash n oneBased pref → other = prefer) :
    Server.dispatch width method target other = .catalog asked := by
  unfold Server.dispatch at h ⊢
  dsimp only at h ⊢
  split at h
  · simp at h
  · next handler params hroute =>
    split at h
    · next hmethod =>
      rw [if_pos hmethod]
      exact extract_prefer h hprefer
    · simp at h

section Reuse

variable {chrono : Chrono} {clock : ℕ → chrono.DateTime} {config : Config} {crates : Crates}
  {sent : ScanLoop.Answer} {state : State} {first second : HttpRequest} {asked : Request}
  {response : FileResponse}

@[simp]
theorem FileResponse.strip_status (full : FileResponse) (method : Method) :
    (full.strip method).status = full.status := by cases method <;> rfl

@[simp]
theorem FileResponse.varies_strip (full : FileResponse) (method : Method) :
    (full.strip method).varies = full.varies := by cases method <;> rfl

theorem httpReply_ok (hasked : first.dispatch config = .catalog asked) (hbook : asked.IsOfBook)
    (h : httpReply chrono clock config crates sent state first = .response response)
    (hstatus : response.status = 200) : ∃ body mime,
      (handle config crates state asked).1 = .content body mime ∧
        response = (contentResponse asked body.value mime).strip first.method := by
  rw [httpReply, hasked, dispatchReply] at h
  cases hreply : catalogReply chrono clock config crates state
      ((first.header "range").bind Auth.toStr) asked with
  | framework =>
    rw [hreply] at h
    simp [Reply.strip] at h
  | overflow =>
    rw [hreply] at h
    simp [Reply.strip] at h
  | response full =>
    rw [hreply] at h
    obtain rfl := Reply.response.inj h
    rw [FileResponse.strip_status] at hstatus
    obtain ⟨body, mime, hbody, rfl⟩ := catalogReply_ok hbook hreply hstatus
    exact ⟨body, mime, hbody, rfl⟩

/-- What is asked for again with the fields that the response varies with is the same. -/
theorem MayReuse.dispatch (h : MayReuse response first second)
    (hasked : first.dispatch config = .catalog asked) (hbook : asked.IsOfBook)
    (hresponse : httpReply chrono clock config crates sent state first = .response response)
    (hstatus : response.status = 200) : second.dispatch config = .catalog asked := by
  rw [HttpRequest.dispatch, h.method, h.target]
  refine dispatch_prefer hasked ?_
  rintro hash n oneBased thumbnailPref rfl
  obtain ⟨body, mime, -, hbody⟩ := httpReply_ok hasked hbook hresponse hstatus
  have hvaries : "prefer".toList ∈ response.varies := by
    rw [hbody, FileResponse.varies_strip]
    exact varies_bookPage body.value mime
  rw [Auth.Request.header, Auth.Request.header, h.fields "prefer" hvaries]

/-- **Stored responses.** Whatever happens to a server after it has answered a request for a part of
a book with the status 200, no two contents having the same hash: if every file that is read has the
content that it was scanned with, then a later request for the same target, with the same fields as
far as the response says that it varies with them, asks for the same part, and is answered with this
same response whenever it is answered with the status 200. -/
theorem stored_responses_current (hblake : Function.Injective crates.blake3) {fs : Fs}
    {before between : List Event} {later : ℕ → chrono.DateTime} {sentLater : ScanLoop.Answer}
    (hasked : first.dispatch config = .catalog asked) (hbook : asked.IsOfBook)
    (hcurrent : Allowed (step config crates) (StepsCurrent config crates) (State.start config fs)
      (before ++ .request asked :: (between ++ [.request asked])))
    {stored : FileResponse} (hreuse : MayReuse stored first second)
    (hstored : httpReply chrono clock config crates sent
      (stateAfter config crates fs before) first = .response stored) (hok : stored.status = 200) :
    second.dispatch config = .catalog asked ∧
    ∀ fresh, httpReply chrono later config crates sentLater
        (stateAfter config crates fs (before ++ .request asked :: between)) second = .response fresh →
      fresh.status = 200 → fresh = stored := by
  have hfirst : Allowed (step config crates) (StepsCurrent config crates) (State.start config fs)
      (before ++ [.request asked]) := by
    obtain ⟨hbefore, hasked, -⟩ := allowed_append.mp hcurrent
    exact allowed_append.mpr ⟨hbefore, hasked, trivial⟩
  have hsecond : Allowed (step config crates) (StepsCurrent config crates) (State.start config fs)
      ((before ++ .request asked :: between) ++ [.request asked]) := by
    rwa [List.append_assoc]
  have hagain := hreuse.dispatch hasked hbook hstored hok
  refine ⟨hagain, fun fresh hfresh hfreshOk ↦ ?_⟩
  obtain ⟨body, mime, hbody, rfl⟩ := httpReply_ok hasked hbook hstored hok
  obtain ⟨found, kind, hfound, rfl⟩ := httpReply_ok hagain hbook hfresh hfreshOk
  obtain ⟨hdata, rfl⟩ := (isAnswer_stateAfter hblake hsecond hfound).unique hblake hbook
    (isAnswer_stateAfter hblake hfirst hbody)
  rw [hdata, hreuse.method]

end Reuse

/-- A request for the first page, without a wish for a thumbnail. -/
def samplePageRequest (others : List (String × List UInt8)) : HttpRequest where
  connectInfo := none
  headers := ("prefer", utf8 (str "handling=lenient")) :: others
  method := .get
  target := utf8 (hrefOf [str "books", sampleHash, str "pages", decimal 0])

theorem dispatch_samplePageRequest (others : List (String × List UInt8)) :
    (samplePageRequest others).dispatch Config.sample =
      .catalog (.bookPage sampleHash 0 false none) := by
  have hword : IsWord sampleHash := ⟨by decide, List.all_eq_true.mp (by decide)⟩
  have hprefer : parseThumbnailPref (some (utf8 (str "handling=lenient"))) 600 = none := by
    decide
  have hdispatch := @dispatch_page 600 (some (utf8 (str "handling=lenient"))) _ hword.isPlainText 0
    (by decide)
  rwa [hprefer] at hdispatch

/-- Asked for again after another scan, with another field. -/
theorem stored_responses_current_zipped :
    ∃ stored fresh,
      httpReply Chrono.sample Chrono.sampleClock Config.sample Crates.zipped .ok
        (scannedIn (ascii "a")) (samplePageRequest []) = .response stored ∧
      httpReply Chrono.sample Chrono.sampleClock Config.sample Crates.zipped .full
        (stateAfter Config.sample Crates.zipped (zippedFs (ascii "a"))
          ([.scan 10 (fun _ ↦ false) none] ++
            .request (.bookPage sampleHash 0 false none) :: [.scan 20 (fun _ ↦ false) none]))
        (samplePageRequest [("accept", utf8 (str "image/*"))]) = .response fresh ∧
      fresh = stored := by
  have hbook : (Request.bookPage sampleHash 0 false none).IsOfBook := trivial
  have hreply (sent : ScanLoop.Answer) (state : State) (others : List (String × List UInt8))
      (hstate : (handle Config.sample Crates.zipped state (.bookPage sampleHash 0 false none)).1 =
        .content ⟨[255, 216, 255], [ascii "lib", ascii "a", ascii "1.cbz"]⟩ jpeg) :
      httpReply Chrono.sample Chrono.sampleClock Config.sample Crates.zipped sent state
        (samplePageRequest others) = .response (varyOnPrefer (imageResponse [255, 216, 255] jpeg)) := by
    rw [httpReply, dispatch_samplePageRequest, dispatchReply]
    rw [catalogReply, hstate]
    · rfl
    all_goals simp
  have hfirst := hreply .ok (scannedIn (ascii "a")) [] (by decide +kernel)
  have hsecond := hreply .full (stateAfter Config.sample Crates.zipped (zippedFs (ascii "a"))
    ([.scan 10 (fun _ ↦ false) none] ++
      .request (.bookPage sampleHash 0 false none) :: [.scan 20 (fun _ ↦ false) none]))
    [("accept", utf8 (str "image/*"))] (by decide +kernel)
  have hcurrent (state : State) (h : ∀ row ∈ archiveRow Config.sample state
      (.bookPage sampleHash 0 false none), OpensCurrent Config.sample Crates.zipped state row) :
      StepsCurrent Config.sample Crates.zipped state
        (.request (.bookPage sampleHash 0 false none)) := h
  refine ⟨_, _, hfirst, hsecond, (@stored_responses_current Chrono.sample Chrono.sampleClock
    Config.sample Crates.zipped .ok _ _ _ sampleBlake3_injective (zippedFs (ascii "a"))
    [.scan 10 (fun _ ↦ false) none] [.scan 20 (fun _ ↦ false) none] Chrono.sampleClock .full
    (dispatch_samplePageRequest []) hbook ?_ _ ?_ hfirst rfl).2 _ hsecond rfl⟩
  · exact ⟨fun hprewarm ↦ absurd hprewarm (by decide), hcurrent _ (by decide +kernel),
      fun hprewarm ↦ absurd hprewarm (by decide), hcurrent _ (by decide +kernel), trivial⟩
  · refine ⟨rfl, rfl, fun name hname ↦ ?_⟩
    rw [varies_varyOnPrefer, List.mem_pair] at hname
    rcases hname with hname | hname
    · obtain rfl := String.toList_inj.mp hname
      rfl
    · obtain rfl := String.toList_inj.mp hname
      rfl

end ComicStream.Server
