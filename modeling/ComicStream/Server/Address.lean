import ComicStream.Foundation.Percent
import ComicStream.Server.Feeds
import ComicStream.Server.Prefer

/-!
# Addresses

What the target of a request is taken for: the router finds a handler by the path,
and the handler's extractors read its parameters and the query. No two patterns of
the router have a path in common, so it does not matter in which order they are
tried.
-/

namespace ComicStream.Server

open Rust Percent Opds

/-- `http::Method`, as far as the router tells methods apart. -/
inductive Method where
  | get
  | head
  | post
  | other
  deriving DecidableEq

/-- The handlers of the router. -/
inductive Handler where
  | health
  | opdsRoot
  | opdsSearch
  | opensearchDescriptor
  | opdsFolder
  | folderCover
  | bookPage
  | bookCover
  | bookThumbnail
  | bookFile
  | adminRescan
  deriving DecidableEq

/-- The patterns of `router`. -/
def router : List (String × Handler) :=
  [("/health", .health),
    ("/", .opdsRoot),
    ("/opds", .opdsRoot),
    ("/opds/", .opdsRoot),
    ("/opds/search", .opdsSearch),
    ("/opds/opensearch.xml", .opensearchDescriptor),
    ("/opds/folders/:slug", .opdsFolder),
    ("/folders/:slug/cover", .folderCover),
    ("/books/:hash/pages/:n", .bookPage),
    ("/books/:hash/cover", .bookCover),
    ("/books/:hash/thumbnail", .bookThumbnail),
    ("/books/:hash/file", .bookFile),
    ("/admin/rescan", .adminRescan)]

/-- Whether a handler was given to `get` or to `post`. What is given to `get` answers `HEAD`
as well. -/
def Handler.answers : Handler → Method → Bool
  | .adminRescan, method => method = .post
  | _, method => method = .get || method = .head

def colon : UInt8 := 58

def question : UInt8 := 63

def segments (path : List UInt8) : List (List UInt8) := path.splitOn slash

def patternSegments (pattern : String) : List (List UInt8) := segments (utf8 (str pattern))

def IsParameter (part : List UInt8) : Prop := part.head? = some colon

instance (part : List UInt8) : Decidable (IsParameter part) :=
  inferInstanceAs (Decidable (part.head? = some colon))

/-- What the parameters of a pattern stand for. Each takes one segment that is not empty. -/
def captures : List (List UInt8) → List (List UInt8) → Option (List (List UInt8))
  | [], [] => some []
  | part :: parts, segment :: path =>
    if IsParameter part then
      if segment = [] then none else (captures parts path).map (segment :: ·)
    else if part = segment then captures parts path
    else none
  | _, _ => none

/-- The handler of a path, and its parameters. -/
def findRoute (path : List UInt8) : Option (Handler × List (List UInt8)) :=
  router.findSome? fun route ↦
    (captures (patternSegments route.1) (segments path)).map fun params ↦ (route.2, params)

/-- The text of a parameter, if it is well-formed UTF-8. -/
def pathText (segment : List UInt8) : Option (List Char) := fromUtf8 (decode segment)

/-- The pairs of a query, with ill-formed UTF-8 replaced. -/
def queryPairs (query : List UInt8) : List (List Char × List Char) :=
  (formPairs query).map fun pair ↦ (fromUtf8Lossy pair.1, fromUtf8Lossy pair.2)

/-- What a query says of a field. -/
def queryValues (field : String) (query : List UInt8) : List (List Char) :=
  ((queryPairs query).filter (·.1 = str field)).map Prod.snd

/-- `SearchParams`. A field that is given twice is an error. -/
def searchParams (query : List UInt8) : Option (List Char) :=
  match queryValues "q" query with
  | [] => some []
  | [q] => some q
  | _ => none

/-- `PageParams`. -/
def pageParams (query : List UInt8) : Option Bool :=
  match queryValues "one_based" query with
  | [] => some false
  | [value] =>
    if value = str "true" then some true else if value = str "false" then some false else none
  | _ => none

/-- What becomes of a request. -/
inductive Dispatch where
  /-- No pattern has the path. -/
  | noRoute
  | methodNotAllowed
  /-- An extractor has rejected the request. -/
  | badRequest
  | health
  | descriptor
  | rescan
  | catalog (request : Request)

/-- The extractors of the handlers. The patterns give each handler the parameters that it takes. -/
def extract (width : ℕ) (prefer : Option (List UInt8)) (query : List UInt8) :
    Handler → List (List UInt8) → Dispatch
  | .health, [] => .health
  | .opdsRoot, [] => .catalog .opdsRoot
  | .opdsSearch, [] => (searchParams query).elim .badRequest fun q ↦ .catalog (.opdsSearch q)
  | .opensearchDescriptor, [] => .descriptor
  | .opdsFolder, [slug] => (pathText slug).elim .badRequest fun slug ↦ .catalog (.opdsFolder slug)
  | .folderCover, [slug] => (pathText slug).elim .badRequest fun slug ↦ .catalog (.folderCover slug)
  | .bookPage, [hash, n] =>
    match pathText hash, (pathText n).bind parseI64, pageParams query with
    | some hash, some n, some oneBased =>
      .catalog (.bookPage hash n oneBased (parseThumbnailPref prefer width))
    | _, _, _ => .badRequest
  | .bookCover, [hash] => (pathText hash).elim .badRequest fun hash ↦ .catalog (.bookCover hash)
  | .bookThumbnail, [hash] =>
    (pathText hash).elim .badRequest fun hash ↦ .catalog (.bookThumbnail hash)
  | .bookFile, [hash] => (pathText hash).elim .badRequest fun hash ↦ .catalog (.bookFile hash)
  | .adminRescan, [] => .rescan
  | _, _ => .noRoute

/-- The router and the extractors. The query starts behind the first question mark. -/
def dispatch (width : ℕ) (method : Method) (target : List UInt8) (prefer : Option (List UInt8)) :
    Dispatch :=
  let parts := cut question target
  match findRoute parts.1 with
  | none => .noRoute
  | some (handler, params) =>
    if handler.answers method then extract width prefer parts.2 handler params
    else .methodNotAllowed

section Captures

variable {part segment : List UInt8} {parts path : List (List UInt8)}

theorem captures_literal (h : ¬IsParameter part) :
    captures (part :: parts) (part :: path) = captures parts path := by
  rw [captures, if_neg h, if_pos rfl]

theorem captures_parameter (h : IsParameter part) (hne : segment ≠ []) :
    captures (part :: parts) (segment :: path) = (captures parts path).map (segment :: ·) := by
  rw [captures, if_pos h, if_neg hne]

end Captures

/-- Nothing keeps the two patterns from having a path in common. -/
def meets : List (List UInt8) → List (List UInt8) → Bool
  | [], [] => true
  | part :: parts, other :: others =>
    (IsParameter part || IsParameter other || part = other) && meets parts others
  | _, _ => false

theorem meets_of_captures {first second path : List (List UInt8)}
    (hfirst : (captures first path).isSome) (hsecond : (captures second path).isSome) :
    meets first second = true := by
  induction path generalizing first second with
  | nil =>
    cases first with
    | nil =>
      cases second with
      | nil => rfl
      | cons part parts => simp [captures] at hsecond
    | cons part parts => simp [captures] at hfirst
  | cons segment path ih =>
    match first, second with
    | [], _ => simp [captures] at hfirst
    | _, [] => simp [captures] at hsecond
    | part :: parts, other :: others =>
      have hrest (part : List UInt8) (parts : List (List UInt8))
          (h : (captures (part :: parts) (segment :: path)).isSome) :
          (IsParameter part ∨ part = segment) ∧ (captures parts path).isSome := by
        rw [captures] at h
        split_ifs at h with hparameter hempty hsame
        · simp at h
        · exact ⟨.inl hparameter, by simpa using h⟩
        · exact ⟨.inr hsame, h⟩
        · simp at h
      obtain ⟨hpart, hparts⟩ := hrest part parts hfirst
      obtain ⟨hother, hothers⟩ := hrest other others hsecond
      have hhead : IsParameter part ∨ IsParameter other ∨ part = other := by
        rcases hpart with hpart | rfl
        · exact .inl hpart
        · rcases hother with hother | rfl
          · exact .inr (.inl hother)
          · exact .inr (.inr rfl)
      simpa [meets, ih hparts hothers, or_assoc] using hhead

theorem router_apart : router.Pairwise fun first second ↦
    meets (patternSegments first.1) (patternSegments second.1) = false := by decide

/-- The handler of a path is that of whatever pattern the path has. -/
theorem findRoute_eq_some {path : List UInt8} {handler : Handler} {params : List (List UInt8)} :
    findRoute path = some (handler, params) ↔ ∃ pattern, (pattern, handler) ∈ router ∧
      captures (patternSegments pattern) (segments path) = some params := by
  constructor
  · intro h
    obtain ⟨⟨pattern, other⟩, hroute, heq⟩ := List.exists_of_findSome?_eq_some h
    obtain ⟨found, hfound, hpair⟩ := Option.map_eq_some_iff.mp heq
    obtain ⟨rfl, rfl⟩ := Prod.mk.inj hpair
    exact ⟨pattern, hroute, hfound⟩
  · rintro ⟨pattern, hroute, hcaptures⟩
    obtain ⟨before, after, hrouter⟩ := List.append_of_mem hroute
    have hapart := router_apart
    rw [hrouter, List.pairwise_append] at hapart
    have hbefore : before.findSome? (fun route ↦
        (captures (patternSegments route.1) (segments path)).map fun params ↦
          (route.2, params)) = none := by
      rw [List.findSome?_eq_none_iff]
      intro route hearlier
      rw [Option.map_eq_none_iff, ← Option.not_isSome_iff_eq_none]
      intro hother
      have hmeets := meets_of_captures hother (by rw [hcaptures, Option.isSome_some])
      exact absurd hmeets (by simp [hapart.2.2 route hearlier _ List.mem_cons_self])
    rw [findRoute, hrouter, List.findSome?_append, hbefore, Option.none_or, List.findSome?_cons,
      hcaptures, Option.map_some]

/-- The path of the segments given. -/
def address (parts : List (List UInt8)) : List UInt8 := parts.flatMap (slash :: ·)

theorem segments_append_address {first : List UInt8} {parts : List (List UInt8)}
    (hfirst : slash ∉ first) (hparts : ∀ part ∈ parts, slash ∉ part) :
    segments (first ++ address parts) = first :: parts := by
  induction parts generalizing first with
  | nil =>
    rw [address, List.flatMap_nil, List.append_nil]
    exact List.splitOn_eq_singleton hfirst
  | cons part parts ih =>
    obtain ⟨hpart, hrest⟩ := List.forall_mem_cons.mp hparts
    calc
      _ = (first ++ slash :: (part ++ address parts)).splitOn slash := rfl
      _ = first :: parts.cons part := by
        rw [List.splitOn_append_cons_self_of_not_mem hfirst]
        exact congrArg (first :: ·) (ih hpart hrest)

/-- Nothing in the segment has a meaning of its own in an address. -/
structure IsVerbatim (segment : List UInt8) : Prop where
  ne_nil : segment ≠ []
  slash_notMem : slash ∉ segment
  question_notMem : question ∉ segment
  percent_notMem : percent ∉ segment

theorem question_notMem_address {parts : List (List UInt8)} (h : ∀ part ∈ parts, question ∉ part) :
    ∀ b ∈ address parts, b ≠ question := by
  rintro b hb rfl
  obtain ⟨part, hpart, hmem⟩ := List.mem_flatMap.mp hb
  rcases List.mem_cons.mp hmem with hslash | hmem
  · exact absurd hslash (by decide)
  · exact h part hpart hmem

section Written

variable {width : ℕ} {method : Method} {prefer : Option (List UInt8)} {pattern : String}
  {handler : Handler} {parts params : List (List UInt8)}

theorem dispatch_of_cut {target query : List UInt8} (hcut : cut question target = (address parts, query))
    (hparts : ∀ part ∈ parts, slash ∉ part) (hroute : (pattern, handler) ∈ router)
    (hcaptures : captures (patternSegments pattern) ([] :: parts) = some params)
    (hmethod : handler.answers method = true) :
    dispatch width method target prefer = extract width prefer query handler params := by
  have hsegments : segments (address parts) = [] :: parts :=
    segments_append_address List.not_mem_nil hparts
  have hfind : findRoute (address parts) = some (handler, params) :=
    findRoute_eq_some.mpr ⟨pattern, hroute, by rw [hsegments, hcaptures]⟩
  rw [dispatch, hcut]
  simp only [hfind, hmethod, if_true]

theorem dispatch_address (hparts : ∀ part ∈ parts, IsVerbatim part)
    (hroute : (pattern, handler) ∈ router)
    (hcaptures : captures (patternSegments pattern) ([] :: parts) = some params)
    (hmethod : handler.answers method = true) :
    dispatch width method (address parts) prefer = extract width prefer [] handler params :=
  dispatch_of_cut (cut_of_forall (question_notMem_address fun part h ↦ (hparts part h).question_notMem))
    (fun part h ↦ (hparts part h).slash_notMem) hroute hcaptures hmethod

end Written

end ComicStream.Server
