import ComicStream.Auth.RateLimit

/-!
# The client address behind reverse proxies

A request carries its TCP peer and its header field lines. Behind a trusted
peer the client address is looked for in `X-Forwarded-For`, right to left. The
lookup reads one field line only, and none at all when that line holds a byte
outside visible ASCII; both decide when a client can choose the address it is
limited under.
-/

namespace ComicStream.Auth

open Rust

/-- A network of the `ipnet` crate, given by its `contains` method. -/
structure IpNet where
  contains : IpAddr → Bool

structure ProxyConfig where
  trusted : List IpNet

def ProxyConfig.isTrusted (cfg : ProxyConfig) (ip : IpAddr) : Bool :=
  cfg.trusted.any (·.contains ip)

/-- The parts of a request that the middleware reads: the peer recorded in `ConnectInfo` and
the header field lines in the order they arrived, names in lower case. -/
structure Request where
  connectInfo : Option IpAddr
  headers : List (String × List UInt8)

/-- All field lines of one name. -/
def Request.fieldLines (req : Request) (name : String) : List (List UInt8) :=
  req.headers.filterMap fun field ↦ if field.1 = name then some field.2 else none

/-- `HeaderMap::get`: the first field line of the name. -/
def Request.header (req : Request) (name : String) : Option (List UInt8) :=
  (req.fieldLines name).head?

/-- The bytes `HeaderValue::to_str` accepts. -/
def isVisibleAscii (b : UInt8) : Bool := (32 ≤ b && b < 127) || b == 9

def asciiChar (b : UInt8) : Char := Char.ofNat b.toNat

/-- `HeaderValue::to_str`. -/
def toStr (value : List UInt8) : Option (List Char) :=
  if value.all isVisibleAscii then some (value.map asciiChar) else none

/-- A hop that parses and is not itself trusted. -/
def untrustedHop (cfg : ProxyConfig) (hop : List Char) : Option IpAddr :=
  (IpAddr.parse hop).filter fun ip ↦ !cfg.isTrusted ip

def clientIp (req : Request) (cfg : ProxyConfig) : Option IpAddr :=
  match req.connectInfo with
  | none => none
  | some peer =>
    if cfg.trusted.isEmpty || !cfg.isTrusted peer then some peer
    else
      match (req.header "x-forwarded-for").bind toStr with
      | some xff => ((((xff.splitOn ',').reverse.map trim).findSome? (untrustedHop cfg)).or peer)
      | none => some peer

/-- The comma that separates the entries of a list-valued field. -/
def comma : UInt8 := 44

/-- An entry a proxy adds, after a comma on the last field line or on a line of its own. -/
structure Hop where
  entry : List UInt8
  ownLine : Bool
  entry_no_comma : comma ∉ entry

def addHop (lines : List (List UInt8)) (hop : Hop) : List (List UInt8) :=
  match lines.getLast? with
  | none => [hop.entry]
  | some last =>
    if hop.ownLine then lines ++ [hop.entry] else lines.dropLast ++ [last ++ comma :: hop.entry]

/-- The field lines after the client's own and the additions of the proxies. -/
def forwarded (client : List (List UInt8)) (hops : List Hop) : List (List UInt8) :=
  hops.foldl addHop client

/-- The address of one entry, if it parses and is not trusted. -/
def untrustedEntry (cfg : ProxyConfig) (entry : List UInt8) : Option IpAddr :=
  (toStr entry).bind fun text ↦ untrustedHop cfg (trim text)

/-- The rightmost parseable untrusted address of a list of entries. -/
def rightmostUntrusted (cfg : ProxyConfig) (entries : List (List UInt8)) : Option IpAddr :=
  entries.reverse.findSome? (untrustedEntry cfg)

/-- The one list that several field lines stand for. -/
def listEntries (lines : List (List UInt8)) : List (List UInt8) :=
  lines.flatMap (List.splitOn comma)

/-- Additions reach the one list at its end, whatever lines carry them. -/
theorem listEntries_addHop (lines : List (List UInt8)) (hop : Hop) :
    listEntries (addHop lines hop) = listEntries lines ++ [hop.entry] := by
  have hentry : hop.entry.splitOn comma = [hop.entry] := List.splitOn_eq_singleton hop.entry_no_comma
  unfold addHop
  cases hlast : lines.getLast? with
  | none =>
    rw [List.getLast?_eq_none_iff.mp hlast]
    simp [listEntries, hentry]
  | some last =>
    obtain ⟨earlier, rfl⟩ := List.getLast?_eq_some_iff.mp hlast
    cases hop.ownLine <;> simp [listEntries, List.splitOn_append_cons_self, hentry]

theorem listEntries_forwarded (client : List (List UInt8)) (hops : List Hop) :
    listEntries (forwarded client hops) = listEntries client ++ hops.map Hop.entry := by
  induction hops generalizing client with
  | nil => simp [forwarded]
  | cons hop rest ih =>
    rw [forwarded, List.foldl_cons, ← forwarded, ih, listEntries_addHop]
    simp

theorem rightmostUntrusted_append (cfg : ProxyConfig) (first second : List (List UInt8)) :
    rightmostUntrusted cfg (first ++ second) =
      (rightmostUntrusted cfg second).or (rightmostUntrusted cfg first) := by
  simp [rightmostUntrusted, List.findSome?_append]

theorem not_isTrusted_of_rightmostUntrusted {cfg : ProxyConfig} {entries : List (List UInt8)}
    {ip : IpAddr} (h : rightmostUntrusted cfg entries = some ip) : cfg.isTrusted ip = false := by
  obtain ⟨entry, -, hentry⟩ := List.exists_of_findSome?_eq_some h
  obtain ⟨text, -, hhop⟩ := Option.bind_eq_some_iff.mp hentry
  simpa using (Option.filter_eq_some_iff.mp hhop).2

theorem toNat_asciiChar (b : UInt8) : (asciiChar b).toNat = b.toNat := by
  have hvalid : b.toNat.isValidChar := .inl (b.toNat_lt.trans (by decide))
  rw [asciiChar, Char.ofNat, dif_pos hvalid]
  rfl

theorem asciiChar_eq_comma (b : UInt8) : asciiChar b = asciiChar comma ↔ b = comma := by
  constructor
  · intro h
    apply UInt8.toNat.inj
    rw [← toNat_asciiChar, h, toNat_asciiChar]
  · rintro rfl
    rfl

/-- On a visible line the walk finds the rightmost parseable untrusted address. -/
theorem walk_eq_rightmostUntrusted (cfg : ProxyConfig) {line : List UInt8}
    (hvisible : line.all isVisibleAscii = true) :
    (((line.map asciiChar).splitOn ',').reverse.map trim).findSome? (untrustedHop cfg) =
      rightmostUntrusted cfg (line.splitOn comma) := by
  have hcomma : ',' = asciiChar comma := rfl
  rw [hcomma, splitOn_map asciiChar asciiChar_eq_comma, rightmostUntrusted, ← List.map_reverse,
    List.map_map, List.findSome?_map]
  apply findSome?_congr
  intro piece hpiece
  have hvisible : piece.all isVisibleAscii = true := by
    rw [List.all_eq_true] at hvisible ⊢
    intro b hb
    exact hvisible b (mem_of_mem_splitOn (List.mem_reverse.mp hpiece) hb)
  simp [untrustedEntry, toStr, hvisible]

theorem clientIp_of_isTrusted {cfg : ProxyConfig} {req : Request} {peer : IpAddr}
    {first : List UInt8} {rest : List (List UInt8)} (hpeer : req.connectInfo = some peer)
    (htrusted : cfg.isTrusted peer = true)
    (hlines : req.fieldLines "x-forwarded-for" = first :: rest) :
    clientIp req cfg =
      if first.all isVisibleAscii then
        (rightmostUntrusted cfg (first.splitOn comma)).or (some peer)
      else some peer := by
  have hsome : cfg.trusted.isEmpty = false := by
    cases hcfg : cfg.trusted with
    | nil => simp [ProxyConfig.isTrusted, hcfg] at htrusted
    | cons => rfl
  have hheader : req.header "x-forwarded-for" = some first := by
    rw [Request.header, hlines, List.head?_cons]
  by_cases hvisible : first.all isVisibleAscii = true
  · simp only [clientIp, hpeer, hsome, htrusted, hheader, Option.bind_some, toStr, hvisible,
      Bool.not_true, Bool.or_self, Bool.false_eq_true, if_false, if_true,
      walk_eq_rightmostUntrusted cfg hvisible]
  · simp only [clientIp, hpeer, hsome, htrusted, hheader, Option.bind_some, toStr, hvisible,
      Bool.not_true, Bool.or_self, Bool.false_eq_true, if_false]

/-- The one list stands on one field line of visible ASCII: the client has sent at most one line,
and every proxy has added to the line it found. -/
def OneVisibleLine (lines : List (List UInt8)) : Prop :=
  ∃ line, lines = [line] ∧ line.all isVisibleAscii = true

section Added

variable {cfg : ProxyConfig} {req : Request} {peer ip : IpAddr} {client : List (List UInt8)}
  {hops : List Hop}

/-- On one visible line the rightmost untrusted address the proxies added is found. -/
theorem clientIp_of_oneVisibleLine (hpeer : req.connectInfo = some peer)
    (htrusted : cfg.isTrusted peer = true)
    (hlines : req.fieldLines "x-forwarded-for" = forwarded client hops)
    (hadded : rightmostUntrusted cfg (hops.map Hop.entry) = some ip)
    (hone : OneVisibleLine (forwarded client hops)) : clientIp req cfg = some ip := by
  obtain ⟨line, hline, hvisible⟩ := hone
  have hentries : line.splitOn comma = listEntries client ++ hops.map Hop.entry := by
    rw [← listEntries_forwarded, hline, listEntries, List.flatMap_cons, List.flatMap_nil,
      List.append_nil]
  rw [clientIp_of_isTrusted hpeer htrusted (hlines.trans hline), if_pos hvisible, hentries,
    rightmostUntrusted_append, hadded]
  rfl

/-- It is never found when the first line holds other bytes. -/
theorem isVisible_of_clientIp (hpeer : req.connectInfo = some peer)
    (htrusted : cfg.isTrusted peer = true)
    (hlines : req.fieldLines "x-forwarded-for" = forwarded client hops)
    (hadded : rightmostUntrusted cfg (hops.map Hop.entry) = some ip)
    (hfound : clientIp req cfg = some ip) :
    ∀ first ∈ (forwarded client hops).head?, first.all isVisibleAscii = true := by
  intro first hfirst
  obtain ⟨rest, hrest⟩ := List.head?_eq_some_iff.mp hfirst
  rw [clientIp_of_isTrusted hpeer htrusted (hlines.trans hrest)] at hfound
  by_contra hhidden
  rw [if_neg hhidden] at hfound
  have huntrusted := not_isTrusted_of_rightmostUntrusted hadded
  rw [← Option.some.inj hfound, htrusted] at huntrusted
  exact Bool.noConfusion huntrusted

end Added

/-- **Spoof resistance.** An untrusted peer is always its own client address. Behind a trusted
peer, whatever the client put before, the rightmost parseable untrusted address that the proxies
added is returned if the list stands on one field line of visible ASCII, and only if the first
line is visible ASCII; two requests on one such line each, with the same additions, therefore share
their address and bucket. -/
theorem clientIp_resists_spoofing (cfg : ProxyConfig) (req : Request) (peer : IpAddr)
    (hpeer : req.connectInfo = some peer) :
    (cfg.isTrusted peer = false → clientIp req cfg = some peer) ∧
    ∀ (client : List (List UInt8)) (hops : List Hop) (ip : IpAddr),
      cfg.isTrusted peer = true →
      req.fieldLines "x-forwarded-for" = forwarded client hops →
      rightmostUntrusted cfg (hops.map Hop.entry) = some ip →
      (OneVisibleLine (forwarded client hops) → clientIp req cfg = some ip) ∧
      (clientIp req cfg = some ip →
        ∀ first ∈ (forwarded client hops).head?, first.all isVisibleAscii = true) ∧
      ∀ (other : Request) (otherClient : List (List UInt8)), other.connectInfo = some peer →
        other.fieldLines "x-forwarded-for" = forwarded otherClient hops →
        OneVisibleLine (forwarded client hops) → OneVisibleLine (forwarded otherClient hops) →
        clientIp other cfg = clientIp req cfg ∧
          (clientIp other cfg).map bucket = (clientIp req cfg).map bucket := by
  constructor
  · intro huntrusted
    simp [clientIp, hpeer, huntrusted]
  · intro client hops ip htrusted hlines hadded
    have hfound := clientIp_of_oneVisibleLine hpeer htrusted hlines hadded
    refine ⟨hfound, isVisible_of_clientIp hpeer htrusted hlines hadded, ?_⟩
    intro other otherClient hotherPeer hotherLines hone hotherOne
    have hother := clientIp_of_oneVisibleLine hotherPeer htrusted hotherLines hadded hotherOne
    rw [hfound hone, hother]
    exact ⟨rfl, rfl⟩

/-- The bytes of an ASCII text. -/
def asciiBytes (text : String) : List UInt8 := text.toList.map fun c ↦ UInt8.ofNat c.toNat

/-- The loopback network `127.0.0.0/8` is trusted. -/
def loopbackProxy : ProxyConfig where
  trusted := [⟨fun ip ↦
    match ip with
    | .v4 addr => addr.toList.head? == some 127
    | .v6 _ => false⟩]

def loopbackPeer : IpAddr := .v4 #v[127, 0, 0, 1]

/-- The proxy adds `9.9.9.9`, its own peer. -/
def peerHop (ownLine : Bool) : Hop := ⟨asciiBytes "9.9.9.9", ownLine, by decide⟩

/-- A request with these `X-Forwarded-For` lines from the loopback peer. -/
def proxiedRequest (lines : List (List UInt8)) : Request where
  connectInfo := some loopbackPeer
  headers := lines.map fun line ↦ ("x-forwarded-for", line)

/-- One byte outside ASCII hides the added address, and so does a line of the client's own
before the proxy's: the request then counts against the proxy, or against any address the
client names. -/
theorem clientIp_spoofed :
    rightmostUntrusted loopbackProxy ([peerHop false].map Hop.entry) =
      some (.v4 #v[9, 9, 9, 9]) ∧
    clientIp (proxiedRequest (forwarded [[0xe9]] [peerHop false])) loopbackProxy =
      some loopbackPeer ∧
    clientIp (proxiedRequest (forwarded [asciiBytes "1.2.3.4"] [peerHop true])) loopbackProxy =
      some (.v4 #v[1, 2, 3, 4]) := by
  decide

/-- A client that claims another address on the one line is still found. -/
theorem clientIp_resists_spoofing_loopback :
    clientIp (proxiedRequest (forwarded [asciiBytes "1.2.3.4"] [peerHop false])) loopbackProxy =
      some (.v4 #v[9, 9, 9, 9]) :=
  ((clientIp_resists_spoofing loopbackProxy
    (proxiedRequest (forwarded [asciiBytes "1.2.3.4"] [peerHop false])) loopbackPeer rfl).2
    [asciiBytes "1.2.3.4"] [peerHop false] (.v4 #v[9, 9, 9, 9]) (by decide) (by decide)
    (by decide)).1 ⟨_, rfl, by decide⟩

end ComicStream.Auth
