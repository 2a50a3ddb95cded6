import ComicStream.Auth.Credentials
import ComicStream.Foundation.Base64
import Mathlib.Data.List.Basic

/-!
# Who may log in

The header joins username and password with a colon, the digest joins them with a
zero byte. Neither a username nor a password holds a zero byte, so the digest
belongs to one pair only; a username with a colon, though, does not survive the
header, and its owner is locked out.
-/

namespace ComicStream.Auth

open Rust

variable (crypto : Crypto)

/-- What `main` makes of the two options. -/
inductive AuthSetup where
  | enabled (creds : Credentials)
  | disabled
  | refused

/-- The credentials that `main` accepts: both non-empty, or none at all. -/
def Crypto.authSetup (username password : Option (List Char)) : AuthSetup :=
  match username, password with
  | some user, some pass =>
    if user ≠ [] ∧ pass ≠ [] then .enabled (crypto.credentials user pass)
    else if user = [] ∧ pass = [] then .disabled
    else .refused
  | some user, none => if user = [] then .disabled else .refused
  | none, some pass => if pass = [] then .disabled else .refused
  | none, none => .disabled

/-- A header value with the pair given: the scheme in any letter case, a space, and the encoded
pair between white space. -/
inductive Carries (user pass : List Char) : List Char → Prop
  | written {scheme before after : List Char} (hscheme : scheme.map toAsciiLowercase = "basic".toList)
      (hblank : ∀ c ∈ before ++ after, isWhitespace c = true) :
      Carries user pass
        (scheme ++ ' ' :: (before ++ Base64.encode (utf8 (user ++ ':' :: pass)) ++ after))

variable {crypto} {user pass header : List Char}

theorem isWhitespace_of_mem_encode {bytes : List UInt8} :
    ∀ c ∈ Base64.encode bytes, isWhitespace c = false := by
  have hall : ('=' :: Base64.alphabet).all (fun c ↦ !isWhitespace c) = true := by decide +kernel
  intro c hc
  simpa using List.all_eq_true.mp hall c (Base64.mem_encode hc)

theorem basicPayload_eq_some {payload : List Char} :
    basicPayload header = some payload ↔ ∃ scheme rest, header = scheme ++ ' ' :: rest ∧
      scheme.map toAsciiLowercase = "basic".toList ∧ payload = trim rest := by
  constructor
  · intro h
    unfold basicPayload at h
    split at h
    · next first rest hsplit =>
      rw [Option.ite_none_right_eq_some, Option.some.injEq] at h
      obtain ⟨hfirst, rfl⟩ := h
      obtain ⟨scheme, last, rfl, hscheme, hlast⟩ := List.map_eq_append_iff.mp
        (hfirst.trans (show "basic ".toList = "basic".toList ++ [' '] from rfl))
      obtain ⟨c, rfl, hc⟩ := List.map_eq_singleton_iff.mp hlast
      obtain rfl := toAsciiLowercase_eq_space.mp hc
      refine ⟨scheme, rest, ?_, hscheme, rfl⟩
      rw [append_of_splitAtChecked hsplit, List.append_assoc, List.singleton_append]
    · simp at h
  · rintro ⟨scheme, rest, rfl, hscheme, rfl⟩
    have hlength : (scheme ++ [' ']).length = 6 := by
      have hfive := congrArg List.length hscheme
      rw [List.length_map] at hfive
      rw [List.length_append, hfive]
      rfl
    have hlower : (scheme ++ [' ']).map toAsciiLowercase = "basic ".toList := by
      rw [List.map_append, hscheme]
      decide
    have hascii : ∀ c ∈ scheme ++ [' '], c.toNat < 128 := by
      intro c hc
      have hmem : toAsciiLowercase c ∈ "basic ".toList := hlower ▸ List.mem_map_of_mem hc
      have hall : ∀ d ∈ "basic ".toList, d.toNat < 128 := by simp
      exact toAsciiLowercase_of_lt (hall _ hmem)
    unfold basicPayload
    rw [List.append_cons, ← hlength, splitAtChecked_append hascii]
    exact if_pos hlower

/-- The digest belongs to one pair, whatever separators the other one holds. -/
theorem eq_of_digestInput (huser : Char.ofNat 0 ∉ user) (hpass : Char.ofNat 0 ∉ pass)
    {otherUser otherPass : List Char}
    (h : utf8 otherUser ++ 0 :: utf8 otherPass = utf8 user ++ 0 :: utf8 pass) :
    otherUser = user ∧ otherPass = pass := by
  have hjoin (user pass : List Char) :
      utf8 user ++ 0 :: utf8 pass = utf8 (user ++ Char.ofNat 0 :: pass) := by
    rw [utf8_append, utf8_cons]
    rfl
  rw [hjoin, hjoin] at h
  have hsplit := (List.append_cons_inj_of_notMem huser hpass).mp (utf8_injective h).symm
  exact ⟨hsplit.1.symm, hsplit.2.2.symm⟩

/-- The pair of a header is what its payload encodes, split at the first colon. -/
theorem basicPair_eq_some (hdecode : ∀ text bytes,
      crypto.decodeBase64 text = some bytes ↔ text = Base64.encode bytes)
    {otherUser otherPass : List Char} :
    crypto.basicPair header = some (otherUser, otherPass) ↔
      ∃ scheme rest text, header = scheme ++ ' ' :: rest ∧
        scheme.map toAsciiLowercase = "basic".toList ∧
        trim rest = Base64.encode (utf8 text) ∧ splitOnce ':' text = some (otherUser, otherPass) := by
  unfold Crypto.basicPair
  simp only [Option.bind_eq_bind, Option.bind_eq_some_iff, basicPayload_eq_some, hdecode,
    fromUtf8_eq_some]
  constructor
  · rintro ⟨_, ⟨scheme, rest, hheader, hscheme, rfl⟩, _, hrest, text, rfl, hsplit⟩
    exact ⟨scheme, rest, text, hheader, hscheme, hrest, hsplit⟩
  · rintro ⟨scheme, rest, text, hheader, hscheme, hrest, hsplit⟩
    exact ⟨_, ⟨scheme, rest, hheader, hscheme, rfl⟩, _, hrest, text, rfl, hsplit⟩

theorem carries_iff :
    Carries user pass header ↔ ∃ scheme rest, header = scheme ++ ' ' :: rest ∧
      scheme.map toAsciiLowercase = "basic".toList ∧
      trim rest = Base64.encode (utf8 (user ++ ':' :: pass)) := by
  constructor
  · rintro ⟨hscheme, hblank⟩
    simp only [List.mem_append, or_imp, forall_and] at hblank
    exact ⟨_, _, rfl, hscheme, trim_word hblank.1 isWhitespace_of_mem_encode hblank.2⟩
  · rintro ⟨scheme, rest, rfl, hscheme, hrest⟩
    obtain ⟨before, after, hsplit, hblank⟩ := exists_trim rest
    rw [hsplit, hrest]
    exact .written hscheme hblank

theorem verify_eq_true {creds : Credentials} :
    crypto.verify creds (some header) = true ↔
      ∃ pair, crypto.basicPair header = some pair ∧ crypto.credDigest pair.1 pair.2 = creds.digest := by
  unfold Crypto.verify
  rw [Option.bind_some]
  cases crypto.basicPair header with
  | none => simp
  | some pair => simp

/-- A username without a colon is what the header is split into. -/
theorem verify_iff_carries (hdecode : ∀ text bytes,
      crypto.decodeBase64 text = some bytes ↔ text = Base64.encode bytes)
    (hhash : ∀ input, crypto.keyedHash credKey input = crypto.credDigest user pass →
      input = utf8 user ++ 0 :: utf8 pass)
    (huser : Char.ofNat 0 ∉ user) (hpass : Char.ofNat 0 ∉ pass) (hcolon : ':' ∉ user) :
    crypto.verify (crypto.credentials user pass) (some header) = true ↔
      Carries user pass header := by
  rw [verify_eq_true, carries_iff]
  constructor
  · rintro ⟨⟨otherUser, otherPass⟩, hpair, hdigest⟩
    obtain ⟨scheme, rest, text, hheader, hscheme, hrest, hsplit⟩ :=
      (basicPair_eq_some hdecode).mp hpair
    obtain ⟨rfl, rfl⟩ := eq_of_digestInput huser hpass (hhash _ hdigest)
    rw [append_of_splitOnce hsplit] at hrest
    exact ⟨scheme, rest, hheader, hscheme, hrest⟩
  · rintro ⟨scheme, rest, hheader, hscheme, hrest⟩
    refine ⟨(user, pass), (basicPair_eq_some hdecode).mpr ?_, rfl⟩
    exact ⟨scheme, rest, _, hheader, hscheme, hrest, splitOnce_append hcolon pass⟩

/-- The header of a username with a colon is split inside the username. -/
theorem verify_of_colon (hdecode : ∀ text bytes,
      crypto.decodeBase64 text = some bytes ↔ text = Base64.encode bytes)
    (hhash : ∀ input, crypto.keyedHash credKey input = crypto.credDigest user pass →
      input = utf8 user ++ 0 :: utf8 pass)
    (huser : Char.ofNat 0 ∉ user) (hpass : Char.ofNat 0 ∉ pass) (hcolon : ':' ∈ user)
    (h : Carries user pass header) :
    crypto.verify (crypto.credentials user pass) (some header) = false := by
  rw [← Bool.not_eq_true, verify_eq_true]
  rintro ⟨⟨otherUser, otherPass⟩, hpair, hdigest⟩
  obtain ⟨first, second, rfl, hfirst⟩ := List.eq_append_cons_of_mem hcolon
  obtain ⟨scheme, rest, rfl, hscheme, hrest⟩ := carries_iff.mp h
  have hsplit : splitOnce ':' ((first ++ ':' :: second) ++ ':' :: pass) =
      some (first, second ++ ':' :: pass) := by
    rw [List.append_assoc, List.cons_append]
    exact splitOnce_append hfirst _
  have hsame := (basicPair_eq_some hdecode).mpr ⟨scheme, rest, _, rfl, hscheme, hrest, hsplit⟩
  obtain ⟨rfl, rfl⟩ := Prod.mk.inj (Option.some.inj (hpair.symm.trans hsame))
  have hshort := congrArg List.length (eq_of_digestInput huser hpass (hhash _ hdigest)).1
  simp only [List.length_append, List.length_cons] at hshort
  omega

/-- **The credential check.** For every pair that is accepted at start-up, the headers that pass
are exactly those that carry the pair, if and only if the username holds no colon. -/
theorem verify_exact_iff (crypto : Crypto) (user pass : List Char) (creds : Credentials)
    (hdecode : ∀ text bytes,
      crypto.decodeBase64 text = some bytes ↔ text = Base64.encode bytes)
    (hhash : ∀ input, crypto.keyedHash credKey input = crypto.credDigest user pass →
      input = utf8 user ++ 0 :: utf8 pass)
    (haccepted : crypto.authSetup (some user) (some pass) = .enabled creds)
    (huser : Char.ofNat 0 ∉ user) (hpass : Char.ofNat 0 ∉ pass) :
    (∀ header, crypto.verify creds (some header) = true ↔ Carries user pass header) ↔
      ':' ∉ user := by
  have hcreds : creds = crypto.credentials user pass := by
    unfold Crypto.authSetup at haccepted
    dsimp only at haccepted
    split at haccepted
    · exact (AuthSetup.enabled.inj haccepted).symm
    · split at haccepted <;> simp at haccepted
  subst hcreds
  constructor
  · intro hexact hcolon
    have hcarries : Carries user pass ("Basic".toList ++ ' ' :: ([] ++
        Base64.encode (utf8 (user ++ ':' :: pass)) ++ [])) := .written (by decide) (by simp)
    have hfalse := verify_of_colon hdecode hhash huser hpass hcolon hcarries
    rw [(hexact _).mpr hcarries] at hfalse
    exact Bool.noConfusion hfalse
  · intro hcolon header
    exact verify_iff_carries hdecode hhash huser hpass hcolon

/-- The digests of three inputs. -/
def sampleDigests : List (List UInt8 × Digest) := [
  (utf8 "me".toList ++ 0 :: utf8 "pw".toList,
    #v[165, 24, 233, 5, 255, 85, 44, 221, 194, 216, 12, 171, 190, 139, 15, 59, 137, 221, 189,
      120, 60, 91, 66, 63, 177, 152, 9, 175, 98, 4, 181, 183]),
  (utf8 "m:e".toList ++ 0 :: utf8 "pw".toList,
    #v[19, 242, 171, 89, 159, 17, 123, 243, 95, 109, 247, 248, 165, 62, 175, 136, 168, 175, 25,
      152, 124, 177, 99, 29, 25, 254, 246, 178, 215, 202, 70, 47]),
  (utf8 "m".toList ++ 0 :: utf8 "e:pw".toList,
    #v[43, 170, 203, 21, 220, 208, 152, 138, 127, 206, 60, 121, 104, 248, 25, 25, 39, 101, 162,
      152, 203, 24, 126, 89, 255, 225, 53, 168, 125, 16, 102, 73])]

/-- The crates, as far as the three inputs go. -/
def Crypto.sample : Crypto where
  decodeBase64 := Base64.decode
  keyedHash _ input := (sampleDigests.lookup input).getD (Vector.replicate 32 0)

/-- The owner of a username with a colon is locked out. -/
theorem owner_locked_out :
    Crypto.sample.authSetup (some "m:e".toList) (some "pw".toList) =
        .enabled (Crypto.sample.credentials "m:e".toList "pw".toList) ∧
      Carries "m:e".toList "pw".toList "Basic bTplOnB3".toList ∧
      Crypto.sample.verify (Crypto.sample.credentials "m:e".toList "pw".toList)
        (some "Basic bTplOnB3".toList) = false :=
  ⟨rfl, @Carries.written "m:e".toList "pw".toList "Basic".toList [] [] (by decide) (by simp),
    by decide⟩

theorem verify_exact_plain :
    Crypto.sample.verify (Crypto.sample.credentials "me".toList "pw".toList)
      (some "bAsIc  bWU6cHc= ".toList) = true ↔
    Carries "me".toList "pw".toList "bAsIc  bWU6cHc= ".toList := by
  have hhash : ∀ input, Crypto.sample.keyedHash credKey input =
      Crypto.sample.credDigest "me".toList "pw".toList →
        input = utf8 "me".toList ++ 0 :: utf8 "pw".toList := by
    intro input h
    by_contra hother
    revert h
    change (List.lookup input sampleDigests).getD (Vector.replicate 32 0) ≠ _
    simp only [sampleDigests, List.lookup_cons, List.lookup_nil, beq_eq_false_iff_ne.mpr hother]
    split
    · decide
    · split
      · decide
      · decide
  exact (verify_exact_iff Crypto.sample "me".toList "pw".toList _
    (fun _ _ ↦ Base64.decode_eq_some) hhash rfl (by decide) (by decide)).mpr (by decide) _

end ComicStream.Auth
