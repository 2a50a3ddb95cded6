import ComicStream.Rust.Text
import Mathlib.Data.Vector.Basic

/-!
# The credential check

The server keeps a keyed digest of its username and password. A request passes
when its `Authorization` value is HTTP Basic and its own pair has that digest.
The base64 decoder and the keyed hash come from crates and are parameters.
-/

namespace ComicStream.Auth

open Rust

abbrev Digest := Vector UInt8 32

/-- What the check takes from its crates: `STANDARD.decode` and `blake3::keyed_hash`. -/
structure Crypto where
  decodeBase64 : List Char → Option (List UInt8)
  keyedHash : List UInt8 → List UInt8 → Digest

structure Credentials where
  digest : Digest

/-- The domain-separation key, padded with zeros to 32 bytes. -/
def credKey : List UInt8 := utf8 "comicstream-auth-v1".toList ++ List.replicate 13 0

/-- The digest of the username, a zero byte and the password. -/
def Crypto.credDigest (crypto : Crypto) (user pass : List Char) : Digest :=
  crypto.keyedHash credKey (utf8 user ++ 0 :: utf8 pass)

def Crypto.credentials (crypto : Crypto) (username password : List Char) : Credentials where
  digest := crypto.credDigest username password

/-- The payload of a header value whose scheme is `Basic`, in any letter case. -/
def basicPayload (raw : List Char) : Option (List Char) :=
  match splitAtChecked 6 raw with
  | some (scheme, payload) =>
    if scheme.map toAsciiLowercase = "basic ".toList then some (trim payload) else none
  | none => none

/-- The username and password of a header value that is well-formed HTTP Basic. -/
def Crypto.basicPair (crypto : Crypto) (raw : List Char) : Option (List Char × List Char) := do
  let payload ← basicPayload raw
  let decoded ← crypto.decodeBase64 payload
  let text ← fromUtf8 decoded
  splitOnce ':' text

def Crypto.verify (crypto : Crypto) (creds : Credentials) (headerValue : Option (List Char)) :
    Bool :=
  match headerValue.bind crypto.basicPair with
  | some (user, pass) => crypto.credDigest user pass == creds.digest
  | none => false

@[simp]
theorem Crypto.verify_none (crypto : Crypto) (creds : Credentials) :
    crypto.verify creds none = false := rfl

example : credKey.length = 32 := by decide

example : basicPayload "bAsIc  dTpw ".toList = some "dTpw".toList := by decide

end ComicStream.Auth
