import ComicStream.Rust.Text

/-!
# Internet addresses of the Rust standard library

Addresses are their octets. The parser follows `core::net::parser`: an IPv4
address is four decimal octets without leading zeros, an IPv6 address is eight
hexadecimal groups with at most one `::` and an optional IPv4 tail, and the
whole input has to be consumed.
-/

namespace ComicStream.Rust

abbrev Ipv4Addr := Vector UInt8 4

abbrev Ipv6Addr := Vector UInt8 16

inductive IpAddr where
  | v4 (addr : Ipv4Addr)
  | v6 (addr : Ipv6Addr)
  deriving DecidableEq, Repr

/-- `Ipv4Addr::to_ipv6_mapped`: the form `::ffff:x.y.z.w` of an IPv4 address. -/
def Ipv4Addr.toIpv6Mapped (addr : Ipv4Addr) : Ipv6Addr :=
  #v[0, 0, 0, 0, 0, 0, 0, 0, 0, 0, 0xff, 0xff, addr[0], addr[1], addr[2], addr[3]]

/-- The big-endian octets of eight 16-bit groups. -/
def Ipv6Addr.ofGroups (groups : List ℕ) : Ipv6Addr :=
  Vector.ofFn fun index : Fin 16 ↦
    let group := groups.getD (index.val / 2) 0
    UInt8.ofNat (if index.val % 2 = 0 then group / 256 else group % 256)

/-- A parser returns what it read and the unread input. -/
abbrev Parser (Value : Type) := List Char → Option (Value × List Char)

/-- `Parser::read_given_char`. -/
def readGivenChar (expected : Char) : Parser Unit
  | [] => none
  | c :: rest => if c = expected then some ((), rest) else none

/-- `Parser::read_separator`: the separator comes before every item but the first. -/
def readSeparator {Value : Type} (separator : Char) (index : ℕ) (inner : Parser Value) :
    Parser Value := fun input ↦
  if 0 < index then
    (readGivenChar separator input).bind fun result ↦ inner result.2
  else inner input

/-- `Parser::read_number`: all leading digits are read, and too many of them, none at all,
a forbidden leading zero or a value above `largest` fail. -/
def readNumber (radix maxDigits : ℕ) (allowZeroPrefix : Bool) (largest : ℕ) : Parser ℕ :=
  fun input ↦
    let digits := input.takeWhile fun c ↦ (toDigit radix c).isSome
    let value := digits.foldl (fun result c ↦ result * radix + (toDigit radix c).getD 0) 0
    if digits.length = 0 ∨ maxDigits < digits.length then none
    else if !allowZeroPrefix && digits.head? == some '0' && digits.length != 1 then none
    else if largest < value then none
    else some (value, input.drop digits.length)

/-- `Parser::read_ipv4_addr`. -/
def readIpv4Addr : Parser Ipv4Addr := fun input ↦ do
  let octet := fun index ↦ readSeparator '.' index (readNumber 10 3 false 255)
  let (one, input) ← octet 0 input
  let (two, input) ← octet 1 input
  let (three, input) ← octet 2 input
  let (four, input) ← octet 3 input
  return (#v[UInt8.ofNat one, UInt8.ofNat two, UInt8.ofNat three, UInt8.ofNat four], input)

/-- `read_groups` of `Parser::read_ipv6_addr`: up to `limit` groups counted from `index`, and
whether an embedded IPv4 address ended them. The fuel `limit - index` is spent a group at a
time. -/
def readGroups (limit : ℕ) : ℕ → ℕ → List Char → List ℕ × Bool × List Char
  | 0, _, input => ([], false, input)
  | fuel + 1, index, input =>
    let embedded :=
      if index + 1 < limit then readSeparator ':' index readIpv4Addr input else none
    match embedded with
    | some (addr, rest) =>
      ([addr[0].toNat * 256 + addr[1].toNat, addr[2].toNat * 256 + addr[3].toNat], true, rest)
    | none =>
      match readSeparator ':' index (readNumber 16 4 true 0xffff) input with
      | none => ([], false, input)
      | some (group, rest) =>
        let (groups, ipv4, rest) := readGroups limit fuel (index + 1) rest
        (group :: groups, ipv4, rest)

/-- `Parser::read_ipv6_addr`. -/
def readIpv6Addr : Parser Ipv6Addr := fun input ↦ do
  let (head, headIpv4, input) := readGroups 8 8 0 input
  if head.length = 8 then return (Ipv6Addr.ofGroups head, input)
  if headIpv4 then none
  let (_, input) ← readGivenChar ':' input
  let (_, input) ← readGivenChar ':' input
  let limit := 8 - (head.length + 1)
  let (tail, _, input) := readGroups limit limit 0 input
  let zeros := List.replicate (8 - head.length - tail.length) 0
  return (Ipv6Addr.ofGroups (head ++ zeros ++ tail), input)

/-- `str::parse::<IpAddr>`. -/
def IpAddr.parse (text : List Char) : Option IpAddr :=
  let result := ((readIpv4Addr text).map fun (addr, rest) ↦ (IpAddr.v4 addr, rest)).or
    ((readIpv6Addr text).map fun (addr, rest) ↦ (IpAddr.v6 addr, rest))
  match result with
  | some (addr, []) => some addr
  | _ => none

example : IpAddr.parse "10.0.0.255".toList = some (.v4 #v[10, 0, 0, 255]) := by decide

example : IpAddr.parse "::ffff:9.9.9.9".toList =
    some (.v6 (Ipv4Addr.toIpv6Mapped #v[9, 9, 9, 9])) := by decide

end ComicStream.Rust
