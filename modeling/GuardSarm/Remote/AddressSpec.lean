import GuardSarm.Lib.ByteMask
import GuardSarm.Lib.Text

/-! Agent address specifications: how `OS_IsValidIP` reads one and how `OS_IPFound`
compares a source address with it. An address is its bytes in network order. The parsed
specification points to a block of 8 or of 32 bytes behind a union; a read past the block
is answered by the heap. The regular expressions are given as predicates on what they
capture. -/
namespace GuardSarm.Remote

/-- What `inet_pton` computes for the two families. -/
structure InetPton where
  ipv4 : Text → Option (Fin 4 → BitVec 8)
  ipv6 : Text → Option (Fin 16 → BitVec 8)
  zero : ipv4 "0.0.0.0".toList = some 0

inductive Address
  | v4 (bytes : Fin 4 → BitVec 8)
  | v6 (bytes : Fin 16 → BitVec 8)

/-- `get_ipv4_numeric`, then `get_ipv6_numeric`. -/
def InetPton.address (pton : InetPton) (text : Text) : Option Address :=
  match pton.ipv4 text with
  | some bytes => some (.v4 bytes)
  | none => (pton.ipv6 text).map .v6

def between (first last c : Char) : Bool := decide (first ≤ c) && decide (c ≤ last)

/-- `25[0-5]|2[0-4][0-9]|1[0-9][0-9]|[1-9]?[0-9]`. -/
def isOctet : Text → Bool
  | [a] => a.isDigit
  | [a, b] => between '1' '9' a && b.isDigit
  | [a, b, c] => (a == '2' && b == '5' && between '0' '5' c) ||
    (a == '2' && between '0' '4' b && c.isDigit) || (a == '1' && b.isDigit && c.isDigit)
  | _ => false

/-- `IPV4_ADDRESS`. -/
def isIpv4Address (text : Text) : Bool :=
  let octets := text.splitOn '.'
  octets.length == 4 && octets.all isOctet

/-- `3[0-2]|[1-2]?[0-9]`. -/
def isCidr : Text → Bool
  | [a] => a.isDigit
  | [a, b] => (a == '3' && between '0' '2' b) || (between '1' '2' a && b.isDigit)
  | _ => false

/-- `IPV6_PREFIX`. -/
def isPrefixLength : Text → Bool
  | [a] => a.isDigit
  | [a, b] => a.isDigit && b.isDigit
  | [a, b, c] => (a == '1' && b == '2' && between '0' '8' c) ||
    (a == '1' && between '0' '1' b && c.isDigit)
  | _ => false

/-- `[0-9a-fA-F]{1,4}`. -/
def isHextet (text : Text) : Bool :=
  decide (1 ≤ text.length) && decide (text.length ≤ 4) &&
    text.all fun c => c.isDigit || between 'a' 'f' c || between 'A' 'F' c

/-- The groups of an expression for IPv6, as they stand between the colons. -/
inductive Groups
  | full
  | compressed (before after : Nat)
  | trailing
  | leading
  | zero

/-- Eight groups; up to `before` groups, an empty one, up to `after` groups; up to seven groups and
two empty ones, in either order; three empty ones. -/
def Groups.accepts (groups : Groups) (text : Text) : Bool :=
  let pieces := text.splitOn ':'
  match groups with
  | .full => pieces.length == 8 && pieces.all isHextet
  | .compressed before after =>
    let head := pieces.takeWhile isHextet
    match pieces.dropWhile isHextet with
    | [] :: tail => decide (1 ≤ head.length) && decide (head.length ≤ before) &&
      decide (1 ≤ tail.length) && decide (tail.length ≤ after) && tail.all isHextet
    | _ => false
  | .trailing =>
    let head := pieces.takeWhile isHextet
    decide (1 ≤ head.length) && decide (head.length ≤ 7) && pieces.dropWhile isHextet == [[], []]
  | .leading =>
    match pieces with
    | [] :: [] :: tail => decide (1 ≤ tail.length) && decide (tail.length ≤ 7) && tail.all isHextet
    | _ => false
  | .zero => pieces == [[], [], []]

/-- The expressions after the first of `ip_address_regex`. -/
def ipv6Groups : List Groups :=
  [.full, .compressed 6 1, .compressed 5 2, .compressed 4 3, .compressed 3 4, .compressed 2 5,
    .compressed 1 6, .trailing, .leading, .zero]

/-- `$` also matches before a newline that ends the text. -/
def dropNewline (text : Text) : Text := if text.getLast? = some '\n' then text.dropLast else text

/-- What `^(address)(?:/(mask))?$` captures. No address contains a slash or a newline. -/
def captures (address mask : Text → Bool) (text : Text) : Option (List Text) :=
  let text := dropNewline text
  match text.dropWhile (· != '/') with
  | [] => if address text then some [text] else none
  | _ :: length =>
    let head := text.takeWhile (· != '/')
    if address head && mask length then some [head, length] else none

/-- `::[fF]{4}:` at the start of the text is passed over. -/
def dropMapped : Text → Text
  | ':' :: ':' :: a :: b :: c :: d :: ':' :: rest =>
    if [a, b, c, d].all fun f => f == 'f' || f == 'F' then rest
    else ':' :: ':' :: a :: b :: c :: d :: ':' :: rest
  | text => text

def ipv4Captures (text : Text) : Option (List Text) :=
  captures isIpv4Address (fun mask => isCidr mask || isIpv4Address mask) (dropMapped text)

def ipv6Captures (text : Text) : Option (List Text) :=
  ipv6Groups.findSome? fun groups =>
    captures groups.accepts (match groups with | .zero => fun _ => false | _ => isPrefixLength) text

def ipSize : Nat := 46

/-- `OS_GetIPv4FromIPv6`. -/
def getIPv4FromIPv6 (ip : Text) : Text :=
  if dropMapped ip ≠ ip ∧ (ipv4Captures ip).isSome then dropNewline (dropMapped ip) else ip

/-- `atoi` of a text of digits. -/
def atoi (text : Text) : Nat := Nat.ofDigitChars 10 text 0

/-- `_netmasks`. -/
def netmasks : List (BitVec 32) :=
  [0x0, 0x80000000, 0xC0000000, 0xE0000000, 0xF0000000, 0xF8000000, 0xFC000000, 0xFE000000,
    0xFF000000, 0xFF800000, 0xFFC00000, 0xFFE00000, 0xFFF00000, 0xFFF80000, 0xFFFC0000,
    0xFFFE0000, 0xFFFF0000, 0xFFFF8000, 0xFFFFC000, 0xFFFFE000, 0xFFFFF000, 0xFFFFF800,
    0xFFFFFC00, 0xFFFFFE00, 0xFFFFFF00, 0xFFFFFF80, 0xFFFFFFC0, 0xFFFFFFE0, 0xFFFFFFF0,
    0xFFFFFFF8, 0xFFFFFFFC, 0xFFFFFFFE, 0xFFFFFFFF]

/-- The bytes of `htonl(_netmasks[cidr])`. -/
def netmask (cidr : Nat) (i : Fin 4) : BitVec 8 :=
  ((netmasks.getD cidr 0) >>> (24 - 8 * (i : Nat))).setWidth 8

/-- The inner loop of `convertNetmask`. -/
def convertByte (index : Nat) : BitVec 8 :=
  (List.range index).foldl (fun byte a => byte + (1#8 <<< (8 - a - 1))) 0

/-- The outer loop of `convertNetmask`, for the bytes that are left. -/
def convertBytes : Nat → Nat → List (BitVec 8)
  | 0, _ => []
  | left + 1, netnumb =>
    let index := if netnumb > 8 then 8 else netnumb
    convertByte index :: convertBytes left (netnumb - index)

def convertNetmask (netnumb : Nat) : Option (Fin 16 → BitVec 8) :=
  if 128 < netnumb then none else some fun i => (convertBytes 16 netnumb).getD i 0

/-- The parsed specification. The block holds the address and the mask, of 4 or of 16 bytes each. -/
structure OsIp where
  ip : Text
  block : List (BitVec 8)
  isIpv6 : Bool
  deriving DecidableEq

/-- An address under its mask, and the mask. -/
def masked {n : Nat} (net mask : Fin n → BitVec 8) : List (BitVec 8) :=
  List.ofFn (fun i => net i &&& mask i) ++ List.ofFn mask

def ipv4Block (pton : InetPton) : List Text → Option (List (BitVec 8))
  | [] => none
  | address :: masks =>
    let net := match pton.ipv4 address with
      | some net => some net
      | none => if address = "0.0.0.0".toList then some 0 else none
    let mask := match masks with
      | [] => some (netmask 32)
      | mask :: _ => if mask.length ≤ 2 then some (netmask (atoi mask)) else pton.ipv4 mask
    net.bind fun net => mask.map (masked net)

def ipv6Block (pton : InetPton) : List Text → Option (List (BitVec 8))
  | [] => none
  | address :: masks =>
    let mask := match masks with
      | [] => convertNetmask 128
      | length :: _ => if 3 < length.length then none else convertNetmask (atoi length)
    (pton.ipv6 address).bind fun net => mask.map (masked net)

def hexDigit (n : Nat) : Char := (Nat.digitChar n).toUpper

/-- `%02X%02X:` and so on, eight times. -/
def expandedText (bytes : Fin 16 → BitVec 8) : Text :=
  (List.finRange 16).flatMap fun i =>
    [hexDigit ((bytes i).toNat / 16), hexDigit ((bytes i).toNat % 16)] ++
      if (i : Nat) % 2 = 1 ∧ (i : Nat) < 15 then [':'] else []

/-- `OS_ExpandIPv6`; a text it cannot read stays as it is. -/
def expandIPv6 (pton : InetPton) (ip : Text) : Text :=
  let rest := ip.dropWhile (· == '/')
  match pton.ipv6 (rest.takeWhile (· != '/')) with
  | none => ip
  | some bytes =>
    let second := ((rest.dropWhile (· != '/')).dropWhile (· == '/')).takeWhile (· != '/')
    let cidr := atoi (second.takeWhile Char.isDigit)
    if 128 < cidr then ip
    else if cidr = 0 then expandedText bytes
    else expandedText bytes ++ '/' :: Nat.toDigits 10 cidr

/-- The text after the mark of negation. -/
def unmark : Text → Text
  | '!' :: rest => rest
  | text => text

/-- `OS_IsValidIP` with a place for the result: the value returned and the parsed specification, or
none where it returns 0. The mark of negation is passed over. -/
def isValidIP (pton : InetPton) (text : Text) : Option (Nat × OsIp) :=
  let address := unmark text
  let ip := getIPv4FromIPv6 (address.take ipSize)
  if address = "any".toList then some (2, ⟨ip, List.replicate 32 0, false⟩)
  else
    match ipv4Captures address with
    | some strings => (ipv4Block pton strings).map fun block =>
      (if strings.length = 2 then 2 else 1, ⟨ip, block, false⟩)
    | none => (ipv6Captures address).bind fun strings =>
      (ipv6Block pton strings).map fun block =>
        (if strings.length = 2 then 2 else 1, ⟨expandIPv6 pton ip, block, true⟩)

/-- A byte of the block, or of the heap behind it. -/
def OsIp.read (that : OsIp) (heap : Nat → BitVec 8) (offset : Nat) : BitVec 8 :=
  that.block.getD offset (heap offset)

/-- The comparison, with the block read as the family of the address has it. -/
def OsIp.covers (that : OsIp) (heap : Nat → BitVec 8) : Address → Bool
  | .v6 net => decide (∀ i : Fin 16, net i &&& that.read heap (16 + i) = that.read heap i)
  | .v4 net => decide (∀ i : Fin 4, net i &&& that.read heap (4 + i) = that.read heap i)

/-- `OS_IPFound`. -/
def ipFound (pton : InetPton) (heap : Nat → BitVec 8) (address : Text) (that : OsIp) : Bool :=
  match pton.address address with
  | none => false
  | some source => if that.ip.head? = some '!' then !that.covers heap source
    else that.covers heap source

end GuardSarm.Remote
