import ArdurBot.Lib.Utf16

/-!
# Network addresses

What kind of address a text names: a private one, the metadata service of a cloud, or a link-local
one. An IPv6 address may embed an IPv4 address, and each classifier unwraps it on its own.
-/

namespace ArdurBot.Network

open Utf16

abbrev colon : CodeUnit := unit ':'

abbrev dot : CodeUnit := unit '.'

abbrev percent : CodeUnit := unit '%'

section

variable (code : CodeUnit)

def isHexDigit : Bool := isLowerHex code || unit 'A' ≤ code && code ≤ unit 'F'

/-- A zone id has letters, digits, `-`, `.` and `:`. -/
def isZoneUnit : Bool :=
  isDigit code || isLower code || isUpper code || code == unit '-' || code == dot || code == colon

def digitValue : ℕ :=
  if isDigit code then code.toNat - 48
  else if unit 'a' ≤ code then code.toNat - 87
  else code.toNat - 55

end

/-- `Number` of digits. -/
def number (digits : Text) : ℕ :=
  digits.foldl (fun result code => 10 * result + digitValue code) 0

/-- `BigInt` of `0x` and a group: it throws unless there are hex digits, and only those. -/
def bigInt (group : Text) : Option ℕ :=
  if group ≠ [] ∧ group.all isHexDigit then
    some (group.foldl (fun result code => 16 * result + digitValue code) 0)
  else none

/-- `toString(16)` -/
def hexText (value : ℕ) : Text := (Nat.toDigits 16 value).map unit

def lower (code : CodeUnit) : CodeUnit :=
  if unit 'A' ≤ code && code ≤ unit 'Z' then code + 32 else code

/-- `replace(/^\[|\]$/g, "")` -/
def unbracketed (value : Text) : Text :=
  let opened := if value.head? = some (unit '[') then value.tail else value
  if opened.getLast? = some (unit ']') then opened.dropLast else opened

/-- The address in lower case, without brackets. A letter outside ASCII is in no address, also in
lower case. -/
def normalized (address : Text) : Text := unbracketed (address.map lower)

/-- The text before the first `::` and the text after it. -/
def cutGap : Text → Option (Text × Text)
  | first :: second :: rest =>
      if first = colon ∧ second = colon then some ([], rest)
      else (cutGap (second :: rest)).map fun cut => (first :: cut.1, cut.2)
  | _ => none

/-- A decimal from 0 to 255 without leading zeros. -/
def isOctet (part : Text) : Bool :=
  part != [] && part.all isDigit && (part.length == 1 || part.head? != some (unit '0')) && number part ≤ 255

def isIPv4 (value : Text) : Bool :=
  (value.splitOn dot).length == 4 && (value.splitOn dot).all isOctet

def isGroup (part : Text) : Bool := part != [] && part.length ≤ 4 && part.all isHexDigit

/-- How many groups the parts stand for: the last part may be an IPv4 address where `dotted` says
so. -/
def countGroups (dotted : Bool) : List Text → Option ℕ
  | [] => some 0
  | [part] =>
      if isGroup part then some 1
      else if dotted && isIPv4 part then some 2
      else none
  | part :: parts => if isGroup part then (countGroups dotted parts).map (· + 1) else none

section

variable (value : Text)

def partsOf : List Text := if value = [] then [] else value.splitOn colon

/-- Eight groups, or at most seven around one `::`. -/
def isIPv6Address : Bool :=
  match cutGap value with
  | none => countGroups true (partsOf value) == some 8
  | some (left, right) =>
      match countGroups false (partsOf left), countGroups true (partsOf right) with
      | some before, some after => before + after ≤ 7
      | _, _ => false

def isIPv6 : Bool :=
  let zone := value.dropWhile (· != percent)
  isIPv6Address (value.takeWhile (· != percent))
    && (zone == [] || (zone.tail != [] && zone.tail.all isZoneUnit))

def isIP : ℕ :=
  if isIPv4 value then 4
  else if isIPv6 value then 6
  else 0

def dottedTail : Text := ((value.splitOn colon).getLast?).getD []

end

def replaceIpv4Tail (value tail : Text) : Option Text :=
  if isIP tail ≠ 4 then none
  else
    match (tail.splitOn dot).map number with
    | [a, b, c, d] =>
        some (value.take (value.length - tail.length) ++ hexText (a <<< 8 ||| b) ++ colon :: hexText (c <<< 8 ||| d))
    | _ => none

/-- `BigInt` of the groups, with zeros for those that `::` leaves out. -/
def readGroups (hasGap : Bool) (value : Text) : Option ℕ :=
  -- `split("::", 2)` drops what follows a second gap
  let sides :=
    match cutGap value with
    | none => (value, [])
    | some (left, rest) => (left, ((cutGap rest).map Prod.fst).getD rest)
  let left := partsOf sides.1
  let right := partsOf sides.2
  let missing : ℤ := 8 - left.length - right.length
  if !hasGap ∧ missing ≠ 0 then none
  else
    let groups := left ++ List.replicate missing.toNat (lit "0") ++ right
    if groups.length ≠ 8 then none
    else
      groups.foldlM
        (fun result group => (bigInt (if group = [] then lit "0" else group)).map fun value =>
          result <<< 16 ||| value) 0

def parseIpv6 (value : Text) : Option ℕ :=
  if isIP value ≠ 6 then none
  else
    let tail := dottedTail value
    match if tail.contains dot then replaceIpv4Tail value tail else some value with
    | none => none
    | some normalized => readGroups (cutGap value).isSome normalized

/-- `getEmbeddedIpv4Number`: mapped, compatible, NAT64 and 6to4 addresses. -/
def getEmbeddedIpv4Number (ipv6 : ℕ) : Option ℕ :=
  if ipv6 >>> 32 = 0xffff ∨ ipv6 >>> 32 = 0 then some (ipv6 &&& 0xffffffff)
  else if ipv6 >>> 32 = 0x64ff9b <<< 64 then some (ipv6 &&& 0xffffffff)
  else if ipv6 >>> 112 = 0x2002 then some ((ipv6 >>> 80) &&& 0xffffffff)
  else none

/-- The IPv4 address in `::ffff:` and four numbers. -/
def mappedIpv4 (value : Text) : Option Text :=
  let rest := value.drop 7
  if (lit "::ffff:").isPrefixOf value ∧ (rest.splitOn dot).length = 4
      ∧ (rest.splitOn dot).all (fun part => part != [] && part.all isDigit) then
    some rest
  else none

/-- The IPv4 address that a classifier reads off the text. -/
def ipv4Of (value : Text) : Option Text :=
  (mappedIpv4 value).or (if isIP value = 4 then some value else none)

def octetAt (ipv4 : Text) (index : ℕ) : Option ℕ := ((ipv4.splitOn dot).map number)[index]?

def ipv4ToNumber (value : Text) : ℕ :=
  (value.splitOn dot).foldl (fun result octet => (result <<< 8 ||| number octet) % 2 ^ 32) 0

def isPrivateOctets (a b : Option ℕ) : Bool :=
  a == some 0 || a == some 10 || a == some 127 || (a == some 169 && b == some 254)
    || (a == some 172 && b.any fun b => 16 ≤ b && b ≤ 31)
    || (a == some 192 && b == some 168)
    || (a == some 100 && b.any fun b => 64 ≤ b && b ≤ 127)
    || (a == some 198 && (b == some 18 || b == some 19))
    || a.any (224 ≤ ·)

def isPrivateIpv4Number (value : ℕ) : Bool :=
  let a := (value >>> 24) &&& 0xff
  let b := (value >>> 16) &&& 0xff
  a == 0 || a == 10 || a == 127 || (a == 169 && b == 254)
    || (a == 172 && 16 ≤ b && b ≤ 31)
    || (a == 192 && b == 168)
    || (a == 100 && 64 ≤ b && b ≤ 127)
    || (a == 198 && (b == 18 || b == 19))
    || 224 ≤ a

def isPrivateIpv6 (ipv6 : ℕ) : Bool :=
  if ipv6 = 0 ∨ ipv6 = 1 then true
  else if ipv6 >>> 120 = 0xff then true
  else if ipv6 >>> 118 = 0x3fa ∨ ipv6 >>> 118 = 0x3fb then true
  else if (ipv6 >>> 120) &&& 0xfe = 0xfc then true
  else
    match getEmbeddedIpv4Number ipv6 with
    | some embeddedIpv4 => isPrivateIpv4Number embeddedIpv4
    | none => false

def isPrivateAddress (address : Text) : Bool :=
  let value := normalized address
  match ipv4Of value with
  | some ipv4 => isPrivateOctets (octetAt ipv4 0) (octetAt ipv4 1)
  | none =>
      match parseIpv6 value with
      | some ipv6 => isPrivateIpv6 ipv6
      | none => true

/-- `CLOUD_METADATA_IPV4` -/
def cloudMetadataIpv4 : List ℕ :=
  [ipv4ToNumber (lit "169.254.169.254"), ipv4ToNumber (lit "100.100.100.200")]

/-- `AWS_IMDS_IPV6` -/
def awsImdsIpv6 : ℕ := 0xfd000ec2000000000000000000000254

def isCloudMetadataIpv4Number (value : ℕ) : Bool := cloudMetadataIpv4.contains value

def isCloudMetadataIpv6 (ipv6 : ℕ) : Bool :=
  ipv6 == awsImdsIpv6 || (getEmbeddedIpv4Number ipv6).any isCloudMetadataIpv4Number

def isCloudMetadataAddress (address : Text) : Bool :=
  let value := normalized address
  match ipv4Of value with
  | some ipv4 => isCloudMetadataIpv4Number (ipv4ToNumber ipv4)
  | none =>
      match parseIpv6 value with
      | some ipv6 => isCloudMetadataIpv6 ipv6
      | none => false

/-- Only mapped and compatible addresses are unwrapped here. -/
def isLinkLocalIpv6 (ipv6 : ℕ) : Bool :=
  if ipv6 >>> 32 = 0xffff ∨ ipv6 >>> 32 = 0 then
    let embeddedIpv4 := ipv6 &&& 0xffffffff
    (embeddedIpv4 >>> 24) &&& 0xff == 169 && (embeddedIpv4 >>> 16) &&& 0xff == 254
  else ipv6 >>> 118 == 0x3fa

def isLinkLocalAddress (address : Text) : Bool :=
  let value := normalized address
  match ipv4Of value with
  | some ipv4 => octetAt ipv4 0 == some 169 && octetAt ipv4 1 == some 254
  | none =>
      match parseIpv6 value with
      | some ipv6 => isLinkLocalIpv6 ipv6
      | none => false

end ArdurBot.Network
