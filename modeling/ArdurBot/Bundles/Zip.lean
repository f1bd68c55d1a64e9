import ArdurBot.Bundles.Files

/-!
# Reading a ZIP archive

`packages/contracts/src/bundles/zip.js`. A read outside the archive throws, so that it can be shown
that there is none. `inflateRawSync` and `crc32` are those of `zlib`.
-/

namespace ArdurBot.Bundles

open Utf16 Checked

def invalid : Failure := .thrown "Choose a valid ZIP, MCPB, or DXT bundle."

/-- What is used of `zlib`: the first result is given up if it would be longer than the limit. -/
structure Zlib where
  inflateRawSync : Bytes → ℕ → Option Bytes
  crc32 : Bytes → UInt32

def readUInt16LE (zip : Bytes) (offset : ℕ) : Except Failure ℕ :=
  match zip.drop offset with
  | a :: b :: _ => .ok (a.toNat + 2 ^ 8 * b.toNat)
  | _ => .error .outOfRange

def readUInt32LE (zip : Bytes) (offset : ℕ) : Except Failure ℕ :=
  match zip.drop offset with
  | a :: b :: c :: d :: _ => .ok (a.toNat + 2 ^ 8 * b.toNat + 2 ^ 16 * c.toNat + 2 ^ 24 * d.toNat)
  | _ => .error .outOfRange

def subarray (zip : Bytes) (first last : ℕ) : Bytes := (zip.take last).drop first

def endSignature : ℕ := 0x06054b50

def centralSignature : ℕ := 0x02014b50

def localSignature : ℕ := 0x04034b50

def findEnd (zip : Bytes) : ℕ → ℕ → Except Failure (Option ℕ)
  | 0, _ => .ok none
  | count + 1, offset => do
    let signature ← readUInt32LE zip offset
    if signature = endSignature then
      let comment ← readUInt16LE zip (offset + 20)
      if offset + 22 + comment = zip.length then .ok (some offset) else findEnd zip count (offset - 1)
    else findEnd zip count (offset - 1)

structure EndRecord where
  position : ℕ
  count : ℕ
  size : ℕ
  start : ℕ

def readEnd (zip : Bytes) : Except Failure EndRecord := do
  let found ← findEnd zip (zip.length - 22 - (zip.length - 65557) + 1) (zip.length - 22)
  match found with
  | none => .error invalid
  | some position =>
    let disk ← readUInt16LE zip (position + 4)
    let firstDisk ← readUInt16LE zip (position + 6)
    refuseIf (disk ≠ 0 || firstDisk ≠ 0) invalid
    let count ← readUInt16LE zip (position + 10)
    let size ← readUInt32LE zip (position + 12)
    let start ← readUInt32LE zip (position + 16)
    let diskCount ← readUInt16LE zip (position + 8)
    refuseIf (count ≠ diskCount || 10000 < count || start + size ≠ position) invalid
    .ok ⟨position, count, size, start⟩

/-- The fields of a header in the central directory. -/
structure Central where
  flags : ℕ
  compression : ℕ
  crc : ℕ
  compressed : ℕ
  length : ℕ
  nameLength : ℕ
  extraLength : ℕ
  commentLength : ℕ
  disk : ℕ
  mode : ℕ
  offset : ℕ

def readCentral (zip : Bytes) (cursor : ℕ) : Except Failure Central := do
  let flags ← readUInt16LE zip (cursor + 8)
  let compression ← readUInt16LE zip (cursor + 10)
  let crc ← readUInt32LE zip (cursor + 16)
  let compressed ← readUInt32LE zip (cursor + 20)
  let length ← readUInt32LE zip (cursor + 24)
  let nameLength ← readUInt16LE zip (cursor + 28)
  let extraLength ← readUInt16LE zip (cursor + 30)
  let commentLength ← readUInt16LE zip (cursor + 32)
  let mode ← readUInt32LE zip (cursor + 38)
  let offset ← readUInt32LE zip (cursor + 42)
  let disk ← readUInt16LE zip (cursor + 34)
  .ok ⟨flags, compression, crc, compressed, length, nameLength, extraLength, commentLength, disk,
    mode >>> 16, offset⟩

def Central.isRefused (c : Central) : Bool :=
  c.flags &&& 0x2041 ≠ 0 || !(c.compression = 0 || c.compression = 8) || c.disk ≠ 0 ||
    c.compressed = 0xffffffff || c.length = 0xffffffff || c.offset = 0xffffffff

/-- An entry, as the central directory names it. -/
structure Entry where
  central : Central
  rawName : Bytes
  directory : Bool
  path : Text
  next : ℕ

def readEntry (zip : Bytes) (last cursor : ℕ) : Except Failure Entry := do
  refuseIf (last < cursor + 46) invalid
  let signature ← readUInt32LE zip cursor
  refuseIf (signature ≠ centralSignature) invalid
  let c ← readCentral zip cursor
  refuseIf c.isRefused invalid
  let next := cursor + 46 + c.nameLength + c.extraLength + c.commentLength
  refuseIf (last < next || c.nameLength = 0) invalid
  let rawName := subarray zip (cursor + 46) (cursor + 46 + c.nameLength)
  match decodeUtf8 rawName with
  | none => .error invalid
  | some name =>
    let directory := decide (name.getLast? = some solidus)
    let path ← bundlePath (if directory then name.dropLast else name)
    .ok ⟨c, rawName, directory, path, next⟩

def isSpecial (mode : ℕ) (directory : Bool) : Bool :=
  mode &&& 0o170000 ≠ 0 && mode &&& 0o170000 ≠ (if directory then 0o040000 else 0o100000)

/-- Where the packed bytes of an entry are, by its local header, which has to agree. -/
def readLocal (zip : Bytes) (start : ℕ) (entry : Entry) : Except Failure (ℕ × ℕ) := do
  let c := entry.central
  refuseIf (start < c.offset + 30) invalid
  let signature ← readUInt32LE zip c.offset
  refuseIf (signature ≠ localSignature) invalid
  let flags ← readUInt16LE zip (c.offset + 6)
  refuseIf (flags ≠ c.flags) invalid
  let compression ← readUInt16LE zip (c.offset + 8)
  refuseIf (compression ≠ c.compression) invalid
  let nameLength ← readUInt16LE zip (c.offset + 26)
  let extraLength ← readUInt16LE zip (c.offset + 28)
  let dataStart := c.offset + 30 + nameLength + extraLength
  let dataEnd := dataStart + c.compressed
  refuseIf (start < dataEnd || subarray zip (c.offset + 30) (c.offset + 30 + nameLength) ≠
    entry.rawName) invalid
  if c.flags &&& 8 = 0 then
    let crc ← readUInt32LE zip (c.offset + 14)
    let compressed ← readUInt32LE zip (c.offset + 18)
    let length ← readUInt32LE zip (c.offset + 22)
    refuseIf (crc ≠ c.crc || compressed ≠ c.compressed || length ≠ c.length) invalid
    .ok (dataStart, dataEnd)
  else .ok (dataStart, dataEnd)

/-- The bytes of an entry, as the central directory declares them. -/
def unpack (zlib : Zlib) (entry : Entry) (packed : Bytes) : Except Failure Bytes :=
  match if entry.central.compression = 0 then some packed
    else zlib.inflateRawSync packed (max 1 entry.central.length) with
  | none => .error invalid
  | some bytes => do
    refuseIf (bytes.length ≠ entry.central.length || (zlib.crc32 bytes).toNat ≠ entry.central.crc ||
      (entry.directory && entry.central.length ≠ 0)) invalid
    .ok bytes

variable (tables : CaseTables) (zlib : Zlib)

structure Progress where
  cursor : ℕ
  total : ℕ
  files : List File
  ranges : List (ℕ × ℕ)
  names : List Text

def addEntry (zip : Bytes) (last start : ℕ) (p : Progress) : Except Failure Progress := do
  let entry ← readEntry zip last p.cursor
  refuseIf (tables.toLowerCase entry.path ∈ p.names) invalid
  refuseIf (isSpecial entry.central.mode entry.directory)
    (.thrown "Bundle links and special files are not supported.")
  let (dataStart, dataEnd) ← readLocal zip start entry
  refuseIf (bundleMaxBytes < entry.central.length || bundleMaxBytes < p.total + entry.central.length)
    (.thrown "The unpacked bundle is too large.")
  let bytes ← unpack zlib entry (subarray zip dataStart dataEnd)
  .ok
    { cursor := entry.next
      total := p.total + entry.central.length
      files := if entry.directory then p.files else p.files ++ [⟨entry.path, bytes, entry.central.mode &&& 0o111 ≠ 0⟩]
      ranges := p.ranges ++ [(entry.central.offset, dataEnd)]
      names := p.names ++ [tables.toLowerCase entry.path] }

def addEntries (zip : Bytes) (last start : ℕ) : ℕ → Progress → Except Failure Progress
  | 0, p => .ok p
  | count + 1, p => do
    let p' ← addEntry tables zlib zip last start p
    addEntries zip last start count p'

/-- A range begins before the one before it ends. -/
def overlaps : List (ℕ × ℕ) → Bool
  | a :: b :: rest => b.1 < a.2 || overlaps (b :: rest)
  | _ => false

def readBundleZip (zip : Bytes) : Except Failure (List File) := do
  refuseIf (zip.length < 22 || bundleMaxBytes < zip.length) invalid
  let e ← readEnd zip
  let p ← addEntries tables zlib zip e.position e.start e.count ⟨e.start, 0, [], [], []⟩
  refuseIf (p.cursor ≠ e.position || overlaps (p.ranges.mergeSort fun a b => a.1 ≤ b.1)) invalid
  validateBundleFiles tables p.files
  .ok p.files

end ArdurBot.Bundles
