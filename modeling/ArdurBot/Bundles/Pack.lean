import ArdurBot.Bundles.ZipOk

/-!
# Writing a ZIP archive

The single-disk encoding of a list of files, as honest archivers write it: entries stored or
deflated, entries for directories among them, data descriptors where the flags say so, and whatever
extra fields, comments and stamps. It is not in the repository; it says what the reader has to
accept.
-/

namespace ArdurBot.Bundles

open List Utf16 Checked
open Bool hiding not_not or_false

section

/-! ### Fields -/

def le16 (n : ℕ) : Bytes := [n.toUInt8, (n / 2 ^ 8).toUInt8]

def le32 (n : ℕ) : Bytes :=
  [n.toUInt8, (n / 2 ^ 8).toUInt8, (n / 2 ^ 16).toUInt8, (n / 2 ^ 24).toUInt8]

/-- How an entry is packed, and what else its headers hold. -/
structure Packing where
  flags : ℕ
  deflated : Bool
  signedDescriptor : Bool
  mode : ℕ
  localExtra : Bytes
  centralExtra : Bytes
  comment : Bytes
  versionMadeBy : ℕ
  versionNeeded : ℕ
  time : ℕ
  date : ℕ
  internalAttributes : ℕ
  dosAttributes : ℕ

structure Item where
  path : Text
  directory : Bool
  bytes : Bytes
  packing : Packing

def Item.name (item : Item) : Text := if item.directory then item.path ++ [solidus] else item.path

def Item.rawName (item : Item) : Bytes := utf8 item.name

def Item.hasDescriptor (item : Item) : Bool := item.packing.flags &&& 8 ≠ 0

def Item.method (item : Item) : ℕ := if item.packing.deflated then 8 else 0

def filesOf (items : List Item) : List File :=
  items.filterMap fun item =>
    if item.directory then none else some ⟨item.path, item.bytes, item.packing.mode &&& 0o111 ≠ 0⟩

variable (zlib : Zlib) (deflateRaw : Bytes → Bytes)

section

variable (item : Item)

def Item.packed : Bytes := if item.packing.deflated then deflateRaw item.bytes else item.bytes

def Item.crc : ℕ := (zlib.crc32 item.bytes).toNat

def Item.descriptor : Bytes :=
  if item.hasDescriptor then
    (if item.packing.signedDescriptor then le32 0x08074b50 else []) ++ le32 (item.crc zlib) ++
      le32 (item.packed deflateRaw).length ++ le32 item.bytes.length
  else []

/-- The local header up to the name; with a descriptor it leaves open what that says. -/
def Item.localHeader : Bytes :=
  le32 localSignature ++ le16 item.packing.versionNeeded ++ le16 item.packing.flags ++ le16 item.method ++
    le16 item.packing.time ++ le16 item.packing.date ++
    le32 (if item.hasDescriptor then 0 else item.crc zlib) ++
    le32 (if item.hasDescriptor then 0 else (item.packed deflateRaw).length) ++
    le32 (if item.hasDescriptor then 0 else item.bytes.length) ++
    le16 item.rawName.length ++ le16 item.packing.localExtra.length

def Item.localRecord : Bytes :=
  item.localHeader zlib deflateRaw ++ (item.rawName ++ (item.packing.localExtra ++ (item.packed deflateRaw ++
    item.descriptor zlib deflateRaw)))

def Item.centralHeader (offset : ℕ) : Bytes :=
  le32 centralSignature ++ le16 item.packing.versionMadeBy ++ le16 item.packing.versionNeeded ++
    le16 item.packing.flags ++ le16 item.method ++ le16 item.packing.time ++ le16 item.packing.date ++
    le32 (item.crc zlib) ++ le32 (item.packed deflateRaw).length ++ le32 item.bytes.length ++
    le16 item.rawName.length ++ le16 item.packing.centralExtra.length ++ le16 item.packing.comment.length ++ le16 0 ++
    le16 item.packing.internalAttributes ++ le16 item.packing.dosAttributes ++ le16 item.packing.mode ++ le32 offset

def Item.centralRecord (offset : ℕ) : Bytes :=
  item.centralHeader zlib deflateRaw offset ++
    (item.rawName ++ (item.packing.centralExtra ++ item.packing.comment))

end

def locals (items : List Item) : Bytes := items.flatMap fun item => item.localRecord zlib deflateRaw

def centrals (offset : ℕ) : List Item → Bytes
  | [] => []
  | item :: items =>
    item.centralRecord zlib deflateRaw offset ++ centrals (offset + (item.localRecord zlib deflateRaw).length) items

def endRecord (count size start : ℕ) : Bytes :=
  le32 endSignature ++ le16 0 ++ le16 0 ++ le16 count ++ le16 count ++ le32 size ++ le32 start ++ le16 0

def encode (items : List Item) : Bytes :=
  locals zlib deflateRaw items ++ (centrals zlib deflateRaw 0 items ++
    endRecord items.length (centrals zlib deflateRaw 0 items).length (locals zlib deflateRaw items).length)

/-- What may be packed: a path that can be decoded again and is safe, flags without encryption, a
mode of what it is, and fields that fit. -/
structure Packable (item : Item) : Prop where
  wellFormed : WellFormed item.path
  unmarked : item.path.head? ≠ some byteOrderMark
  safe : isUnsafe item.path = false
  flags : item.packing.flags < 2 ^ 16 ∧ item.packing.flags &&& 0x2041 = 0
  mode : item.packing.mode < 2 ^ 16 ∧ isSpecial item.packing.mode item.directory = false
  localExtra : item.packing.localExtra.length < 2 ^ 16
  centralExtra : item.packing.centralExtra.length < 2 ^ 16
  comment : item.packing.comment.length < 2 ^ 16
  empty : item.directory → item.bytes = []

def At (zip : Bytes) (offset : ℕ) (bytes : Bytes) : Prop := bytes <+: zip.drop offset

variable {zip bytes more : Bytes} {offset n : ℕ}

theorem At.left (h : At zip offset (bytes ++ more)) : At zip offset bytes :=
  (prefix_append bytes more).trans h

theorem At.right (h : At zip offset (bytes ++ more)) : At zip (offset + bytes.length) more := by
  obtain ⟨rest, hrest⟩ := h
  refine ⟨rest, ?_⟩
  rw [← drop_drop, ← hrest, append_assoc, drop_left]

theorem At.skip16 (h : At zip offset (le16 n ++ more)) : At zip (offset + 2) more := h.right

theorem At.skip32 (h : At zip offset (le32 n ++ more)) : At zip (offset + 4) more := h.right

theorem toNat_le16 (h : n < 2 ^ 16) : n.toUInt8.toNat + 2 ^ 8 * (n / 2 ^ 8).toUInt8.toNat = n := by
  simp only [Nat.toUInt8_eq, UInt8.toNat_ofNat']
  omega

theorem At.uint16 (h : At zip offset (le16 n ++ more)) (hn : n < 2 ^ 16) :
    readUInt16LE zip offset = .ok n := by
  obtain ⟨rest, hrest⟩ := h
  unfold readUInt16LE
  rw [← hrest]
  exact congrArg Except.ok (toNat_le16 hn)

theorem At.uint32 (h : At zip offset (le32 n ++ more)) (hn : n < 2 ^ 32) :
    readUInt32LE zip offset = .ok n := by
  obtain ⟨rest, hrest⟩ := h
  unfold readUInt32LE
  rw [← hrest]
  refine congrArg Except.ok ?_
  simp only [Nat.toUInt8_eq, UInt8.toNat_ofNat']
  omega

theorem At.slice (h : At zip offset (bytes ++ more)) :
    subarray zip offset (offset + bytes.length) = bytes := by
  unfold subarray
  rw [drop_take, Nat.add_sub_cancel_left]
  exact (prefix_iff_eq_take.mp h.left).symm

/-! ### Names -/

theorem length_toChars_le (text : Text) : (toChars text).length ≤ text.length := by
  induction text using toChars.induct with
  | case1 | case2 => exact Nat.le_refl _
  | case3 u v rest hpair ih =>
    rw [toChars, if_pos hpair, length_cons, length_cons, length_cons]
    omega
  | case4 u v rest hpair ih =>
    rw [toChars, if_neg hpair, length_cons, length_cons]
    omega

theorem length_utf8_le (text : Text) : (utf8 text).length ≤ 4 * text.length := by
  have hchars : ∀ chars : List Char, (chars.flatMap String.utf8EncodeChar).length ≤ 4 * chars.length := by
    intro chars
    induction chars with
    | nil => exact Nat.le_refl _
    | cons c chars ih =>
      have hc : (String.utf8EncodeChar c).length ≤ 4 := by
        rw [String.length_utf8EncodeChar]
        exact Char.utf8Size_le_four c
      rw [flatMap_cons, length_append, length_cons]
      omega
  have hlength := length_toChars_le text
  have hbytes := hchars (toChars text)
  unfold utf8
  omega

theorem utf8_ne_nil {text : Text} (h : text ≠ []) : utf8 text ≠ [] := by
  have hfirst : ∀ (c : Char) (rest : List Char), (c :: rest).flatMap String.utf8EncodeChar ≠ [] := by
    intro c rest hnil
    have hlength := congrArg length hnil
    have hpos := Char.utf8Size_pos c
    rw [flatMap_cons, length_append, String.length_utf8EncodeChar, length_nil] at hlength
    omega
  unfold utf8
  cases text with
  | nil => exact absurd rfl h
  | cons u rest =>
    cases rest with
    | nil => exact hfirst _ _
    | cons v rest =>
      rw [toChars]
      split <;> exact hfirst _ _

section

variable {item : Item} (h : Packable item)
include h

theorem Packable.path_ne_nil : item.path ≠ [] := by
  intro hnil
  have hsafe := h.safe
  rw [hnil] at hsafe
  revert hsafe
  decide

theorem Packable.getLast_path : item.path.getLast? ≠ some solidus := by
  intro hlast
  obtain ⟨above, habove⟩ := getLast?_eq_some_iff.mp hlast
  have hparts : [] ∈ parts item.path := by
    rw [habove, parts_append]
    exact mem_append_right _ (by decide)
  exact ((safePath_of_eq_false h.safe).parts _ hparts).nonempty rfl

theorem Packable.name_ne_nil : item.name ≠ [] := by
  unfold Item.name
  split
  · simp
  · exact h.path_ne_nil

theorem Packable.length_rawName : item.rawName.length < 2 ^ 16 ∧ item.rawName.length ≠ 0 := by
  have hname : item.name.length ≤ 1025 := by
    have hpath := (safePath_of_eq_false h.safe).length
    unfold Item.name
    split
    · rw [length_append, length_singleton]
      omega
    · omega
  have hbytes := length_utf8_le item.name
  unfold Item.rawName
  refine ⟨by omega, fun hzero => ?_⟩
  exact utf8_ne_nil h.name_ne_nil (length_eq_zero_iff.mp hzero)

theorem Packable.decode_name : decodeUtf8 item.rawName = some item.name ∧
    decide (item.name.getLast? = some solidus) = item.directory ∧
    (if item.directory then item.name.dropLast else item.name) = item.path := by
  have hpath := h.path_ne_nil
  unfold Item.rawName Item.name
  cases hdirectory : item.directory with
  | true =>
    have hmark : (item.path ++ [solidus]).head? ≠ some byteOrderMark := by
      rw [head?_append_of_ne_nil _ hpath]
      exact h.unmarked
    refine ⟨decodeUtf8_utf8 (h.wellFormed.append (by decide)) hmark, ?_, ?_⟩
    · simp
    · simp
  | false =>
    refine ⟨decodeUtf8_utf8 h.wellFormed h.unmarked, ?_, rfl⟩
    exact decide_eq_false h.getLast_path

end

/-! ### Headers -/

variable {zlib : Zlib} {deflateRaw : Bytes → Bytes} {item : Item} {cursor last start : ℕ}

def Item.central (zlib : Zlib) (deflateRaw : Bytes → Bytes) (item : Item) (offset : ℕ) : Central where
  flags := item.packing.flags
  compression := item.method
  crc := item.crc zlib
  compressed := (item.packed deflateRaw).length
  length := item.bytes.length
  nameLength := item.rawName.length
  extraLength := item.packing.centralExtra.length
  commentLength := item.packing.comment.length
  disk := 0
  mode := item.packing.mode
  offset

theorem method_lt (item : Item) : item.method < 2 ^ 16 := by
  unfold Item.method
  split <;> omega

theorem crc_lt (zlib : Zlib) (item : Item) : item.crc zlib < 2 ^ 32 := UInt32.toNat_lt _

theorem At.mode {a b : ℕ} (h : At zip offset (le16 a ++ (le16 b ++ more))) (hb : b < 2 ^ 16) :
    ∃ n, readUInt32LE zip offset = .ok n ∧ n >>> 16 = b := by
  obtain ⟨rest, hrest⟩ := h
  refine ⟨a.toUInt8.toNat + 2 ^ 8 * (a / 2 ^ 8).toUInt8.toNat + 2 ^ 16 * b.toUInt8.toNat +
    2 ^ 24 * (b / 2 ^ 8).toUInt8.toNat, ?_, ?_⟩
  · unfold readUInt32LE
    rw [← hrest]
    rfl
  · have hlow : a.toUInt8.toNat < 2 ^ 8 ∧ (a / 2 ^ 8).toUInt8.toNat < 2 ^ 8 := ⟨UInt8.toNat_lt _, UInt8.toNat_lt _⟩
    have hhigh := toNat_le16 hb
    rw [Nat.shiftRight_eq_div_pow]
    omega

theorem readCentral_encoded (h : Packable item)
    (hat : At zip cursor (item.centralRecord zlib deflateRaw offset))
    (hpacked : (item.packed deflateRaw).length < 2 ^ 32) (hlength : item.bytes.length < 2 ^ 32)
    (hoffset : offset < 2 ^ 32) :
    readCentral zip cursor = .ok (item.central zlib deflateRaw offset) := by
  unfold Item.centralRecord Item.centralHeader at hat
  simp only [append_assoc] at hat
  have h8 := hat.skip32.skip16.skip16
  have h16 := h8.skip16.skip16.skip16.skip16
  have h28 := h16.skip32.skip32.skip32
  have h34 := h28.skip16.skip16.skip16
  have h38 := h34.skip16.skip16
  have hflags : readUInt16LE zip (cursor + 8) = .ok item.packing.flags := h8.uint16 h.flags.1
  have hmethod : readUInt16LE zip (cursor + 10) = .ok item.method := h8.skip16.uint16 (method_lt item)
  have hcrc : readUInt32LE zip (cursor + 16) = .ok (item.crc zlib) := h16.uint32 (crc_lt zlib item)
  have hcompressed : readUInt32LE zip (cursor + 20) = .ok (item.packed deflateRaw).length :=
    h16.skip32.uint32 hpacked
  have hlen : readUInt32LE zip (cursor + 24) = .ok item.bytes.length := h16.skip32.skip32.uint32 hlength
  have hname : readUInt16LE zip (cursor + 28) = .ok item.rawName.length := h28.uint16 h.length_rawName.1
  have hextra : readUInt16LE zip (cursor + 30) = .ok item.packing.centralExtra.length :=
    h28.skip16.uint16 h.centralExtra
  have hcomment : readUInt16LE zip (cursor + 32) = .ok item.packing.comment.length :=
    h28.skip16.skip16.uint16 h.comment
  have hdisk : readUInt16LE zip (cursor + 34) = .ok 0 := h34.uint16 (by decide)
  have hattributes : ∃ n, readUInt32LE zip (cursor + 38) = .ok n ∧ n >>> 16 = item.packing.mode :=
    h38.mode h.mode.1
  have hoff : readUInt32LE zip (cursor + 42) = .ok offset := h38.skip16.skip16.uint32 hoffset
  obtain ⟨attributes, hattributes, hmode⟩ := hattributes
  unfold readCentral
  rw [hflags, hmethod, hcrc, hcompressed, hlen, hname, hextra, hcomment, hattributes, hoff, hdisk]
  change Except.ok _ = _
  rw [hmode]
  rfl

theorem length_le16 (n : ℕ) : (le16 n).length = 2 := rfl

theorem length_le32 (n : ℕ) : (le32 n).length = 4 := rfl

theorem length_centralHeader (item : Item) (offset : ℕ) :
    (item.centralHeader zlib deflateRaw offset).length = 46 := by
  unfold Item.centralHeader
  simp only [length_append, length_le16, length_le32]

theorem length_localHeader (item : Item) : (item.localHeader zlib deflateRaw).length = 30 := by
  unfold Item.localHeader
  simp only [length_append, length_le16, length_le32]

theorem length_centralRecord (item : Item) (offset : ℕ) : (item.centralRecord zlib deflateRaw offset).length =
    46 + item.rawName.length + item.packing.centralExtra.length + item.packing.comment.length := by
  unfold Item.centralRecord
  rw [length_append, length_append, length_append, length_centralHeader]
  omega

/-- Where the packed bytes of an entry are, counted from its local header. -/
def Item.dataStart (item : Item) : ℕ := 30 + item.rawName.length + item.packing.localExtra.length

variable (zlib deflateRaw) in
theorem length_localRecord (item : Item) : (item.localRecord zlib deflateRaw).length =
    item.dataStart + (item.packed deflateRaw).length + (item.descriptor zlib deflateRaw).length := by
  unfold Item.localRecord Item.dataStart
  rw [length_append, length_append, length_append, length_append, length_localHeader]
  omega

theorem readEntry_encoded (h : Packable item)
    (hat : At zip cursor (item.centralRecord zlib deflateRaw offset))
    (hlast : cursor + (item.centralRecord zlib deflateRaw offset).length ≤ last)
    (hpacked : (item.packed deflateRaw).length < 2 ^ 32 - 1)
    (hlength : item.bytes.length < 2 ^ 32 - 1) (hoffset : offset < 2 ^ 32 - 1) :
    readEntry zip last cursor = .ok ⟨item.central zlib deflateRaw offset, item.rawName, item.directory, item.path,
      cursor + (item.centralRecord zlib deflateRaw offset).length⟩ := by
  obtain ⟨hdecode, hdirectory, hpath⟩ := h.decode_name
  have hcentral := readCentral_encoded h hat (by omega) (by omega) (by omega)
  have hsignature : readUInt32LE zip cursor = .ok centralSignature := by
    unfold Item.centralRecord Item.centralHeader at hat
    simp only [append_assoc] at hat
    exact hat.uint32 (by decide)
  have hraw : subarray zip (cursor + 46) (cursor + 46 + item.rawName.length) = item.rawName := by
    unfold Item.centralRecord at hat
    have hright := hat.right
    rw [length_centralHeader] at hright
    exact hright.slice
  rw [length_centralRecord] at hlast ⊢
  have hrefused : (item.central zlib deflateRaw offset).isRefused = false := by
    have hmethod : (item.method = 0 || item.method = 8) = true := by
      unfold Item.method
      split <;> rfl
    unfold Central.isRefused Item.central
    simp only [or_eq_false_iff, decide_eq_false_iff_not, not_eq_false', not_not]
    exact ⟨⟨⟨⟨⟨h.flags.2, hmethod⟩, trivial⟩, by omega⟩, by omega⟩, by omega⟩
  have hname := h.length_rawName.2
  unfold readEntry
  refine bind_eq_ok.mpr ⟨(), refuseIf_eq_ok.mpr (decide_eq_false (by omega)), ?_⟩
  refine bind_eq_ok.mpr ⟨_, hsignature, bind_eq_ok.mpr ⟨(), refuseIf_eq_ok.mpr (by simp), ?_⟩⟩
  refine bind_eq_ok.mpr ⟨_, hcentral, bind_eq_ok.mpr ⟨(), refuseIf_eq_ok.mpr hrefused, ?_⟩⟩
  refine bind_eq_ok.mpr ⟨(), refuseIf_eq_ok.mpr ?_, ?_⟩
  · unfold Item.central
    simp only [or_eq_false_iff, decide_eq_false_iff_not]
    exact ⟨by omega, hname⟩
  · have hsub : subarray zip (cursor + 46) (cursor + 46 + (item.central zlib deflateRaw offset).nameLength) =
        item.rawName := hraw
    dsimp only
    rw [hsub, hdecode]
    dsimp only
    rw [hdirectory, hpath]
    refine bind_eq_ok.mpr ⟨_, bundlePath_eq_ok.mpr ⟨h.safe, stripDotSlash_safe h.safe⟩, ?_⟩
    unfold Item.central
    simp only [Nat.add_assoc]

theorem readLocal_encoded (h : Packable item)
    (hat : At zip offset (item.localRecord zlib deflateRaw)) {next : ℕ}
    (hstart : offset + (item.localRecord zlib deflateRaw).length ≤ start)
    (hpacked : (item.packed deflateRaw).length < 2 ^ 32) (hlength : item.bytes.length < 2 ^ 32) :
    readLocal zip start ⟨item.central zlib deflateRaw offset, item.rawName, item.directory, item.path, next⟩ =
      .ok (offset + item.dataStart, offset + item.dataStart + (item.packed deflateRaw).length) := by
  have hrecord := hat
  rw [length_localRecord] at hstart
  unfold Item.dataStart at hstart ⊢
  unfold Item.localRecord Item.localHeader at hat
  simp only [append_assoc] at hat
  have h6 := hat.skip32.skip16
  have h14 := h6.skip16.skip16.skip16.skip16
  have h26 := h14.skip32.skip32.skip32
  have hsignature : readUInt32LE zip offset = .ok localSignature := hat.uint32 (by decide)
  have hflags : readUInt16LE zip (offset + 6) = .ok item.packing.flags := h6.uint16 h.flags.1
  have hmethod : readUInt16LE zip (offset + 8) = .ok item.method := h6.skip16.uint16 (method_lt item)
  have hname : readUInt16LE zip (offset + 26) = .ok item.rawName.length := h26.uint16 h.length_rawName.1
  have hextra : readUInt16LE zip (offset + 28) = .ok item.packing.localExtra.length :=
    h26.skip16.uint16 h.localExtra
  have hraw : subarray zip (offset + 30) (offset + 30 + item.rawName.length) = item.rawName :=
    h26.skip16.skip16.slice
  unfold readLocal
  refine bind_eq_ok.mpr ⟨(), refuseIf_eq_ok.mpr (decide_eq_false ?_), ?_⟩
  · unfold Item.central
    dsimp only
    omega
  refine bind_eq_ok.mpr ⟨_, hsignature, bind_eq_ok.mpr ⟨(), refuseIf_eq_ok.mpr (by simp), ?_⟩⟩
  refine bind_eq_ok.mpr ⟨_, hflags, bind_eq_ok.mpr ⟨(), refuseIf_eq_ok.mpr (by simp [Item.central]), ?_⟩⟩
  refine bind_eq_ok.mpr ⟨_, hmethod, bind_eq_ok.mpr ⟨(), refuseIf_eq_ok.mpr (by simp [Item.central]), ?_⟩⟩
  refine bind_eq_ok.mpr ⟨_, hname, bind_eq_ok.mpr ⟨_, hextra, bind_eq_ok.mpr ⟨(), refuseIf_eq_ok.mpr ?_, ?_⟩⟩⟩
  · unfold Item.central
    simp only [or_eq_false_iff, decide_eq_false_iff_not, not_not]
    exact ⟨by omega, hraw⟩
  · have hresult : (offset + 30 + item.rawName.length + item.packing.localExtra.length,
        offset + 30 + item.rawName.length + item.packing.localExtra.length + (item.packed deflateRaw).length) =
        (offset + (30 + item.rawName.length + item.packing.localExtra.length),
          offset + (30 + item.rawName.length + item.packing.localExtra.length) +
            (item.packed deflateRaw).length) := by
      simp only [Nat.add_assoc]
    unfold Item.central
    split
    · next hplain =>
      have hdescriptor : item.hasDescriptor = false := by
        unfold Item.hasDescriptor
        simpa using hplain
      simp only [hdescriptor, false_eq_true, if_false] at h14
      have hcrc : readUInt32LE zip (offset + 14) = .ok (item.crc zlib) := h14.uint32 (crc_lt zlib item)
      have hcompressed : readUInt32LE zip (offset + 18) = .ok (item.packed deflateRaw).length :=
        h14.skip32.uint32 hpacked
      have hlen : readUInt32LE zip (offset + 22) = .ok item.bytes.length := h14.skip32.skip32.uint32 hlength
      refine bind_eq_ok.mpr ⟨_, hcrc, bind_eq_ok.mpr ⟨_, hcompressed, bind_eq_ok.mpr ⟨_, hlen, ?_⟩⟩⟩
      exact bind_eq_ok.mpr ⟨(), refuseIf_eq_ok.mpr (by simp), congrArg Except.ok hresult⟩
    · exact congrArg Except.ok hresult

/-! ### The loop -/

/-- `inflateRawSync` undoes `deflateRaw` within its limit. -/
def Inflates (zlib : Zlib) (deflateRaw : Bytes → Bytes) : Prop :=
  ∀ bytes limit, 0 < limit → bytes.length ≤ limit → zlib.inflateRawSync (deflateRaw bytes) limit = some bytes

theorem unpack_encoded (h : Packable item) (hinflate : Inflates zlib deflateRaw) {next : ℕ} :
    unpack zlib ⟨item.central zlib deflateRaw offset, item.rawName, item.directory, item.path, next⟩
      (item.packed deflateRaw) = .ok item.bytes := by
  have hunpacked : (if (item.central zlib deflateRaw offset).compression = 0 then some (item.packed deflateRaw)
      else zlib.inflateRawSync (item.packed deflateRaw) (max 1 item.bytes.length)) = some item.bytes := by
    unfold Item.central Item.method Item.packed
    cases item.packing.deflated with
    | true => exact hinflate item.bytes _ (Nat.lt_of_lt_of_le Nat.one_pos (Nat.le_max_left _ _)) (Nat.le_max_right _ _)
    | false => rfl
  have hempty : (item.directory && decide (item.bytes.length ≠ 0)) = false := by
    cases hdirectory : item.directory with
    | true => simp [h.empty hdirectory]
    | false => rfl
  unfold unpack
  split
  · next hnone =>
    have hno : some item.bytes = none := hunpacked.symm.trans hnone
    cases hno
  · next bytes hsome =>
    have hsame : some item.bytes = some bytes := hunpacked.symm.trans hsome
    cases hsame
    refine bind_eq_ok.mpr ⟨(), refuseIf_eq_ok.mpr ?_, rfl⟩
    rw [or_eq_false_iff, or_eq_false_iff]
    exact ⟨⟨by simp [Item.central], by simp [Item.central, Item.crc]⟩, hempty⟩

def Item.range (deflateRaw : Bytes → Bytes) (item : Item) (offset : ℕ) : ℕ × ℕ :=
  (offset, offset + item.dataStart + (item.packed deflateRaw).length)

def rangesOf (zlib : Zlib) (deflateRaw : Bytes → Bytes) (offset : ℕ) : List Item → List (ℕ × ℕ)
  | [] => []
  | item :: items =>
    item.range deflateRaw offset ::
      rangesOf zlib deflateRaw (offset + (item.localRecord zlib deflateRaw).length) items

def totalOf (items : List Item) : ℕ := (items.map fun item => item.bytes.length).sum

theorem filesOf_cons (item : Item) (items : List Item) :
    filesOf (item :: items) = filesOf [item] ++ filesOf items := by
  unfold filesOf
  rw [← filterMap_append, singleton_append]

def Progress.past (tables : CaseTables) (zlib : Zlib) (deflateRaw : Bytes → Bytes)
    (p : Progress) (offset : ℕ) (items : List Item) : Progress where
  cursor := p.cursor + (centrals zlib deflateRaw offset items).length
  total := p.total + totalOf items
  files := p.files ++ filesOf items
  ranges := p.ranges ++ rangesOf zlib deflateRaw offset items
  names := p.names ++ items.map fun item => tables.toLowerCase item.path

variable {tables : CaseTables} {items : List Item} {p : Progress}

theorem Progress.past_cons (p : Progress) (offset : ℕ) (item : Item) (items : List Item) :
    (p.past tables zlib deflateRaw offset [item]).past tables zlib deflateRaw
      (offset + (item.localRecord zlib deflateRaw).length) items =
        p.past tables zlib deflateRaw offset (item :: items) := by
  unfold Progress.past
  simp only [centrals, rangesOf, totalOf, filesOf_cons item items, append_nil, length_append, append_assoc,
    map_cons, map_nil, sum_cons, sum_nil, singleton_append, Nat.add_assoc, Nat.add_zero]

theorem addEntry_encoded (h : Packable item) (hinflate : Inflates zlib deflateRaw)
    (hlocal : At zip offset (item.localRecord zlib deflateRaw))
    (hcentral : At zip p.cursor (item.centralRecord zlib deflateRaw offset))
    (hstart : offset + (item.localRecord zlib deflateRaw).length ≤ start)
    (hlast : p.cursor + (item.centralRecord zlib deflateRaw offset).length ≤ last)
    (hsize : start < 2 ^ 32 - 1)
    (hname : tables.toLowerCase item.path ∉ p.names) (htotal : p.total + item.bytes.length ≤ bundleMaxBytes) :
    addEntry tables zlib zip last start p = .ok (p.past tables zlib deflateRaw offset [item]) := by
  have hlength := length_localRecord zlib deflateRaw item
  have hmax : bundleMaxBytes = 2 ^ 26 := rfl
  have hpacked : (item.packed deflateRaw).length < 2 ^ 32 - 1 := by omega
  have hbytes : item.bytes.length < 2 ^ 32 - 1 := by omega
  have hdata : subarray zip (offset + item.dataStart) (offset + item.dataStart + (item.packed deflateRaw).length) =
      item.packed deflateRaw := by
    unfold Item.localRecord at hlocal
    have hright := hlocal.right
    rw [length_localHeader] at hright
    have hafter := hright.right.right.slice
    unfold Item.dataStart
    simp only [Nat.add_assoc] at hafter ⊢
    exact hafter
  unfold addEntry
  refine bind_eq_ok.mpr ⟨_, readEntry_encoded h hcentral hlast hpacked hbytes (by omega), ?_⟩
  refine bind_eq_ok.mpr ⟨(), refuseIf_eq_ok.mpr (decide_eq_false hname), ?_⟩
  refine bind_eq_ok.mpr ⟨(), refuseIf_eq_ok.mpr h.mode.2, ?_⟩
  refine bind_eq_ok.mpr ⟨_, readLocal_encoded h hlocal hstart (by omega) (by omega), ?_⟩
  refine bind_eq_ok.mpr ⟨(), refuseIf_eq_ok.mpr ?_, ?_⟩
  · unfold Item.central
    simp only [or_eq_false_iff, decide_eq_false_iff_not]
    omega
  · rw [hdata]
    refine bind_eq_ok.mpr ⟨_, unpack_encoded h hinflate, congrArg Except.ok ?_⟩
    unfold Progress.past centrals rangesOf totalOf filesOf Item.range Item.central
    cases hdirectory : item.directory <;> simp [hdirectory, centrals, rangesOf]

theorem addEntries_encoded (hitems : ∀ item ∈ items, Packable item)
    (hinflate : Inflates zlib deflateRaw) (hlocals : At zip offset (locals zlib deflateRaw items))
    (hcentrals : At zip p.cursor (centrals zlib deflateRaw offset items))
    (hstart : offset + (locals zlib deflateRaw items).length ≤ start)
    (hlast : p.cursor + (centrals zlib deflateRaw offset items).length ≤ last) (hsize : start < 2 ^ 32 - 1)
    (hnames : (p.names ++ items.map fun item => tables.toLowerCase item.path).Nodup)
    (htotal : p.total + totalOf items ≤ bundleMaxBytes) :
    addEntries tables zlib zip last start items.length p = .ok (p.past tables zlib deflateRaw offset items) := by
  induction items generalizing offset p with
  | nil => simp [Progress.past, centrals, totalOf, filesOf, rangesOf, addEntries]
  | cons item items ih =>
    have hsum : totalOf (item :: items) = item.bytes.length + totalOf items := by simp [totalOf]
    have hlocalsCons : locals zlib deflateRaw (item :: items) =
        item.localRecord zlib deflateRaw ++ locals zlib deflateRaw items := flatMap_cons
    rw [hlocalsCons] at hlocals hstart
    rw [centrals] at hcentrals hlast
    rw [length_append] at hstart hlast
    have hname : tables.toLowerCase item.path ∉ p.names := by
      intro hmem
      exact (nodup_append.mp hnames).2.2 _ hmem _ mem_cons_self rfl
    have hfirst : addEntry tables zlib zip last start p = .ok (p.past tables zlib deflateRaw offset [item]) :=
      addEntry_encoded (hitems item mem_cons_self) hinflate hlocals.left hcentrals.left (by omega) (by omega) hsize
        hname (by omega)
    have hcursor : (p.past tables zlib deflateRaw offset [item]).cursor =
        p.cursor + (item.centralRecord zlib deflateRaw offset).length := by simp [Progress.past, centrals]
    have htotalFirst : (p.past tables zlib deflateRaw offset [item]).total = p.total + item.bytes.length := by
      simp [Progress.past, totalOf]
    rw [length_cons, addEntries, ← Progress.past_cons]
    refine bind_eq_ok.mpr ⟨_, hfirst, ih ?_ hlocals.right ?_ ?_ ?_ ?_ ?_⟩
    · exact fun other hother => hitems other (mem_cons_of_mem _ hother)
    · rw [hcursor]
      exact hcentrals.right
    · omega
    · omega
    · simpa [Progress.past] using hnames
    · omega

/-! ### Ranges and the end record -/

variable (zlib deflateRaw) in
theorem pairwise_rangesOf (offset : ℕ) (items : List Item) :
    (∀ range ∈ rangesOf zlib deflateRaw offset items, offset ≤ range.1) ∧
      (rangesOf zlib deflateRaw offset items).Pairwise fun a b => a.1 ≤ a.2 ∧ a.2 ≤ b.1 := by
  induction items generalizing offset with
  | nil => exact ⟨forall_mem_nil _, .nil⟩
  | cons item items ih =>
    have hlength := length_localRecord zlib deflateRaw item
    obtain ⟨hbounds, hpairwise⟩ := ih (offset + (item.localRecord zlib deflateRaw).length)
    refine ⟨?_, pairwise_cons.mpr ⟨fun range hrange => ?_, hpairwise⟩⟩
    · intro range hrange
      obtain rfl | hrange := mem_cons.mp hrange
      · exact Nat.le_refl _
      · have hbound := hbounds range hrange
        omega
    · have hbound := hbounds range hrange
      unfold Item.range
      omega

theorem not_overlaps_of_pairwise {ranges : List (ℕ × ℕ)}
    (h : ranges.Pairwise fun a b => a.1 ≤ a.2 ∧ a.2 ≤ b.1) :
    overlaps ranges = false := by
  induction ranges with
  | nil => rfl
  | cons a ranges ih =>
    obtain ⟨hfirst, hrest⟩ := pairwise_cons.mp h
    cases ranges with
    | nil => rfl
    | cons b rest =>
      have hab := (hfirst b mem_cons_self).2
      rw [overlaps, ih hrest, decide_eq_false (by omega)]
      rfl

theorem not_overlaps_rangesOf (items : List Item) :
    overlaps ((rangesOf zlib deflateRaw 0 items).mergeSort fun a b => a.1 ≤ b.1) = false := by
  have hpairwise := (pairwise_rangesOf zlib deflateRaw 0 items).2
  have hsorted : (rangesOf zlib deflateRaw 0 items).Pairwise fun a b => decide (a.1 ≤ b.1) :=
    hpairwise.imp fun hab => decide_eq_true (Nat.le_trans hab.1 hab.2)
  rw [mergeSort_of_pairwise hsorted]
  exact not_overlaps_of_pairwise hpairwise

theorem length_endRecord (count size start : ℕ) : (endRecord count size start).length = 22 := rfl

theorem readEnd_encoded {count size position : ℕ}
    (hat : At zip position (endRecord count size start)) (hlength : zip.length = position + 22)
    (hcount : count ≤ 10000) (hsize : size < 2 ^ 32) (hstart : start < 2 ^ 32)
    (hposition : start + size = position) : readEnd zip = .ok ⟨position, count, size, start⟩ := by
  unfold endRecord at hat
  simp only [append_assoc] at hat
  have h4 := hat.skip32
  have h8 := h4.skip16.skip16
  have h12 := h8.skip16.skip16
  have hsignature : readUInt32LE zip position = .ok endSignature := hat.uint32 (by decide)
  have hdisk : readUInt16LE zip (position + 4) = .ok 0 := h4.uint16 (by decide)
  have hfirst : readUInt16LE zip (position + 6) = .ok 0 := h4.skip16.uint16 (by decide)
  have hdiskCount : readUInt16LE zip (position + 8) = .ok count := h8.uint16 (by omega)
  have htotal : readUInt16LE zip (position + 10) = .ok count := h8.skip16.uint16 (by omega)
  have hsizeAt : readUInt32LE zip (position + 12) = .ok size := h12.uint32 hsize
  have hstartAt : readUInt32LE zip (position + 16) = .ok start := h12.skip32.uint32 hstart
  have hlast : At zip (position + 20) (le16 0 ++ []) := by
    rw [append_nil]
    exact h12.skip32.skip32
  have hcomment : readUInt16LE zip (position + 20) = .ok 0 := hlast.uint16 (by decide)
  have hfound : findEnd zip (zip.length - 22 - (zip.length - 65557) + 1) (zip.length - 22) = .ok (some position) := by
    have hfrom : zip.length - 22 = position := by omega
    rw [findEnd, hfrom]
    refine bind_eq_ok.mpr ⟨_, hsignature, ?_⟩
    rw [if_pos rfl]
    refine bind_eq_ok.mpr ⟨_, hcomment, ?_⟩
    rw [if_pos (by omega)]
  unfold readEnd
  refine bind_eq_ok.mpr ⟨_, hfound, ?_⟩
  refine bind_eq_ok.mpr ⟨_, hdisk,
    bind_eq_ok.mpr ⟨_, hfirst, bind_eq_ok.mpr ⟨(), refuseIf_eq_ok.mpr (by decide), ?_⟩⟩⟩
  refine bind_eq_ok.mpr ⟨_, htotal, bind_eq_ok.mpr ⟨_, hsizeAt, bind_eq_ok.mpr ⟨_, hstartAt, ?_⟩⟩⟩
  refine bind_eq_ok.mpr ⟨_, hdiskCount, bind_eq_ok.mpr ⟨(), refuseIf_eq_ok.mpr ?_, rfl⟩⟩
  simp [hposition, hcount]

/-! ### Round trip -/

theorem totalOf_eq (hitems : ∀ item ∈ items, Packable item) : totalOf items = totalBytes (filesOf items) := by
  induction items with
  | nil => rfl
  | cons item items ih =>
    have hrest := ih fun other hother => hitems other (mem_cons_of_mem _ hother)
    have hitem := hitems item mem_cons_self
    unfold totalOf totalBytes filesOf at hrest ⊢
    cases hdirectory : item.directory with
    | true => simp [hdirectory, hitem.empty hdirectory, hrest]
    | false => simp [hdirectory, hrest]

theorem readBundleZip_encode (hinflate : Inflates zlib deflateRaw) (hitems : ∀ item ∈ items, Packable item)
    (hvalid : Valid tables (filesOf items)) (hcount : items.length ≤ 10000)
    (hnames : (items.map fun item => tables.toLowerCase item.path).Nodup)
    (hsize : (encode zlib deflateRaw items).length ≤ bundleMaxBytes) :
    readBundleZip tables zlib (encode zlib deflateRaw items) = .ok (filesOf items) := by
  have hmax : bundleMaxBytes = 2 ^ 26 := rfl
  have hlength : (encode zlib deflateRaw items).length =
      (locals zlib deflateRaw items).length + ((centrals zlib deflateRaw 0 items).length + 22) := by
    unfold encode
    rw [length_append, length_append, length_endRecord]
  have hat : At (encode zlib deflateRaw items) 0 (locals zlib deflateRaw items ++ (centrals zlib deflateRaw 0 items ++
      endRecord items.length (centrals zlib deflateRaw 0 items).length (locals zlib deflateRaw items).length)) :=
    prefix_refl _
  have hcentrals := hat.right
  rw [Nat.zero_add] at hcentrals
  have hend := readEnd_encoded hcentrals.right (by omega) hcount (by omega) (by omega) rfl
  have htotal := totalOf_eq hitems
  have hvalidTotal := hvalid.total
  have hentries : addEntries tables zlib (encode zlib deflateRaw items)
      ((locals zlib deflateRaw items).length + (centrals zlib deflateRaw 0 items).length)
        (locals zlib deflateRaw items).length
      items.length ⟨(locals zlib deflateRaw items).length, 0, [], [], []⟩ =
        .ok (Progress.past tables zlib deflateRaw ⟨(locals zlib deflateRaw items).length, 0, [], [], []⟩ 0 items) :=
    addEntries_encoded hitems hinflate hat.left hcentrals.left (by omega) (Nat.le_refl _) (by omega)
      (by simpa using hnames)
      (by dsimp only; omega)
  unfold readBundleZip
  refine bind_eq_ok.mpr ⟨(), refuseIf_eq_ok.mpr ?_, ?_⟩
  · rw [or_eq_false_iff, decide_eq_false_iff_not, decide_eq_false_iff_not]
    omega
  refine bind_eq_ok.mpr ⟨_, hend,
    bind_eq_ok.mpr ⟨_, hentries, bind_eq_ok.mpr ⟨(), refuseIf_eq_ok.mpr ?_, ?_⟩⟩⟩
  · rw [or_eq_false_iff]
    refine ⟨by simp [Progress.past], ?_⟩
    simpa [Progress.past] using not_overlaps_rangesOf items
  · unfold Progress.past
    rw [nil_append]
    exact bind_eq_ok.mpr ⟨(), validateBundleFiles_eq_ok.mpr hvalid, rfl⟩

end

theorem bundleZip_read (tables : CaseTables) (zlib : Zlib) : (∀ zip, Avoids .outOfRange (readBundleZip tables zlib zip) ∧
      ∀ files, readBundleZip tables zlib zip = .ok files → Accepted tables zlib zip files) ∧
    ∀ deflateRaw, Inflates zlib deflateRaw → ∀ items : List Item, (∀ item ∈ items, Packable item) →
      Valid tables (filesOf items) → items.length ≤ 10000 → (items.map fun item => tables.toLowerCase item.path).Nodup →
      (encode zlib deflateRaw items).length ≤ bundleMaxBytes →
      readBundleZip tables zlib (encode zlib deflateRaw items) = .ok (filesOf items) := by
  refine ⟨fun zip => ⟨readBundleZip_avoids zip, fun files h => readBundleZip_accepted h⟩, ?_⟩
  intro deflateRaw hinflate items hitems hvalid hcount hnames hsize
  exact readBundleZip_encode hinflate hitems hvalid hcount hnames hsize

def asciiTables : CaseTables where
  lower c := [c.toLower]
  isCased := Char.isAlpha
  isIgnorable c := c = '.' || c = ':'
  lower_slash := by decide
  slash_not_cased := by decide
  slash_not_ignorable := by decide

/-- Deflates `a`; anything else is put behind a mark. -/
def deflateA (bytes : Bytes) : Bytes := if bytes = [0x61] then [0x4b, 0x04, 0x00] else 0x01 :: bytes

def zlibA : Zlib where
  inflateRawSync packed limit :=
    let bytes := if packed = [0x4b, 0x04, 0x00] then [0x61] else packed.drop 1
    if bytes.length ≤ limit then some bytes else none
  crc32 bytes := if bytes = [0x61] then 0xe8b7be43 else 0

theorem inflates_zlibA : Inflates zlibA deflateA := by
  intro bytes limit _ hlimit
  unfold zlibA deflateA
  by_cases ha : bytes = [0x61]
  · rw [ha, length_singleton] at hlimit
    simp [ha, Nat.pos_iff_ne_zero.mp hlimit]
  · have hmark : (0x01 : UInt8) :: bytes ≠ [0x4b, 0x04, 0x00] := by
      intro heq
      have hfirst := (cons.inj heq).1
      revert hfirst
      decide
    simpa [ha, hmark] using hlimit

def plainPacking : Packing := ⟨0x800, false, false, 0o100644, [], [], [], 0x031e, 20, 0, 33, 0, 0⟩

/-- A directory, and in it a file that is deflated and followed by a descriptor. -/
def twoItems : List Item :=
  [⟨lit "d", true, [], { plainPacking with mode := 0o040755 }⟩,
    ⟨lit "d/a.txt", false, [0x61], { plainPacking with flags := 0x808, deflated := true, signedDescriptor := true }⟩]

theorem packable_twoItems : ∀ item ∈ twoItems, Packable item := by
  intro item hitem
  simp only [twoItems, mem_cons, not_mem_nil, or_false] at hitem
  obtain rfl | rfl := hitem
  · exact ⟨by decide, by decide, by decide, by decide, by decide, by decide, by decide, by decide, by decide⟩
  · exact ⟨by decide, by decide, by decide, by decide, by decide, by decide, by decide, by decide, by decide⟩

theorem bundleZip_read_twoItems :
    readBundleZip asciiTables zlibA (encode zlibA deflateA twoItems) = .ok [⟨lit "d/a.txt", [0x61], false⟩] :=
  (bundleZip_read asciiTables zlibA).2 deflateA inflates_zlibA twoItems packable_twoItems
    (validateBundleFiles_eq_ok.mp (by decide)) (by decide)
    (by decide) (by decide +kernel)

/-- A file that is as large as a bundle may be. -/
def largeItem : Item := ⟨lit "a", false, List.replicate bundleMaxBytes 0, plainPacking⟩

theorem large_bundle_refused : Packable largeItem ∧ Valid asciiTables (filesOf [largeItem]) ∧ ∀ zlib deflateRaw,
    readBundleZip asciiTables zlib (encode zlib deflateRaw [largeItem]) = .error invalid := by
  have hmax : bundleMaxBytes = 2 ^ 26 := rfl
  refine ⟨?_, ?_, fun zlib deflateRaw => ?_⟩
  · exact ⟨by decide, by decide, by decide, by decide, by decide, by decide, by decide, by decide, nofun⟩
  · have hfiles : filesOf [largeItem] = [⟨lit "a", List.replicate bundleMaxBytes 0, false⟩] := rfl
    rw [hfiles]
    refine ⟨cons_ne_nil _ _, by decide, ?_, pairwise_singleton _ _, ?_, ?_⟩
    · intro file hfile
      rw [mem_singleton.mp hfile]
      decide
    · simp [totalBytes]
    · intro file hfile other hother
      rw [mem_singleton.mp hfile, mem_singleton.mp hother]
      decide
  · have hpacked : (largeItem.packed deflateRaw).length = bundleMaxBytes := length_replicate
    have hlocal := length_localRecord zlib deflateRaw largeItem
    have hlocals : locals zlib deflateRaw [largeItem] = largeItem.localRecord zlib deflateRaw := flatMap_singleton ..
    have hlarge : bundleMaxBytes < (encode zlib deflateRaw [largeItem]).length := by
      unfold encode
      rw [length_append, hlocals]
      unfold Item.dataStart at hlocal
      omega
    unfold readBundleZip
    rw [decide_eq_true hlarge, Bool.or_true]
    rfl

end ArdurBot.Bundles
