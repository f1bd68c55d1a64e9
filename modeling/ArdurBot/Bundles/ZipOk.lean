import Mathlib.Data.List.Pairwise
import ArdurBot.Bundles.Zip

/-!
# What a ZIP archive is read to

Whatever the bytes are, no read is outside the archive, and the files that are returned are those of
a bundle: each is taken from a range of its own before the central directory, and is what its header
there declares.
-/

namespace ArdurBot.Bundles

open List Utf16 Checked

variable {zip : Bytes} {offset : ℕ}

theorem exists_readUInt16LE (h : offset + 2 ≤ zip.length) : ∃ n, readUInt16LE zip offset = .ok n := by
  have hlength : (zip.drop offset).length = zip.length - offset := length_drop
  unfold readUInt16LE
  match hdrop : zip.drop offset with
  | [] =>
    simp only [hdrop, length_nil] at hlength
    omega
  | [a] =>
    simp only [hdrop, length_singleton] at hlength
    omega
  | a :: b :: rest => exact ⟨_, rfl⟩

theorem exists_readUInt32LE (h : offset + 4 ≤ zip.length) : ∃ n, readUInt32LE zip offset = .ok n := by
  have hlength : (zip.drop offset).length = zip.length - offset := length_drop
  unfold readUInt32LE
  match hdrop : zip.drop offset with
  | [] | [_] | [_, _] | [_, _, _] =>
    simp only [hdrop, length_cons, length_nil] at hlength
    omega
  | a :: b :: c :: d :: rest => exact ⟨_, rfl⟩

theorem avoids_readUInt16LE (h : offset + 2 ≤ zip.length) : Avoids .outOfRange (readUInt16LE zip offset) := by
  obtain ⟨n, hn⟩ := exists_readUInt16LE h
  exact .of_eq_ok hn

theorem avoids_readUInt32LE (h : offset + 4 ≤ zip.length) : Avoids .outOfRange (readUInt32LE zip offset) := by
  obtain ⟨n, hn⟩ := exists_readUInt32LE h
  exact .of_eq_ok hn

theorem invalid_ne_outOfRange : invalid ≠ .outOfRange := by decide

variable {count cursor last start : ℕ} {entry : Entry} {packed : Bytes} {p p' : Progress}
  {ranges : List (ℕ × ℕ)}

theorem avoids_findEnd (h : offset + 22 ≤ zip.length) : Avoids .outOfRange (findEnd zip count offset) := by
  induction count generalizing offset with
  | zero => exact .ok none
  | succ count ih =>
    rw [findEnd]
    refine (avoids_readUInt32LE (by omega)).bind fun signature _ => ?_
    split
    · refine (avoids_readUInt16LE (by omega)).bind fun comment _ => ?_
      split
      · exact .ok _
      · exact ih (by omega)
    · exact ih (by omega)

theorem findEnd_inside {position : ℕ} (h : findEnd zip count offset = .ok (some position)) :
    position + 22 ≤ zip.length := by
  induction count generalizing offset with
  | zero => cases h
  | succ count ih =>
    rw [findEnd] at h
    obtain ⟨signature, -, h⟩ := bind_eq_ok.mp h
    split at h
    · obtain ⟨comment, -, h⟩ := bind_eq_ok.mp h
      split at h
      · next hlength =>
        cases h
        omega
      · exact ih h
    · exact ih h

theorem avoids_readEnd (h : 22 ≤ zip.length) : Avoids .outOfRange (readEnd zip) := by
  unfold readEnd
  refine (avoids_findEnd (by omega)).bind fun found hfound => ?_
  rcases found with _ | position
  · exact .error invalid_ne_outOfRange
  have hinside := findEnd_inside hfound
  refine (avoids_readUInt16LE (by omega)).bind fun _ _ => (avoids_readUInt16LE (by omega)).bind fun _ _ => ?_
  refine (Avoids.refuseIf invalid_ne_outOfRange).bind fun _ _ => ?_
  refine (avoids_readUInt16LE (by omega)).bind fun _ _ => (avoids_readUInt32LE (by omega)).bind fun _ _ => ?_
  refine (avoids_readUInt32LE (by omega)).bind fun _ _ => (avoids_readUInt16LE (by omega)).bind fun _ _ => ?_
  exact (Avoids.refuseIf invalid_ne_outOfRange).bind fun _ _ => .ok _

/-- The directory is up to the end record, which is inside, and has as many entries as it may
have. -/
structure EndOk (zip : Bytes) (e : EndRecord) : Prop where
  inside : e.position + 22 ≤ zip.length
  order : e.start ≤ e.position
  count : e.count ≤ 10000

theorem readEnd_ok {e : EndRecord} (h : readEnd zip = .ok e) : EndOk zip e := by
  unfold readEnd at h
  obtain ⟨found, hfound, h⟩ := bind_eq_ok.mp h
  rcases found with _ | position
  · cases h
  simp only [bind_eq_ok] at h
  obtain ⟨_, -, _, -, _, -, count, -, size, -, start, -, _, -, _, hchecked, h⟩ := h
  rw [refuseIf_eq_ok] at hchecked
  simp only [Bool.or_eq_false_iff, decide_eq_false_iff_not, not_not] at hchecked
  obtain ⟨⟨-, hcount⟩, hend⟩ := hchecked
  cases h
  exact ⟨findEnd_inside hfound, by dsimp only; omega, by dsimp only; omega⟩

theorem avoids_readCentral (h : cursor + 46 ≤ zip.length) : Avoids .outOfRange (readCentral zip cursor) := by
  unfold readCentral
  refine (avoids_readUInt16LE (by omega)).bind fun _ _ => (avoids_readUInt16LE (by omega)).bind fun _ _ => ?_
  refine (avoids_readUInt32LE (by omega)).bind fun _ _ => (avoids_readUInt32LE (by omega)).bind fun _ _ => ?_
  refine (avoids_readUInt32LE (by omega)).bind fun _ _ => (avoids_readUInt16LE (by omega)).bind fun _ _ => ?_
  refine (avoids_readUInt16LE (by omega)).bind fun _ _ => (avoids_readUInt16LE (by omega)).bind fun _ _ => ?_
  refine (avoids_readUInt32LE (by omega)).bind fun _ _ => (avoids_readUInt32LE (by omega)).bind fun _ _ => ?_
  exact (avoids_readUInt16LE (by omega)).bind fun _ _ => .ok _

theorem avoids_readEntry (h : last ≤ zip.length) : Avoids .outOfRange (readEntry zip last cursor) := by
  unfold readEntry
  refine (Avoids.refuseIf invalid_ne_outOfRange).bind fun _ hinside => ?_
  rw [refuseIf_eq_ok, decide_eq_false_iff_not] at hinside
  refine (avoids_readUInt32LE (by omega)).bind fun _ _ => ?_
  refine (Avoids.refuseIf invalid_ne_outOfRange).bind fun _ _ => ?_
  refine (avoids_readCentral (by omega)).bind fun c _ => ?_
  refine (Avoids.refuseIf invalid_ne_outOfRange).bind fun _ _ => ?_
  refine (Avoids.refuseIf invalid_ne_outOfRange).bind fun _ _ => ?_
  dsimp only
  split
  · exact .error invalid_ne_outOfRange
  · exact bundlePath_avoids.bind fun _ _ => .ok _

theorem avoids_readLocal (h : start ≤ zip.length) : Avoids .outOfRange (readLocal zip start entry) := by
  unfold readLocal
  refine (Avoids.refuseIf invalid_ne_outOfRange).bind fun _ hinside => ?_
  rw [refuseIf_eq_ok, decide_eq_false_iff_not] at hinside
  refine (avoids_readUInt32LE (by omega)).bind fun _ _ =>
    (Avoids.refuseIf invalid_ne_outOfRange).bind fun _ _ => ?_
  refine (avoids_readUInt16LE (by omega)).bind fun _ _ =>
    (Avoids.refuseIf invalid_ne_outOfRange).bind fun _ _ => ?_
  refine (avoids_readUInt16LE (by omega)).bind fun _ _ =>
    (Avoids.refuseIf invalid_ne_outOfRange).bind fun _ _ => ?_
  refine (avoids_readUInt16LE (by omega)).bind fun _ _ => (avoids_readUInt16LE (by omega)).bind fun _ _ => ?_
  refine (Avoids.refuseIf invalid_ne_outOfRange).bind fun _ _ => ?_
  split
  · refine (avoids_readUInt32LE (by omega)).bind fun _ _ => (avoids_readUInt32LE (by omega)).bind fun _ _ => ?_
    refine (avoids_readUInt32LE (by omega)).bind fun _ _ => ?_
    exact (Avoids.refuseIf invalid_ne_outOfRange).bind fun _ _ => .ok _
  · exact .ok _

theorem avoids_unpack {zlib : Zlib} : Avoids .outOfRange (unpack zlib entry packed) := by
  unfold unpack
  split
  · exact .error invalid_ne_outOfRange
  · exact (Avoids.refuseIf invalid_ne_outOfRange).bind fun _ _ => .ok _

variable {tables : CaseTables} {zlib : Zlib}

theorem avoids_addEntry (hlast : last ≤ zip.length) (hstart : start ≤ zip.length) :
    Avoids .outOfRange (addEntry tables zlib zip last start p) := by
  unfold addEntry
  refine (avoids_readEntry hlast).bind fun entry _ => ?_
  refine (Avoids.refuseIf invalid_ne_outOfRange).bind fun _ _ =>
    (Avoids.refuseIf (by decide)).bind fun _ _ => ?_
  refine (avoids_readLocal hstart).bind fun range _ => (Avoids.refuseIf (by decide)).bind fun _ _ => ?_
  exact avoids_unpack.bind fun _ _ => .ok _

theorem avoids_addEntries (hlast : last ≤ zip.length) (hstart : start ≤ zip.length) :
    Avoids .outOfRange (addEntries tables zlib zip last start count p) := by
  induction count generalizing p with
  | zero => exact .ok p
  | succ count ih =>
    rw [addEntries]
    exact (avoids_addEntry hlast hstart).bind fun p' _ => ih

theorem readBundleZip_avoids (zip : Bytes) : Avoids .outOfRange (readBundleZip tables zlib zip) := by
  unfold readBundleZip
  refine (Avoids.refuseIf invalid_ne_outOfRange).bind fun _ hsize => ?_
  rw [refuseIf_eq_ok, Bool.or_eq_false_iff, decide_eq_false_iff_not] at hsize
  refine (avoids_readEnd (by omega)).bind fun e he => ?_
  obtain ⟨hinside, horder, -⟩ := readEnd_ok he
  refine (avoids_addEntries (by omega) (by omega)).bind fun p _ => ?_
  refine (Avoids.refuseIf invalid_ne_outOfRange).bind fun _ _ => ?_
  exact (validateBundleFiles_avoids p.files).bind fun _ _ => .ok _

/-- The header of a file in the central directory, and the ranges of its entry and of its packed
bytes. -/
structure Source where
  header : ℕ
  offset : ℕ
  dataStart : ℕ
  dataEnd : ℕ

def Source.range (source : Source) : ℕ × ℕ := (source.offset, source.dataEnd)

def Disjoint (a b : ℕ × ℕ) : Prop := a.2 ≤ b.1 ∨ b.2 ≤ a.1

/-- A file is what its header, between `start` and `last`, declares, and is taken from before
them. -/
structure Taken (zlib : Zlib) (zip : Bytes) (start last : ℕ) (file : File) (source : Source) :
  Prop where
  header : start ≤ source.header ∧ source.header + 46 ≤ last
  order : source.offset < source.dataStart ∧ source.dataStart ≤ source.dataEnd ∧ source.dataEnd ≤ start
  length : readUInt32LE zip (source.header + 24) = .ok file.bytes.length
  crc : readUInt32LE zip (source.header + 16) = .ok (zlib.crc32 file.bytes).toNat
  content : file.bytes = subarray zip source.dataStart source.dataEnd ∨
    ∃ limit, zlib.inflateRawSync (subarray zip source.dataStart source.dataEnd) limit = some file.bytes

structure Accepted (tables : CaseTables) (zlib : Zlib) (zip : Bytes) (files : List File) :
  Prop where
  nonempty : files ≠ []
  count : files.length ≤ 10000
  safe : ∀ file ∈ files, SafePath file.path
  distinct : files.Pairwise fun a b => tables.toLowerCase a.path ≠ tables.toLowerCase b.path
  apart : ∀ a ∈ files, ∀ b ∈ files, ∀ rest, tables.toLowerCase b.path ≠ tables.toLowerCase a.path ++
    solidus :: rest
  total : totalBytes files ≤ 64 * 1024 * 1024
  sources : ∃ start last sources, start ≤ last ∧ last ≤ zip.length ∧
    List.Forall₂ (Taken zlib zip start last) files sources ∧
    sources.Pairwise fun a b => Disjoint a.range b.range

theorem Accepted.path_apart {files : List File} (h : Accepted tables zlib zip files) :
    ∀ a ∈ files, ∀ b ∈ files, ∀ rest, b.path ≠ a.path ++ solidus :: rest := by
  intro a ha b hb rest heq
  apply h.apart a ha b hb (tables.toLowerCase rest)
  rw [heq, CaseTables.toLowerCase_append]

theorem readCentral_ok {c : Central} (h : readCentral zip cursor = .ok c) :
    readUInt32LE zip (cursor + 16) = .ok c.crc ∧ readUInt32LE zip (cursor + 24) = .ok c.length := by
  unfold readCentral at h
  simp only [bind_eq_ok] at h
  obtain ⟨_, -, _, -, crc, hcrc, _, -, length, hlength, _, -, _, -, _, -, _, -, _, -, _, -, h⟩ := h
  cases h
  exact ⟨hcrc, hlength⟩

theorem readEntry_ok (h : readEntry zip last cursor = .ok entry) :
    cursor + 46 ≤ last ∧ readCentral zip cursor = .ok entry.central ∧ isUnsafe entry.path = false ∧
      cursor ≤ entry.next := by
  unfold readEntry at h
  simp only [bind_eq_ok] at h
  obtain ⟨_, hinside, _, -, _, -, c, hcentral, _, -, _, -, h⟩ := h
  rw [refuseIf_eq_ok, decide_eq_false_iff_not] at hinside
  split at h
  · cases h
  · obtain ⟨path, hpath, h⟩ := bind_eq_ok.mp h
    cases h
    refine ⟨by omega, hcentral, (bundlePath_eq_ok.mp hpath).1, ?_⟩
    dsimp only
    omega

theorem readLocal_ok {dataStart dataEnd : ℕ} (h : readLocal zip start entry = .ok (dataStart, dataEnd)) :
    entry.central.offset < dataStart ∧ dataStart ≤ dataEnd ∧ dataEnd ≤ start := by
  unfold readLocal at h
  simp only [bind_eq_ok] at h
  obtain ⟨_, -, _, -, _, -, _, -, _, -, _, -, _, -, _, -, _, -, _, hfits, h⟩ := h
  rw [refuseIf_eq_ok, Bool.or_eq_false_iff, decide_eq_false_iff_not] at hfits
  have hrange : ∀ {a b : ℕ}, (Except.ok (a, b) : Except Failure (ℕ × ℕ)) = .ok (dataStart, dataEnd) →
      a = dataStart ∧ b = dataEnd := fun heq => Prod.mk.inj (Except.ok.inj heq)
  have hshape : ∀ {a b : ℕ}, a = dataStart ∧ b = dataEnd → entry.central.offset < a → a ≤ b → b ≤ start →
      entry.central.offset < dataStart ∧ dataStart ≤ dataEnd ∧ dataEnd ≤ start := by
    rintro a b ⟨rfl, rfl⟩ hfirst horder hlast
    exact ⟨hfirst, horder, hlast⟩
  split at h
  · obtain ⟨_, -, h⟩ := bind_eq_ok.mp h
    simp only [bind_eq_ok] at h
    obtain ⟨_, -, _, -, _, -, h⟩ := h
    exact hshape (hrange h) (by omega) (by omega) (by omega)
  · exact hshape (hrange h) (by omega) (by omega) (by omega)

theorem unpack_ok {bytes : Bytes} (h : unpack zlib entry packed = .ok bytes) :
    bytes.length = entry.central.length ∧ (zlib.crc32 bytes).toNat = entry.central.crc ∧
      (bytes = packed ∨ ∃ limit, zlib.inflateRawSync packed limit = some bytes) := by
  unfold unpack at h
  split at h
  · cases h
  · next unpacked hunpacked =>
    obtain ⟨_, hchecked, h⟩ := bind_eq_ok.mp h
    rw [refuseIf_eq_ok] at hchecked
    simp only [Bool.or_eq_false_iff, decide_eq_false_iff_not, not_not] at hchecked
    obtain ⟨⟨hlength, hcrc⟩, -⟩ := hchecked
    cases h
    refine ⟨hlength, hcrc, ?_⟩
    split at hunpacked
    · exact .inl (Option.some.inj hunpacked).symm
    · exact .inr ⟨_, hunpacked⟩

/-- The files that were read have safe paths, and ranges of their own among those of the entries. -/
structure ProgressOk (zlib : Zlib) (zip : Bytes) (start last : ℕ) (p : Progress) : Prop where
  cursor : start ≤ p.cursor
  safe : ∀ file ∈ p.files, isUnsafe file.path = false
  sources : ∃ sources, List.Forall₂ (Taken zlib zip start last) p.files sources ∧
    List.Sublist (sources.map Source.range) p.ranges

theorem addEntry_ok (hp : ProgressOk zlib zip start last p)
    (h : addEntry tables zlib zip last start p = .ok p') :
    ProgressOk zlib zip start last p' := by
  unfold addEntry at h
  simp only [bind_eq_ok] at h
  obtain ⟨entry, hentry, _, -, _, -, ⟨dataStart, dataEnd⟩, hrange, _, -, bytes, hbytes, h⟩ := h
  cases h
  obtain ⟨hinside, hcentral, hsafe, hnext⟩ := readEntry_ok hentry
  obtain ⟨hcrc, hlength⟩ := readCentral_ok hcentral
  obtain ⟨hbytesLength, hbytesCrc, hcontent⟩ := unpack_ok hbytes
  obtain ⟨sources, htaken, hsublist⟩ := hp.sources
  refine ⟨Nat.le_trans hp.cursor hnext, ?_, ?_⟩
  · dsimp only
    split
    · exact hp.safe
    · intro file hfile
      obtain hfile | hnew := mem_append.mp hfile
      · exact hp.safe file hfile
      · rw [mem_singleton.mp hnew]
        exact hsafe
  · dsimp only
    split
    · exact ⟨sources, htaken, hsublist.trans (sublist_append_left _ _)⟩
    · let source : Source := ⟨p.cursor, entry.central.offset, dataStart, dataEnd⟩
      refine ⟨sources ++ [source], rel_append htaken (.cons ?_ .nil), ?_⟩
      · refine ⟨⟨hp.cursor, hinside⟩, readLocal_ok hrange, ?_, ?_, hcontent⟩
        · rw [hlength, hbytesLength]
        · rw [hcrc, hbytesCrc]
      · rw [map_append]
        exact hsublist.append (List.Sublist.refl _)

theorem addEntries_ok (hp : ProgressOk zlib zip start last p)
    (h : addEntries tables zlib zip last start count p = .ok p') :
    ProgressOk zlib zip start last p' := by
  induction count generalizing p with
  | zero =>
    cases h
    exact hp
  | succ count ih =>
    rw [addEntries] at h
    obtain ⟨next, hnext, h⟩ := bind_eq_ok.mp h
    exact ih (addEntry_ok hp hnext) h

theorem pairwise_of_not_overlaps (hsorted : ranges.Pairwise fun a b => a.1 ≤ b.1)
    (h : overlaps ranges = false) :
    ranges.Pairwise fun a b => a.2 ≤ b.1 := by
  induction ranges with
  | nil => exact .nil
  | cons a ranges ih =>
    cases ranges with
    | nil => exact pairwise_singleton _ _
    | cons b rest =>
      rw [overlaps, Bool.or_eq_false_iff, decide_eq_false_iff_not] at h
      obtain ⟨hfirst, hrest⟩ := pairwise_cons.mp hsorted
      refine pairwise_cons.mpr ⟨fun c hc => ?_, ih hrest h.2⟩
      obtain rfl | hc := mem_cons.mp hc
      · omega
      · have hbc := (pairwise_cons.mp hrest).1 c hc
        omega

theorem disjoint_of_not_overlaps (h : overlaps (ranges.mergeSort fun a b => a.1 ≤ b.1) = false) :
    ranges.Pairwise Disjoint := by
  have hsorted : (ranges.mergeSort fun a b => a.1 ≤ b.1).Pairwise fun a b => a.1 ≤ b.1 := by
    refine (pairwise_mergeSort ?_ ?_ ranges).imp of_decide_eq_true
    · intro a b c hab hbc
      exact decide_eq_true (Nat.le_trans (of_decide_eq_true hab) (of_decide_eq_true hbc))
    · intro a b
      simpa using Nat.le_total a.1 b.1
  have hordered := (pairwise_of_not_overlaps hsorted h).imp fun hab => (.inl hab : Disjoint _ _)
  exact ((mergeSort_perm _ _).pairwise_iff Or.symm).mp hordered

/-- **What is returned** is a bundle that the archive declares. -/
theorem readBundleZip_accepted {files : List File} (h : readBundleZip tables zlib zip = .ok files) :
    Accepted tables zlib zip files := by
  unfold readBundleZip at h
  simp only [bind_eq_ok] at h
  obtain ⟨_, -, e, he, p, hp, _, hranges, _, hvalid, h⟩ := h
  cases h
  obtain ⟨hinside, horder, -⟩ := readEnd_ok he
  rw [refuseIf_eq_ok, Bool.or_eq_false_iff] at hranges
  have hvalid := validateBundleFiles_eq_ok.mp hvalid
  have hprogress : ProgressOk zlib zip e.start e.position p :=
    addEntries_ok ⟨Nat.le_refl _, forall_mem_nil _, [], .nil, nil_sublist _⟩ hp
  have hkey : ∀ file ∈ p.files, file.key tables = tables.toLowerCase file.path := by
    intro file hfile
    unfold File.key
    rw [stripDotSlash_safe (hprogress.safe file hfile)]
  obtain ⟨sources, htaken, hsublist⟩ := hprogress.sources
  refine ⟨hvalid.nonempty, hvalid.count, ?_, ?_, ?_, hvalid.total, e.start, e.position, sources,
    horder, by omega, htaken, ?_⟩
  · exact fun file hfile => safePath_of_eq_false (hprogress.safe file hfile)
  · refine (pairwise_map.mp hvalid.distinct).imp_of_mem fun {a b} ha hb hne => ?_
    rwa [hkey a ha, hkey b hb] at hne
  · intro a ha b hb rest heq
    refine hvalid.apart b hb a ha ?_
    rw [hkey a ha, hkey b hb, heq]
    exact mem_ancestors _ _
  · exact pairwise_map.mp ((disjoint_of_not_overlaps hranges.2).sublist hsublist)

end ArdurBot.Bundles
