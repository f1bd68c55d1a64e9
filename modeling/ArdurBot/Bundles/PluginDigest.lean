import Mathlib.Algebra.Order.BigOperators.Group.List
import ArdurBot.Bundles.Pack
import ArdurBot.Lib.Json.Bytes
import ArdurBot.Lib.Json.Read

/-!
# The digest of a plugin

`planPlugin` hashes the entry of the marketplace and each file behind a header, sorted by their
paths in the order of the locale. The stream is read back, so the digest tells entries and files
apart. The order takes texts that are canonically equivalent for equal, so files at two such paths
are hashed in the order of the list.
-/

namespace ArdurBot.Bundles

open List Utf16 Json

/-- How the runtime compares texts. Texts that are not the same may be equal. -/
structure Collation where
  localeCompare : Text → Text → Ordering
  trans : Std.TransCmp localeCompare

attribute [instance] Collation.trans

/-- An entry of a marketplace: its properties that are not undefined. -/
structure MarketplaceEntry where
  properties : Fields
  plain : (JsValue.obj properties).Plain
  named : lit "name" ∈ keys properties

/-- `entry ?? {}` -/
def entryValue : Option MarketplaceEntry → JsValue
  | none => .obj []
  | some entry => .obj entry.properties

/-- `[file.path, file.bytes.byteLength, file.executable ?? false]` -/
def header (file : File) : JsValue :=
  .arr [.str file.path, .num (ofNat file.bytes.length), .bool file.executable]

def framed (file : File) : Bytes := (header file).toBytes ++ file.bytes

section

variable (tables : CaseTables) (c : Collation) (sha256 : Bytes → Text)
  (entry : Option MarketplaceEntry) (files : List File)

def sorted : List File := files.mergeSort fun a b => (c.localeCompare a.path b.path).isLE

def hashed : Bytes := (entryValue entry).toBytes ++ (sorted c files).flatMap framed

/-- The `digest` of `planPlugin`, which does not depend on what the plan reads in the files. -/
def pluginDigest : Text := sha256 (hashed c entry files)

/-- The digest is the same for the same entry and files in any order, and another one for anything
else. -/
def Identifies : Prop :=
  ∀ entry' files', validateBundleFiles tables files' = .ok () →
    (entry' = entry → files'.Perm files → pluginDigest c sha256 entry' files' = pluginDigest c sha256 entry files) ∧
    (entry' ≠ entry ∨ (∃ file, ¬(file ∈ files' ↔ file ∈ files)) →
      pluginDigest c sha256 entry' files' ≠ pluginDigest c sha256 entry files)

/-- No other bytes that may be hashed have the hash of these. -/
def NoCollision : Prop :=
  ∀ entry' files', validateBundleFiles tables files' = .ok () →
    sha256 (hashed c entry' files') = sha256 (hashed c entry files) → hashed c entry' files' = hashed c entry files

end

variable {tables : CaseTables} {c : Collation} {sha256 : Bytes → Text}
  {entry entry' : Option MarketplaceEntry} {files files' : List File} {f g : File} {a b : Bytes}

theorem delimited_entryValue (entry : Option MarketplaceEntry) : (entryValue entry).Delimited := by
  cases entry with
  | none => exact delimited_obj ⟨nodup_nil, trivial⟩
  | some entry => exact delimited_obj entry.plain

theorem entryValue_inj (h : entryValue entry = entryValue entry') : entry = entry' := by
  cases entry with
  | none =>
    cases entry' with
    | none => rfl
    | some entry' => exact absurd (JsValue.obj.inj h ▸ entry'.named) not_mem_nil
  | some entry =>
    rcases entry' with _ | entry'
    · exact absurd (JsValue.obj.inj h ▸ entry.named) not_mem_nil
    cases entry
    cases entry'
    cases JsValue.obj.inj h
    rfl

/-- The length of a buffer is written exactly. -/
def Measured (file : File) : Prop := file.bytes.length < 2 ^ 53

theorem delimited_header (h : Measured f) : (header f).Delimited :=
  delimited_arr ⟨trivial, ⟨_, ofNat_eq h⟩, trivial, trivial⟩

theorem framed_append_inj (hf : Measured f) (hg : Measured g) (h : framed f ++ a = framed g ++ b) :
    f = g ∧ a = b := by
  unfold framed at h
  rw [append_assoc, append_assoc] at h
  obtain ⟨hheader, hbytes⟩ := toBytes_append_inj (delimited_header hf) (delimited_header hg) h
  obtain ⟨path, bytes, executable⟩ := f
  obtain ⟨path', bytes', executable'⟩ := g
  injection hheader with hitems
  injection hitems with hpath hitems
  injection hitems with hsize hitems
  injection hitems with hflag
  obtain rfl := JsValue.str.inj hpath
  obtain rfl := JsValue.bool.inj hflag
  have hlength : some bytes.length = some bytes'.length :=
    (readNat_ofNat hf).symm.trans ((congrArg readNat hsize).trans (readNat_ofNat hg))
  obtain ⟨rfl, rfl⟩ := append_inj hbytes (Option.some.inj hlength)
  exact ⟨rfl, rfl⟩

theorem framed_append_ne_nil (f : File) (a : Bytes) : framed f ++ a ≠ [] := by
  intro h
  have htext : (header f).toJson ≠ [] := cons_ne_nil _ _
  exact toBytes_ne_nil htext (append_eq_nil_iff.mp (append_eq_nil_iff.mp h).1).1

theorem framed_inj (h : ∀ f ∈ files, Measured f) (h' : ∀ f ∈ files', Measured f)
    (hsame : files.flatMap framed = files'.flatMap framed) : files = files' := by
  induction files generalizing files' with
  | nil =>
    cases files' with
    | nil => rfl
    | cons g files' => exact absurd hsame.symm (framed_append_ne_nil g _)
  | cons f files ih =>
    cases files' with
    | nil => exact absurd hsame (framed_append_ne_nil f _)
    | cons g files' =>
      rw [forall_mem_cons] at h h'
      obtain ⟨rfl, hrest⟩ := framed_append_inj h.1 h'.1 hsame
      rw [ih h.2 h'.2 hrest]

theorem Valid.measured (h : Valid tables files) : ∀ f ∈ files, Measured f := by
  intro f hf
  have hsum : f.bytes.length ≤ totalBytes files := le_sum_of_mem (mem_map_of_mem hf)
  have htotal := h.total
  unfold Measured
  unfold bundleMaxBytes at htotal
  omega

theorem Valid.nodup (h : Valid tables files) : files.Nodup := .of_map _ h.distinct

theorem Valid.perm (h : Valid tables files) (hperm : files'.Perm files) : Valid tables files' where
  nonempty := fun hnil => h.nonempty (nil_perm.mp (hnil ▸ hperm))
  count := hperm.length_eq ▸ h.count
  safe := fun file hfile => h.safe file (hperm.mem_iff.mp hfile)
  distinct := (hperm.map _).nodup_iff.mpr h.distinct
  total := (List.Perm.sum_eq (hperm.map fun file => file.bytes.length)).trans_le h.total
  apart := fun file hfile other hother =>
    h.apart file (hperm.mem_iff.mp hfile) other (hperm.mem_iff.mp hother)

theorem sorted_perm (c : Collation) (files : List File) : (sorted c files).Perm files :=
  mergeSort_perm _ _

theorem hashed_inj (h : Valid tables files) (h' : Valid tables files')
    (hsame : hashed c entry' files' = hashed c entry files) :
    entry' = entry ∧ sorted c files' = sorted c files := by
  obtain ⟨hentry, hfiles⟩ := toBytes_append_inj (delimited_entryValue _) (delimited_entryValue _) hsame
  refine ⟨entryValue_inj hentry, framed_inj (fun f hf => ?_) (fun f hf => ?_) hfiles⟩
  · exact h'.measured f ((sorted_perm c files').mem_iff.mp hf)
  · exact h.measured f ((sorted_perm c files).mem_iff.mp hf)

/-- The order of the locale tells the files of the list apart. -/
def Ordered (c : Collation) (files : List File) : Prop :=
  ∀ f ∈ files, ∀ g ∈ files, c.localeCompare f.path g.path = .eq → f = g

theorem le_trans_path (c : Collation) (f g h : File) (hfg : (c.localeCompare f.path g.path).isLE)
    (hgh : (c.localeCompare g.path h.path).isLE) : (c.localeCompare f.path h.path).isLE :=
  Std.TransCmp.isLE_trans hfg hgh

theorem le_total_path (c : Collation) (f g : File) :
    (c.localeCompare f.path g.path).isLE || (c.localeCompare g.path f.path).isLE := by
  have hswap : c.localeCompare g.path f.path = (c.localeCompare f.path g.path).swap := Std.OrientedCmp.eq_swap
  rw [hswap]
  cases c.localeCompare f.path g.path <;> rfl

theorem sorted_eq_of_perm (hordered : Ordered c files) (hperm : files'.Perm files) :
    sorted c files' = sorted c files := by
  have hboth : (sorted c files').Perm (sorted c files) :=
    (sorted_perm c files').trans (hperm.trans (sorted_perm c files).symm)
  refine hboth.eq_of_pairwise (fun f g hf hg hle hge => ?_)
    (pairwise_mergeSort (le_trans_path c) (le_total_path c) _)
    (pairwise_mergeSort (le_trans_path c) (le_total_path c) _)
  have hmem := hperm.mem_iff.mp ((sorted_perm c files').mem_iff.mp hf)
  exact hordered f hmem g ((sorted_perm c files).mem_iff.mp hg) (Std.OrientedCmp.isLE_antisymm hle hge)

theorem not_both_sublists {l : List File} (hne : f ≠ g) (hnodup : l.Nodup) (hfg : [f, g].Sublist l)
    (hgf : [g, f].Sublist l) : False := by
  induction l with
  | nil => cases hfg
  | cons x l ih =>
    obtain ⟨hx, hnodup⟩ := nodup_cons.mp hnodup
    cases hfg with
    | cons _ hfg =>
      cases hgf with
      | cons _ hgf => exact ih hnodup hfg hgf
      | cons_cons _ _ => exact hx (hfg.subset (by simp))
    | cons_cons _ _ =>
      cases hgf with
      | cons _ hgf => exact hx (hgf.subset (by simp))
      | cons_cons _ _ => exact hne rfl

/-- Two files that compare equal stay in the order of the list. -/
theorem sorted_ne_of_swap {rest : List File} (hne : f ≠ g) (hnodup : (f :: g :: rest).Nodup)
    (hequal : c.localeCompare f.path g.path = .eq) :
    sorted c (g :: f :: rest) ≠ sorted c (f :: g :: rest) := by
  intro hsame
  have hpair : ∀ f g : File, c.localeCompare f.path g.path = .eq → [f, g].Sublist (sorted c (f :: g :: rest)) := by
    intro f g hequal
    refine pair_sublist_mergeSort (le_trans_path c) (le_total_path c) ?_ ?_
    · rw [hequal]
      rfl
    · exact List.Sublist.cons_cons _ (List.Sublist.cons_cons _ (nil_sublist rest))
  refine not_both_sublists hne ((sorted_perm c _).nodup_iff.mpr hnodup) (hpair f g hequal) ?_
  rw [← hsame]
  exact hpair g f (Std.OrientedCmp.eq_comm.mp hequal)

theorem digest_identifies_iff (hvalid : validateBundleFiles tables files = .ok ())
    (hsha : NoCollision tables c sha256 entry files) : Identifies tables c sha256 entry files ↔ Ordered c files := by
  have h := validateBundleFiles_eq_ok.mp hvalid
  constructor
  · intro hidentifies f hf g hg hequal
    by_contra hne
    have hsame : ∀ files' : List File, files'.Perm files → sorted c files' = sorted c files := by
      intro files' hperm
      have hok := validateBundleFiles_eq_ok.mpr (h.perm hperm)
      have hdigest := (hidentifies entry files' hok).1 rfl hperm
      exact (hashed_inj h (h.perm hperm) (hsha entry files' hok hdigest)).2
    -- The two files in front of the others, in either order.
    have hg' : g ∈ files.erase f := (mem_erase_of_ne (Ne.symm hne)).mpr hg
    have hfront : (f :: g :: (files.erase f).erase g).Perm files :=
      ((perm_cons_erase hf).trans ((perm_cons_erase hg').cons f)).symm
    refine sorted_ne_of_swap hne (hfront.nodup_iff.mpr h.nodup) hequal ?_
    exact (hsame _ ((List.Perm.swap f g _).trans hfront)).trans (hsame _ hfront).symm
  · intro hordered entry' files' hok
    refine ⟨?_, fun hdiffer hdigest => ?_⟩
    · rintro rfl hperm
      unfold pluginDigest hashed
      rw [sorted_eq_of_perm hordered hperm]
    · obtain ⟨rfl, hsorted⟩ := hashed_inj h (validateBundleFiles_eq_ok.mp hok) (hsha entry' files' hok hdigest)
      obtain hentry | ⟨file, hfile⟩ := hdiffer
      · exact hentry rfl
      · apply hfile
        rw [← (sorted_perm c files').mem_iff, hsorted, (sorted_perm c files).mem_iff]

/-- Canonically equivalent texts are equal, as far as an acute e goes. -/
def compose : Text → Text
  | 0x65 :: 0x301 :: rest => 0xe9 :: compose rest
  | u :: rest => u :: compose rest
  | [] => []

def composing : Collation where
  localeCompare := compareOn compose
  trans := inferInstance

def widen (bytes : Bytes) : Text := bytes.map UInt8.toUInt16

theorem widen_injective : Function.Injective widen := map_injective_iff.mpr fun a b h => by
  have hvalue := congrArg UInt16.toNat h
  simpa [UInt8.toNat_inj] using hvalue

def markdownEntry : MarketplaceEntry where
  properties := [(lit "name", .str (lit "notes")), (lit "unsupported", .arr []),
    (lit "source", .str []), (lit "strict", .bool true)]
  plain := plain_of_isPlain (by decide)
  named := by decide

def composedFile : File := ⟨lit "commands/\u00e9.md", [0x61], false⟩

def decomposedFile : File := ⟨lit "commands/e\u0301.md", [0x62], false⟩

def plainFile : File := ⟨lit "commands/e.md", [0x62], false⟩

/-- Two files in two orders, and one of them with other contents. -/
theorem digest_identifies_two :
    pluginDigest composing widen (some markdownEntry) [plainFile, composedFile] =
        pluginDigest composing widen (some markdownEntry) [composedFile, plainFile] ∧
      pluginDigest composing widen (some markdownEntry) [{ plainFile with bytes := [0x63] }, composedFile] ≠
        pluginDigest composing widen (some markdownEntry) [composedFile, plainFile] := by
  have hidentifies := (@digest_identifies_iff asciiTables composing widen (some markdownEntry)
    [composedFile, plainFile] (by decide) fun _ _ _ h => widen_injective h).mpr (by unfold Ordered; decide)
  exact ⟨(hidentifies _ _ (by decide)).1 rfl (List.Perm.swap _ _ _),
    (hidentifies _ _ (by decide)).2 (.inr ⟨plainFile, by decide⟩)⟩

theorem two_forms_depend_on_order : validateBundleFiles asciiTables [composedFile, decomposedFile] = .ok () ∧
      validateBundleFiles asciiTables [decomposedFile, composedFile] = .ok () ∧ Function.Injective widen ∧
      pluginDigest composing widen (some markdownEntry) [decomposedFile, composedFile] ≠
        pluginDigest composing widen (some markdownEntry) [composedFile, decomposedFile] := by
  have hvalid : validateBundleFiles asciiTables [composedFile, decomposedFile] = .ok () := by decide
  have hvalid' : validateBundleFiles asciiTables [decomposedFile, composedFile] = .ok () := by decide
  refine ⟨hvalid, hvalid', widen_injective, fun hsame => ?_⟩
  have h := validateBundleFiles_eq_ok.mp hvalid
  have hsorted := (hashed_inj h (validateBundleFiles_eq_ok.mp hvalid') (widen_injective hsame)).2
  exact sorted_ne_of_swap (by decide) h.nodup (by decide) hsorted

end ArdurBot.Bundles
