import ArdurBot.Lib.Checked
import ArdurBot.Lib.Lowercase

/-!
# Files of a bundle

`packages/contracts/src/bundles/files.js`. A path is safe on every system, and the paths of a bundle
are told apart without their case. The tables of lower case are those of the runtime.
-/

namespace ArdurBot.Bundles

open List Utf16 Checked Bool

inductive Failure where
  | thrown (message : String)
  /-- A read outside a buffer. -/
  | outOfRange
deriving DecidableEq

def bundleMaxBytes : ℕ := 64 * 1024 * 1024

def bundleMaxFiles : ℕ := 10000

structure File where
  path : Text
  bytes : Bytes
  executable : Bool
deriving DecidableEq

def dot : CodeUnit := 0x2e

def space : CodeUnit := 0x20

def isControl (u : CodeUnit) : Bool := u < 32 || u = 127

def lowerAscii (u : CodeUnit) : CodeUnit := if 0x41 ≤ u && u ≤ 0x5a then u + 0x20 else u

def reservedNames : List Text :=
  [lit "con", lit "prn", lit "aux", lit "nul"] ++
    (lit "123456789").flatMap fun digit => [lit "com" ++ [digit], lit "lpt" ++ [digit]]

/-- `/^(con|prn|aux|nul|com[1-9]|lpt[1-9])(?:\.|$)/i` -/
def isReserved (part : Text) : Bool :=
  (part.takeWhile fun u => u ≠ dot).map lowerAscii ∈ reservedNames

def isUnsafePart (part : Text) : Bool :=
  part = [] || part = [dot] || part =
    [dot, dot] || part.getLast?.any (fun u => u = dot || u = space) || isReserved part

def parts (name : Text) : List Text := name.splitOn solidus

def isUnsafe (name : Text) : Bool :=
  name = [] || 1024 < name.length || name.any (fun u => u = unit '\\' || u = unit ':') ||
    name.any isControl ||
    name.head? = some solidus || (parts name).any isUnsafePart

def stripDotSlash (value : Text) : Text :=
  if [dot, solidus].isPrefixOf value then value.drop 2 else value

def unsafePath : Failure := .thrown "The bundle contains an unsafe file path."

def bundlePath (value : Text) : Except Failure Text :=
  if isUnsafe (stripDotSlash value) then .error unsafePath else .ok (stripDotSlash value)

/-- What may stand between the slashes of a path. -/
structure SafePart (part : Text) : Prop where
  nonempty : part ≠ []
  notDot : part ≠ [dot]
  notDots : part ≠ [dot, dot]
  ending : ∀ u ∈ part.getLast?, u ≠ dot ∧ u ≠ space
  unreserved : isReserved part = false

/-- A relative path that stays below where it starts, on every system. -/
structure SafePath (path : Text) : Prop where
  length : path.length ≤ 1024
  plain : ∀ u ∈ path, u ≠ unit '\\' ∧ u ≠ unit ':' ∧ isControl u = false
  relative : path.head? ≠ some solidus
  parts : ∀ part ∈ parts path, SafePart part

theorem safePart_of_eq_false {part : Text} (h : isUnsafePart part = false) : SafePart part := by
  unfold isUnsafePart at h
  simp only [or_eq_false_iff, decide_eq_false_iff_not, Option.any_eq_false, or_eq_false_iff] at h
  obtain ⟨⟨⟨⟨hnil, hdot⟩, hdots⟩, hending⟩, hreserved⟩ := h
  exact ⟨hnil, hdot, hdots, fun u hu => by simpa using hending u hu, hreserved⟩

variable {name value : Text} {files : List File}

theorem safePath_of_eq_false (h : isUnsafe name = false) : SafePath name := by
  unfold isUnsafe at h
  simp only [or_eq_false_iff, decide_eq_false_iff_not, any_eq_false, not_eq_true] at h
  obtain ⟨⟨⟨⟨⟨-, hlength⟩, hplain⟩, hcontrol⟩, hrelative⟩, hparts⟩ := h
  refine ⟨by omega, fun u hu => ?_, hrelative, fun part hpart => safePart_of_eq_false (hparts part hpart)⟩
  obtain ⟨hback, hcolon⟩ := hplain u hu
  exact ⟨hback, hcolon, hcontrol u hu⟩

theorem bundlePath_eq_ok : bundlePath value = .ok name ↔ isUnsafe name = false ∧
    stripDotSlash value = name := by
  unfold bundlePath
  split
  · next hrefused =>
    constructor
    · intro h
      cases h
    · rintro ⟨hsafe, rfl⟩
      rw [hrefused] at hsafe
      cases hsafe
  · next hsafe =>
    rw [not_eq_true] at hsafe
    constructor
    · intro h
      obtain rfl := Except.ok.inj h
      exact ⟨hsafe, rfl⟩
    · rintro ⟨-, rfl⟩
      rfl

theorem stripDotSlash_safe (h : isUnsafe name = false) : stripDotSlash name = name := by
  unfold stripDotSlash
  rw [if_neg]
  intro hstart
  obtain ⟨rest, rfl⟩ := isPrefixOf_iff_prefix.mp hstart
  have hparts : parts ([dot, solidus] ++ rest) = [dot] :: parts rest := by
    unfold parts
    rw [splitOn_eq_splitOnP, splitOn_eq_splitOnP]
    have hnone : ∀ u ∈ [dot], (u == solidus) = false := forall_iff_forall_mem.mp (by decide)
    exact splitOnP_append_cons_of_forall_mem hnone solidus (by decide) rest
  have hdot : [dot] ∈ parts ([dot, solidus] ++ rest) := by
    rw [hparts]
    exact mem_cons_self
  exact ((safePath_of_eq_false h).parts _ hdot).notDot rfl

theorem bundlePath_avoids : Avoids .outOfRange (bundlePath value) := by
  unfold bundlePath
  split
  · exact .error (by decide)
  · exact .ok _

variable (tables : CaseTables)

def ancestors (name : Text) : List Text :=
  (parts name).dropLast.inits.tail.map fun above => [solidus].intercalate above

def checkNames (names : List Text) (size : ℕ) : List File → Except Failure (List Text)
  | [] => .ok names
  | file :: rest => do
    let name ← bundlePath file.path
    refuseIf (tables.toLowerCase name ∈ names) (.thrown "The bundle contains duplicate file paths.")
    refuseIf (bundleMaxBytes < size + file.bytes.length) (.thrown "The bundle is too large.")
    checkNames (names ++ [tables.toLowerCase name]) (size + file.bytes.length) rest

def validateBundleFiles (files : List File) : Except Failure Unit := do
  refuseIf (files = [] || bundleMaxFiles < files.length)
    (.thrown "The bundle has too many files or is empty.")
  let names ← checkNames tables [] 0 files
  refuseIf (names.any fun name => (ancestors name).any (· ∈ names))
    (.thrown "A bundle file replaces a directory.")

def File.key (file : File) : Text := tables.toLowerCase (stripDotSlash file.path)

def totalBytes (files : List File) : ℕ := (files.map fun file => file.bytes.length).sum

structure Valid (files : List File) : Prop where
  nonempty : files ≠ []
  count : files.length ≤ bundleMaxFiles
  safe : ∀ file ∈ files, isUnsafe (stripDotSlash file.path) = false
  distinct : (files.map (File.key tables)).Nodup
  total : totalBytes files ≤ bundleMaxBytes
  apart : ∀ file ∈ files, ∀ other ∈ files, other.key tables ∉ ancestors (file.key tables)

variable {tables}

theorem checkNames_eq_ok {names names' : List Text} {size : ℕ} (hsize : size ≤ bundleMaxBytes) :
    checkNames tables names size files = .ok names' ↔
      (∀ file ∈ files, isUnsafe (stripDotSlash file.path) = false) ∧ (files.map (File.key tables)).Nodup ∧
        (∀ file ∈ files, file.key tables ∉ names) ∧ size + totalBytes files ≤ bundleMaxBytes ∧
        names' = names ++ files.map (File.key tables) := by
  induction files generalizing names size with
  | nil =>
    have hsame : checkNames tables names size [] = .ok names' ↔ names' = names := by
      rw [checkNames]
      exact ⟨fun h => (Except.ok.inj h).symm, congrArg Except.ok ∘ Eq.symm⟩
    simp [hsame, totalBytes, hsize]
  | cons file files ih =>
    have hsum : totalBytes (file :: files) = file.bytes.length + totalBytes files := by simp [totalBytes]
    rw [checkNames, bind_eq_ok]
    constructor
    · rintro ⟨name, hname, h⟩
      obtain ⟨hsafe, rfl⟩ := bundlePath_eq_ok.mp hname
      obtain ⟨_, hnew, h⟩ := bind_eq_ok.mp h
      obtain ⟨_, hfits, h⟩ := bind_eq_ok.mp h
      rw [refuseIf_eq_ok, decide_eq_false_iff_not] at hnew hfits
      obtain ⟨hsafes, hdistinct, hothers, htotal, rfl⟩ := (ih (Nat.not_lt.mp hfits)).mp h
      refine ⟨?_, ?_, ?_, by omega, ?_⟩
      · exact forall_mem_cons.mpr ⟨hsafe, hsafes⟩
      · refine nodup_cons.mpr ⟨fun hmem => ?_, hdistinct⟩
        obtain ⟨other, hother, hsame⟩ := mem_map.mp hmem
        exact hothers other hother (mem_append_right _ (mem_singleton.mpr hsame))
      · exact forall_mem_cons.mpr ⟨hnew, fun other hother hmem =>
          hothers other hother (mem_append_left _ hmem)⟩
      · rw [map_cons, append_assoc]
        rfl
    · rintro ⟨hsafe, hdistinct, hnew, htotal, rfl⟩
      rw [map_cons, nodup_cons] at hdistinct
      have hfits : size + file.bytes.length ≤ bundleMaxBytes := by omega
      refine ⟨stripDotSlash file.path, bundlePath_eq_ok.mpr ⟨hsafe file mem_cons_self, rfl⟩, ?_⟩
      refine bind_eq_ok.mpr ⟨(), refuseIf_eq_ok.mpr ?_, bind_eq_ok.mpr ⟨(), refuseIf_eq_ok.mpr ?_, ?_⟩⟩
      · exact decide_eq_false (hnew file mem_cons_self)
      · exact decide_eq_false (Nat.not_lt.mpr hfits)
      · refine (ih hfits).mpr ⟨fun other hother => hsafe other (mem_cons_of_mem _ hother),
          hdistinct.2, ?_, by omega, ?_⟩
        · intro other hother hmem
          obtain hmem | hsame := mem_append.mp hmem
          · exact hnew other (mem_cons_of_mem _ hother) hmem
          · have hkey : other.key tables = file.key tables := mem_singleton.mp hsame
            exact hdistinct.1 (hkey ▸ mem_map_of_mem hother)
        · rw [map_cons, append_assoc]
          rfl

theorem validateBundleFiles_eq_ok : validateBundleFiles tables files = .ok () ↔ Valid tables files := by
  unfold validateBundleFiles
  rw [bind_eq_ok]
  constructor
  · rintro ⟨_, hcount, h⟩
    obtain ⟨names, hnames, hapart⟩ := bind_eq_ok.mp h
    rw [refuseIf_eq_ok, or_eq_false_iff, decide_eq_false_iff_not, decide_eq_false_iff_not] at hcount
    obtain ⟨hsafe, hdistinct, -, htotal, rfl⟩ := (checkNames_eq_ok (Nat.zero_le _)).mp hnames
    rw [refuseIf_eq_ok, nil_append] at hapart
    refine ⟨hcount.1, by omega, hsafe, hdistinct, by omega, fun file hfile other hother hmem => ?_⟩
    simp only [any_eq_false, not_eq_true, decide_eq_false_iff_not] at hapart
    exact hapart _ (mem_map_of_mem hfile) _ hmem (mem_map_of_mem hother)
  · rintro ⟨hnonempty, hcount, hsafe, hdistinct, htotal, hapart⟩
    refine ⟨(), refuseIf_eq_ok.mpr ?_, bind_eq_ok.mpr ⟨files.map (File.key tables), ?_, refuseIf_eq_ok.mpr ?_⟩⟩
    · simp [hnonempty, hcount]
    · exact (checkNames_eq_ok (Nat.zero_le _)).mpr ⟨hsafe, hdistinct, fun _ _ => not_mem_nil, by omega, rfl⟩
    · simp only [any_eq_false, not_eq_true, decide_eq_false_iff_not]
      intro name hname above habove hmem
      obtain ⟨file, hfile, rfl⟩ := mem_map.mp hname
      obtain ⟨other, hother, rfl⟩ := mem_map.mp hmem
      exact hapart file hfile other hother habove

theorem checkNames_avoids (names : List Text) (size : ℕ) (files : List File) :
    Avoids .outOfRange (checkNames tables names size files) := by
  induction files generalizing names size with
  | nil => exact .ok names
  | cons file files ih =>
    rw [checkNames]
    refine bundlePath_avoids.bind fun name _ => ?_
    refine (Avoids.refuseIf (by decide)).bind fun _ _ => (Avoids.refuseIf (by decide)).bind fun _ _ => ?_
    exact ih _ _

theorem validateBundleFiles_avoids (files : List File) :
    Avoids .outOfRange (validateBundleFiles tables files) := by
  unfold validateBundleFiles
  refine (Avoids.refuseIf (by decide)).bind fun _ _ => (checkNames_avoids _ _ _).bind fun _ _ => ?_
  exact .refuseIf (by decide)

theorem parts_append (name rest : Text) : parts (name ++ solidus :: rest) = parts name ++ parts rest := by
  unfold parts
  rw [splitOn_eq_splitOnP, splitOn_eq_splitOnP, splitOn_eq_splitOnP]
  exact splitOnP_append_cons name rest (by decide)

theorem parts_ne_nil (name : Text) : parts name ≠ [] := by
  unfold parts
  rw [splitOn_eq_splitOnP]
  exact splitOnP_ne_nil _ _

theorem mem_tail_inits {l more : List Text} (h : l ≠ []) : l ∈ (l ++ more).inits.tail := by
  cases l with
  | nil => exact absurd rfl h
  | cons first l =>
    rw [cons_append, inits_cons, tail_cons]
    exact mem_map_of_mem ((mem_inits _ _).mpr (prefix_append l more))

theorem mem_ancestors (name rest : Text) : name ∈ ancestors (name ++ solidus :: rest) := by
  refine mem_map.mpr ⟨parts name, ?_, intercalate_splitOn solidus⟩
  rw [parts_append, dropLast_append_of_ne_nil (parts_ne_nil rest)]
  exact mem_tail_inits (parts_ne_nil name)

end ArdurBot.Bundles
