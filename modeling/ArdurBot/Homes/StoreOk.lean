import ArdurBot.Homes.Store
import Mathlib.Data.List.GetD

/-!
# Calls that have the home to themselves

What each call of the file system does to the home, while no other caller is at work on it: writers,
and then readers, which do not disturb each other.
-/

namespace ArdurBot.Homes

open List Utf16 Option

variable {disk : Disk} {version : Contents} {job : Job} {phase : Phase}

/-! ### The disk -/

/-- The files of a directory have inodes of their own. -/
structure DirOk (disk : Disk) (dir : Dir) : Prop where
  inodes : ∀ path inode, (path, some inode) ∈ dir → inode < disk.data.length
  apart : ∀ path other inode, (path, some inode) ∈ dir → (other, some inode) ∈ dir → path = other

structure DiskOk (disk : Disk) (version : Contents) : Prop where
  tree : Tree.Ok disk.recovered
  dir : DirOk disk disk.recovered
  version : IsVersion (disk.contents disk.recovered) version

variable {dir staged : Dir} {path : Path} {value : Option Text} {content : Text} {disk' : Disk}
  {tree : Contents}

theorem mem_contents :
    (path, value) ∈ disk.contents dir ↔ ∃ old, (path, old) ∈ dir ∧ old.map disk.content = value := Tree.mem_mapValues

theorem mem_contents_file :
    (path, some content) ∈ disk.contents dir ↔ ∃ inode, (path, some inode) ∈ dir ∧ disk.content inode = content := by
  rw [mem_contents]
  constructor
  · rintro ⟨old, hold, hvalue⟩
    obtain ⟨inode, rfl, rfl⟩ := map_eq_some_iff.mp hvalue
    exact ⟨inode, hold, rfl⟩
  · rintro ⟨inode, hmem, rfl⟩
    exact ⟨some inode, hmem, rfl⟩

theorem contents_append (h : DirOk disk dir) (content : Text) :
    Disk.contents { disk with data := disk.data ++ [content] } dir = disk.contents dir := by
  unfold Disk.contents Tree.mapValues
  refine map_congr_left ?_
  rintro ⟨path, value⟩ hmem
  cases value with
  | none => rfl
  | some inode =>
    have hlt := h.inodes path inode hmem
    dsimp only [map_some]
    rw [Disk.content, Disk.content, getD_append _ _ _ _ hlt]

theorem DirOk.append (h : DirOk disk dir) (content : Text) :
    DirOk { disk with data := disk.data ++ [content] } dir where
  inodes path inode hmem := by
    have hlt := h.inodes path inode hmem
    rw [length_append]
    omega
  apart := h.apart

theorem DiskOk.of_recovered (h : DiskOk disk version) (hrecovered : disk'.recovered = disk.recovered)
    (hdata : disk'.data = disk.data) : DiskOk disk' version := by
  have hcontents : disk'.contents disk.recovered = disk.contents disk.recovered := by
    unfold Disk.contents Disk.content
    rw [hdata]
  constructor
  · rw [hrecovered]
    exact h.tree
  · rw [hrecovered]
    exact ⟨hdata ▸ h.dir.inodes, h.dir.apart⟩
  · rw [hrecovered, hcontents]
    exact h.version

theorem DiskOk.append (h : DiskOk disk version) (content : Text) :
    DiskOk { disk with data := disk.data ++ [content] } version where
  tree := h.tree
  dir := h.dir.append content
  version := by
    show IsVersion (Disk.contents { disk with data := disk.data ++ [content] } disk.recovered) version
    rw [contents_append h.dir]
    exact h.version

theorem recovered_of_home (h : disk.home = some dir) : disk.recovered = dir := by
  unfold Disk.recovered
  rw [h]
  rfl

theorem DiskOk.addDir (h : DiskOk disk version) (hhome : disk.home = some dir)
    (hnew : Tree.find dir path = none) (hparent : Tree.find dir path.dropLast = some none) :
    DiskOk (disk.add path none) version := by
  have hrecovered : (disk.add path none).recovered = dir ++ [(path, none)] := by
    unfold Disk.add Disk.recovered
    rw [hhome]
    rfl
  obtain ⟨htree, hdir, hversion⟩ := h
  rw [recovered_of_home hhome] at htree hdir hversion
  have hmem : ∀ other inode, (other, some inode) ∈ dir ++ [(path, none)] → (other, some inode) ∈ dir := by
    intro other inode hmem
    obtain hmem | hmem := mem_append.mp hmem
    · exact hmem
    · cases mem_singleton.mp hmem
  constructor
  · rw [hrecovered]
    exact htree.add hnew hparent none
  · rw [hrecovered]
    constructor
    · exact fun other inode hother => hdir.inodes other inode (hmem other inode hother)
    · intro other another inode hother hanother
      exact hdir.apart other another inode (hmem other inode hother) (hmem another inode hanother)
  · rw [hrecovered]
    refine ⟨?_, ?_⟩
    · intro entry hentry
      obtain ⟨old, hold, hvalue⟩ := mem_contents.mp (hversion.1 entry hentry)
      exact mem_contents.mpr ⟨old, mem_append_left _ hold, hvalue⟩
    · intro other content hother
      obtain ⟨inode, hinode, hcontent⟩ := mem_contents_file.mp hother
      exact hversion.2 other content (mem_contents_file.mpr ⟨inode, hmem other inode hinode, hcontent⟩)

/-! ### Writes to a file -/

theorem mem_put {other : Path} : (other, value) ∈ put tree path content ↔
      (other, value) ∈ tree ∧ other ≠ path ∨ other = path ∧ value = some content := by
  unfold put
  rw [mem_append, mem_filter, mem_singleton, Prod.mk.injEq, decide_eq_true_eq]

theorem DiskOk.setContent (h : DiskOk disk version) (hhome : disk.home = some dir) {inode : ℕ}
    (hfile : (path, some inode) ∈ dir) (content : Text) :
    DiskOk { disk with data := disk.data.set inode content } (put version path content) := by
  obtain ⟨htree, hdir, hversion⟩ := h
  rw [recovered_of_home hhome] at htree hdir hversion
  have hrecovered : Disk.recovered { disk with data := disk.data.set inode content } = dir :=
    recovered_of_home hhome
  have hlt := hdir.inodes path inode hfile
  have hself : Disk.content { disk with data := disk.data.set inode content } inode = content := by
    unfold Disk.content
    rw [getD_eq_getElem?_getD, getElem?_set_self hlt]
    rfl
  have hother : ∀ other, other ≠ inode →
      Disk.content { disk with data := disk.data.set inode content } other = disk.content other := by
    intro other hne
    unfold Disk.content
    rw [getD_eq_getElem?_getD, getElem?_set_ne (fun h => hne h.symm), ← getD_eq_getElem?_getD]
  constructor
  · rw [hrecovered]
    exact htree
  · rw [hrecovered]
    constructor
    · intro other i hmem
      rw [length_set]
      exact hdir.inodes other i hmem
    · exact hdir.apart
  · rw [hrecovered]
    refine ⟨?_, ?_⟩
    · rintro ⟨other, value⟩ hentry
      rw [mem_contents]
      obtain ⟨hold, hne⟩ | ⟨rfl, rfl⟩ := mem_put.mp hentry
      · obtain ⟨old, hmem, hvalue⟩ := mem_contents.mp (hversion.1 _ hold)
        refine ⟨old, hmem, ?_⟩
        rcases old with _ | i
        · exact hvalue
        have hi : i ≠ inode := by
          rintro rfl
          exact hne (hdir.apart other path i hmem hfile)
        rw [← hvalue, map_some, map_some, hother i hi]
      · exact ⟨some inode, hfile, congrArg some hself⟩
    · intro other c hmem
      obtain ⟨i, hi, hc⟩ := mem_contents_file.mp hmem
      rw [mem_put]
      by_cases hsame : i = inode
      · subst hsame
        right
        exact ⟨hdir.apart other path i hi hfile, congrArg some (hc.symm.trans hself)⟩
      · left
        rw [hother i hsame] at hc
        refine ⟨hversion.2 other c (mem_contents_file.mpr ⟨i, hi, hc⟩), ?_⟩
        rintro rfl
        exact hsame (some.inj (htree.eq_of_mem hi hfile))

/-- A file with a new inode is added. -/
theorem DirOk.addFile {dir : Dir} {disk' : Disk} {path : Path} {content : Text} (hdir : DirOk disk dir)
    (hdata : disk'.data = disk.data ++ [content]) : DirOk disk' (dir ++ [(path, some disk.data.length)]) := by
  constructor
  · intro other i hmem
    rw [hdata, length_append, length_singleton]
    obtain hmem | hmem := mem_append.mp hmem
    · have hlt := hdir.inodes other i hmem
      omega
    · cases mem_singleton.mp hmem
      omega
  · intro other another i hmem hmem'
    obtain hmem | hmem := mem_append.mp hmem
    · obtain hmem' | hmem' := mem_append.mp hmem'
      · exact hdir.apart other another i hmem hmem'
      · cases mem_singleton.mp hmem'
        exact absurd (hdir.inodes other _ hmem) (Nat.lt_irrefl _)
    · cases mem_singleton.mp hmem
      obtain hmem' | hmem' := mem_append.mp hmem'
      · exact absurd (hdir.inodes another _ hmem') (Nat.lt_irrefl _)
      · cases mem_singleton.mp hmem'
        rfl

theorem DiskOk.addFile (h : DiskOk disk version) (hhome : disk.home = some dir)
    (hnew : Tree.find dir path = none) (hparent : Tree.find dir path.dropLast = some none) :
    DiskOk { disk.add path (some disk.data.length) with data := disk.data ++ [[]] } (put version path []) := by
  have hrecovered : Disk.recovered { disk.add path (some disk.data.length) with data := disk.data ++ [[]] } =
      dir ++ [(path, some disk.data.length)] := by
    unfold Disk.add Disk.recovered
    rw [hhome]
    rfl
  obtain ⟨htree, hdir, hversion⟩ := h
  rw [recovered_of_home hhome] at htree hdir hversion
  obtain ⟨_, hno⟩ := htree.find_eq_none.mp hnew
  have hself : Disk.content { disk.add path (some disk.data.length) with data := disk.data ++ [[]] }
      disk.data.length = [] := by
    unfold Disk.content
    simp
  have hsame : ∀ i, i < disk.data.length →
      Disk.content { disk.add path (some disk.data.length) with data := disk.data ++ [[]] } i = disk.content i := by
    intro i hlt
    unfold Disk.content
    rw [getD_append _ _ _ _ hlt]
  constructor
  · rw [hrecovered]
    exact htree.add hnew hparent _
  · rw [hrecovered]
    exact hdir.addFile rfl
  · rw [hrecovered]
    refine ⟨?_, ?_⟩
    · rintro ⟨other, value⟩ hentry
      rw [mem_contents]
      obtain ⟨hold, _⟩ | ⟨rfl, rfl⟩ := mem_put.mp hentry
      · obtain ⟨old, hmem, hvalue⟩ := mem_contents.mp (hversion.1 _ hold)
        refine ⟨old, mem_append_left _ hmem, ?_⟩
        cases old with
        | none => exact hvalue
        | some i => rw [← hvalue, map_some, map_some, hsame i (hdir.inodes other i hmem)]
      · exact ⟨_, mem_append_right _ (mem_singleton_self _), congrArg some hself⟩
    · intro other c hmem
      obtain ⟨i, hi, hc⟩ := mem_contents_file.mp hmem
      rw [mem_put]
      obtain hold | hmade := mem_append.mp hi
      · left
        rw [hsame i (hdir.inodes other i hold)] at hc
        refine ⟨hversion.2 other c (mem_contents_file.mpr ⟨i, hold, hc⟩), ?_⟩
        rintro rfl
        exact hno _ hold
      · right
        cases mem_singleton.mp hmade
        exact ⟨rfl, congrArg some (hc.symm.trans hself)⟩

/-! ### Commits -/

def Settled (disk : Disk) : Prop := disk.home ≠ none ∨ disk.previous = none

structure Staged (disk : Disk) (staged : Dir) (tree : Contents) : Prop where
  contents : disk.contents staged = tree
  dir : DirOk disk staged

/-- What a commit finds at each of its calls. -/
def CommitOk (disk : Disk) (tree : Contents) : Phase → Prop
  | .checkHome => True
  | .checkPrevious => disk.home = none
  | .renameBack => disk.home = none ∧ disk.previous ≠ none
  | .copy staged rest => Settled disk ∧ ∃ copied, tree = copied ++ rest ∧ Staged disk staged copied
  | .rmPrevious staged => Settled disk ∧ Staged disk staged tree
  | .checkAway staged => disk.previous = none ∧ Staged disk staged tree
  | .renameAway staged => disk.previous = none ∧ disk.home ≠ none ∧ Staged disk staged tree
  | .renameIn staged => disk.home = none ∧ Staged disk staged tree
  | .rmReplaced => disk.home ≠ none
  | .writeRevision => True
  | .rmStaging throws => throws = false
  | .done => True
  | _ => False

section

variable (h : Staged disk staged tree)
include h

theorem Staged.addFile (path : Path) (content : Text) :
    Staged { disk with data := disk.data ++ [content] } (staged ++ [(path, some disk.data.length)])
      (tree ++ [(path, some content)]) := by
  obtain ⟨hcontents, hdir⟩ := h
  constructor
  · show Tree.mapValues _ (staged ++ [(path, some disk.data.length)]) = _
    unfold Tree.mapValues
    rw [map_append, ← hcontents, ← contents_append hdir content]
    congr 1
    show [(path, some (Disk.content _ disk.data.length))] = _
    unfold Disk.content
    simp
  · exact hdir.addFile rfl

theorem Staged.addDir (path : Path) : Staged disk (staged ++ [(path, none)]) (tree ++ [(path, none)]) := by
  obtain ⟨hcontents, hdir⟩ := h
  have hmem : ∀ other inode, (other, some inode) ∈ staged ++ [(path, none)] → (other, some inode) ∈ staged := by
    intro other inode hmem
    obtain hmem | hmem := mem_append.mp hmem
    · exact hmem
    · cases mem_singleton.mp hmem
  constructor
  · show Tree.mapValues _ (staged ++ [(path, none)]) = _
    unfold Tree.mapValues
    rw [map_append, ← hcontents]
    rfl
  · constructor
    · exact fun other inode hother => hdir.inodes other inode (hmem other inode hother)
    · intro other another inode hother hanother
      exact hdir.apart other another inode (hmem other inode hother) (hmem another inode hanother)

theorem Staged.of_data (hdata : disk'.data = disk.data) : Staged disk' staged tree := by
  constructor
  · unfold Disk.contents Disk.content
    rw [hdata]
    exact h.contents
  · exact ⟨hdata ▸ h.dir.inodes, h.dir.apart⟩

end

theorem home_rmEntry (disk : Disk) : disk.rmEntry.home = disk.home := by
  unfold Disk.rmEntry
  split
  · rfl
  · rfl
  · rfl

theorem data_rmEntry (disk : Disk) : disk.rmEntry.data = disk.data := by
  unfold Disk.rmEntry
  split
  · rfl
  · rfl
  · rfl

theorem previous_rmEntry (h : disk.previous = none) : disk.rmEntry = disk := by
  unfold Disk.rmEntry
  rw [h]

theorem recovered_rmEntry (h : Settled disk) : disk.rmEntry.recovered = disk.recovered := by
  obtain hhome | hnone := h
  · unfold Disk.recovered
    rw [home_rmEntry]
    obtain ⟨dir, hdir⟩ := ne_none_iff_exists'.mp hhome
    rw [hdir]
    rfl
  · rw [previous_rmEntry hnone]

theorem settled_rmEntry (h : Settled disk) : Settled disk.rmEntry := by
  obtain hhome | hnone := h
  · left
    rwa [home_rmEntry]
  · right
    rwa [previous_rmEntry hnone]

theorem DiskOk.renameBack (h : DiskOk disk version) (hnone : disk.home = none)
    (hprevious : disk.previous ≠ none) :
    DiskOk { disk with home := disk.previous, previous := none } version := by
  refine h.of_recovered ?_ rfl
  obtain ⟨dir, hdir⟩ := ne_none_iff_exists'.mp hprevious
  unfold Disk.recovered
  rw [hnone, hdir]
  rfl

/-- A call of a commit: the home is the version before it or the version after it, and the commit
goes on. -/
theorem commit_call (src : Source) (h : DiskOk disk version) (hphase : CommitOk disk src.tree phase)
    (hgoes : phase.hasEnded = false) :
    DiskOk (disk.call (.commit src) phase).1
        ((Job.commit src).newVersion version phase (disk.call (.commit src) phase).2) ∧
      CommitOk (disk.call (.commit src) phase).1 src.tree (disk.call (.commit src) phase).2 := by
  have hcopies : Settled disk → CommitOk disk src.tree (Job.commit src).afterRecover := by
    intro hsettled
    refine ⟨hsettled, [], rfl, ?_⟩
    exact ⟨rfl, nofun, nofun⟩
  cases phase with
  | checkHome =>
    refine ⟨h, ?_⟩
    dsimp only [Disk.call]
    split
    · rename_i hsome
      exact hcopies (.inl (isSome_iff_ne_none.mp hsome))
    · rename_i hnone
      exact not_isSome_iff_eq_none.mp hnone
  | checkPrevious =>
    refine ⟨h, ?_⟩
    dsimp only [Disk.call]
    split
    · rename_i hsome
      exact ⟨hphase, isSome_iff_ne_none.mp hsome⟩
    · rename_i hnone
      exact hcopies (.inr (not_isSome_iff_eq_none.mp hnone))
  | renameBack =>
    obtain ⟨hnone, hprevious⟩ := hphase
    have hfree : (disk.previous.isSome && disk.homeIsFree) = true := by
      unfold Disk.homeIsFree
      rw [hnone, isSome_iff_ne_none.mpr hprevious]
      rfl
    dsimp only [Disk.call]
    rw [if_pos hfree]
    exact ⟨h.renameBack hnone hprevious, ⟨.inr rfl, [], rfl, rfl, nofun, nofun⟩⟩
  | copy staged rest =>
    obtain ⟨hsettled, copied, htree, hstaged⟩ := hphase
    cases rest with
    | nil =>
      rw [append_nil] at htree
      exact ⟨h, hsettled, htree ▸ hstaged⟩
    | cons entry rest =>
      obtain ⟨path, value⟩ := entry
      cases value with
      | none =>
        refine ⟨h, hsettled, copied ++ [(path, none)], ?_, hstaged.addDir path⟩
        rw [htree, append_assoc, singleton_append]
      | some content =>
        refine ⟨h.append content, hsettled, copied ++ [(path, some content)], ?_, hstaged.addFile path content⟩
        rw [htree, append_assoc, singleton_append]
  | rmPrevious staged =>
    obtain ⟨hsettled, hstaged⟩ := hphase
    refine ⟨h.of_recovered (recovered_rmEntry hsettled) (data_rmEntry disk), ?_⟩
    dsimp only [Disk.call]
    split
    · exact ⟨settled_rmEntry hsettled, hstaged.of_data (data_rmEntry disk)⟩
    · rename_i hnone
      have hnone := not_isSome_iff_eq_none.mp hnone
      rw [previous_rmEntry hnone]
      exact ⟨hnone, hstaged⟩
  | checkAway staged =>
    obtain ⟨hprevious, hstaged⟩ := hphase
    refine ⟨h, ?_⟩
    dsimp only [Disk.call]
    split
    · rename_i hsome
      exact ⟨hprevious, isSome_iff_ne_none.mp hsome, hstaged⟩
    · rename_i hnone
      exact ⟨not_isSome_iff_eq_none.mp hnone, hstaged⟩
  | renameAway staged =>
    obtain ⟨hprevious, hhome, hstaged⟩ := hphase
    have hfree : (disk.home.isSome && disk.previous.getD [] = []) = true := by
      rw [hprevious, isSome_iff_ne_none.mpr hhome]
      rfl
    dsimp only [Disk.call]
    rw [if_pos hfree]
    refine ⟨h.of_recovered ?_ rfl, rfl, hstaged.of_data rfl⟩
    obtain ⟨dir, hdir⟩ := ne_none_iff_exists'.mp hhome
    unfold Disk.recovered
    rw [hdir]
    rfl
  | renameIn staged =>
    obtain ⟨hnone, hstaged⟩ := hphase
    have hfree : disk.homeIsFree := by
      unfold Disk.homeIsFree
      rw [hnone]
      rfl
    dsimp only [Disk.call]
    rw [if_pos hfree]
    refine ⟨?_, some_ne_none _⟩
    have hdir := hstaged.dir
    constructor
    · refine Tree.ok_of_mapValues (f := disk.content) ?_
      show (disk.contents staged).Ok
      rw [hstaged.contents]
      exact src.ok
    · exact ⟨hdir.inodes, hdir.apart⟩
    · show IsVersion (disk.contents staged) src.tree
      rw [hstaged.contents]
      exact ⟨fun _ h => h, fun _ _ h => h⟩
  | rmReplaced =>
    refine ⟨h.of_recovered (recovered_rmEntry (.inl hphase)) (data_rmEntry disk), ?_⟩
    dsimp only [Disk.call]
    split
    · show disk.rmEntry.home ≠ none
      rwa [home_rmEntry]
    · trivial
  | writeRevision => exact ⟨h, rfl⟩
  | rmStaging throws =>
    obtain rfl : throws = false := hphase
    exact ⟨h, trivial⟩
  | done | threw => cases hgoes
  | mkdirHome | resolve | mkdir | catchHome | catchPrevious | catchRename | openFile |
    writeContent | copyHome => cases hphase

theorem find_eq_some {value : Option ℕ} (h : disk.find path = some value) :
    ∃ dir, disk.home = some dir ∧ Tree.find dir path = some value := by
  unfold Disk.find at h
  exact bind_eq_some_iff.mp h

theorem find_of_home (h : disk.home = some dir) (path : Path) : disk.find path = Tree.find dir path := by
  unfold Disk.find
  rw [h]
  rfl

theorem DiskOk.mkdir (h : DiskOk disk version) {made : Path} {name : Text}
    (hmkdir : (disk.find made = some none && disk.find (made ++ [name]) = none) = true) :
    DiskOk (disk.add (made ++ [name]) none) version := by
  rw [Bool.and_eq_true, decide_eq_true_eq, decide_eq_true_eq] at hmkdir
  obtain ⟨hparent, hnew⟩ := hmkdir
  obtain ⟨dir, hhome, hfind⟩ := find_eq_some hparent
  rw [find_of_home hhome] at hnew
  refine h.addDir hhome hnew ?_
  rw [dropLast_concat]
  exact hfind

/-! ### Writes of a file -/

/-- What a `writeFile` finds at each of its calls. -/
def WriteOk (disk : Disk) (path : Path) : Phase → Prop
  | .checkHome => True
  | .checkPrevious => disk.home = none
  | .renameBack => disk.home = none ∧ disk.previous ≠ none
  | .mkdirHome => Settled disk
  | .resolve _ _ => True
  | .mkdir _ _ => True
  | .openFile => True
  | .writeContent inode => ∃ dir, disk.home = some dir ∧ (path, some inode) ∈ dir
  | .done => True
  | .threw => True
  | _ => False

theorem DiskOk.mkdirHome (h : DiskOk disk version) (hsettled : Settled disk) :
    DiskOk { disk with home := some (disk.home.getD []) } version := by
  refine h.of_recovered ?_ rfl
  unfold Disk.recovered
  cases hhome : disk.home with
  | some dir => rfl
  | none =>
    obtain hne | hnone := hsettled
    · exact absurd hhome hne
    · rw [hnone]
      rfl

theorem write_call (path : Path) (content : Text) (h : DiskOk disk version)
    (hphase : WriteOk disk path phase) :
    DiskOk (disk.call (.writeFile path content) phase).1
        ((Job.writeFile path content).newVersion version phase (disk.call (.writeFile path content) phase).2) ∧
      WriteOk (disk.call (.writeFile path content) phase).1 path (disk.call (.writeFile path content) phase).2 := by
  cases phase with
  | checkHome =>
    refine ⟨h, ?_⟩
    dsimp only [Disk.call]
    split
    · rename_i hsome
      exact .inl (isSome_iff_ne_none.mp hsome)
    · rename_i hnone
      exact not_isSome_iff_eq_none.mp hnone
  | checkPrevious =>
    refine ⟨h, ?_⟩
    dsimp only [Disk.call]
    split
    · rename_i hsome
      exact ⟨hphase, isSome_iff_ne_none.mp hsome⟩
    · rename_i hnone
      exact .inr (not_isSome_iff_eq_none.mp hnone)
  | renameBack =>
    obtain ⟨hnone, hprevious⟩ := hphase
    dsimp only [Disk.call]
    split
    · exact ⟨h.renameBack hnone hprevious, .inr rfl⟩
    · exact ⟨h, trivial⟩
  | mkdirHome => exact ⟨h.mkdirHome hphase, trivial⟩
  | resolve made rest =>
    cases rest with
    | nil => exact ⟨h, trivial⟩
    | cons name rest =>
      dsimp only [Disk.call]
      split
      · exact ⟨h, trivial⟩
      · exact ⟨h, trivial⟩
      · exact ⟨h, trivial⟩
  | mkdir made rest =>
    cases rest with
    | nil => exact ⟨h, trivial⟩
    | cons name rest =>
      dsimp only [Disk.call]
      split
      · rename_i hmkdir
        exact ⟨h.mkdir hmkdir, trivial⟩
      · exact ⟨h, trivial⟩
  | openFile =>
    dsimp only [Disk.call]
    split
    · rename_i inode hfind
      obtain ⟨dir, hhome, hfile⟩ := find_eq_some hfind
      have htree := h.tree
      rw [recovered_of_home hhome] at htree
      have hpath : path ≠ [] := by
        rintro rfl
        rw [Tree.find_nil] at hfile
        cases hfile
      have hmem := (htree.find_eq_some hpath).mp hfile
      exact ⟨h.setContent hhome hmem [], dir, hhome, hmem⟩
    · rename_i hnew hparent
      obtain ⟨dir, hhome, hfind⟩ := find_eq_some hparent
      rw [find_of_home hhome] at hnew
      refine ⟨h.addFile hhome hnew hfind, dir ++ [(path, some disk.data.length)], ?_, ?_⟩
      · unfold Disk.add
        rw [hhome]
        rfl
      · exact mem_append_right _ (mem_singleton_self _)
    · exact ⟨h, trivial⟩
  | writeContent inode =>
    obtain ⟨dir, hhome, hmem⟩ := hphase
    exact ⟨h.setContent hhome hmem content, trivial⟩
  | done | threw => exact ⟨h, trivial⟩
  | copy | rmPrevious | checkAway | renameAway | renameIn | catchHome | catchPrevious | catchRename
  | rmReplaced | writeRevision | rmStaging | copyHome => cases hphase

end ArdurBot.Homes
