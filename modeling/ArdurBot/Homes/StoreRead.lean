import ArdurBot.Homes.StoreOk

/-!
# Readers

Readers put back a home and make directories, and nothing else. While no writer is at work the files
of the home stay, and a checkout goes through all of them.
-/

namespace ArdurBot.Homes

open List Utf16 Option

variable {disk disk' : Disk} {version : Contents} {job : Job} {phase : Phase} {dir : Dir}
  {tasks : List Task} {delivered : Contents}

/-- A step of a reader: a home is put back, or directories are added to it. -/
structure Gains (disk disk' : Disk) : Prop where
  data : disk'.data = disk.data
  home : ∀ dir, disk.home = some dir → ∃ more :
    Dir, disk'.home = some (dir ++ more) ∧ ∀ entry ∈ more, entry.2 = none
  back : disk.home = none ∨ disk.previous = none → disk'.home = none ∨ disk'.previous = none
  settled : Settled disk → Settled disk'

theorem Gains.refl (disk : Disk) : Gains disk disk where
  data := rfl
  home dir hdir := ⟨[], by rw [append_nil]; exact hdir, nofun⟩
  back h := h
  settled h := h

theorem gains_renameBack (h : disk.home = none ∨ disk.previous = none) (hprevious : disk.previous ≠ none) :
    Gains disk { disk with home := disk.previous, previous := none } where
  data := rfl
  home dir hdir := by
    obtain hnone | hnone := h
    · rw [hnone] at hdir
      cases hdir
    · exact absurd hnone hprevious
  back _ := .inr rfl
  settled _ := .inr rfl

theorem gains_mkdirHome (h : Settled disk) : Gains disk { disk with home := some (disk.home.getD []) } where
  data := rfl
  home dir hdir := by
    refine ⟨[], ?_, nofun⟩
    rw [hdir, append_nil]
    rfl
  back hback := by
    right
    obtain hhome | hnone := h
    · exact hback.resolve_left hhome
    · exact hnone
  settled _ := .inl (some_ne_none _)

theorem gains_mkdir {path : Path} (h : disk.home ≠ none) : Gains disk (disk.add path none) where
  data := rfl
  home dir hdir := by
    refine ⟨[(path, none)], ?_, ?_⟩
    · unfold Disk.add
      rw [hdir]
      rfl
    · intro entry hentry
      rw [mem_singleton.mp hentry]
  back hback := .inr (hback.resolve_left h)
  settled _ := by
    left
    obtain ⟨dir, hdir⟩ := ne_none_iff_exists'.mp h
    unfold Disk.add
    rw [hdir]
    exact some_ne_none _

def Task.path : Task → Path
  | .root => []
  | .enter path => path
  | .readdir path => path
  | .resolve path => path
  | .stat path => path
  | .openFile path => path
  | .check path _ => path
  | .readFile path _ => path

def Task.Ok (dir : Dir) : Task → Prop
  | .root => True
  | .enter path => Tree.find dir path = some none
  | .readdir path => Tree.find dir path = some none
  | .resolve path => ∃ value, Tree.find dir path = some value
  | .stat path => ∃ value, Tree.find dir path = some value
  | .openFile path => ∃ inode, Tree.find dir path = some (some inode)
  | .check path inode => Tree.find dir path = some (some inode)
  | .readFile path inode => Tree.find dir path = some (some inode)

/-- Each file of the home is delivered, or a task will come to it; and what is delivered is of the
home. -/
structure Copying (disk : Disk) (dir : Dir) (tasks : List Task) (delivered : Contents) : Prop where
  covers : ∀ path content, (path, some content) ∈ disk.contents dir →
    (path, some content) ∈ delivered ∨ ∃ task ∈ tasks, task.path <+: path
  sound : ∀ path content, (path, some content) ∈ delivered → (path, some content) ∈ disk.contents dir
  tasks : ∀ task ∈ tasks, task.Ok dir

theorem copying_root (disk : Disk) (dir : Dir) : Copying disk dir [.root] [] where
  covers path _ _ := .inr ⟨.root, mem_singleton_self _, nil_prefix⟩
  sound _ _ h := absurd h not_mem_nil
  tasks task htask := by
    rw [mem_singleton.mp htask]
    trivial

section

variable {task : Task} (h : Copying disk dir (task :: tasks) delivered)
include h

theorem Copying.replace {more : List Task}
    (hmore : ∀ path content, (path, some content) ∈ disk.contents dir → task.path <+: path →
      ∃ other ∈ more, other.path <+: path)
    (hok : ∀ other ∈ more, other.Ok dir) : Copying disk dir (more ++ tasks) delivered where
  covers path content hmem := by
    obtain hdone | ⟨other, hother, hpre⟩ := h.covers path content hmem
    · exact .inl hdone
    · right
      obtain rfl | hother := mem_cons.mp hother
      · obtain ⟨another, hanother, hpre⟩ := hmore path content hmem hpre
        exact ⟨another, mem_append_left _ hanother, hpre⟩
      · exact ⟨other, mem_append_right _ hother, hpre⟩
  sound := h.sound
  tasks other hother := by
    obtain hother | hother := mem_append.mp hother
    · exact hok other hother
    · exact h.tasks other (mem_cons_of_mem _ hother)

theorem Copying.next {other : Task}
    (hpath : other.path = task.path) (hok : other.Ok dir) : Copying disk dir (other :: tasks) delivered := by
  have hcovers : ∀ path content, (path, some content) ∈ disk.contents dir → task.path <+: path →
      ∃ another ∈ [other], another.path <+: path :=
    fun path _ _ hpre => ⟨other, mem_singleton_self _, hpath ▸ hpre⟩
  refine h.replace hcovers ?_
  intro another hanother
  rw [mem_singleton.mp hanother]
  exact hok

end

theorem Copying.gains (h : Copying disk dir tasks delivered) (hdata : disk'.data = disk.data) {more : Dir}
    (hmore : ∀ entry ∈ more, entry.2 = none) : Copying disk' (dir ++ more) tasks delivered := by
  have hmem : ∀ path content,
      (path, some content) ∈ disk'.contents (dir ++ more) ↔ (path, some content) ∈ disk.contents dir := by
    intro path content
    rw [mem_contents_file, mem_contents_file]
    unfold Disk.content
    rw [hdata]
    refine exists_congr fun inode => and_congr_left fun _ => ?_
    rw [mem_append]
    constructor
    · rintro (hold | hnew)
      · exact hold
      · cases hmore _ hnew
    · exact .inl
  constructor
  · intro path content hfile
    exact h.covers path content ((hmem path content).mp hfile)
  · intro path content hfile
    exact (hmem path content).mpr (h.sound path content hfile)
  · intro task htask
    have hok := h.tasks task htask
    cases task with
    | root => trivial
    | enter | readdir | check | readFile => exact Tree.find_append_of_some hok
    | resolve | stat | openFile => exact hok.imp fun _ => Tree.find_append_of_some

theorem copying_copyStep (htree : Tree.Ok dir) (hhome : disk.home = some dir) {task : Task}
    (h : Copying disk dir (task :: tasks) delivered) :
    ∃ tasks' delivered', disk.copyStep tasks delivered task = .copyHome tasks' delivered' ∧
      Copying disk dir tasks' delivered' := by
  have hok := h.tasks task mem_cons_self
  have hfind := find_of_home hhome
  cases task with
  | root =>
    refine ⟨.enter [] :: tasks, delivered, ?_, h.next rfl (Tree.find_nil dir)⟩
    dsimp only [Disk.copyStep]
    rw [hhome]
    rfl
  | enter path =>
    refine ⟨.readdir path :: tasks, delivered, ?_, h.next rfl hok⟩
    dsimp only [Disk.copyStep]
    rw [hfind, show Tree.find dir path = some none from hok]
  | readdir path =>
    have hdir : Tree.find dir path = some none := hok
    refine ⟨(Tree.children dir path).map .resolve ++ tasks, delivered, ?_, h.replace ?_ ?_⟩
    · dsimp only [Disk.copyStep]
      rw [hfind, hdir, hhome]
    · intro leaf content hmem hpre
      obtain ⟨inode, hfile, _⟩ := mem_contents_file.mp hmem
      obtain ⟨child, hchild, hpre⟩ := htree.exists_child hdir hfile hpre
      exact ⟨.resolve child, mem_map_of_mem hchild, hpre⟩
    · intro other hother
      obtain ⟨child, hchild, rfl⟩ := mem_map.mp hother
      obtain ⟨entry, hentry, rfl⟩ := mem_map.mp hchild
      obtain ⟨value, hvalue⟩ : ∃ value, (entry.1, value) ∈ _ := ⟨entry.2, (mem_filter.mp hentry).1⟩
      exact ⟨value, htree.find_of_mem hvalue⟩
  | resolve path =>
    obtain ⟨value, hvalue⟩ := hok
    refine ⟨.stat path :: tasks, delivered, ?_, h.next rfl ⟨value, hvalue⟩⟩
    dsimp only [Disk.copyStep]
    rw [hfind, hvalue]
  | stat path =>
    obtain ⟨value, hvalue⟩ := hok
    cases value with
    | none =>
      refine ⟨.enter path :: tasks, delivered, ?_, h.next rfl hvalue⟩
      dsimp only [Disk.copyStep]
      rw [hfind, hvalue]
    | some inode =>
      refine ⟨.openFile path :: tasks, delivered, ?_, h.next rfl ⟨inode, hvalue⟩⟩
      dsimp only [Disk.copyStep]
      rw [hfind, hvalue]
  | openFile path =>
    obtain ⟨inode, hinode⟩ := hok
    refine ⟨.check path inode :: tasks, delivered, ?_, h.next rfl hinode⟩
    dsimp only [Disk.copyStep]
    rw [hfind, hinode]
  | check path inode =>
    have hfile : Tree.find dir path = some (some inode) := hok
    refine ⟨.readFile path inode :: tasks, delivered, ?_, h.next rfl hfile⟩
    dsimp only [Disk.copyStep]
    rw [hhome, if_pos]
    have hpath : path ≠ [] := by
      rintro rfl
      rw [Tree.find_nil] at hfile
      cases hfile
    exact any_eq_true.mpr ⟨_, (htree.find_eq_some hpath).mp hfile, decide_eq_true rfl⟩
  | readFile path inode =>
    have hfile : Tree.find dir path = some (some inode) := hok
    have hpath : path ≠ [] := by
      rintro rfl
      rw [Tree.find_nil] at hfile
      cases hfile
    have hmem := (htree.find_eq_some hpath).mp hfile
    refine ⟨tasks, delivered ++ [(path, some (disk.content inode))], rfl, ?_, ?_, ?_⟩
    · intro other content hother
      obtain hdone | ⟨task, htask, hpre⟩ := h.covers other content hother
      · exact .inl (mem_append_left _ hdone)
      · obtain rfl | htask := mem_cons.mp htask
        · left
          obtain ⟨i, hi, hcontent⟩ := mem_contents_file.mp hother
          obtain ⟨rfl, hsame⟩ := Prod.mk.inj (htree.eq_of_isPrefix hmem hi hpre)
          obtain rfl := some.inj hsame
          rw [← hcontent]
          exact mem_append_right _ (mem_singleton_self _)
        · exact .inr ⟨task, htask, hpre⟩
    · intro other content hother
      obtain hdone | hdone := mem_append.mp hother
      · exact h.sound other content hdone
      · cases mem_singleton.mp hdone
        exact mem_contents_file.mpr ⟨inode, hmem, rfl⟩
    · exact fun task htask => h.tasks task (mem_cons_of_mem _ htask)

/-- What a reader finds at each of its calls. -/
def ReadOk (disk : Disk) : Phase → Prop
  | .checkHome => True
  | .checkPrevious => disk.home = none ∨ disk.previous = none
  | .renameBack => disk.home = none ∨ disk.previous = none
  | .mkdirHome => Settled disk
  | .resolve _ _ => True
  | .mkdir _ _ => True
  | .copyHome tasks delivered => ∃ dir, disk.home = some dir ∧ Copying disk dir tasks delivered
  | .done => True
  | .threw => True
  | _ => False

theorem ReadOk.gains (h : ReadOk disk phase) (hgains : Gains disk disk') : ReadOk disk' phase := by
  cases phase with
  | checkPrevious | renameBack => exact hgains.back h
  | mkdirHome => exact hgains.settled h
  | copyHome tasks delivered =>
    obtain ⟨dir, hhome, hcopying⟩ := h
    obtain ⟨more, hhome', hmore⟩ := hgains.home dir hhome
    exact ⟨dir ++ more, hhome', hcopying.gains hgains.data hmore⟩
  | checkHome | resolve | mkdir | done | threw => trivial
  | copy | rmPrevious | checkAway | renameAway | renameIn | catchHome | catchPrevious | catchRename
  | rmReplaced | writeRevision | rmStaging | openFile | writeContent => cases h

section

variable (hjob : job.isWrite = false)
include hjob

theorem readOk_afterMkdir (dir : Dir) (hhome : disk.home = some dir) : ReadOk disk job.afterMkdir := by
  cases job with
  | commit | writeFile => cases hjob
  | checkout => exact ⟨dir, hhome, copying_root disk dir⟩
  | list | read => trivial

theorem afterRecover_of_read : job.afterRecover = .mkdirHome := by
  cases job with
  | commit | writeFile => cases hjob
  | checkout | list | read => rfl

theorem readOk_afterDirectories : ReadOk disk job.afterDirectories := by
  cases job with
  | commit | writeFile => cases hjob
  | checkout | list | read => trivial

theorem read_call (h : DiskOk disk version) (hphase : ReadOk disk phase) :
    DiskOk (disk.call job phase).1 version ∧ Gains disk (disk.call job phase).1 ∧
      ReadOk (disk.call job phase).1 (disk.call job phase).2 := by
  cases phase with
  | checkHome =>
    refine ⟨h, Gains.refl disk, ?_⟩
    dsimp only [Disk.call]
    split
    · rename_i hsome
      rw [afterRecover_of_read hjob]
      exact .inl (isSome_iff_ne_none.mp hsome)
    · rename_i hnone
      exact .inl (not_isSome_iff_eq_none.mp hnone)
  | checkPrevious =>
    refine ⟨h, Gains.refl disk, ?_⟩
    dsimp only [Disk.call]
    split
    · exact hphase
    · rename_i hnone
      rw [afterRecover_of_read hjob]
      exact .inr (not_isSome_iff_eq_none.mp hnone)
  | renameBack =>
    dsimp only [Disk.call]
    split
    · rename_i hfree
      have hprevious := isSome_iff_ne_none.mp (Bool.and_eq_true_iff.mp hfree).1
      have hnone : disk.home = none := hphase.resolve_right hprevious
      rw [afterRecover_of_read hjob]
      exact ⟨h.renameBack hnone hprevious, gains_renameBack hphase hprevious, .inr rfl⟩
    · exact ⟨h, Gains.refl disk, trivial⟩
  | mkdirHome =>
    exact ⟨h.mkdirHome hphase, gains_mkdirHome hphase, readOk_afterMkdir hjob _ rfl⟩
  | resolve made rest =>
    cases rest with
    | nil => exact ⟨h, Gains.refl disk, readOk_afterDirectories hjob⟩
    | cons name rest =>
      dsimp only [Disk.call]
      split
      · exact ⟨h, Gains.refl disk, trivial⟩
      · exact ⟨h, Gains.refl disk, trivial⟩
      · exact ⟨h, Gains.refl disk, trivial⟩
  | mkdir made rest =>
    cases rest with
    | nil => exact ⟨h, Gains.refl disk, trivial⟩
    | cons name rest =>
      dsimp only [Disk.call]
      split
      · rename_i hmkdir
        have hfind := of_decide_eq_true (Bool.and_eq_true_iff.mp hmkdir).1
        obtain ⟨dir, hhome, _⟩ := find_eq_some hfind
        exact ⟨h.mkdir hmkdir, gains_mkdir (hhome ▸ some_ne_none _), trivial⟩
      · exact ⟨h, Gains.refl disk, trivial⟩
  | copyHome tasks delivered =>
    obtain ⟨dir, hhome, hcopying⟩ := hphase
    cases tasks with
    | nil => exact ⟨h, Gains.refl disk, trivial⟩
    | cons task tasks =>
      have htree := h.tree
      rw [recovered_of_home hhome] at htree
      obtain ⟨tasks', delivered', hstep, hcopying'⟩ := copying_copyStep htree hhome hcopying
      dsimp only [Disk.call]
      rw [hstep]
      exact ⟨h, Gains.refl disk, dir, hhome, hcopying'⟩
  | done | threw => exact ⟨h, Gains.refl disk, trivial⟩
  | copy | rmPrevious | checkAway | renameAway | renameIn | catchHome | catchPrevious | catchRename
  | rmReplaced | writeRevision | rmStaging | openFile | writeContent => cases hphase

end

theorem sameFiles_of_delivered (h : DiskOk disk version) (hphase : ReadOk disk phase)
    (hdelivered : deliveredOf phase = some delivered) : SameFiles delivered version := by
  unfold deliveredOf at hdelivered
  split at hdelivered
  · obtain rfl := some.inj hdelivered
    obtain ⟨dir, hhome, hcopying⟩ := hphase
    have hversion := h.version
    rw [recovered_of_home hhome] at hversion
    intro path content
    constructor
    · exact fun hfile => hversion.2 path content (hcopying.sound path content hfile)
    · intro hfile
      obtain hdone | ⟨task, htask, _⟩ := hcopying.covers path content (hversion.1 _ hfile)
      · exact hdone
      · exact absurd htask not_mem_nil
  · cases hdelivered

end ArdurBot.Homes
