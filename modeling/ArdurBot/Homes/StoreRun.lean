import ArdurBot.Homes.StoreRead

/-!
# Every run of a store

When a writer begins only after the readers called before it have ended, no commit throws, what is
recovered is the tree of the last commit with the writes since, and a checkout delivers one such
tree. Otherwise a commit may come between two calls of a checkout.
-/

namespace ArdurBot.Homes

open List Utf16 Option Bool

variable {s : Store} {i : ℕ}

/-- What a writer finds at each of its calls. -/
def WriterOk (disk : Disk) (phase : Phase) : Job → Prop
  | .commit src => CommitOk disk src.tree phase
  | .writeFile path _ => WriteOk disk path phase
  | _ => False

structure StoreOk (s : Store) : Prop where
  disk : DiskOk s.disk s.version
  current : s.version ∈ s.versions
  commits : s.failed = false
  whole : ∀ delivered ∈ s.returned, ∃ version ∈ s.versions, SameFiles delivered version
  tickets : ∀ writer ∈ s.writers, writer.ticket < s.nextTicket
  jobs : ∀ writer ∈ s.writers, writer.job.isWrite
  starts : ∀ writer ∈ s.writers, writer.begun = false → writer.phase = .checkHome
  waits : ∀ writer ∈ s.writers.tail, writer.begun = false
  works : ∀ writer ∈ s.writers.head?, WriterOk s.disk writer.phase writer.job ∧ writer.phase.hasEnded = false
  bounds : ∀ reader ∈ s.readers, reader.bound ≤ s.nextTicket
  reads : ∀ reader ∈ s.readers, reader.job.isWrite = false
  served : ∀ reader ∈ s.readers, reader.phase ≠ none → ∀ writer ∈ s.writers, reader.bound ≤ writer.ticket
  atWork : ∀ reader ∈ s.readers, ∀ phase, reader.phase = some phase → phase.hasEnded ∨ ReadOk s.disk phase
  apart : ∀ writer ∈ s.writers.head?, writer.begun → ∀ reader ∈ s.readers,
    reader.hasEnded ∨ reader.phase = none ∧ writer.ticket < reader.bound

theorem storeOk_idle (hdisk : DiskOk s.disk s.version) (hcurrent : s.version ∈ s.versions)
    (hcommits : s.failed = false)
    (hwhole : ∀ delivered ∈ s.returned, ∃ version ∈ s.versions, SameFiles delivered version)
    (hwriters : s.writers = []) (hreaders : s.readers = []) : StoreOk s := by
  have hwriter : ∀ writer, writer ∉ s.writers := by
    rw [hwriters]
    exact fun _ => not_mem_nil
  have hreader : ∀ reader, reader ∉ s.readers := by
    rw [hreaders]
    exact fun _ => not_mem_nil
  constructor
  case tickets | jobs | starts => exact fun writer h => absurd h (hwriter writer)
  case waits => exact fun writer h => absurd (mem_of_mem_tail h) (hwriter writer)
  case works | apart => exact fun writer h => absurd (mem_of_mem_head? h) (hwriter writer)
  case bounds | reads | served | atWork => exact fun reader h => absurd h (hreader reader)
  all_goals assumption

theorem storeOk_new : StoreOk newStore := by
  refine storeOk_idle ⟨⟨nodup_nil, nofun, nofun⟩, ⟨?_, ?_⟩, ?_, ?_⟩ (mem_singleton_self _) rfl ?_ rfl rfl
  · exact fun _ _ h => absurd h not_mem_nil
  · exact fun _ _ _ h => absurd h not_mem_nil
  · exact forall_mem_nil _
  · exact fun _ _ h => absurd h not_mem_nil
  · exact forall_mem_nil _

variable {job : Job} {phase : Phase} {reader : Reader}

theorem writerOk_start (disk : Disk) (h : job.isWrite) : WriterOk disk .checkHome job := by
  cases job with
  | commit | writeFile => trivial
  | checkout | list | read => cases h

theorem writer_call {disk : Disk} {version : Contents} (h : DiskOk disk version)
    (hphase : WriterOk disk phase job) (hgoes : phase.hasEnded = false) :
    DiskOk (disk.call job phase).1 (job.newVersion version phase (disk.call job phase).2) ∧
      WriterOk (disk.call job phase).1 (disk.call job phase).2 job ∧
      (job.isCommit → (disk.call job phase).2 ≠ .threw) := by
  cases job with
  | commit src =>
    obtain ⟨hdisk, hnext⟩ := commit_call src h hphase hgoes
    refine ⟨hdisk, hnext, ?_⟩
    intro _ hthrew
    rw [hthrew] at hnext
    cases hnext
  | writeFile path content =>
    obtain ⟨hdisk, hnext⟩ := write_call path content h hphase
    exact ⟨hdisk, hnext, nofun⟩
  | checkout | list | read => cases hphase

theorem StoreOk.call (h : StoreOk s) (job : Job) : StoreOk (s.apply (.call job)) := by
  dsimp only [Store.apply]
  split
  · rename_i hwrite
    have hmem : ∀ writer ∈ s.writers ++ [{ ticket := s.nextTicket, job : Writer }],
        writer ∈ s.writers ∨ writer = { ticket := s.nextTicket, job : Writer } := by
      intro writer hwriter
      obtain hwriter | hwriter := mem_append.mp hwriter
      · exact .inl hwriter
      · exact .inr (mem_singleton.mp hwriter)
    have hhead : ∀ writer ∈ (s.writers ++ [{ ticket := s.nextTicket, job : Writer }]).head?,
        writer ∈ s.writers.head? ∨ writer = { ticket := s.nextTicket, job : Writer } := by
      intro writer hwriter
      cases hwriters : s.writers with
      | nil =>
        rw [hwriters] at hwriter
        exact .inr (some.inj hwriter).symm
      | cons first rest =>
        rw [hwriters] at hwriter
        exact .inl hwriter
    constructor
    · exact h.disk
    · exact h.current
    · exact h.commits
    · exact h.whole
    · intro writer hwriter
      show writer.ticket < s.nextTicket + 1
      obtain hwriter | rfl := hmem writer hwriter
      · exact Nat.lt_succ_of_lt (h.tickets writer hwriter)
      · exact Nat.lt_succ_self _
    · intro writer hwriter
      obtain hwriter | rfl := hmem writer hwriter
      · exact h.jobs writer hwriter
      · exact hwrite
    · intro writer hwriter
      obtain hwriter | rfl := hmem writer hwriter
      · exact h.starts writer hwriter
      · exact fun _ => rfl
    · intro writer hwriter
      cases hwriters : s.writers with
      | nil =>
        rw [hwriters] at hwriter
        exact absurd hwriter not_mem_nil
      | cons first rest =>
        have hwaits := h.waits
        rw [hwriters] at hwriter hwaits
        obtain hwriter | hwriter := mem_append.mp hwriter
        · exact hwaits writer hwriter
        · rw [mem_singleton.mp hwriter]
    · intro writer hwriter
      obtain hwriter | rfl := hhead writer hwriter
      · exact h.works writer hwriter
      · exact ⟨writerOk_start s.disk hwrite, rfl⟩
    · exact fun reader hreader => Nat.le_succ_of_le (h.bounds reader hreader)
    · exact h.reads
    · intro reader hreader hphase writer hwriter
      obtain hwriter | rfl := hmem writer hwriter
      · exact h.served reader hreader hphase writer hwriter
      · exact h.bounds reader hreader
    · exact h.atWork
    · intro writer hwriter hbegun
      obtain hwriter | rfl := hhead writer hwriter
      · exact h.apart writer hwriter hbegun
      · cases hbegun
  · rename_i hread
    have hread : job.isWrite = false := eq_false_iff.mpr hread
    have hmem : ∀ reader ∈ s.readers ++ [{ bound := s.nextTicket, job : Reader }],
        reader ∈ s.readers ∨ reader = { bound := s.nextTicket, job : Reader } := by
      intro reader hreader
      obtain hreader | hreader := mem_append.mp hreader
      · exact .inl hreader
      · exact .inr (mem_singleton.mp hreader)
    refine { h with bounds := ?_, reads := ?_, served := ?_, atWork := ?_, apart := ?_ }
    · intro reader hreader
      obtain hreader | rfl := hmem reader hreader
      · exact h.bounds reader hreader
      · exact Nat.le_refl _
    · intro reader hreader
      obtain hreader | rfl := hmem reader hreader
      · exact h.reads reader hreader
      · exact hread
    · intro reader hreader hphase
      obtain hreader | rfl := hmem reader hreader
      · exact h.served reader hreader hphase
      · exact absurd rfl hphase
    · intro reader hreader phase hphase
      obtain hreader | rfl := hmem reader hreader
      · exact h.atWork reader hreader phase hphase
      · cases hphase
    · intro writer hwriter hbegun reader hreader
      obtain hreader | rfl := hmem reader hreader
      · exact h.apart writer hwriter hbegun reader hreader
      · exact .inr ⟨rfl, h.tickets writer (mem_of_mem_head? hwriter)⟩

theorem StoreOk.alone (h : StoreOk s) (hsound : Sound s .stepWriter) {writer : Writer}
    (hhead : writer ∈ s.writers.head?) {reader : Reader} (hreader : reader ∈ s.readers) :
    reader.hasEnded ∨ reader.phase = none ∧ writer.ticket < reader.bound := by
  cases hbegun : writer.begun with
  | true => exact h.apart writer hhead hbegun reader hreader
  | false =>
    by_cases hbound : reader.bound ≤ writer.ticket
    · exact .inl (hsound writer hhead hbegun reader hreader hbound)
    · right
      refine ⟨?_, by omega⟩
      by_contra hphase
      exact hbound (h.served reader hreader hphase writer (mem_of_mem_head? hhead))

theorem StoreOk.stepWriter (h : StoreOk s) (hsound : Sound s .stepWriter) : StoreOk s.stepWriter := by
  unfold Store.stepWriter
  cases hwriters : s.writers with
  | nil => exact h
  | cons writer rest =>
    have hhead : writer ∈ s.writers.head? := by
      rw [hwriters]
      rfl
    have hmem : ∀ other ∈ rest, other ∈ s.writers := by
      intro other hother
      rw [hwriters]
      exact mem_cons_of_mem _ hother
    have hself : writer ∈ s.writers := mem_of_mem_head? hhead
    have hwaits : ∀ other ∈ rest, other.begun = false := by
      intro other hother
      refine h.waits other ?_
      rw [hwriters]
      exact hother
    obtain ⟨hworks, hgoes⟩ := h.works writer hhead
    obtain ⟨hdisk, hnext, hthrows⟩ := writer_call h.disk hworks hgoes
    have halone := fun reader hreader => @h.alone s hsound writer hhead reader hreader
    have hwhole : ∀ delivered ∈ s.returned, ∃ version ∈
        writer.job.newVersion s.version writer.phase (s.disk.call writer.job writer.phase).2 :: s.versions,
          SameFiles delivered version := by
      intro delivered hdelivered
      obtain ⟨version, hversion, hsame⟩ := h.whole delivered hdelivered
      exact ⟨version, mem_cons_of_mem _ hversion, hsame⟩
    have hquiet : ∀ reader ∈ s.readers, ∀ phase, reader.phase = some phase →
        phase.hasEnded ∨ ReadOk (s.disk.call writer.job writer.phase).1 phase := by
      intro reader hreader phase hphase
      obtain hended | ⟨hnone, _⟩ := halone reader hreader
      · left
        unfold Reader.hasEnded at hended
        rw [hphase] at hended
        exact hended
      · rw [hnone] at hphase
        cases hphase
    have hcommits : (s.failed || writer.job.isCommit &&
        decide ((s.disk.call writer.job writer.phase).2 = .threw)) = false := by
      rw [h.commits, Bool.false_or]
      cases hcommit : writer.job.isCommit with
      | false => rfl
      | true => exact decide_eq_false (hthrows hcommit)
    dsimp only
    by_cases hended : (s.disk.call writer.job writer.phase).2.hasEnded
    · rw [if_pos hended]
      constructor
      · exact hdisk
      · exact mem_cons_self
      · exact hcommits
      · exact hwhole
      · exact fun other hother => h.tickets other (hmem other hother)
      · exact fun other hother => h.jobs other (hmem other hother)
      · exact fun other hother => h.starts other (hmem other hother)
      · exact fun other hother => hwaits other (mem_of_mem_tail hother)
      · intro other hother
        have hother := mem_of_mem_head? hother
        rw [h.starts other (hmem other hother) (hwaits other hother)]
        exact ⟨writerOk_start _ (h.jobs other (hmem other hother)), rfl⟩
      · exact h.bounds
      · exact h.reads
      · exact fun reader hreader hphase other hother => h.served reader hreader hphase other (hmem other hother)
      · exact hquiet
      · intro other hother hbegun
        rw [hwaits other (mem_of_mem_head? hother)] at hbegun
        cases hbegun
    · rw [if_neg hended]
      have hcases : ∀ other ∈ { writer with phase := (s.disk.call writer.job writer.phase).2, begun := true } :: rest,
          other = { writer with phase := (s.disk.call writer.job writer.phase).2, begun := true } ∨ other ∈ rest :=
        fun other => mem_cons.mp
      constructor
      · exact hdisk
      · exact mem_cons_self
      · exact hcommits
      · exact hwhole
      · intro other hother
        obtain rfl | hother := hcases other hother
        · exact h.tickets writer hself
        · exact h.tickets other (hmem other hother)
      · intro other hother
        obtain rfl | hother := hcases other hother
        · exact h.jobs writer hself
        · exact h.jobs other (hmem other hother)
      · intro other hother hbegun
        obtain rfl | hother := hcases other hother
        · cases hbegun
        · exact h.starts other (hmem other hother) hbegun
      · exact hwaits
      · intro other hother
        obtain rfl := some.inj hother
        exact ⟨hnext, eq_false_iff.mpr hended⟩
      · exact h.bounds
      · exact h.reads
      · intro reader hreader hphase other hother
        obtain rfl | hother := hcases other hother
        · exact h.served reader hreader hphase writer hself
        · exact h.served reader hreader hphase other (hmem other hother)
      · exact hquiet
      · intro other hother _ reader hreader
        obtain rfl := some.inj hother
        exact halone reader hreader

theorem mem_of_mem_set {readers : List Reader} {other : Reader} (h : other ∈ readers.set i reader) :
    other = reader ∨ other ∈ readers := (mem_or_eq_of_mem_set h).symm

theorem StoreOk.begin (h : StoreOk s) (hreader : reader ∈ s.readers)
    (hserved : ∀ writer ∈ s.writers, reader.bound ≤ writer.ticket) (hphase : reader.phase = none) :
    StoreOk { s with readers := s.readers.set i { reader with phase := some .checkHome } } := by
  have hcases : ∀ other ∈ s.readers.set i { reader with phase := some .checkHome },
      other = { reader with phase := some .checkHome } ∨ other ∈ s.readers := fun other => mem_of_mem_set
  refine { h with bounds := ?_, reads := ?_, served := ?_, atWork := ?_, apart := ?_ }
  · intro other hother
    obtain rfl | hother := hcases other hother
    · exact h.bounds reader hreader
    · exact h.bounds other hother
  · intro other hother
    obtain rfl | hother := hcases other hother
    · exact h.reads reader hreader
    · exact h.reads other hother
  · intro other hother hne
    obtain rfl | hother := hcases other hother
    · exact hserved
    · exact h.served other hother hne
  · intro other hother phase hsome
    obtain rfl | hother := hcases other hother
    · obtain rfl := some.inj hsome
      exact .inr trivial
    · exact h.atWork other hother phase hsome
  · intro writer hwriter hbegun other hother
    obtain rfl | hother := hcases other hother
    · obtain hended | ⟨_, hlt⟩ := h.apart writer hwriter hbegun reader hreader
      · unfold Reader.hasEnded at hended
        rw [hphase] at hended
        cases hended
      · have hle := hserved writer (mem_of_mem_head? hwriter)
        omega
    · exact h.apart writer hwriter hbegun other hother

theorem StoreOk.readCall (h : StoreOk s) (hreader : reader ∈ s.readers) (hphase : reader.phase = some phase) :
    StoreOk { s with
      disk := (s.disk.call reader.job phase).1
      readers := s.readers.set i { reader with phase := some (s.disk.call reader.job phase).2 }
      returned := (deliveredOf phase).toList ++ s.returned } := by
  have hjob := h.reads reader hreader
  have hcases : ∀ other ∈ s.readers.set i { reader with phase := some (s.disk.call reader.job phase).2 },
      other = { reader with phase := some (s.disk.call reader.job phase).2 } ∨ other ∈ s.readers :=
    fun other => mem_of_mem_set
  by_cases hended : phase.hasEnded
  · have hsame : s.disk.call reader.job phase = (s.disk, phase) ∧ deliveredOf phase = none := by
      cases phase with
      | done | threw => exact ⟨rfl, rfl⟩
      | _ => cases hended
    have hreader' : ({ reader with phase := some phase } : Reader) = reader := by rw [← hphase]
    rw [hsame.1, hsame.2, hreader']
    rw [hsame.1, hreader'] at hcases
    have hmem : ∀ other ∈ s.readers.set i reader, other ∈ s.readers := by
      intro other hother
      obtain rfl | hother := hcases other hother
      · exact hreader
      · exact hother
    refine { h with bounds := ?_, reads := ?_, served := ?_, atWork := ?_, apart := ?_ }
    · exact fun other hother => h.bounds other (hmem other hother)
    · exact fun other hother => h.reads other (hmem other hother)
    · exact fun other hother => h.served other (hmem other hother)
    · exact fun other hother => h.atWork other (hmem other hother)
    · exact fun writer hwriter hbegun other hother => h.apart writer hwriter hbegun other (hmem other hother)
  · have hread := (h.atWork reader hreader phase hphase).resolve_left hended
    obtain ⟨hdisk, hgains, hnext⟩ := read_call hjob h.disk hread
    have hunbegun : ∀ writer ∈ s.writers.head?, writer.begun = false := by
      intro writer hwriter
      rw [eq_false_iff]
      intro hbegun
      obtain hdone | ⟨hnone, _⟩ := h.apart writer hwriter hbegun reader hreader
      · unfold Reader.hasEnded at hdone
        rw [hphase] at hdone
        exact hended hdone
      · rw [hnone] at hphase
        cases hphase
    constructor
    · exact hdisk
    · exact h.current
    · exact h.commits
    · intro delivered hdelivered
      obtain hnew | hold := mem_append.mp hdelivered
      · exact ⟨s.version, h.current, sameFiles_of_delivered h.disk hread (mem_toList.mp hnew)⟩
      · exact h.whole delivered hold
    · exact h.tickets
    · exact h.jobs
    · exact h.starts
    · exact h.waits
    · intro writer hwriter
      have hmem := mem_of_mem_head? hwriter
      rw [h.starts writer hmem (hunbegun writer hwriter)]
      exact ⟨writerOk_start _ (h.jobs writer hmem), rfl⟩
    · intro other hother
      obtain rfl | hother := hcases other hother
      · exact h.bounds reader hreader
      · exact h.bounds other hother
    · intro other hother
      obtain rfl | hother := hcases other hother
      · exact hjob
      · exact h.reads other hother
    · intro other hother hne
      obtain rfl | hother := hcases other hother
      · exact h.served reader hreader (by rw [hphase]; exact some_ne_none _)
      · exact h.served other hother hne
    · intro other hother phase' hsome
      obtain rfl | hother := hcases other hother
      · obtain rfl := some.inj hsome
        exact .inr hnext
      · exact (h.atWork other hother phase' hsome).imp_right fun hread => hread.gains hgains
    · intro writer hwriter hbegun
      rw [hunbegun writer hwriter] at hbegun
      cases hbegun

theorem StoreOk.stepReader (h : StoreOk s) (i : ℕ) : StoreOk (s.stepReader i) := by
  unfold Store.stepReader
  split
  · exact h
  rename_i reader hi
  have hreader := mem_of_getElem? hi
  split
  · rename_i hphase
    split
    · exact h
    · rename_i hwaits
      refine h.begin hreader ?_ hphase
      intro writer hwriter
      by_contra hlt
      exact hwaits (any_eq_true.mpr ⟨writer, hwriter, decide_eq_true (Nat.lt_of_not_le hlt)⟩)
  · rename_i hphase
    exact h.readCall hreader hphase

theorem storeOk_apply (s : Store) (op : Op) (h : StoreOk s) (hsound : Sound s op) : StoreOk (s.apply op) := by
  cases op with
  | call job => exact h.call job
  | stepWriter => exact h.stepWriter hsound
  | stepReader i => exact h.stepReader i
  | stop => exact storeOk_idle h.disk h.current h.commits h.whole rfl rfl

/-- Every run in which a writer begins only after the readers called before it have ended. -/
theorem home_holds (ops : List Op) (h : Run.Meets Store.apply Sound newStore ops) :
    StoreHolds (Run.after Store.apply newStore ops) := by
  have hok := Run.inv_of_meets storeOk_apply storeOk_new h
  exact ⟨hok.commits, hok.disk.version, hok.whole⟩

def pair (content : Text) : Source where
  tree := [([lit "a"], some content), ([lit "b"], some content)]
  ok := by
    constructor
    · exact (by decide : [[lit "a"], [lit "b"]].Nodup)
    · intro entry hentry
      obtain rfl | hentry := mem_cons.mp hentry
      · exact cons_ne_nil _ _
      · rw [mem_singleton.mp hentry]
        exact cons_ne_nil _ _
    · intro entry hentry path hpath hpre hne
      have hlength : entry.1.length = 1 := by
        obtain rfl | hentry := mem_cons.mp hentry
        · rfl
        · rw [mem_singleton.mp hentry]
          rfl
      refine absurd (hpre.eq_of_length_le ?_) hne
      rw [hlength]
      exact length_pos_iff.mpr hpath

/-- A commit of 11 calls and a checkout's start, of 11 as well: it has read one of two files. -/
def started : List Op :=
  [.call (.commit (pair (lit "old")))] ++ List.replicate 11 .stepWriter ++ [.call .checkout] ++
    List.replicate 11 (.stepReader 0)

/-- The checkout returns, and the process stops between the two renames of another commit. Another
checkout comes. -/
theorem home_holds_stop : StoreHolds (Run.after Store.apply newStore (started ++ List.replicate 7 (.stepReader 0) ++
    [.call (.commit (pair (lit "new")))] ++ List.replicate 7 .stepWriter ++ [.stop, .call .checkout] ++
      List.replicate 20 (.stepReader 0))) :=
  home_holds _ (by decide +kernel)

/-- A commit begins and ends before the checkout's next call: it delivers one file of the old tree
and one of the new. -/
theorem checkout_mixed : ¬ ∀ ops, StoreHolds (Run.after Store.apply newStore ops) := by
  intro h
  have hmixed : ¬ ∀ delivered ∈ (Run.after Store.apply newStore (started ++ [.call (.commit (pair (lit "new")))] ++
      List.replicate 14 .stepWriter ++ List.replicate 7 (.stepReader 0))).returned,
        ∃ version ∈ (Run.after Store.apply newStore (started ++ [.call (.commit (pair (lit "new")))] ++
          List.replicate 14 .stepWriter ++ List.replicate 7 (.stepReader 0))).versions,
            SameFiles delivered version := by
    decide +kernel
  exact hmixed (h _).whole

end ArdurBot.Homes
