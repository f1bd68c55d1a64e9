import ArdurBot.Groups.AskRows

/-!
# Group asks after any operations

A follow-up is created by one operation only, for an ask that is due (`Due`), and an ask that is
settled or stopped stays so. Members of an ask who were asked under different roots are counted for
each root apart; so what is said of all members of an ask needs that they have one root
(`OneRooted`).
-/

namespace ArdurBot.Groups

open List Utf16 ArdurBot.Core
open Bool hiding not_and not_or

/-- What a follow-up has seen of the members that were asked under the root. -/
structure Due (store : AskStore) (ask : GroupAsk) (root : AskRoot) : Prop where
  mem : root ∈ store.roots
  asked : askRows store root.rootTaskId ask ≠ []
  unsettled : ∀ row ∈ askRows store root.rootTaskId ask, row.isWoken = false
  decided : ∀ row ∈ askRows store root.rootTaskId ask, rowOutcome store row ≠ .pending
  notStopped : ∀ row ∈ askRows store root.rootTaskId ask, directlyStopped store row = false
  notCancelled : root.cancelRequested = false
  room : roomOpen store root

/-- The follow-ups that an operation creates. -/
def NewWakes (store store' : AskStore) : Prop :=
  ∀ run' ∈ store'.runs, ∀ ask, run'.wakes = some ask →
    (∃ run ∈ store.runs, run.id = run'.id ∧ run.wakes = some ask) ∨ ∃ root, Due store ask root

variable {store store' : AskStore} {callId messageId rootTaskId runId taskId : Text} {row : AskRow}
  {root : AskRoot} {deadlineAt now : ℤ} {members : List AskedMember} {op : AskOp} {ops : List AskOp}

theorem mem_askRows {ask : GroupAsk} :
    row ∈ askRows store rootTaskId ask ↔ row ∈ store.rows ∧ row.rootTaskId = rootTaskId ∧ row.ask = ask := by
  simp only [askRows, mem_filter, and_eq_true, decide_eq_true_eq]

theorem findRoot_eq_some (h : AskOk store) :
    findRoot store rootTaskId = some root ↔ root ∈ store.roots ∧ root.rootTaskId = rootTaskId :=
  Table.find_eq_some h.rootIds

theorem due_of_decision (hroot : root ∈ store.roots) {ask : GroupAsk}
    (hrows : askRows store root.rootTaskId ask ≠ [])
    (hopen : (askRows store root.rootTaskId ask).any AskRow.isWoken = false)
    (hdecide : decideGroupAsk store root (askRows store root.rootTaskId ask) now = .wake) :
    Due store ask root := by
  rw [decideGroupAsk] at hdecide
  split at hdecide
  · cases hdecide
  · next hlive =>
    split at hdecide
    · split at hdecide <;> cases hdecide
    · next hdecided =>
      split at hdecide
      · cases hdecide
      · next hroom =>
        simp only [or_eq_true, any_eq_true, not_or, not_exists, not_and, not_eq_true] at hlive
        simp only [any_eq_true, decide_eq_true_eq, not_exists, not_and] at hdecided
        simp only [any_eq_false, not_eq_true] at hopen
        refine ⟨hroot, hrows, hopen, hdecided, hlive.1, hlive.2, ?_⟩
        simpa using hroom

theorem plain_acceptRows (h : AskOk store) (rootTaskId : Text) (ask : GroupAsk) :
    SteadyStep store (acceptRows store rootTaskId ask) :=
  plain_accepted h _

theorem isWoken_settle {ask : GroupAsk} (hrow : row ∈ (settleAsk store rootTaskId ask now).rows)
    (hroot : row.rootTaskId = rootTaskId) (hask : row.ask = ask) : row.isWoken := by
  obtain ⟨other, -, rfl⟩ := mem_map.mp hrow
  split
  · rfl
  · next hnot =>
    rw [if_neg hnot] at hroot hask
    simpa [hroot, hask] using hnot

theorem ok_createFollowUp (h : AskOk store) (hrow : row ∈ store.rows)
    (hroot : row.rootTaskId = root.rootTaskId)
    (hfree : ∀ run ∈ store.runs, run.id ≠ runId ∧ run.wakes ≠ some row.ask) (now : ℤ) :
    AskOk (createFollowUp store root row.ask runId taskId now) ∧
      Onward store (createFollowUp store root row.ask runId taskId now) := by
  have haccept := plain_acceptRows h root.rootTaskId row.ask
  have hsettle := haccept.trans (plain_settle haccept.ok root.rootTaskId row.ask now)
  have hfirst : ∀ ask, some row.ask = some ask → (∀ run ∈ store.runs, run.wakes ≠ some ask) ∧
      ∃ other ∈ (settleAsk (acceptRows store root.rootTaskId row.ask) root.rootTaskId row.ask now).rows,
        other.ask = ask ∧ other.isWoken := by
    intro ask hask
    cases hask
    obtain ⟨other, hother, hkeeps⟩ := hsettle.onward.rows row hrow
    exact ⟨fun run hrun => (hfree run hrun).2, other, hother, hkeeps.ask,
      isWoken_settle hother (hkeeps.rootTaskId.trans hroot) hkeeps.ask⟩
  -- the rows are marked first, and the run is added then
  obtain ⟨hok, honward⟩ := @ok_add _ (createFollowUp store root row.ask runId taskId now) hsettle.ok []
    (wakeRun store root (askRows store root.rootTaskId row.ask) row.ask runId taskId) (append_nil _).symm rfl rfl
    hsettle.ok.rowIds (fun run hrun => (hfree run hrun).1) hfirst (fun _ _ hbind => by cases hbind)
    fun other hother => absurd hother not_mem_nil
  exact ⟨hok, hsettle.onward.trans honward⟩

structure AskStep (store store' : AskStore) : Prop where
  ok : AskOk store'
  onward : Onward store store'
  wakes : NewWakes store store'

/-- What an operation leaves that asks nobody. -/
structure KeptStep (store store' : AskStore) : Prop extends AskStep store store' where
  rowIds : store'.rows.map AskRow.id = store.rows.map AskRow.id

theorem step_of_plain (h : PlainStep store store') : AskStep store store' :=
  ⟨h.ok, h.onward, fun run hrun ask hwakes => .inl (h.quiet run hrun ask hwakes)⟩

theorem step_of_steady (h : SteadyStep store store') : KeptStep store store' :=
  ⟨step_of_plain h.toPlainStep, h.rowIds⟩

/-- The members of an ask were asked under one root. -/
def OneRooted (store : AskStore) : Prop :=
  ∀ row ∈ store.rows, ∀ other ∈ store.rows, row.ask = other.ask → row.rootTaskId = other.rootTaskId

theorem oneRooted_of_kept (hkept : KeptStep store store') (hrooted : OneRooted store) : OneRooted store' := by
  have hold : ∀ row' ∈ store'.rows, ∃ row ∈ store.rows, row.ask = row'.ask ∧ row.rootTaskId = row'.rootTaskId := by
    intro row' hrow'
    have hid : row'.id ∈ store.rows.map AskRow.id := by
      rw [← hkept.rowIds]
      exact mem_map_of_mem hrow'
    obtain ⟨row, hrow, hsame⟩ := mem_map.mp hid
    obtain ⟨later, hlater, hkeeps⟩ := hkept.onward.rows row hrow
    have heq : later = row' := Table.eq_of_key hkept.ok.rowIds hlater hrow' (hkeeps.id.trans hsame)
    exact ⟨row, hrow, heq ▸ hkeeps.ask.symm, heq ▸ hkeeps.rootTaskId.symm⟩
  intro row' hrow' other' hother' hask
  obtain ⟨row, hrow, haskRow, hrootRow⟩ := hold row' hrow'
  obtain ⟨other, hother, haskOther, hrootOther⟩ := hold other' hother'
  rw [← hrootRow, ← hrootOther]
  exact hrooted row hrow other hother (haskRow.trans (hask.trans haskOther.symm))

theorem addMembers_rows {run : RoomRun}
    (hop : members.foldlM (addMember run callId messageId deadlineAt now) store = some store') :
    ∀ row ∈ store'.rows, row ∈ store.rows ∨
      row.ask = { round := askRoundForRun run, askRunId := run.id } ∧ row.rootTaskId = run.rootTaskId := by
  induction members generalizing store with
  | nil =>
    cases hop
    exact fun row hrow => .inl hrow
  | cons member members ih =>
    rw [foldlM_cons, Option.bind_eq_bind, Option.bind_eq_some_iff] at hop
    obtain ⟨middle, hfirst, hrest⟩ := hop
    simp only [addMember, Option.bind_eq_bind, Option.bind_eq_some_iff] at hfirst
    obtain ⟨-, -, -, -, hstore⟩ := hfirst
    cases hstore
    intro row hrow
    obtain hmem | hnew := ih hrest row hrow
    · obtain hmem | hmem := mem_append.mp hmem
      · exact .inl hmem
      · rw [mem_singleton.mp hmem]
        exact .inr ⟨rfl, rfl⟩
    · exact .inr hnew

/-- A turn that may ask does so under the root under which the run has asked before. -/
def AskOp.Careful (store : AskStore) : AskOp → Prop
  | ask turn _ _ _ _ _ => ∀ found ∈ store.turns[turn]?, found.canAsk → ∀ run ∈ findRun store found.runId,
      ∀ row ∈ store.rows, row.ask = { round := askRoundForRun run, askRunId := run.id } →
        row.rootTaskId = run.rootTaskId
  | _ => True

instance AskOp.Careful.decidable (store : AskStore) (op : AskOp) : Decidable (op.Careful store) := by
  unfold AskOp.Careful
  split <;> infer_instance

theorem oneRooted_ask {turn : ℕ}
    (hop : askMembers turn callId messageId members deadlineAt now store = some store')
    (hcareful : (AskOp.ask turn callId messageId members deadlineAt now).Careful store)
    (hrooted : OneRooted store) :
    OneRooted store' := by
  simp only [askMembers, askGroupMembers, Option.bind_eq_bind, Option.bind_eq_some_iff,
    Option.guard_eq_some'] at hop
  obtain ⟨found, hturn, -, hcan, run, hfind, _, _, _, _, room, _, _, _, hop⟩ := hop
  have hsame := hcareful found hturn hcan run hfind
  split at hop
  · cases hop
    exact hrooted
  · simp only [Option.bind_eq_some_iff] at hop
    obtain ⟨_, _, root, _, _, _, _, _, _, _, hmembers⟩ := hop
    have hensured : (ensureRoot store run).rows = store.rows := by
      rw [ensureRoot]
      split <;> rfl
    have hrows := addMembers_rows hmembers
    rw [hensured] at hrows
    intro row hrow other hother hask
    obtain hold | ⟨haskRow, hrootRow⟩ := hrows row hrow
    · obtain hold' | ⟨haskOther, hrootOther⟩ := hrows other hother
      · exact hrooted row hold other hold' hask
      · rw [hrootOther]
        exact hsame row hold (hask.trans haskOther)
    · obtain hold' | ⟨haskOther, hrootOther⟩ := hrows other hother
      · rw [hrootRow]
        exact (hsame other hold' (hask.symm.trans haskRow)).symm
      · exact hrootRow.trans hrootOther.symm

theorem step_wake (h : AskOk store) {delegationId : Text} {woken : Option Text}
    (hop : wakeCoordinatorForGroupAsk delegationId runId taskId now store = some (store', woken)) :
    KeptStep store store' := by
  rw [wakeCoordinatorForGroupAsk] at hop
  split at hop
  · cases hop
    exact step_of_steady (SteadyStep.refl h)
  · next initial hfind =>
    obtain ⟨hinitial, hinitialId⟩ := (Table.find_eq_some h.rowIds).mp hfind
    split at hop
    · cases hop
      exact step_of_steady (SteadyStep.refl h)
    · next root hroot =>
      obtain ⟨hmem, hid⟩ := (findRoot_eq_some h).mp hroot
      have hasked : initial ∈ askRows store root.rootTaskId initial.ask :=
        mem_askRows.mpr ⟨hinitial, hid.symm, rfl⟩
      simp only at hop
      split at hop
      · cases hop
        exact step_of_steady (SteadyStep.refl h)
      · next hopen =>
        rw [not_eq_true] at hopen
        split at hop
        · cases hop
          exact step_of_steady (plain_settle h root.rootTaskId initial.ask now)
        · cases hop
          exact step_of_steady (SteadyStep.refl h)
        · next hdecide =>
          have hdue := due_of_decision hmem (ne_nil_of_mem hasked) hopen hdecide
          split at hop
          · cases hop
          · next hfree =>
            cases hop
            simp only [any_eq_true, or_eq_true, decide_eq_true_eq, not_exists, not_and, not_or] at hfree
            obtain ⟨hok, honward⟩ := ok_createFollowUp h hinitial hid.symm hfree now
            refine ⟨⟨hok, honward, fun run hrun ask hwakes => ?_⟩, ?_⟩
            · obtain rfl | hrun := mem_cons.mp hrun
              · cases hwakes
                exact .inr ⟨root, hdue⟩
              · exact .inl ⟨run, hrun, rfl, hwakes⟩
            · have haccept := plain_acceptRows h root.rootTaskId initial.ask
              exact (haccept.trans (plain_settle haccept.ok root.rootTaskId initial.ask now)).rowIds

theorem step_of_kept (hkept : KeptStep store store') :
    AskStep store store' ∧ (op.Careful store → OneRooted store → OneRooted store') :=
  ⟨hkept.toAskStep, fun _ => oneRooted_of_kept hkept⟩

theorem step_result (h : AskOk store) (hop : op.result store = some store') :
    AskStep store store' ∧ (op.Careful store → OneRooted store → OneRooted store') := by
  cases op with
  | ask turn callId messageId members deadlineAt now =>
    refine ⟨step_of_plain ?_, oneRooted_ask hop⟩
    obtain ⟨found, -, hop⟩ := Option.bind_eq_some_iff.mp hop
    obtain ⟨-, -, hop⟩ := Option.bind_eq_some_iff.mp hop
    exact plain_ask h hop
  | wake delegationId runId taskId now =>
    obtain ⟨⟨result, woken⟩, hwake, rfl⟩ := Option.map_eq_some_iff.mp hop
    exact step_of_kept (step_wake h hwake)
  | finalize runId outcome now => exact step_of_kept (step_of_steady (plain_finalize h hop))
  | confirmStop runId failed now => exact step_of_kept (step_of_steady (plain_confirmStop h hop))
  | settleFrozen runId now => exact step_of_kept (step_of_steady (plain_settleFrozen h hop))
  | completeTask runId now => exact step_of_kept (step_of_steady (plain_completeTask h hop))
  | moveRun runId status startedAt => exact step_of_kept (step_of_steady (plain_moveRun h hop))
  | createRun run => exact step_of_kept (step_of_steady (plain_createRun h hop))
  | openRoot root => exact step_of_kept (step_of_steady (plain_openRoot h hop))
  | reject id runId taskId => exact step_of_kept (step_of_steady (plain_reject h hop))
  | stop runIds =>
    cases hop
    exact step_of_kept (step_of_steady (plain_stop h runIds))
  | start id =>
    cases hop
    exact step_of_kept (step_of_steady (plain_start h id))
  | begin runId exhausted => exact step_of_kept (step_of_steady (plain_begin h hop))
  | offer turn offered => exact step_of_kept (step_of_steady (plain_offer h hop))
  | setGoal goal =>
    cases hop
    exact step_of_kept (step_of_steady (plain_same h rfl rfl rfl))
  | cancel rootTaskId =>
    cases hop
    exact step_of_kept (step_of_steady (plain_cancel h rootTaskId))
  | selectiveCancel runIds =>
    cases hop
    exact step_of_kept (step_of_steady (plain_selectiveCancel h runIds))
  | accept id =>
    cases hop
    exact step_of_kept (step_of_steady (plain_accepted h _))
  | changeRoom room present =>
    cases hop
    exact step_of_kept (step_of_steady (plain_same h rfl rfl rfl))
  | consume id now =>
    cases hop
    exact step_of_kept (step_of_steady (plain_consume h id now))

theorem step_apply (h : AskOk store) (op : AskOp) :
    AskStep store (op.apply store) ∧ (op.Careful store → OneRooted store → OneRooted (op.apply store)) := by
  rw [AskOp.apply]
  cases hresult : op.result store with
  | none => exact step_of_kept (step_of_steady (SteadyStep.refl h))
  | some store' => exact step_result h hresult

theorem ok_empty : AskOk emptyStore :=
  ⟨nodup_nil, nodup_nil, nodup_nil, forall_mem_nil _,
    forall_mem_nil _, forall_mem_nil _⟩

theorem ok_after (h : AskOk store) (ops : List AskOp) : AskOk (Run.after AskOp.apply store ops) :=
  @Run.inv_after _ _ AskOp.apply AskOk (fun _ op h => (step_apply h op).1.ok) store h ops

theorem onward_after (h : AskOk store) (ops : List AskOp) : Onward store (Run.after AskOp.apply store ops) :=
  @Run.rel_after _ _ AskOp.apply Onward AskOk (fun _ op h => (step_apply h op).1.ok) Onward.refl Onward.trans
    (fun _ op h => (step_apply h op).1.onward) store h ops

theorem oneRooted_after (h : AskOk store) (hrooted : OneRooted store)
    (hops : Run.Meets AskOp.apply (fun store op => op.Careful store) store ops) :
    OneRooted (Run.after AskOp.apply store ops) := by
  refine (@Run.inv_of_meets _ _ AskOp.apply (fun store => AskOk store ∧ OneRooted store) _ ?_ store
    ⟨h, hrooted⟩ ops
    hops).2
  intro store op hinv hcareful
  obtain ⟨hstep, hkeeps⟩ := step_apply hinv.1 op
  exact ⟨hstep.ok, hkeeps hcareful hinv.2⟩

/-- An ask that is settled, or one that was stopped. -/
def Ended (store : AskStore) (ask : GroupAsk) : Prop :=
  ∃ row ∈ store.rows, row.ask = ask ∧ (row.isWoken ∨ directlyStopped store row ∨
    ∃ root ∈ store.roots, root.rootTaskId = row.rootTaskId ∧ root.cancelRequested)

theorem ended_of_onward (honward : Onward store store') {ask : GroupAsk} (h : Ended store ask) :
    Ended store' ask := by
  obtain ⟨row, hrow, hask, hended⟩ := h
  obtain ⟨row', hrow', hkeeps⟩ := honward.rows row hrow
  refine ⟨row', hrow', hkeeps.ask.trans hask, ?_⟩
  obtain hwoken | hstopped | ⟨root, hroot, hid, hcancel⟩ := hended
  · obtain ⟨at_, hat⟩ := AskRow.isWoken_iff.mp hwoken
    exact .inl (AskRow.isWoken_iff.mpr ⟨at_, hkeeps.mark at_ hat⟩)
  · exact .inr (.inl (hkeeps.stopped hstopped))
  · obtain ⟨root', hroot', hid', hcancel'⟩ := honward.roots root hroot
    exact .inr (.inr ⟨root', hroot', hid'.trans (hid.trans hkeeps.rootTaskId.symm), hcancel' hcancel⟩)

theorem mem_askRows_of_due {store : AskStore} (hrooted : OneRooted store) {ask : GroupAsk} {root : AskRoot}
    (hdue : Due store ask root) {row : AskRow} (hrow : row ∈ store.rows) (hask : row.ask = ask) :
    row ∈ askRows store root.rootTaskId ask := by
  obtain ⟨first, hfirst⟩ := exists_mem_of_ne_nil _ hdue.asked
  obtain ⟨hmem, hroot, haskFirst⟩ := mem_askRows.mp hfirst
  refine mem_askRows.mpr ⟨hrow, ?_, hask⟩
  rw [← hroot]
  exact hrooted row hrow first hmem (hask.trans haskFirst.symm)

section

variable (h : AskOk store) (hrooted : OneRooted store) {ask : GroupAsk} (hended : Ended store ask)
include h hrooted hended

theorem not_due_of_ended (root : AskRoot) : ¬ Due store ask root := by
  intro hdue
  obtain ⟨row, hrow, hask, hcases⟩ := hended
  have hmem := mem_askRows_of_due hrooted hdue hrow hask
  obtain hwoken | hstopped | ⟨other, hother, hid, hcancel⟩ := hcases
  · rw [hdue.unsettled row hmem] at hwoken
    cases hwoken
  · rw [hdue.notStopped row hmem] at hstopped
    cases hstopped
  · obtain ⟨-, hroot, -⟩ := mem_askRows.mp hmem
    rw [Table.eq_of_key h.rootIds hother hdue.mem (hid.trans hroot), hdue.notCancelled] at hcancel
    cases hcancel

theorem no_follow_up (hops : Run.Meets AskOp.apply (fun store op => op.Careful store) store ops) :
    ∀ run' ∈ (Run.after AskOp.apply store ops).runs, run'.wakes = some ask →
      ∃ run ∈ store.runs, run.id = run'.id ∧ run.wakes = some ask := by
  induction ops generalizing store with
  | nil => exact fun run hrun hwakes => ⟨run, hrun, rfl, hwakes⟩
  | cons op ops ih =>
    intro run'' hrun'' hwakes''
    obtain ⟨hstep, hkeeps⟩ := step_apply h op
    obtain ⟨run', hrun', hid', hwakes'⟩ := ih hstep.ok (hkeeps hops.1 hrooted) (ended_of_onward hstep.onward hended)
      hops.2 run'' hrun'' hwakes''
    obtain ⟨run, hrun, hid, hwakes⟩ | ⟨root, hdue⟩ := hstep.wakes run' hrun' ask hwakes'
    · exact ⟨run, hrun, hid.trans hid', hwakes⟩
    · exact absurd hdue (not_due_of_ended h hrooted hended root)

end

/-- What is so of an ask, with all its members, when its follow-up is created. -/
structure Followed (store : AskStore) (ask : GroupAsk) (root : AskRoot) : Prop where
  asked : ∃ row ∈ store.rows, row.ask = ask
  unsettled : ∀ row ∈ store.rows, row.ask = ask → row.isWoken = false
  decided : ∀ row ∈ store.rows, row.ask = ask → rowOutcome store row ≠ .pending
  notStopped : ∀ row ∈ store.rows, row.ask = ask → directlyStopped store row = false
  notCancelled : root.cancelRequested = false
  room : roomOpen store root

theorem followed_of_due (hrooted : OneRooted store) {ask : GroupAsk} (hdue : Due store ask root) :
    Followed store ask root := by
  have hmem := fun row => @mem_askRows_of_due store hrooted ask root hdue row
  obtain ⟨first, hfirst⟩ := exists_mem_of_ne_nil _ hdue.asked
  obtain ⟨hrow, -, hask⟩ := mem_askRows.mp hfirst
  exact ⟨⟨first, hrow, hask⟩, fun row hrow hask => hdue.unsettled row (hmem row hrow hask),
    fun row hrow hask => hdue.decided row (hmem row hrow hask),
    fun row hrow hask => hdue.notStopped row (hmem row hrow hask), hdue.notCancelled, hdue.room⟩

theorem wake_of_woken (h : AskOk store) {other : AskRow} (hrow : row ∈ store.rows)
    (hother : other ∈ store.rows) (hask : other.ask = row.ask)
    (hroot : other.rootTaskId = row.rootTaskId)
    (hwoken : other.isWoken) (runId taskId : Text) (now : ℤ) :
    wakeCoordinatorForGroupAsk row.id runId taskId now store = some (store, none) := by
  have hfind : (store.rows.find? fun initial => initial.id = row.id) = some row :=
    (Table.find_eq_some h.rowIds).mpr ⟨hrow, rfl⟩
  rw [wakeCoordinatorForGroupAsk, hfind]
  simp only
  split
  · rfl
  · next root hfindRoot =>
    obtain ⟨-, hid⟩ := (findRoot_eq_some h).mp hfindRoot
    have hany : (askRows store root.rootTaskId row.ask).any AskRow.isWoken :=
      any_eq_true.mpr ⟨other, mem_askRows.mpr ⟨hother, hroot.trans hid.symm, hask⟩, hwoken⟩
    rw [if_pos hany]

theorem retry_of_decision {rows : List AskRow} (hdecide : decideGroupAsk store root rows now = .retry) :
    (∀ row ∈ rows, directlyStopped store row = false) ∧ root.cancelRequested = false ∧
      ((∃ row ∈ rows, rowOutcome store row = .pending) ∨ coordinatorBusy store root) := by
  rw [decideGroupAsk] at hdecide
  split at hdecide
  · cases hdecide
  · next hlive =>
    simp only [or_eq_true, any_eq_true, not_or, not_exists, not_and, not_eq_true] at hlive
    refine ⟨hlive.1, hlive.2, ?_⟩
    split at hdecide
    · next hpending =>
      obtain ⟨row, hrow, houtcome⟩ := any_eq_true.mp hpending
      exact .inl ⟨row, hrow, of_decide_eq_true houtcome⟩
    · split at hdecide
      · cases hdecide
      · split at hdecide
        · cases hdecide
        · split at hdecide
          · next hbusy => exact .inr hbusy
          · cases hdecide

/-- The ask can be settled: it was stopped, or its members are settled or wait, and its coordinator
is free. -/
def Settles (store : AskStore) (root : AskRoot) (ask : GroupAsk) : Prop :=
  (∃ row ∈ askRows store root.rootTaskId ask, directlyStopped store row) ∨ root.cancelRequested ∨
    (∀ row ∈ askRows store root.rootTaskId ask, rowOutcome store row ≠ .pending) ∧ coordinatorBusy store root = false

theorem wake_settles (h : AskOk store) (hrooted : OneRooted store) (hrow : row ∈ store.rows)
    (hroot : root ∈ store.roots) (hid : root.rootTaskId = row.rootTaskId)
    (hunsettled : ∀ other ∈ store.rows, other.ask = row.ask → other.isWoken = false)
    (hsettles : Settles store root row.ask) (hfresh : ∀ run ∈ store.runs, run.id ≠ runId) (now : ℤ) :
    ∃ store' woken, wakeCoordinatorForGroupAsk row.id runId taskId now store = some (store', woken) ∧
      ∀ other ∈ store'.rows, other.ask = row.ask → other.isWoken := by
  have hfind : (store.rows.find? fun initial => initial.id = row.id) = some row :=
    (Table.find_eq_some h.rowIds).mpr ⟨hrow, rfl⟩
  have hfindRoot : findRoot store row.rootTaskId = some root := (findRoot_eq_some h).mpr ⟨hroot, hid⟩
  have hopen : ¬ (askRows store root.rootTaskId row.ask).any AskRow.isWoken := by
    simp only [any_eq_true, not_exists, not_and, not_eq_true]
    intro other hother
    obtain ⟨hmem, -, hask⟩ := mem_askRows.mp hother
    exact hunsettled other hmem hask
  have hfree : ¬ (store.runs.any fun run => run.id = runId || run.wakes = some row.ask) = true := by
    simp only [any_eq_true, or_eq_true, decide_eq_true_eq, not_exists, not_and, not_or]
    refine fun run hrun => ⟨hfresh run hrun, fun hwakes => ?_⟩
    obtain ⟨other, hother, hask, hwoken⟩ := h.woken run hrun row.ask hwakes
    rw [hunsettled other hother hask] at hwoken
    cases hwoken
  -- the rows of the ask are those under its one root, and they are marked
  have hmarked : ∀ {before : AskStore}, OneRooted (settleAsk before root.rootTaskId row.ask now) →
      (∃ first ∈ (settleAsk before root.rootTaskId row.ask now).rows, first.ask = row.ask ∧
        first.rootTaskId = root.rootTaskId) →
      ∀ other ∈ (settleAsk before root.rootTaskId row.ask now).rows, other.ask = row.ask → other.isWoken := by
    intro before hafter hexists other hother hask
    obtain ⟨first, hfirst, hfirstAsk, hfirstRoot⟩ := hexists
    exact isWoken_settle hother ((hafter other hother first hfirst (hask.trans hfirstAsk.symm)).trans hfirstRoot) hask
  rw [wakeCoordinatorForGroupAsk, hfind]
  simp only [hfindRoot, if_neg hopen]
  cases hdecide : decideGroupAsk store root (askRows store root.rootTaskId row.ask) now with
  | settle =>
    have hstep := step_of_steady (plain_settle h root.rootTaskId row.ask now)
    obtain ⟨first, hfirst, hkeeps⟩ := hstep.onward.rows row hrow
    exact ⟨_, _, rfl, hmarked (oneRooted_of_kept hstep hrooted)
      ⟨first, hfirst, hkeeps.ask, hkeeps.rootTaskId.trans hid.symm⟩⟩
  | retry =>
    obtain ⟨hstopped, hcancelled, hwaits⟩ := retry_of_decision hdecide
    obtain ⟨other, hother, hstop⟩ | hcancel | ⟨hdecided, hidle⟩ := hsettles
    · rw [hstopped other hother] at hstop
      cases hstop
    · rw [hcancelled] at hcancel
      cases hcancel
    · obtain ⟨other, hother, hpending⟩ | hbusy := hwaits
      · exact absurd hpending (hdecided other hother)
      · rw [hidle] at hbusy
        cases hbusy
  | wake =>
    have haccept := plain_acceptRows h root.rootTaskId row.ask
    have hstep := step_of_steady (haccept.trans (plain_settle haccept.ok root.rootTaskId row.ask now))
    obtain ⟨first, hfirst, hkeeps⟩ := hstep.onward.rows row hrow
    have hrooted' := oneRooted_of_kept hstep hrooted
    exact ⟨_, _, if_neg hfree, hmarked (fun a ha b hb hask => hrooted' a ha b hb hask)
      ⟨first, hfirst, hkeeps.ask, hkeeps.rootTaskId.trans hid.symm⟩⟩

/-- **The fan-in of a group ask.** -/
theorem group_ask_holds (ops : List AskOp) : let store := Run.after AskOp.apply emptyStore ops
      (∀ run ∈ store.runs, ∀ other ∈ store.runs, ∀ ask, run.wakes = some ask → other.wakes = some ask → run = other) ∧
      (∀ ops', ∀ row ∈ store.rows, ∀ at_, row.coordinatorWokenAt = some at_ →
        ∃ row' ∈ (Run.after AskOp.apply store ops').rows, row'.id = row.id ∧ row'.coordinatorWokenAt = some at_) ∧
      (∀ row ∈ store.rows, ∀ other ∈ store.rows, other.ask = row.ask → other.rootTaskId = row.rootTaskId →
        other.isWoken = true → ∀ runId taskId now,
          wakeCoordinatorForGroupAsk row.id runId taskId now store = some (store, none)) ∧
      (Run.Meets AskOp.apply (fun store op => op.Careful store) emptyStore ops →
        (∀ op : AskOp, ∀ run' ∈ (op.apply store).runs, ∀ ask, run'.wakes = some ask →
          (∃ run ∈ store.runs, run.id = run'.id ∧ run.wakes = some ask) ∨ ∃ root ∈ store.roots,
            Followed store ask root) ∧
        (∀ ask, Ended store ask → ∀ ops', Run.Meets AskOp.apply (fun store op => op.Careful store) store ops' →
          ∀ run' ∈ (Run.after AskOp.apply store ops').runs, run'.wakes = some ask →
            ∃ run ∈ store.runs, run.id = run'.id ∧ run.wakes = some ask) ∧
        ∀ row ∈ store.rows, ∀ root ∈ store.roots, root.rootTaskId = row.rootTaskId →
          (∀ other ∈ store.rows, other.ask = row.ask → other.isWoken = false) → Settles store root row.ask →
          ∀ runId taskId now, (∀ run ∈ store.runs, run.id ≠ runId) →
            ∃ store' woken, wakeCoordinatorForGroupAsk row.id runId taskId now store = some (store', woken) ∧
              ∀ other ∈ store'.rows, other.ask = row.ask → other.isWoken = true) := by
  intro store
  have h := ok_after ok_empty ops
  refine ⟨h.once, ?_, ?_, fun hcareful => ?_⟩
  · intro ops' row hrow at_ hmark
    obtain ⟨row', hrow', hkeeps⟩ := (onward_after h ops').rows row hrow
    exact ⟨row', hrow', hkeeps.id, hkeeps.mark at_ hmark⟩
  · intro row hrow other hother hask hroot hwoken runId taskId now
    exact wake_of_woken h hrow hother hask hroot hwoken runId taskId now
  · have hempty : OneRooted emptyStore := fun row hrow => absurd hrow not_mem_nil
    have hrooted := oneRooted_after ok_empty hempty hcareful
    refine ⟨?_, ?_, ?_⟩
    · intro op run' hrun' ask hwakes
      obtain hold | ⟨root, hdue⟩ := (step_apply h op).1.wakes run' hrun' ask hwakes
      · exact .inl hold
      · exact .inr ⟨root, hdue.mem, followed_of_due hrooted hdue⟩
    · intro ask hended ops' hops' run' hrun' hwakes
      exact no_follow_up h hrooted hended hops' run' hrun' hwakes
    · intro row hrow root hroot hid hunsettled hsettles runId taskId now hfresh
      exact wake_settles h hrooted hrow hroot hid hunsettled hsettles hfresh now

def coordinatorRun : RoomRun where
  id := lit "run"
  threadId := lit "room"
  botId := lit "chief"
  taskId := lit "task"
  delegationRootTaskId := none
  delegationId := none
  goalId := none
  status := .queued
  cancelRequested := false
  startedAt := none
  sourceMessageId := none
  wakes := none

def exampleRoom : Room where
  threadId := lit "room"
  coordinatorBotId := some (lit "chief")
  memberIds := [lit "chief", lit "ann", lit "ben"]
  paused := false

/-- A turn of the coordinator in the room, in which it asks a member. -/
def askAnn : List AskOp :=
  [.changeRoom exampleRoom true, .createRun coordinatorRun, .begin (lit "run") false, .offer 0 true,
    .moveRun (lit "run") .running (some 0),
    .ask 0 (lit "call1") (lit "m1") [⟨lit "ann", lit "d1", lit "r1", lit "t1"⟩] 1000 1]

/-- It asks another in the same turn, and the one has answered. -/
def askBen : List AskOp :=
  [.ask 0 (lit "call2") (lit "m2") [⟨lit "ben", lit "d2", lit "r2", lit "t2"⟩] 1000 2,
    .moveRun (lit "r1") .running (some 3), .finalize (lit "r1") .completed 4, .finalize (lit "run") .completed 5]

def benFails : List AskOp := [.moveRun (lit "r2") .running (some 3), .finalize (lit "r2") .failed 5]

def exampleAsk : GroupAsk := ⟨1, lit "run"⟩

theorem group_ask_holds_failed :
    let store := Run.after AskOp.apply emptyStore (askAnn ++ askBen ++ benFails)
    ∃ run' ∈ ((AskOp.wake (lit "d1") (lit "w1") (lit "t3") 6).apply store).runs, run'.wakes = some exampleAsk ∧
      ∃ root ∈ store.roots, Followed store exampleAsk root := by
  intro store
  obtain ⟨-, -, -, hcareful⟩ := group_ask_holds (askAnn ++ askBen ++ benFails)
  obtain ⟨hfollowed, -⟩ := hcareful (by decide +kernel)
  have hwoken : ∃ run' ∈ ((AskOp.wake (lit "d1") (lit "w1") (lit "t3") 6).apply store).runs,
      run'.wakes = some exampleAsk ∧
      ∀ run ∈ store.runs, run.wakes = none := by decide +kernel
  obtain ⟨run', hmem, hwakes, hnone⟩ := hwoken
  refine ⟨run', hmem, hwakes, (hfollowed _ run' hmem exampleAsk hwakes).resolve_left ?_⟩
  rintro ⟨run, hrun, -, hsome⟩
  rw [hnone run hrun] at hsome
  cases hsome

/-- A goal of the room is started within the turn, and another worker that continues the run links
it to the goal. -/
def linkGoal : List AskOp :=
  [.openRoot ⟨lit "goal-task", lit "chief", lit "room", false⟩,
    .setGoal ⟨lit "goal", lit "goal-task", lit "room", lit "chief", true⟩, .begin (lit "run") false]

/-- The follow-up is created while the other member has not answered. -/
theorem split_follow_up :
    let store := Run.after AskOp.apply emptyStore (askAnn ++ linkGoal ++ askBen)
    ∃ row ∈ store.rows, rowOutcome store row = .pending ∧ (∀ run ∈ store.runs, run.wakes = none) ∧
      ∃ run ∈ ((AskOp.wake (lit "d1") (lit "w1") (lit "t3") 6).apply store).runs, run.wakes = some row.ask := by
  intro store
  decide +kernel

end ArdurBot.Groups
