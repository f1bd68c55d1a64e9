import ArdurBot.Broker.ProviderOk
import Mathlib.Algebra.Order.BigOperators.Group.List
import Mathlib.Algebra.Order.Group.Nat

/-!
# Every interleaving of requests

Each act keeps the records of its request and leaves those of the others alone, on a condition: the
success of a request is stored while the request is live, and no snapshot of its usage fails to be
stored.
-/

namespace ArdurBot.ProviderBroker

open List

variable {b : Broker} {index : ℕ} {r : Request}

/-! ### Writes -/

/-- The success of a request is stored while it is live, and no snapshot fails. -/
def Timely (b : Broker) (index : ℕ) (r : Request) : Answer → Prop
  | .write true => r.queue.head? = some (endOf index .success) → b.live index
  | .write false => ∀ usage ∈ r.queue.head?, usage.kind ≠ .snapshot
  | _ => True

instance (b : Broker) (index : ℕ) (r : Request) : ∀ answer, Decidable (Timely b index r answer)
  | .write true => inferInstanceAs (Decidable (_ → _))
  | .write false => inferInstanceAs (Decidable (∀ usage ∈ r.queue.head?, usage.kind ≠ .snapshot))
  | .go => inferInstanceAs (Decidable True)
  | .active _ => inferInstanceAs (Decidable True)
  | .admitted _ => inferInstanceAs (Decidable True)
  | .response _ => inferInstanceAs (Decidable True)
  | .next .. => inferInstanceAs (Decidable True)
  | .usage => inferInstanceAs (Decidable True)
  | .translated _ => inferInstanceAs (Decidable True)
  | .rejected => inferInstanceAs (Decidable True)

def store (b : Broker) (index : ℕ) (usage : Usage) : Broker :=
  { b with
    usage := b.usage ++ [usage]
    recorded := if usage.kind = .finished .success then b.recorded ++ [(index, b.live index)] else b.recorded }

/-- The broker with one more write that failed. -/
def lose (b : Broker) (usage : Usage) : Broker :=
  { b with failedWrites := b.failedWrites ++ [usage] }

variable {usage : Usage} {entry : ℕ × Bytes} {r' : Request} {queue : List Usage} {outcome : Outcome}
  {after : AfterFinish} {stored : Bool} {answer : Answer} {index' : ℕ}
  {s : Calls.State Broker Request} {op : Calls.Op Request Answer Event}

theorem mem_recorded_store {entry : ℕ × Bool} (h : entry ∈ b.recorded) :
    entry ∈ (store b index usage).recorded := by
  unfold store
  split
  · exact mem_append_left _ h
  · exact h

theorem brokerOk_store (h : BrokerOk b) (hlive : usage.kind = .finished .success → b.live index) :
    BrokerOk (store b index usage) where
  called other hother := mem_append_left _ (h.called other hother)
  __ := h
  recorded entry hentry := mem_recorded_store (h.recorded entry hentry)
  live := by
    intro entry hentry
    unfold store at hentry
    split at hentry
    · next hsuccess =>
      obtain hold | hnew := mem_append.mp hentry
      · exact h.live entry hold
      · rw [mem_singleton.mp hnew]
        exact hlive hsuccess
    · exact h.live entry hentry

theorem terminals_store (usage : Usage) : terminals (store b index usage) index =
    terminals b index ++ if usage.request = index && usage.isTerminal then [usage] else [] := by
  unfold terminals store
  rw [filter_append, filter_singleton, Bool.cond_eq_ite]

section

variable (h : BrokerOk b) (usage : Usage) (husage : usage.request = index)
include h husage

theorem actedOk_store
    (hlive : usage.kind = .finished .success → b.live index)
    (hstage : StageOk (store b index usage) index r') :
    ActedOk b index (store b index usage, r') := by
  refine ⟨brokerOk_store h hlive, hstage, ?_, .refl _ _ _, .refl _ _ _⟩
  have hconcat := @appended_concat _ Usage.request b.usage usage
  rw [husage] at hconcat
  exact hconcat

theorem actedOk_lose (hstage : StageOk (lose b usage) index r') : ActedOk b index (lose b usage, r') := by
  refine ⟨{ h with }, hstage, .refl _ _ _, ?_, .refl _ _ _⟩
  have hconcat := @appended_concat _ Usage.request b.failedWrites usage
  rw [husage] at hconcat
  exact hconcat

end

def snapshotOf (index : ℕ) : Usage where
  request := index
  kind := .snapshot

theorem terminals_snapshot : terminals (store b index (snapshotOf index)) index = terminals b index := by
  rw [terminals_store, show (snapshotOf index).isTerminal = false from rfl, Bool.and_false,
    if_neg Bool.false_ne_true,
    append_nil]

theorem Running.store (h : Running b index r) (hqueue : r.queue = snapshotOf index :: queue) :
    Running (store b index (snapshotOf index)) index { r with queue } where
  holds := h.holds
  started := mem_append_left _ h.started
  __ := h
  queue usage husage := h.queue usage (hqueue ▸ mem_cons_of_mem _ husage)
  terminals := terminals_snapshot.trans h.terminals

theorem Finishing.store (h : Finishing b index r) (hqueue : r.queue = snapshotOf index :: queue) :
    Finishing (store b index (snapshotOf index)) index { r with queue } where
  holds := h.holds
  started := mem_append_left _ h.started
  __ := h
  queue usage husage := h.queue usage (hqueue ▸ mem_cons_of_mem _ husage)
  terminals := terminals_snapshot.trans h.terminals

/-! ### Settling -/

theorem settle_stored (hqueue : r.queue = usage :: queue) :
    settle b index r true = (store b index usage, { r with queue }) := by
  unfold settle
  rw [hqueue]
  rfl

theorem settle_failed (hqueue : r.queue = usage :: queue) :
    settle b index r false = (lose b usage, { r with queue, accountingFailed := true }) := by
  unfold settle
  rw [hqueue]
  rfl

theorem settle_nil (hqueue : r.queue = []) (stored : Bool) : settle b index r stored = (b, r) := by
  unfold settle
  rw [hqueue]

theorem stageOk_starting (hphase : r.phase = .starting) : StageOk b index r ↔ Starting b index r := by
  unfold StageOk
  rw [hphase]

theorem stageOk_closing (hphase : r.phase = .closing outcome after) :
    StageOk b index r ↔ Closing b index r outcome ∧ ∀ bytes, after = .deliver bytes →
      outcome = .success ∧ b.deliveredBytes + bytes.length ≤ maxResponseBytes := by
  unfold StageOk
  rw [hphase]

section

variable (h : BrokerOk b)
include h

theorem settle_starting (hphase : r.phase = .starting) (hr : Starting b index r) (stored : Bool) :
    ActedOk b index (settle b index r stored) := by
  obtain ⟨hqueue, hwrites, huntouched⟩ | ⟨hqueue, hwrites, hstarted⟩ | ⟨hqueue, hwrites, huntouched⟩ := hr.write
  · cases stored with
    | true =>
      rw [settle_stored hqueue]
      have hstarting : Starting (store b index (startOf index)) index { r with queue := [] } := by
        refine ⟨hr.holds, hr.unfinished, .inr (.inl ⟨rfl, hwrites, ?_⟩), ?_, hr.undelivered⟩
        · exact mem_append_right _ mem_cons_self
        · rw [terminals_store, show (startOf index).isTerminal = false from rfl, Bool.and_false,
            if_neg Bool.false_ne_true, append_nil]
          exact hr.terminals
      have hstage : StageOk (store b index (startOf index)) index { r with queue := [] } :=
        (stageOk_starting (by exact hphase)).mpr hstarting
      exact actedOk_store h (startOf index) rfl (fun hkind => by cases hkind) hstage
    | false =>
      rw [settle_failed hqueue]
      have hstarting : Starting (lose b (startOf index)) index { r with queue := [], accountingFailed := true } :=
        { hr with write := .inr (.inr ⟨rfl, rfl, huntouched.usage, huntouched.delivered⟩) }
      have hstage : StageOk (lose b (startOf index)) index { r with queue := [], accountingFailed := true } :=
        (stageOk_starting (by exact hphase)).mpr hstarting
      exact actedOk_lose h (startOf index) rfl hstage
  all_goals
    rw [settle_nil hqueue]
    exact actedOk_same h ((stageOk_starting hphase).mpr hr) rfl rfl rfl

theorem settle_snapshot (hstage : StageOk b index r) (hqueue : ∀ usage ∈ r.queue, usage = snapshotOf index)
    (htimely : Timely b index r (.write stored)) (hstored : ∀ queue, r.queue = snapshotOf index :: queue →
      StageOk (store b index (snapshotOf index)) index { r with queue }) :
    ActedOk b index (settle b index r stored) := by
  cases hcases : r.queue with
  | nil =>
    rw [settle_nil hcases]
    exact actedOk_same h hstage rfl rfl rfl
  | cons usage queue =>
    have husage : usage = snapshotOf index := hqueue usage (hcases ▸ mem_cons_self)
    subst husage
    cases stored with
    | true =>
      rw [settle_stored hcases]
      exact actedOk_store h (snapshotOf index) rfl (fun hkind => by cases hkind) (hstored queue hcases)
    | false =>
      have hnot := htimely (snapshotOf index) (by rw [hcases]; rfl)
      exact absurd rfl hnot

theorem settle_closing (hphase : r.phase = .closing outcome after) (hr : Closing b index r outcome)
    (hafter : ∀ bytes, after = .deliver bytes → outcome = .success ∧ b.deliveredBytes + bytes.length ≤ maxResponseBytes)
    (htimely : Timely b index r (.write stored)) : ActedOk b index (settle b index r stored) := by
  obtain ⟨hqueue, hwrites, hterminals⟩ | ⟨hqueue, -⟩ | ⟨hqueue, -⟩ := hr.write
  · cases stored with
    | true =>
      rw [settle_stored hqueue]
      have hlive : (endOf index outcome).kind = .finished .success → b.live index := by
        intro hkind
        have hsuccess : outcome = .success := UsageKind.finished.inj hkind
        exact htimely (by rw [hqueue, hsuccess]; rfl)
      have hclosing : Closing (store b index (endOf index outcome)) index { r with queue := [] } outcome := by
        refine ⟨hr.holds, mem_append_left _ hr.started, hr.finished, .inr (.inl ⟨rfl, hwrites, ?_, ?_⟩),
          hr.undelivered⟩
        · rw [terminals_store, hterminals, show (endOf index outcome).isTerminal from rfl, Bool.and_true,
            if_pos (by exact decide_eq_true rfl), nil_append]
        · intro hsuccess
          subst hsuccess
          unfold store endOf
          rw [if_pos rfl, hlive rfl]
          exact mem_append_right _ mem_cons_self
      have hstage : StageOk (store b index (endOf index outcome)) index { r with queue := [] } :=
        (stageOk_closing (by exact hphase)).mpr ⟨hclosing, hafter⟩
      exact actedOk_store h (endOf index outcome) rfl hlive hstage
    | false =>
      rw [settle_failed hqueue]
      have hclosing : Closing (lose b (endOf index outcome)) index { r with queue := [], accountingFailed := true } outcome :=
        { hr with write := .inr (.inr ⟨rfl, rfl, hterminals, mem_append_right _ mem_cons_self⟩) }
      have hstage : StageOk (lose b (endOf index outcome)) index { r with queue := [], accountingFailed := true } :=
        (stageOk_closing (by exact hphase)).mpr ⟨hclosing, hafter⟩
      exact actedOk_lose h (endOf index outcome) rfl hstage
  all_goals
    rw [settle_nil hqueue]
    exact actedOk_same h ((stageOk_closing hphase).mpr ⟨hr, hafter⟩) rfl rfl rfl

theorem settle_empty (hstage : StageOk b index r) (hqueue : r.queue = []) (stored : Bool) :
    ActedOk b index (settle b index r stored) := by
  rw [settle_nil hqueue]
  exact actedOk_same h hstage rfl rfl rfl

/-! ### Acts -/

theorem settle_ok (hstage : StageOk b index r) (htimely : Timely b index r (.write stored)) :
    ActedOk b index (settle b index r stored) := by
  obtain ⟨granted, admitted, reservable, stream, phase, queue, accountingFailed, finished⟩ := r
  let r : Request := ⟨granted, admitted, reservable, stream, phase, queue, accountingFailed, finished⟩
  have hrunning : Running b index (r.to phase) → phase.stage = .running →
      (∀ bytes, phase = .observing bytes → b.deliveredBytes + bytes.length ≤ maxResponseBytes) →
      ActedOk b index (settle b index r stored) :=
    fun hr hrun hbytes => settle_snapshot h (hr.stage hrun hbytes) hr.queue htimely fun _ hqueue =>
      (hr.store hqueue).stage hrun hbytes
  have hother : Running b index (r.to phase) → phase.stage = .running → (∀ bytes, phase ≠ .observing bytes) →
      ActedOk b index (settle b index r stored) :=
    fun hr hrun hnot => hrunning hr hrun fun bytes hsame => absurd hsame (hnot bytes)
  cases phase with
  | opening => exact settle_empty h hstage hstage.queue stored
  | checking | admitting => exact settle_empty h hstage hstage.2.queue stored
  | starting => exact settle_starting h rfl hstage stored
  | observing bytes =>
    refine hrunning hstage.1 rfl ?_
    intro bytes' hsame
    rw [← Phase.observing.inj hsame]
    exact hstage.2
  | finishing outcome after =>
    refine settle_snapshot h hstage hstage.1.queue htimely ?_
    intro queue hqueue
    exact ⟨hstage.1.store hqueue, hstage.2⟩
  | closing outcome after => exact settle_closing h rfl hstage.1 hstage.2 htimely
  | done response => exact settle_empty h hstage hstage.1 stored
  | _ => exact hother hstage rfl fun _ hsame => by cases hsame

theorem act_ok (hstage : StageOk b index r) (htimely : Timely b index r answer) :
    ActedOk b index (act b index r answer) := by
  obtain ⟨granted, admitted, reservable, stream, phase, queue, accountingFailed, finished⟩ := r
  have hsame : ActedOk b index (b,
      (⟨granted, admitted, reservable, stream, phase, queue, accountingFailed, finished⟩ :
    Request)) := actedOk_same h hstage rfl rfl rfl
  have hnot : ∀ {phase : Phase}, (∀ bytes, phase ≠ .observing bytes) → ∀ bytes, phase = .observing bytes →
      b.deliveredBytes + bytes.length ≤ maxResponseBytes :=
        fun hphase bytes hobserving => absurd hobserving (hphase bytes)
  -- A write of the accounting may end in any phase; of the other answers each is awaited in some.
  cases answer with
  | write stored => cases phase <;> exact settle_ok h hstage htimely
  | rejected =>
    cases phase with
    | checking | admitting => exact close_unstarted h hstage.2
    | observing => exact fail_running h hstage.1
    | preparing | calling | responded | reading | read | noted | captured | streaming | streamed =>
      exact fail_running h hstage
    | _ => exact hsame
  | active ok =>
    cases phase with
    | checking => exact checked_ok h hstage.1 hstage.2 ok
    | preparing =>
      refine afterActive_running h hstage ok (call_running h hstage ?_ ?_)
      · split <;> rfl
      · intro bytes
        split
        · exact fun hsame => by cases hsame
        · exact fun hsame => by cases hsame
    | responded head => exact afterActive_running h hstage ok (checkHead_running h hstage head)
    | read events got observed chunk payloads valid =>
      exact afterActive_running h hstage ok (checkRead_running h hstage events got observed chunk payloads valid)
    | noted got observed payload rest next =>
      exact afterActive_running h hstage ok (capturePayload_running h hstage got observed payload rest next)
    | captured got observed bytes =>
      exact afterActive_running h hstage ok (appendChunk_running h hstage true got observed bytes)
    | streamed bytes => exact afterActive_running h hstage ok (checkStreamed_running h hstage bytes)
    | _ => exact hsame
  | admitted ok =>
    cases phase with
    | admitting =>
      dsimp only [act]
      split
      · exact startAccounting_ok h hstage.1 hstage.2
      · exact close_unstarted h hstage.2
    | _ => exact hsame
  | response head =>
    cases phase with
    | calling => exact awaitActive_running h hstage rfl (hnot fun _ hsame => by cases hsame)
    | _ => exact hsame
  | next chunk payloads valid =>
    cases phase with
    | reading => exact awaitActive_running h hstage rfl (hnot fun _ hsame => by cases hsame)
    | _ => exact hsame
  | usage =>
    cases phase with
    | streaming => exact snapshot_running h hstage rfl fun _ hsame => by cases hsame
    | _ => exact hsame
  | translated bytes =>
    cases phase with
    | streaming => exact awaitActive_running h hstage rfl (hnot fun _ hsame => by cases hsame)
    | _ => exact hsame
  | go =>
    cases phase with
    | opening => exact openRequest_ok h hstage
    | starting =>
      dsimp only [act]
      split
      · exact hsame
      · next hqueue => exact start_ok h hstage (not_not.mp hqueue)
    | noting got observed payload rest next =>
      dsimp only [act]
      split
      · exact hsame
      · split
        · exact fail_running h hstage
        · exact awaitActive_running h hstage rfl (hnot fun _ hsame => by cases hsame)
    | observing bytes =>
      refine finish_running h hstage.1 ?_
      intro bytes' hdeliver
      rw [← AfterFinish.deliver.inj hdeliver]
      exact ⟨rfl, hstage.2⟩
    | finishing outcome after =>
      dsimp only [act]
      split
      · exact hsame
      · exact writeTerminal_ok h hstage.1 hstage.2
    | closing outcome after =>
      dsimp only [act]
      split
      · exact hsame
      · next hqueue => exact afterTerminal_ok h hstage.1 (not_not.mp hqueue) hstage.2
    | _ => exact hsame

end

/-! ### Other requests -/

theorem Appended.untouched {later : Broker} (husage : Appended Usage.request index b.usage later.usage)
    (hdelivered : Appended Prod.fst index b.delivered later.delivered) (hother : index' ≠ index)
    (h : Untouched b index') :
    Untouched later index' where
  usage usage hmem hsame := h.usage usage (husage.mem_of_ne hmem (hsame ▸ hother)) hsame
  delivered entry hmem hsame := h.delivered entry (hdelivered.mem_of_ne hmem (hsame ▸ hother)) hsame

theorem act_waits (hbusy : b.busy) (hstage : StageOk b index r) (answer : Answer)
    (hidle : r.phase.stage = .fresh ∨ r.phase.stage = .done) : (act b index r answer).1 = b := by
  obtain ⟨granted, admitted, reservable, stream, phase, queue, accountingFailed, finished⟩ := r
  cases phase with
  | opening =>
    cases answer with
    | go =>
      dsimp only [act]
      unfold openRequest
      rw [hbusy, Bool.or_true, Bool.true_or, if_pos rfl]
    | write stored =>
      dsimp only [act]
      rw [settle_nil hstage.queue]
    | _ => rfl
  | done response =>
    cases answer with
    | write stored =>
      dsimp only [act]
      rw [settle_nil hstage.1]
    | _ => rfl
  | _ => rcases hidle with hidle | hidle <;> cases hidle

/-- A request between its first act and its end. -/
def Request.inProgress (r : Request) : Bool := r.phase.stage ≠ .fresh && r.phase.stage ≠ .done

theorem StageOk.holds (h : StageOk b index r) (hprogress : r.inProgress) : HoldsBroker b index := by
  obtain ⟨granted, admitted, reservable, stream, phase, queue, accountingFailed, finished⟩ := r
  cases phase with
  | opening | done => cases hprogress
  | checking | admitting => exact h.1
  | starting => exact Starting.holds h
  | observing | finishing | closing => exact h.1.holds
  | _ => exact Running.holds h

theorem stageOk_others (h : BrokerOk b) (hstage : StageOk b index r)
    (htimely : Timely b index r answer) (hother : index' ≠ index) (hstage' : StageOk b index' r') :
    StageOk (act b index r answer).1 index' r' := by
  have hacted := act_ok h hstage htimely
  by_cases hprogress : r'.inProgress
  · -- The other request holds the broker, so this one waits.
    have hholds := hstage'.holds hprogress
    have hidle : r.phase.stage = .fresh ∨ r.phase.stage = .done := by
      by_contra hnot
      rw [not_or] at hnot
      have hmine := hstage.holds (by
        unfold Request.inProgress
        rw [decide_eq_true hnot.1, decide_eq_true hnot.2]
        rfl)
      have hsame : some index = some index' := hmine.2.symm.trans hholds.2
      exact hother (Option.some.inj hsame).symm
    rw [act_waits hholds.1 hstage answer hidle]
    exact hstage'
  · obtain ⟨granted, admitted, reservable, stream, phase, queue, accountingFailed, finished⟩ := r'
    cases phase with
    | opening =>
      obtain ⟨huntouched, hqueue, hwrites, hunfinished⟩ := hstage'
      exact ⟨hacted.usage.untouched hacted.delivered hother huntouched, hqueue, hwrites, hunfinished⟩
    | done response =>
      obtain ⟨hqueue, hended, hdelivered⟩ := hstage'
      refine ⟨hqueue, ?_, ?_⟩
      · have hterminals : terminals (act b index r answer).1 index' = terminals b index' := by
          refine hacted.usage.filter ?_
          intro usage husage hsame
          rw [Bool.and_eq_true] at husage
          exact hother ((of_decide_eq_true husage.1).symm.trans hsame)
        obtain (⟨outcome, hone⟩ | ⟨hnone, outcome, hfailed⟩) | huntouched := hended
        · exact .inl (.inl ⟨outcome, hterminals.trans hone⟩)
        · exact .inl (.inr ⟨hterminals.trans hnone, outcome, hacted.failedWrites.mem hfailed⟩)
        · exact .inr (hacted.usage.untouched hacted.delivered hother huntouched)
      · intro bytes
        rw [← hdelivered bytes]
        exact ⟨fun hmem => hacted.delivered.mem_of_ne hmem hother, hacted.delivered.mem⟩
    | _ => exact absurd rfl hprogress

/-! ### Beside the requests -/

/-- The broker at another time, with more that is cancelled. -/
def Broker.later (b : Broker) (now : ℕ) (revoked : Bool) (aborted : List ℕ) : Broker :=
  { b with now, revoked, aborted }

theorem environment_eq (b : Broker) (event : Event) :
    ∃ now revoked aborted, environment b event = b.later now revoked aborted := by
  cases event with
  | tick ms => exact ⟨b.now + ms, b.revoked, b.aborted, rfl⟩
  | cancel index => exact ⟨b.now, b.revoked, index :: b.aborted, rfl⟩
  | revoke => exact ⟨b.now, true, _, rfl⟩

theorem stageOk_later (h : StageOk b index r) (now : ℕ) (revoked : Bool) (aborted : List ℕ) :
    StageOk (b.later now revoked aborted) index r := by
  have hrunning : ∀ {r : Request}, Running b index r → Running (b.later now revoked aborted) index r :=
    fun h => { h with }
  have hunstarted : ∀ {r : Request}, Unstarted b index r → Unstarted (b.later now revoked aborted) index r :=
    fun h => { h with untouched := ⟨h.untouched.usage, h.untouched.delivered⟩ }
  obtain ⟨granted, admitted, reservable, stream, phase, queue, accountingFailed, finished⟩ := r
  cases phase with
  | opening => exact hunstarted h
  | checking | admitting => exact ⟨h.1, hunstarted h.2⟩
  | starting =>
    obtain ⟨hholds, hunfinished, hwrite, hterminals, hundelivered⟩ := h
    refine ⟨hholds, hunfinished, ?_, hterminals, hundelivered⟩
    obtain ⟨hqueue, hwrites, huntouched⟩ | hstarted | ⟨hqueue, hwrites, huntouched⟩ := hwrite
    · exact .inl ⟨hqueue, hwrites, huntouched.usage, huntouched.delivered⟩
    · exact .inr (.inl hstarted)
    · exact .inr (.inr ⟨hqueue, hwrites, huntouched.usage, huntouched.delivered⟩)
  | observing bytes => exact ⟨hrunning h.1, h.2⟩
  | finishing outcome after =>
    obtain ⟨hr, hafter⟩ := h
    exact ⟨{ hr with }, hafter⟩
  | closing outcome after =>
    obtain ⟨hr, hafter⟩ := h
    exact ⟨{ hr with }, hafter⟩
  | done response =>
    obtain ⟨hqueue, hended, hdelivered⟩ := h
    exact ⟨hqueue, hended.imp id fun huntouched => ⟨huntouched.usage, huntouched.delivered⟩, hdelivered⟩
  | _ => exact hrunning h

theorem keeps_program : Calls.Keeps program BrokerOk StageOk Untouched Request.isNew Timely where
  start b index r _ hidle hnew := by
    rw [hnew]
    exact ⟨hidle, rfl, rfl, rfl⟩
  act _ _ _ _ h hstage htimely := ⟨(act_ok h hstage htimely).ok, (act_ok h hstage htimely).stage⟩
  others _ _ _ _ _ _ h hstage htimely hother hstage' := stageOk_others h hstage htimely hother hstage'
  idle _ _ _ _ _ h hstage htimely hother hidle :=
    have hacted := act_ok h hstage htimely
    hacted.usage.untouched hacted.delivered hother hidle
  environment b event h := by
    obtain ⟨now, revoked, aborted, hlater⟩ := environment_eq b event
    change BrokerOk (environment b event)
    rw [hlater]
    exact { h with }
  environmentLocal b event index r _ hstage := by
    obtain ⟨now, revoked, aborted, hlater⟩ := environment_eq b event
    change StageOk (environment b event) index r
    rw [hlater]
    exact stageOk_later hstage now revoked aborted
  environmentIdle b event index _ hidle := by
    obtain ⟨now, revoked, aborted, hlater⟩ := environment_eq b event
    change Untouched (environment b event) index
    rw [hlater]
    exact ⟨hidle.usage, hidle.delivered⟩

/-! ### Runs -/

/-- What holds of requests and their records: the provider is called for requests whose start is
recorded; one request is in progress; a request has one terminal record at most, and when it is done
and its start is recorded it has one, or its terminal write failed; what is delivered is within the
limit, once, and of a request whose success was recorded while it was live, and not when it was
cancelled, revoked or expired. -/
structure ProviderOk (s : Calls.State Broker Request) : Prop where
  called : ∀ index ∈ s.shared.called, startOf index ∈ s.shared.usage
  inProgress : ∀ (index index' : ℕ) (r r' : Request), s.calls[index]? = some r → s.calls[index']? = some r' →
    r.inProgress → r'.inProgress → index = index'
  atMostOne : ∀ index : ℕ, (terminals s.shared index).length ≤ 1
  settled : ∀ (index : ℕ) (r : Request), s.calls[index]? = some r → r.phase.stage = .done →
    startOf index ∈ s.shared.usage → Settled s.shared index
  limit : ∀ entry ∈ s.shared.delivered, entry.2.length ≤ maxResponseBytes
  recorded : ∀ entry ∈ s.shared.delivered, (entry.1, true) ∈ s.shared.recorded ∧
    (entry.1, false) ∉ s.shared.recorded
  once : (s.shared.delivered.map Prod.fst).Nodup

theorem terminals_le_one (h : StageOk b index r) : (terminals b index).length ≤ 1 := by
  have hnone : terminals b index = [] → (terminals b index).length ≤ 1 := by
    intro hnil
    rw [hnil]
    exact Nat.zero_le 1
  obtain ⟨granted, admitted, reservable, stream, phase, queue, accountingFailed, finished⟩ := r
  cases phase with
  | opening => exact hnone h.untouched.terminals
  | checking | admitting => exact hnone h.2.untouched.terminals
  | starting => exact hnone (Starting.terminals h)
  | observing | finishing => exact hnone h.1.terminals
  | closing outcome after =>
    obtain ⟨-, -, hterminals⟩ | ⟨-, -, hterminals, -⟩ | ⟨-, -, hterminals, -⟩ := h.1.write
    · exact hnone hterminals
    · rw [hterminals]
      exact Nat.le_refl 1
    · exact hnone hterminals
  | done response =>
    obtain (⟨outcome, hone⟩ | ⟨hterminals, -⟩) | huntouched := h.2.1
    · rw [hone]
      exact Nat.le_refl 1
    · exact hnone hterminals
    · exact hnone huntouched.terminals
  | _ => exact hnone (Running.terminals h)

/-- What is kept of the broker, of each request, and of those that are not there yet. -/
def Kept (s : Calls.State Broker Request) : Prop := Calls.Holds BrokerOk StageOk Untouched s

theorem Kept.providerOk (h : Kept s) : ProviderOk s where
  called := h.shared.called
  inProgress index index' r r' hcall hcall' hprogress hprogress' := by
    have hholds := (h.calls index r hcall).holds hprogress
    have hholds' := (h.calls index' r' hcall').holds hprogress'
    exact Option.some.inj (hholds.2.symm.trans hholds'.2)
  atMostOne index := by
    cases hcall : s.calls[index]? with
    | none =>
      rw [(h.idle index (getElem?_eq_none_iff.mp hcall)).terminals]
      exact Nat.zero_le 1
    | some r => exact terminals_le_one (h.calls index r hcall)
  settled index r hcall hdone hstarted := by
    have hstage := h.calls index r hcall
    obtain ⟨granted, admitted, reservable, stream, phase, queue, accountingFailed, finished⟩ := r
    cases phase with
    | done response =>
      obtain hsettled | huntouched := hstage.2.1
      · exact hsettled
      · exact absurd hstarted huntouched.started
    | _ => cases hdone
  limit entry hentry := by
    have hsum := le_sum_of_mem (mem_map_of_mem (f := fun entry : ℕ × Bytes => entry.2.length) hentry)
    rw [← h.shared.bytes] at hsum
    exact Nat.le_trans hsum h.shared.limit
  recorded entry hentry :=
    ⟨h.shared.recorded entry hentry, fun hlate => Bool.false_ne_true (h.shared.live _ hlate)⟩
  once := h.shared.once

theorem delivered_step (h : Kept s) (htimely : Calls.OnActs Timely s op)
    (hentry : entry ∈ s.shared.delivered) :
    entry ∈ (Calls.step program s op).shared.delivered := by
  cases op with
  | start r => exact hentry
  | act index answer =>
    unfold Calls.step
    dsimp only
    cases hcall : s.calls[index]? with
    | none => exact hentry
    | some r => exact (act_ok h.shared (h.calls index r hcall) (htimely r hcall)).delivered.mem hentry
  | environment event =>
    obtain ⟨now, revoked, aborted, hlater⟩ := environment_eq s.shared event
    change entry ∈ (environment s.shared event).delivered
    rw [hlater]
    exact hentry

end ArdurBot.ProviderBroker
