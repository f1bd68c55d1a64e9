import ArdurBot.Broker.Provider

/-!
# What a request keeps of the broker

A request goes through stages: it is checked, its start is recorded, it runs, it is recorded to have
ended, and it is done. Each stage says what is recorded of the request. Only the request that holds
the broker is between.
-/

namespace ArdurBot.ProviderBroker

open List Bool Prod

variable {b : Broker} {index : ℕ} {r : Request}

/-- What is new in the list is of the request. -/
def Appended {α : Type} (key : α → ℕ) (index : ℕ) (old new : List α) : Prop :=
  ∃ more, new = old ++ more ∧ ∀ item ∈ more, key item = index

theorem Appended.refl {α : Type} (key : α → ℕ) (index : ℕ) (items : List α) :
    Appended key index items items :=
  ⟨[], (append_nil items).symm, forall_mem_nil _⟩

theorem appended_concat {α : Type} {key : α → ℕ} (items : List α) (item : α) :
    Appended key (key item) items (items ++ [item]) :=
  ⟨[item], rfl, fun _ h => congrArg key (mem_singleton.mp h)⟩

section

variable {α : Type} {key : α → ℕ} {old new : List α}

section

variable (h : Appended key index old new)
include h

theorem Appended.mem {item : α} (hitem : item ∈ old) : item ∈ new := by
  obtain ⟨more, rfl, -⟩ := h
  exact mem_append_left _ hitem

theorem Appended.mem_of_ne {item : α} (hitem : item ∈ new) (hkey : key item ≠ index) : item ∈ old := by
  obtain ⟨more, rfl, hmore⟩ := h
  obtain hold | hnew := mem_append.mp hitem
  · exact hold
  · exact absurd (hmore item hnew) hkey

theorem Appended.filter {p : α → Bool} (hp : ∀ item, p item → key item ≠ index) :
    new.filter p = old.filter p := by
  obtain ⟨more, rfl, hmore⟩ := h
  have hnone : more.filter p = [] := by
    rw [filter_eq_nil_iff]
    intro item hitem hpitem
    exact hp item hpitem (hmore item hitem)
  rw [filter_append, hnone, append_nil]

end

end

inductive Stage where
  | fresh
  | before
  | starting
  | running
  | finishing
  | closing
  | done
deriving DecidableEq

def Phase.stage : Phase → Stage
  | opening => .fresh
  | checking => .before
  | admitting => .before
  | starting => .starting
  | finishing .. => .finishing
  | closing .. => .closing
  | done _ => .done
  | _ => .running

def startOf (index : ℕ) : Usage where
  request := index
  kind := .started

def endOf (index : ℕ) (outcome : Outcome) : Usage where
  request := index
  kind := .finished outcome

def terminals (b : Broker) (index : ℕ) : List Usage :=
  b.usage.filter fun usage => usage.request = index && usage.isTerminal

def HoldsBroker (b : Broker) (index : ℕ) : Prop := b.busy ∧ b.controller = some index

structure Untouched (b : Broker) (index : ℕ) : Prop where
  usage : ∀ usage ∈ b.usage, usage.request ≠ index
  delivered : ∀ entry ∈ b.delivered, entry.1 ≠ index

/-- One terminal record, or a reservation whose terminal write failed. -/
def Settled (b : Broker) (index : ℕ) : Prop :=
  (∃ outcome, terminals b index = [endOf index outcome]) ∨
    terminals b index = [] ∧ ∃ outcome, endOf index outcome ∈ b.failedWrites

def Ended (b : Broker) (index : ℕ) : Prop := Settled b index ∨ Untouched b index

structure Running (b : Broker) (index : ℕ) (r : Request) : Prop where
  holds : HoldsBroker b index
  started : startOf index ∈ b.usage
  unfinished : r.finished = false
  writes : r.accountingFailed = false
  queue : ∀ usage ∈ r.queue, usage = { request := index, kind := .snapshot }
  terminals : terminals b index = []
  undelivered : ∀ entry ∈ b.delivered, entry.1 ≠ index

structure Finishing (b : Broker) (index : ℕ) (r : Request) : Prop where
  holds : HoldsBroker b index
  started : startOf index ∈ b.usage
  finished : r.finished
  writes : r.accountingFailed = false
  queue : ∀ usage ∈ r.queue, usage = { request := index, kind := .snapshot }
  terminals : terminals b index = []
  undelivered : ∀ entry ∈ b.delivered, entry.1 ≠ index

/-- The terminal write has not settled, is stored, or failed. -/
structure Closing (b : Broker) (index : ℕ) (r : Request) (outcome : Outcome) : Prop where
  holds : HoldsBroker b index
  started : startOf index ∈ b.usage
  finished : r.finished
  write : (r.queue = [endOf index outcome] ∧ r.accountingFailed = false ∧ terminals b index = []) ∨
    (r.queue = [] ∧ r.accountingFailed = false ∧ terminals b index = [endOf index outcome] ∧
      (outcome = .success → (index, true) ∈ b.recorded)) ∨
    (r.queue = [] ∧ r.accountingFailed ∧ terminals b index = [] ∧ endOf index outcome ∈ b.failedWrites)
  undelivered : ∀ entry ∈ b.delivered, entry.1 ≠ index

structure Starting (b : Broker) (index : ℕ) (r : Request) : Prop where
  holds : HoldsBroker b index
  unfinished : r.finished = false
  write : (r.queue = [startOf index] ∧ r.accountingFailed = false ∧ Untouched b index) ∨
    (r.queue = [] ∧ r.accountingFailed = false ∧ startOf index ∈ b.usage) ∨
    (r.queue = [] ∧ r.accountingFailed ∧ Untouched b index)
  terminals : terminals b index = []
  undelivered : ∀ entry ∈ b.delivered, entry.1 ≠ index

structure Unstarted (b : Broker) (index : ℕ) (r : Request) : Prop where
  untouched : Untouched b index
  queue : r.queue = []
  writes : r.accountingFailed = false
  unfinished : r.finished = false

/-- What is recorded of a request at its stage. -/
def StageOk (b : Broker) (index : ℕ) (r : Request) : Prop :=
  match r.phase with
  | .opening => Unstarted b index r
  | .checking => HoldsBroker b index ∧ Unstarted b index r
  | .admitting => HoldsBroker b index ∧ Unstarted b index r
  | .starting => Starting b index r
  | .observing bytes => Running b index r ∧ b.deliveredBytes + bytes.length ≤ maxResponseBytes
  | .finishing outcome after => Finishing b index r ∧
      ∀ bytes, after = .deliver bytes → outcome = .success ∧ b.deliveredBytes + bytes.length ≤ maxResponseBytes
  | .closing outcome after => Closing b index r outcome ∧
      ∀ bytes, after = .deliver bytes → outcome = .success ∧ b.deliveredBytes + bytes.length ≤ maxResponseBytes
  | .done response => r.queue = [] ∧ Ended b index ∧
      ∀ bytes, (index, bytes) ∈ b.delivered ↔ response = some bytes
  | _ => Running b index r

/-- What is called, delivered and recorded, over all requests. -/
structure BrokerOk (b : Broker) : Prop where
  called : ∀ index ∈ b.called, startOf index ∈ b.usage
  bytes : b.deliveredBytes = (b.delivered.map fun entry => entry.2.length).sum
  limit : b.deliveredBytes ≤ maxResponseBytes
  recorded : ∀ entry ∈ b.delivered, (entry.1, true) ∈ b.recorded
  live : ∀ entry ∈ b.recorded, entry.2
  once : (b.delivered.map fst).Nodup

/-- What an act leaves of its request and of all others. -/
structure ActedOk (b : Broker) (index : ℕ) (result : Acted) : Prop where
  ok : BrokerOk result.1
  stage : StageOk result.1 index result.2
  usage : Appended Usage.request index b.usage result.1.usage
  failedWrites : Appended Usage.request index b.failedWrites result.1.failedWrites
  delivered : Appended fst index b.delivered result.1.delivered

theorem actedOk_same {later : Broker} {r' : Request} (h : BrokerOk later) (hstage : StageOk later index r')
    (husage : later.usage = b.usage) (hfailed : later.failedWrites = b.failedWrites)
    (hdelivered : later.delivered = b.delivered) : ActedOk b index (later, r') := by
  refine ⟨h, hstage, ?_, ?_, ?_⟩
  · rw [husage]
    exact .refl _ _ _
  · rw [hfailed]
    exact .refl _ _ _
  · rw [hdelivered]
    exact .refl _ _ _

theorem brokerOk_abort (h : BrokerOk b) (index : ℕ) : BrokerOk (b.abort index) :=
  ⟨h.called, h.bytes, h.limit, h.recorded, h.live, h.once⟩

theorem ActedOk.of_abort {result : Acted} (h : ActedOk (b.abort index) index result) :
    ActedOk b index result :=
  ⟨h.ok, h.stage, h.usage, h.failedWrites, h.delivered⟩

theorem Untouched.started (h : Untouched b index) : startOf index ∉ b.usage :=
  fun hmem => h.usage _ hmem rfl

theorem Untouched.terminals (h : Untouched b index) : terminals b index = [] := by
  unfold ProviderBroker.terminals
  rw [filter_eq_nil_iff]
  intro usage husage hterminal
  rw [and_eq_true] at hterminal
  exact h.usage usage husage (of_decide_eq_true hterminal.1)

theorem not_delivered (h : ∀ entry ∈ b.delivered, entry.1 ≠ index) (bytes : Bytes) :
    (index, bytes) ∉ b.delivered :=
  fun hmem => h _ hmem rfl

theorem close_ok (h : BrokerOk b) (hqueue : r.queue = []) (hended : Ended b index)
    (hundelivered : ∀ entry ∈ b.delivered, entry.1 ≠ index) : ActedOk b index (close b r) := by
  have hfreed : Ended b.free index := hended.imp id fun huntouched => ⟨huntouched.usage, huntouched.delivered⟩
  refine actedOk_same ⟨h.called, h.bytes, h.limit, h.recorded, h.live, h.once⟩ ⟨hqueue, hfreed,
    ?_⟩ rfl rfl rfl
  intro bytes
  constructor
  · intro hmem
    exact absurd hmem (not_delivered hundelivered bytes)
  · intro hsame
    cases hsame

theorem close_unstarted (h : BrokerOk b) (hr : Unstarted b index r) : ActedOk b index (close b r) :=
  close_ok h hr.queue (.inr hr.untouched) hr.untouched.delivered

variable {phase : Phase} {outcome : Outcome} {after : AfterFinish}

theorem Running.stage (h : Running b index r) (hstage : phase.stage = .running)
    (hbytes : ∀ bytes, phase = .observing bytes → b.deliveredBytes + bytes.length ≤ maxResponseBytes) :
    StageOk b index (r.to phase) := by
  have hsame : Running b index (r.to phase) :=
    ⟨h.holds, h.started, h.unfinished, h.writes, h.queue, h.terminals, h.undelivered⟩
  cases phase with
  | observing bytes => exact ⟨hsame, hbytes bytes rfl⟩
  | opening | checking | admitting | starting | finishing | closing | done => cases hstage
  | _ => exact hsame

theorem Running.abort (h : Running b index r) : Running (b.abort index) index r :=
  ⟨h.holds, h.started, h.unfinished, h.writes, h.queue, h.terminals, h.undelivered⟩

section

variable (h : BrokerOk b) (hr : Running b index r)
include h hr

theorem running_to (hstage : phase.stage = .running)
    (hbytes : ∀ bytes, phase = .observing bytes → b.deliveredBytes + bytes.length ≤ maxResponseBytes) :
    ActedOk b index (b, r.to phase) :=
  actedOk_same h (hr.stage hstage hbytes) rfl rfl rfl

theorem finish_running (hafter : ∀ bytes, after = .deliver bytes →
      outcome = .success ∧ b.deliveredBytes + bytes.length ≤ maxResponseBytes) :
    ActedOk b index (finish b r outcome after) :=
  actedOk_same h ⟨⟨hr.holds, hr.started, rfl, hr.writes, hr.queue, hr.terminals, hr.undelivered⟩,
    hafter⟩ rfl rfl rfl

theorem finish_thrown (outcome : Outcome) : ActedOk b index (finish b r outcome .thrown) := by
  refine finish_running h hr ?_
  intro bytes hdeliver
  cases hdeliver

theorem fail_running : ActedOk b index (fail b index r) := by
  unfold fail
  rw [hr.unfinished, if_neg Bool.false_ne_true]
  refine (finish_running (brokerOk_abort h index) hr.abort ?_).of_abort
  intro bytes hdeliver
  cases hdeliver

theorem awaitActive_running (hstage : phase.stage = .running)
    (hbytes : ∀ bytes, phase = .observing bytes → b.deliveredBytes + bytes.length ≤ maxResponseBytes) :
    ActedOk b index (awaitActive b index r phase) := by
  unfold awaitActive
  split
  · exact running_to h hr hstage hbytes
  · exact fail_running h hr

theorem afterActive_running (ok : Bool) {next : Acted}
    (hnext : ActedOk b index next) : ActedOk b index (afterActive b index r ok next) := by
  unfold afterActive
  split
  · exact (fail_running (brokerOk_abort h index) hr.abort).of_abort
  · split
    · exact fail_running h hr
    · exact hnext

theorem closeBody_running (got : Bytes) : ActedOk b index (closeBody b index r got) := by
  unfold closeBody
  split
  · exact finish_thrown h hr _
  · next hfits =>
    split
    · exact finish_thrown h hr _
    · refine running_to h hr rfl ?_
      intro bytes hsame
      rw [← Phase.observing.inj hsame]
      omega

theorem closeRead_running (got : Bytes) (observed : Bool) :
    ActedOk b index (closeRead b index r got observed) := by
  unfold closeRead
  split
  · exact finish_thrown h hr _
  · exact closeBody_running h hr got

theorem appendChunk_running (events : Bool) (got : Bytes) (observed : Bool)
    (bytes : Bytes) : ActedOk b index (appendChunk b index r events got observed bytes) := by
  unfold appendChunk
  split
  · exact fail_running h hr
  · exact running_to h hr rfl fun _ hsame => by cases hsame

theorem snapshot_running (hstage : phase.stage = .running)
    (hbytes : ∀ bytes, phase ≠ .observing bytes) : ActedOk b index
      (b, { r with queue := r.queue ++ [{ request := index, kind := .snapshot }], phase }) := by
  have hnoted : Running b index { r with queue := r.queue ++ [{ request := index, kind := .snapshot }] } := by
    refine ⟨hr.holds, hr.started, hr.unfinished, hr.writes, ?_, hr.terminals, hr.undelivered⟩
    intro usage husage
    obtain hold | hnew := mem_append.mp husage
    · exact hr.queue usage hold
    · exact mem_singleton.mp hnew
  exact running_to h hnoted hstage fun bytes hsame => absurd hsame (hbytes bytes)

theorem capture_running (got : Bytes) (observed : Bool) (payloads : List Payload) (next : AfterPayloads) :
    ActedOk b index (capture b index r got observed payloads next) := by
  unfold capture
  cases payloads with
  | cons payload rest =>
    dsimp only
    split
    · exact snapshot_running h hr rfl fun _ hsame => by cases hsame
    · exact awaitActive_running h hr rfl fun _ hsame => by cases hsame
  | nil =>
    cases next with
    | chunk bytes => exact awaitActive_running h hr rfl fun _ hsame => by cases hsame
    | close => exact closeRead_running h hr got observed

theorem capturePayload_running (got : Bytes) (observed : Bool)
    (payload : Payload) (rest : List Payload) (next : AfterPayloads) :
    ActedOk b index (capturePayload b index r got observed payload rest next) := by
  unfold capturePayload
  split
  · exact fail_running h hr
  · split
    · exact finish_thrown h hr _
    · exact capture_running h hr got _ rest next

theorem checkHead_running (head : Head) : ActedOk b index (checkHead b index r head) := by
  unfold checkHead
  split
  · exact fail_running h hr
  · split
    · exact (finish_thrown (brokerOk_abort h index) hr.abort _).of_abort
    · exact running_to h hr rfl fun _ hsame => by cases hsame

theorem checkRead_running (events : Bool) (got : Bytes) (observed : Bool)
    (chunk : Option Bytes) (payloads : List Payload) (valid : Bool) :
    ActedOk b index (checkRead b index r events got observed chunk payloads valid) := by
  unfold checkRead
  cases chunk with
  | some bytes =>
    dsimp only
    split
    · exact capture_running h hr got observed payloads _
    · exact appendChunk_running h hr events got observed bytes
  | none =>
    dsimp only
    split
    · exact finish_thrown h hr _
    · exact capture_running h hr got observed payloads _

theorem checkStreamed_running (bytes : Bytes) : ActedOk b index (checkStreamed b index r bytes) := by
  unfold checkStreamed
  split
  · exact finish_thrown h hr _
  · exact closeBody_running h hr bytes

theorem call_running (hstage : phase.stage = .running) (hbytes : ∀ bytes, phase ≠ .observing bytes) :
    ActedOk b index ({ b with called := b.called ++ [index] }, r.to phase) := by
  have hcalled : BrokerOk { b with called := b.called ++ [index] } := by
    refine ⟨?_, h.bytes, h.limit, h.recorded, h.live, h.once⟩
    intro other hother
    obtain hold | hnew := mem_append.mp hother
    · exact h.called other hold
    · rw [mem_singleton.mp hnew]
      exact hr.started
  have hr' : Running { b with called := b.called ++ [index] } index r :=
    ⟨hr.holds, hr.started, hr.unfinished, hr.writes, hr.queue, hr.terminals, hr.undelivered⟩
  exact actedOk_same hcalled (hr'.stage hstage fun bytes hsame => absurd hsame (hbytes bytes)) rfl rfl rfl

end

theorem startAccounting_ok (h : BrokerOk b) (hholds : HoldsBroker b index) (hr : Unstarted b index r) :
    ActedOk b index (startAccounting b index r) := by
  have hstarting : Starting b index { r with queue := [startOf index], phase := .starting } :=
    ⟨hholds, hr.unfinished, .inl ⟨rfl, hr.writes, hr.untouched⟩, hr.untouched.terminals, hr.untouched.delivered⟩
  exact actedOk_same h hstarting rfl rfl rfl

theorem openRequest_ok (h : BrokerOk b) (hr : Unstarted b index r) :
    ActedOk b index (openRequest b index r) := by
  unfold openRequest
  split
  · refine actedOk_same h ⟨hr.queue, .inr hr.untouched, ?_⟩ rfl rfl rfl
    intro bytes
    constructor
    · intro hmem
      exact absurd hmem (not_delivered hr.untouched.delivered bytes)
    · intro hsame
      cases hsame
  · have hb : BrokerOk { b with busy := true, controller := some index } :=
      ⟨h.called, h.bytes, h.limit, h.recorded, h.live, h.once⟩
    have hr' : Unstarted { b with busy := true, controller := some index } index r :=
      ⟨⟨hr.untouched.usage, hr.untouched.delivered⟩, hr.queue, hr.writes, hr.unfinished⟩
    dsimp only
    split
    · have hclose := close_unstarted hb hr'
      exact ⟨hclose.ok, hclose.stage, hclose.usage, hclose.failedWrites, hclose.delivered⟩
    · exact actedOk_same hb ⟨⟨rfl, rfl⟩, hr'.untouched, hr'.queue, hr'.writes, hr'.unfinished⟩ rfl rfl rfl

theorem Unstarted.abort (h : Unstarted b index r) : Unstarted (b.abort index) index r :=
  ⟨⟨h.untouched.usage, h.untouched.delivered⟩, h.queue, h.writes, h.unfinished⟩

theorem checked_ok (h : BrokerOk b) (hholds : HoldsBroker b index) (hr : Unstarted b index r) (ok : Bool) :
    ActedOk b index (checked b index r ok) := by
  unfold checked
  split
  · exact (close_unstarted (brokerOk_abort h index) hr.abort).of_abort
  · split
    · exact close_unstarted h hr
    · split
      · exact actedOk_same h ⟨hholds, hr.untouched, hr.queue, hr.writes, hr.unfinished⟩ rfl rfl rfl
      · exact startAccounting_ok h hholds hr

theorem Starting.running (h : Starting b index r) (hqueue : r.queue = [])
    (hwrites : r.accountingFailed = false) :
    Running b index r := by
  obtain ⟨hholds, hunfinished, hwrite, hterminals, hundelivered⟩ := h
  refine ⟨hholds, ?_, hunfinished, hwrites, ?_, hterminals, hundelivered⟩
  · obtain ⟨hsome, -, -⟩ | ⟨-, -, hstarted⟩ | ⟨-, hfailed, -⟩ := hwrite
    · rw [hqueue] at hsome
      cases hsome
    · exact hstarted
    · rw [hwrites] at hfailed
      cases hfailed
  · intro usage husage
    rw [hqueue] at husage
    exact absurd husage not_mem_nil

section

variable (h : BrokerOk b)
include h

theorem start_ok (hr : Starting b index r) (hqueue : r.queue = []) :
    ActedOk b index (if r.accountingFailed then close b r else awaitActive b index r .preparing) := by
  split
  · next hfailed =>
    refine close_ok h hqueue (.inr ?_) hr.undelivered
    obtain ⟨hsome, -, -⟩ | ⟨-, hwrites, -⟩ | ⟨-, -, huntouched⟩ := hr.write
    · rw [hqueue] at hsome
      cases hsome
    · rw [hfailed] at hwrites
      cases hwrites
    · exact huntouched
  · next hwrites =>
    refine awaitActive_running h (hr.running hqueue (eq_false_of_not_eq_true hwrites)) rfl ?_
    intro bytes hsame
    cases hsame

theorem writeTerminal_ok (hr : Finishing b index r) (hafter : ∀ bytes, after = .deliver bytes →
      outcome = .success ∧ b.deliveredBytes + bytes.length ≤ maxResponseBytes) :
    ActedOk b index (writeTerminal b index r outcome after) := by
  unfold writeTerminal
  rw [if_neg (eq_false_iff.mp hr.writes)]
  have hclosing : Closing b index { r with queue := [endOf index outcome], phase := .closing outcome after } outcome :=
    ⟨hr.holds, hr.started, hr.finished, .inl ⟨rfl, hr.writes, hr.terminals⟩, hr.undelivered⟩
  exact actedOk_same h ⟨hclosing, hafter⟩ rfl rfl rfl

theorem fail_settled (hfinished : r.finished) (hqueue : r.queue = [])
    (hsettled : Settled b index) (hundelivered : ∀ entry ∈ b.delivered, entry.1 ≠ index) :
    ActedOk b index (fail b index r) := by
  unfold fail
  rw [hfinished, if_pos rfl]
  exact (close_ok (brokerOk_abort h index) hqueue (.inl hsettled) hundelivered).of_abort

theorem deliver_ok (hqueue : r.queue = []) (hsettled : Settled b index)
    (hrecorded : (index, true) ∈ b.recorded) (hundelivered : ∀ entry ∈ b.delivered, entry.1 ≠ index)
    {bytes : Bytes}
    (hbytes : b.deliveredBytes + bytes.length ≤ maxResponseBytes) :
    ActedOk b index (deliver b index r bytes) := by
  refine ⟨⟨h.called, ?_, hbytes, ?_, h.live, ?_⟩, ⟨hqueue, .inl hsettled, ?_⟩, .refl _ _ _, .refl _ _ _, ?_⟩
  · change b.deliveredBytes + bytes.length = ((b.delivered ++ [(index, bytes)]).map fun entry => entry.2.length).sum
    rw [map_append, sum_append, h.bytes]
    simp
  · intro entry hentry
    obtain hold | hnew := mem_append.mp hentry
    · exact h.recorded entry hold
    · rw [mem_singleton.mp hnew]
      exact hrecorded
  · change ((b.delivered ++ [(index, bytes)]).map fst).Nodup
    rw [map_append, nodup_append]
    refine ⟨h.once, nodup_singleton _, ?_⟩
    intro other hother index' hindex'
    obtain ⟨entry, hentry, rfl⟩ := mem_map.mp hother
    rw [mem_singleton.mp hindex']
    exact hundelivered entry hentry
  · intro bytes'
    change (index, bytes') ∈ b.delivered ++ [(index, bytes)] ↔ some bytes = some bytes'
    rw [mem_append, mem_singleton, Option.some.injEq]
    constructor
    · rintro (hold | hnew)
      · exact absurd hold (not_delivered hundelivered bytes')
      · exact (mk.inj hnew).2.symm
    · rintro rfl
      exact .inr rfl
  · exact appended_concat b.delivered (index, bytes)

theorem afterTerminal_ok (hr : Closing b index r outcome) (hqueue : r.queue = [])
    (hafter : ∀ bytes, after = .deliver bytes →
      outcome = .success ∧ b.deliveredBytes + bytes.length ≤ maxResponseBytes) :
    ActedOk b index (afterTerminal b index r after) := by
  unfold afterTerminal
  obtain ⟨hsome, -, -⟩ | ⟨-, hwrites, hterminals, hrecorded⟩ | ⟨-, hfailed, hterminals, hwrite⟩ := hr.write
  · rw [hqueue] at hsome
    cases hsome
  · have hsettled : Settled b index := .inl ⟨outcome, hterminals⟩
    rw [hwrites, if_neg Bool.false_ne_true]
    cases after with
    | thrown => exact fail_settled h hr.finished hqueue hsettled hr.undelivered
    | caught => exact close_ok h hqueue (.inl hsettled) hr.undelivered
    | deliver bytes =>
      obtain ⟨hsuccess, hbytes⟩ := hafter bytes rfl
      exact deliver_ok h hqueue hsettled (hrecorded hsuccess) hr.undelivered hbytes
  · rw [hfailed, if_pos rfl]
    exact fail_settled h hr.finished hqueue (.inr ⟨hterminals, outcome, hwrite⟩) hr.undelivered

end

end ArdurBot.ProviderBroker
