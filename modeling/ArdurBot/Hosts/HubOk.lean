import ArdurBot.Hosts.Hub
import ArdurBot.Lib.History
import ArdurBot.Lib.Table

/-!
# What holds of a host hub

Each call of `request` is in one place: it is pending, it is queued, or it has been sent its end.
-/

namespace ArdurBot.HostHub

open List Option

def Event.call : Event → Option Call
  | .requested call | .queued call _ | .admitted call _ | .authorized call _ | .forwarded call _ |
    .toWorker _ _ call _
  | .acked call _ | .cancelled call => some call
  | .attached _ | .detached | .lost _ | .failed _ => none

def Event.endOf : Event → Option Call
  | .toWorker _ _ call frame => if frame.isEnd then some call else none
  | _ => none

def Event.streamOf : Event → Option Call
  | .toWorker _ _ call (.stream _) => some call
  | _ => none

def hostOf : List Event → Option Host
  | [] => none
  | .attached host :: _ => some host
  | .detached :: _ => none
  | _ :: log => hostOf log

def HasEnd (call : Call) (log : List Event) : Prop := ∃ event ∈ log, event.endOf = some call

/-- How many frames of its stream the worker has been sent. -/
def streamed (call : Call) (log : List Event) : ℕ :=
  log.countP fun event => event.streamOf = some call

def acked (call : Call) : List Event → ℕ
  | [] => 0
  | .acked other seq :: log => if other = call then seq + 1 else acked call log
  | _ :: log => acked call log

/-- What may happen, given what happened before. -/
def EventOk (earlier : List Event) : Event → Prop
  | .attached host => ∀ other, .attached other ∈ earlier → other.connectionGeneration <
    host.connectionGeneration
  | .requested call => ∀ event ∈ earlier, event.call ≠ some call
  | .queued call _ | .cancelled call => .requested call ∈ earlier
  | .admitted call host => .requested call ∈ earlier ∧ hostOf earlier = some host
  | .authorized call host => .admitted call host ∈ earlier
  | .forwarded call host =>
    .authorized call host ∈ earlier ∧ hostOf earlier = some host ∧ (∀ other, .forwarded call other ∉ earlier) ∧
      .cancelled call ∉ earlier ∧ (call.request.operation = .boardRun ∨ .lost call.request.runId ∉ earlier)
  | .toWorker worker id call frame =>
    .requested call ∈ earlier ∧ worker = call.worker ∧ id = call.request.id ∧ ¬ HasEnd call earlier ∧
      ∀ seq, frame = .stream seq → seq = streamed call earlier ∧ seq < acked call earlier + hostWindow
  | .acked call seq => .requested call ∈ earlier ∧ acked call earlier ≤ seq ∧ seq < streamed call earlier
  | .detached | .lost _ | .failed _ => True

/-- What no event but those of a call that waits in the queue, or is to begin, are about. -/
def Fresh (log : List Event) (call : Call) : Prop :=
  ∀ event ∈ log, event.call = some call → event = .requested call ∨ ∃ time, event = .queued call time

variable {log : List Event} {event : Event} {call : Call}

theorem hasEnd_cons : HasEnd call (event :: log) ↔ event.endOf = some call ∨ HasEnd call log := by
  simp [HasEnd]

theorem streamed_cons : streamed call (event :: log) = streamed call log + if event.streamOf =
    some call then 1 else 0 := by
  simp [streamed, countP_cons]

theorem Event.call_of_endOf (h : event.endOf = some call) : event.call = some call := by
  cases event <;> simp_all [Event.endOf, Event.call]

theorem Event.call_of_streamOf (h : event.streamOf = some call) : event.call = some call := by
  cases event with
  | toWorker worker id other frame =>
    cases frame with
    | stream seq => exact h
    | _ => cases h
  | _ => cases h

/-- The event changes nothing of what is known of the call. -/
def Event.Quiet (event : Event) (call : Call) : Prop :=
  event.endOf ≠ some call ∧ event.streamOf ≠ some call ∧ event ≠ .cancelled call ∧ ∀ seq,
    event ≠ .acked call seq

theorem Event.Quiet.of_call (h : event.call ≠ some call) : event.Quiet call := by
  refine ⟨fun hend => h (call_of_endOf hend), fun hstream => h (call_of_streamOf hstream), ?_, ?_⟩
  · rintro rfl
    exact h rfl
  · rintro seq rfl
    exact h rfl

theorem acked_quiet (h : event.Quiet call) : acked call (event :: log) = acked call log := by
  cases event with
  | acked other seq =>
    have hother : other ≠ call := by
      rintro rfl
      exact h.2.2.2 seq rfl
    exact if_neg hother
  | _ => rfl

section

variable (h : Fresh log call)
include h

theorem Fresh.cons (hother : event.call ≠ some call) : Fresh (event :: log) call := by
  intro other hmem hcall
  obtain rfl | hmem := mem_cons.mp hmem
  · exact absurd hcall hother
  · exact h other hmem hcall

theorem Fresh.not_hasEnd : ¬ HasEnd call log := by
  rintro ⟨event, hmem, hend⟩
  obtain rfl | ⟨time, rfl⟩ := h event hmem (Event.call_of_endOf hend) <;> cases hend

theorem Fresh.streamed : streamed call log = 0 := by
  refine countP_eq_zero.mpr fun event hmem hstream => ?_
  have hstream := of_decide_eq_true hstream
  obtain rfl | ⟨time, rfl⟩ := h event hmem (Event.call_of_streamOf hstream) <;> cases hstream

theorem Fresh.acked : acked call log = 0 := by
  induction log with
  | nil => rfl
  | cons event log ih =>
    have hrest := ih fun other hother => h other (mem_cons_of_mem _ hother)
    have hquiet : event.Quiet call := by
      by_cases hcall : event.call = some call
      · obtain rfl | ⟨time, rfl⟩ := h event mem_cons_self hcall <;> simp [Event.Quiet, Event.endOf, Event.streamOf]
      · exact .of_call hcall
    rw [acked_quiet hquiet, hrest]

theorem Fresh.not_mem (hcall : event.call = some call) (hrequested : event ≠ .requested call)
    (hqueued : ∀ time, event ≠ .queued call time) : event ∉ log := by
  intro hmem
  obtain heq | ⟨time, heq⟩ := h event hmem hcall
  · exact hrequested heq
  · exact hqueued time heq

end

def Event.IsPlain : Event → Prop
  | .attached _ | .detached | .lost _ => False
  | _ => True

theorem hostOf_plain (h : event.IsPlain) : hostOf (event :: log) = hostOf log := by
  cases event with
  | attached | detached | lost => cases h
  | _ => rfl

structure PendingOk (log : List Event) (p : Pending) : Prop where
  requested : .requested p.call ∈ log
  uncancelled : .cancelled p.call ∉ log
  ended : HasEnd p.call log ↔ p.isHanded
  seq : p.seq + 1 = streamed p.call log
  ack : p.ack + 1 = acked p.call log
  order : p.ack ≤ p.seq
  window : p.seq ≤ p.ack + hostWindow

structure QueuedOk (log : List Event) (now : ℕ) (probe : QueuedProbe) : Prop where
  requested : .requested probe.call ∈ log
  fresh : Fresh log probe.call
  deadline : now ≤ probe.deadline
  time : ∃ time, .queued probe.call time ∈ log ∧ probe.deadline = time + 30000

theorem PendingOk.cons {p : Pending} (h : PendingOk log p) (hquiet : event.Quiet p.call) :
    PendingOk (event :: log) p where
  requested := mem_cons_of_mem _ h.requested
  uncancelled := by
    rw [mem_cons, not_or]
    exact ⟨hquiet.2.2.1.symm, h.uncancelled⟩
  ended := by
    rw [hasEnd_cons, h.ended]
    exact or_iff_right hquiet.1
  seq := by
    rw [streamed_cons, if_neg hquiet.2.1]
    exact h.seq
  ack := by
    rw [acked_quiet hquiet]
    exact h.ack
  __ := h

theorem QueuedOk.cons {now : ℕ} {probe : QueuedProbe} (h : QueuedOk log now probe)
    (hother : event.call ≠ some probe.call) :
    QueuedOk (event :: log) now probe where
  requested := mem_cons_of_mem _ h.requested
  fresh := h.fresh.cons hother
  deadline := h.deadline
  time := by
    obtain ⟨time, hqueued, htime⟩ := h.time
    exact ⟨time, mem_cons_of_mem _ hqueued, htime⟩

/-- The call is owed an end: it has no place. -/
structure Owing (log : List Event) (pending : List Pending) (probes : List QueuedProbe)
  (call : Call) : Prop where
  requested : .requested call ∈ log
  unended : ¬ HasEnd call log
  pending : ∀ p ∈ pending, p.call ≠ call
  probes : ∀ probe ∈ probes, probe.call ≠ call

def State.ids (s : State) : List ℕ :=
  (s.pending.map fun p => p.call.request.id) ++ s.probes.map fun probe => probe.call.request.id

/-- What holds whether or not a host is attached, while these calls are owed an end. -/
structure Core (owed : List Call) (s : State) : Prop where
  history : History.Ok EventOk s.log
  numbers : ∀ event ∈ s.log, ∀ call ∈ event.call, call.number < s.calls
  generations : ∀ host, .attached host ∈ s.log → host.connectionGeneration < s.generations
  lostRuns : ∀ runId, .lost runId ∈ s.log → runId ∈ s.lostRuns
  ids : s.ids.Nodup
  count : s.pending.length ≤ hostInFlight
  probeCount : s.pending.countP (fun p => p.call.request.isFleetProbe) ≤ hostInFlight / 2
  pending : ∀ p ∈ s.pending, PendingOk s.log p
  probes : ∀ probe ∈ s.probes, QueuedOk s.log s.now probe
  owing : ∀ call ∈ owed, Owing s.log s.pending s.probes call
  distinct : owed.Nodup
  ends : ∀ call, .requested call ∈ s.log → call ∈ owed ∨ (∃ p ∈ s.pending, p.call = call) ∨
    (∃ probe ∈ s.probes, probe.call = call) ∨ HasEnd call s.log
  authorizing : ∀ awaiting ∈ s.authorizing, .admitted awaiting.1 awaiting.2 ∈ s.log ∧
    ∀ host, .forwarded awaiting.1 host ∉ s.log

/-- What holds because of the host that is attached. -/
structure Live (s : State) : Prop where
  host : s.host = hostOf s.log
  hostless : s.host = none → s.pending = [] ∧ s.probes = []
  hosted : ∀ p ∈ s.pending, ∃ host, s.host = some host ∧ .admitted p.call host ∈ s.log
  running : ∀ p ∈ s.pending, p.call.request.operation = .boardRun ∨ .lost p.call.request.runId ∉ s.log
  relaying : ∀ relay ∈ s.relaying, (∃ p ∈ s.pending, p.call = relay.2 ∧ p.isHanded) ∧
    ∃ host, s.host = some host ∧ host.wire = relay.1

/-- A probe waits only while there is no room. -/
def Settled (s : State) : Prop := s.probes ≠ [] → s.probeCapacity = false

structure HubOk (s : State) : Prop where
  core : Core [] s
  live : Live s
  settled : Settled s

variable {owed owed' : List Call} {s : State} {p : Pending} {probe : QueuedProbe}

/-- An event is recorded that the calls in their places do not mind. It may be the end of calls that
are owed one. -/
theorem Core.record (h : Core owed s) (hok : EventOk s.log event) (hplain : event.IsPlain)
    (hrequested : ∀ call, event ≠ .requested call) (hpending : ∀ p ∈ s.pending, event.Quiet p.call)
    (hprobes : ∀ probe ∈ s.probes, event.call ≠ some probe.call)
    (hauthorizing : ∀ awaiting ∈ s.authorizing, ∀ host, event ≠ .forwarded awaiting.1 host)
    (hnumber : ∀ call ∈ event.call, call.number < s.calls) (hdistinct : owed'.Nodup)
    (howed : ∀ call ∈ owed', call ∈ owed ∧ event.endOf ≠ some call)
    (hended : ∀ call ∈ owed, call ∈ owed' ∨ event.endOf = some call) : Core owed' (s.record event) where
  history := ⟨hok, h.history⟩
  numbers := by
    intro other hmem
    obtain rfl | hmem := mem_cons.mp hmem
    · exact hnumber
    · exact h.numbers other hmem
  generations := by
    intro host hmem
    obtain rfl | hmem := mem_cons.mp hmem
    · cases hplain
    · exact h.generations host hmem
  lostRuns := by
    intro runId hmem
    obtain rfl | hmem := mem_cons.mp hmem
    · cases hplain
    · exact h.lostRuns runId hmem
  __ := h
  pending p hp := (h.pending p hp).cons (hpending p hp)
  probes probe hprobe := (h.probes probe hprobe).cons (hprobes probe hprobe)
  owing call hcall := by
    obtain ⟨hcall, hend⟩ := howed call hcall
    have howing := h.owing call hcall
    refine ⟨mem_cons_of_mem _ howing.requested, ?_, howing.pending, howing.probes⟩
    rw [State.record, hasEnd_cons, not_or]
    exact ⟨hend, howing.unended⟩
  distinct := hdistinct
  ends call hcall := by
    obtain rfl | hcall := mem_cons.mp hcall
    · exact absurd rfl (hrequested call)
    · obtain howe | hplace | hplace | hend := h.ends call hcall
      · exact (hended call howe).imp id fun hend => .inr (.inr (hasEnd_cons.mpr (.inl hend)))
      · exact .inr (.inl hplace)
      · exact .inr (.inr (.inl hplace))
      · exact .inr (.inr (.inr (hasEnd_cons.mpr (.inr hend))))
  authorizing awaiting hawaiting := by
    obtain ⟨hadmitted, hforwarded⟩ := h.authorizing awaiting hawaiting
    refine ⟨mem_cons_of_mem _ hadmitted, fun host hmem => ?_⟩
    obtain heq | hmem := mem_cons.mp hmem
    · exact hauthorizing awaiting hawaiting host heq.symm
    · exact hforwarded host hmem

theorem Core.number (h : Core owed s) (hmem : event ∈ s.log) (hcall : event.call = some call) :
    call.number < s.calls :=
  h.numbers event hmem call hcall

theorem Live.record (h : Live s) (hplain : event.IsPlain) : Live (s.record event) where
  host := h.host.trans (hostOf_plain hplain).symm
  hostless := h.hostless
  hosted p hp := by
    obtain ⟨host, hhost, hadmitted⟩ := h.hosted p hp
    exact ⟨host, hhost, mem_cons_of_mem _ hadmitted⟩
  running p hp := by
    refine (h.running p hp).imp id fun hlost hmem => ?_
    obtain rfl | hmem := mem_cons.mp hmem
    · cases hplain
    · exact hlost hmem
  relaying := h.relaying

theorem Core.sendEnd (h : Core (call :: owed) s) (reason : String) : Core owed (s.sendEnd call reason) := by
  have howing := h.owing call mem_cons_self
  obtain ⟨hcall, hdistinct⟩ := nodup_cons.mp h.distinct
  have hquiet : ∀ other, other ≠ call →
      Event.Quiet (.toWorker call.worker call.request.id call (.stopped reason)) other :=
    fun other hne => .of_call fun heq => hne (some.inj heq).symm
  refine h.record ?_ trivial (fun _ => nofun) (fun p hp => hquiet p.call (howing.pending p hp)) ?_
    (fun _ _ _ => nofun) ?_
    hdistinct ?_ ?_
  · exact ⟨howing.requested, rfl, rfl, howing.unended, fun _ => nofun⟩
  · exact fun probe hprobe heq => howing.probes probe hprobe (some.inj heq).symm
  · rintro other ⟨⟩
    exact h.number howing.requested rfl
  · intro other hother
    refine ⟨mem_cons_of_mem _ hother, fun heq => hcall ?_⟩
    rwa [some.inj heq]
  · intro other hother
    exact (mem_cons.mp hother).symm.imp id fun heq => congrArg some heq.symm

theorem Live.sendEnd (h : Live s) (call : Call) (reason : String) : Live (s.sendEnd call reason) :=
  h.record trivial

theorem Core.cancelled (h : Core (call :: owed) s) : Core (call :: owed) (s.record (.cancelled call)) := by
  have howing := h.owing call mem_cons_self
  refine h.record howing.requested trivial (fun _ => nofun) ?_ ?_ (fun _ _ _ => nofun) ?_ h.distinct
    (fun other hother => ⟨hother, nofun⟩) fun other hother => .inl hother
  · intro p hp
    exact .of_call fun heq => howing.pending p hp (some.inj heq).symm
  · exact fun probe hprobe heq => howing.probes probe hprobe (some.inj heq).symm
  · rintro other ⟨⟩
    exact h.number howing.requested rfl

theorem Live.cancelled (h : Live s) : Live (s.record (.cancelled call)) := h.record trivial

theorem mem_erasePending {id : ℕ} : p ∈ (s.erasePending id).pending ↔ p ∈ s.pending ∧
    p.call.request.id ≠ id := by
  simp [State.erasePending]

theorem mem_eraseProbe {id : ℕ} : probe ∈ (s.eraseProbe id).probes ↔ probe ∈ s.probes ∧
    probe.call.request.id ≠ id := by
  simp [State.eraseProbe]

theorem Core.pending_eq (h : Core owed s) {other : Pending} (hp : p ∈ s.pending)
    (hother : other ∈ s.pending) (hid : p.call.request.id = other.call.request.id) : p = other :=
  have hids : (s.pending.map fun p => p.call.request.id).Nodup := (nodup_append.mp h.ids).1
  Table.eq_of_key hids hp hother hid

theorem Core.apart (h : Core owed s) (hp : p ∈ s.pending) (hprobe : probe ∈ s.probes) :
    p.call ≠ probe.call := by
  intro hcall
  exact (nodup_append.mp h.ids).2.2 _ (mem_map_of_mem hp) _ (mem_map_of_mem hprobe) (by rw [hcall])

/-- A call whose entry is taken out is owed its end, unless it has been handed that of the host. -/
theorem Core.erasePending (h : Core owed s) (hp : p ∈ s.pending) :
    Core (if p.isHanded then owed else p.call :: owed) (s.erasePending p.call.request.id) := by
  have hok := h.pending p hp
  have hgone : ∀ other ∈ (s.erasePending p.call.request.id).pending, other.call ≠ p.call := by
    intro other hother heq
    exact (mem_erasePending.mp hother).2 (by rw [heq])
  have hstay : ∀ call ∈ owed,
      Owing s.log (s.erasePending p.call.request.id).pending s.probes call := fun call hcall =>
    ⟨(h.owing call hcall).requested, (h.owing call hcall).unended,
      fun other hother => (h.owing call hcall).pending other (mem_erasePending.mp hother).1,
        (h.owing call hcall).probes⟩
  refine
    { history := h.history, numbers := h.numbers, generations := h.generations, lostRuns := h.lostRuns
      ids := h.ids.sublist ((filter_sublist.map _).append (List.Sublist.refl _))
      count := Nat.le_trans (length_filter_le _ _) h.count
      probeCount := Nat.le_trans filter_sublist.countP_le h.probeCount
      pending := fun other hother => h.pending other (mem_erasePending.mp hother).1
      probes := h.probes, owing := ?_, distinct := ?_, ends := ?_, authorizing := h.authorizing }
  · cases hhanded : p.isHanded with
    | true => exact hstay
    | false =>
      intro call hcall
      obtain rfl | hcall := mem_cons.mp hcall
      · refine ⟨hok.requested, ?_, hgone, fun probe hprobe heq => h.apart hp hprobe heq.symm⟩
        rw [State.erasePending, hok.ended, hhanded]
        exact Bool.false_ne_true
      · exact hstay call hcall
  · cases p.isHanded with
    | true => exact h.distinct
    | false => exact nodup_cons.mpr ⟨fun hcall => (h.owing _ hcall).pending p hp rfl, h.distinct⟩
  · intro call hcall
    obtain howe | ⟨other, hother, rfl⟩ | hplace | hend := h.ends call hcall
    · left
      cases p.isHanded with
      | true => exact howe
      | false => exact mem_cons_of_mem _ howe
    · by_cases hid : other.call.request.id = p.call.request.id
      · obtain rfl := h.pending_eq hother hp hid
        cases hhanded : other.isHanded with
        | true => exact .inr (.inr (.inr (hok.ended.mpr hhanded)))
        | false => exact .inl mem_cons_self
      · exact .inr (.inl ⟨other, mem_erasePending.mpr ⟨hother, hid⟩, rfl⟩)
    · exact .inr (.inr (.inl hplace))
    · exact .inr (.inr (.inr hend))

theorem Live.erasePending (h : Live s) (hcore : Core owed s) (hp : p ∈ s.pending)
    (hrelaying : ∀ relay ∈ s.relaying, relay.2 ≠ p.call) : Live (s.erasePending p.call.request.id) where
  host := h.host
  hostless hnone := by
    obtain ⟨hpending, hprobes⟩ := h.hostless hnone
    refine ⟨?_, hprobes⟩
    rw [State.erasePending, hpending]
    rfl
  hosted other hother := h.hosted other (mem_erasePending.mp hother).1
  running other hother := h.running other (mem_erasePending.mp hother).1
  relaying relay hrelay := by
    obtain ⟨⟨other, hother, hcall, hhanded⟩, hhost⟩ := h.relaying relay hrelay
    refine ⟨⟨other, mem_erasePending.mpr ⟨hother, fun hid => ?_⟩, hcall, hhanded⟩, hhost⟩
    obtain rfl := hcore.pending_eq hother hp hid
    exact hrelaying relay hrelay hcall.symm

theorem Core.eraseProbe (h : Core owed s) (hprobe : probe ∈ s.probes) :
    Core (probe.call :: owed) (s.eraseProbe probe.call.request.id) where
  __ := h
  ids := h.ids.sublist ((List.Sublist.refl _).append (filter_sublist.map _))
  probes other hother := h.probes other (mem_eraseProbe.mp hother).1
  owing call hcall := by
    obtain rfl | hcall := mem_cons.mp hcall
    · refine ⟨(h.probes probe hprobe).requested, (h.probes probe hprobe).fresh.not_hasEnd,
        fun p hp => h.apart hp hprobe, ?_⟩
      intro other hother heq
      exact (mem_eraseProbe.mp hother).2 (by rw [heq])
    · have howing := h.owing call hcall
      exact ⟨howing.requested, howing.unended, howing.pending,
        fun other hother => howing.probes other (mem_eraseProbe.mp hother).1⟩
  distinct := nodup_cons.mpr ⟨fun hcall => (h.owing _ hcall).probes probe hprobe rfl, h.distinct⟩
  ends call hcall := by
    obtain howe | hplace | ⟨other, hother, rfl⟩ | hend := h.ends call hcall
    · exact .inl (mem_cons_of_mem _ howe)
    · exact .inr (.inl hplace)
    · by_cases hid : other.call.request.id = probe.call.request.id
      · obtain rfl := Table.eq_of_key (nodup_append.mp h.ids).2.1 hother hprobe hid
        exact .inl mem_cons_self
      · exact .inr (.inr (.inl ⟨other, mem_eraseProbe.mpr ⟨hother, hid⟩, rfl⟩))
    · exact .inr (.inr (.inr hend))

theorem Live.eraseProbe (h : Live s) (id : ℕ) : Live (s.eraseProbe id) where
  host := h.host
  hostless hnone := by
    obtain ⟨hpending, hprobes⟩ := h.hostless hnone
    refine ⟨hpending, ?_⟩
    rw [State.eraseProbe, hprobes]
    rfl
  __ := h

end ArdurBot.HostHub
