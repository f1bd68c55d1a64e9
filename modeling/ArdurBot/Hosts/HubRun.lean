import ArdurBot.Hosts.HubPlaces
import ArdurBot.Lib.Run

/-!
# Runs of a host hub

A call is ended twice where an answer to it comes after its end, or where a cancellation meets the
end of the host on its way. In the runs where neither happens, each call is sent one end.
-/

namespace ArdurBot.HostHub

open List
open Option hiding all all_eq_true map map_map

variable {s : State} {p : Pending} {call : Call} {event : Event} {wire worker id : ℕ}

/-! ### Requests -/

theorem HubOk.request (h : HubOk s) (request : Request) : HubOk (s.request request worker) := by
  have hnew : ∀ event ∈ s.log, event.call ≠ some ⟨s.calls, request, worker⟩ := by
    intro event hmem heq
    exact Nat.lt_irrefl _ (h.core.number hmem heq)
  have hplain : Event.IsPlain (.requested ⟨s.calls, request, worker⟩) := trivial
  have hfresh : Fresh (.requested ⟨s.calls, request, worker⟩ :: s.log) ⟨s.calls, request, worker⟩ := by
    intro event hmem hcall
    obtain rfl | hmem := mem_cons.mp hmem
    · exact .inl rfl
    · exact absurd hcall (hnew event hmem)
  have hcore : Core [⟨s.calls, request, worker⟩]
      (State.record { s with calls := s.calls + 1 } (.requested ⟨s.calls, request, worker⟩)) := by
    have hplaced : ∀ p ∈ s.pending, p.call ≠ ⟨s.calls, request, worker⟩ := by
      intro p hp heq
      exact hnew _ (h.core.pending p hp).requested (congrArg some heq)
    have hqueued : ∀ probe ∈ s.probes, probe.call ≠ ⟨s.calls, request, worker⟩ := by
      intro probe hprobe heq
      exact hnew _ (h.core.probes probe hprobe).requested (congrArg some heq)
    refine
      { history := ⟨hnew, h.core.history⟩, numbers := ?_, generations := ?_, lostRuns := ?_, ids := h.core.ids
        count := h.core.count, probeCount := h.core.probeCount, pending := ?_, probes := ?_, owing := ?_
        distinct := nodup_singleton _, ends := ?_, authorizing := ?_ }
    · intro event hmem other hother
      obtain rfl | hmem := mem_cons.mp hmem
      · rw [← some.inj hother]
        exact Nat.lt_succ_self _
      · exact Nat.lt_succ_of_lt (h.core.numbers event hmem other hother)
    · exact fun host hmem => h.core.generations host ((mem_cons.mp hmem).resolve_left nofun)
    · exact fun runId hmem => h.core.lostRuns runId ((mem_cons.mp hmem).resolve_left nofun)
    · exact fun p hp => (h.core.pending p hp).cons (.of_call fun heq => hplaced p hp (some.inj heq).symm)
    · exact fun probe hprobe =>
        (h.core.probes probe hprobe).cons fun heq => hqueued probe hprobe (some.inj heq).symm
    · intro other hother
      rw [mem_singleton.mp hother]
      exact ⟨mem_cons_self, hfresh.not_hasEnd, hplaced, hqueued⟩
    · intro other hmem
      obtain heq | hmem := mem_cons.mp hmem
      · left
        rw [Event.requested.inj heq]
        exact mem_singleton_self _
      · obtain hnone | hplace | hplace | hend := h.core.ends other hmem
        · cases hnone
        · exact .inr (.inl hplace)
        · exact .inr (.inr (.inl hplace))
        · exact .inr (.inr (.inr (hasEnd_cons.mpr (.inr hend))))
    · intro awaiting hawaiting
      obtain ⟨hadmitted, hforwarded⟩ := h.core.authorizing awaiting hawaiting
      refine ⟨mem_cons_of_mem _ hadmitted, fun host hmem => ?_⟩
      exact hforwarded host ((mem_cons.mp hmem).resolve_left nofun)
  have hlive : Live (State.record { s with calls := s.calls + 1 } (.requested ⟨s.calls, request, worker⟩)) :=
    (h.live.record hplain).of_same rfl rfl rfl rfl fun _ hrelay => hrelay
  have hsettled : Settled (State.record { s with calls := s.calls + 1 } (.requested ⟨s.calls, request, worker⟩)) :=
    h.settled.of_same rfl rfl
  obtain ⟨hcore, hlive⟩ := hcore.begin hlive hfresh
  exact ⟨hcore, hlive, hsettled.begin⟩

/-- The call has an entry, and has not been handed the end of the host. -/
def Waits (s : State) (call : Call) : Prop := ∃ p ∈ s.pending, p.call = call ∧ p.isHanded = false

theorem HubOk.abandon_waits (h : HubOk s) (hwaits : Waits s call) : HubOk (s.abandon call) := by
  obtain ⟨p, hp, rfl, hhanded⟩ := hwaits
  exact h.abandon hp hhanded

theorem HubOk.record_failed (h : HubOk s) (message : String) : HubOk (s.fail message) := by
  have hok : EventOk s.log (.failed message) := trivial
  refine ⟨?_, h.live.record trivial, h.settled.of_same rfl rfl⟩
  refine h.core.record hok trivial (fun _ => nofun) (fun p hp => .of_call nofun) (fun _ _ => nofun)
    (fun _ _ _ => nofun)
    nofun nodup_nil nofun nofun

variable {host : Host} {number : ℕ} {p' : Pending} {frame : Frame}

/-- An event of a call that has been admitted, which neither ends it nor sends it a frame of its
stream. -/
theorem HubOk.record_admitted (h : HubOk s) (hok : EventOk s.log event) (hplain : event.IsPlain)
    (hcall : event.call = some call) (hrequested : ∀ call, event ≠ .requested call)
    (hquiet : ∀ call, event.Quiet call) (hadmitted : .admitted call host ∈ s.log)
    (hauthorizing : ∀ awaiting ∈ s.authorizing, ∀ host, event ≠ .forwarded awaiting.1 host) :
    HubOk (s.record event) := by
  refine ⟨?_, h.live.record hplain, h.settled.of_same rfl rfl⟩
  refine h.core.record hok hplain hrequested (fun p _ => hquiet p.call) ?_ hauthorizing ?_
    nodup_nil nofun nofun
  · intro probe hprobe heq
    obtain rfl : call = probe.call := some.inj (hcall.symm.trans heq)
    have hnot : .admitted probe.call host ∉ s.log :=
      (h.core.probes probe hprobe).fresh.not_mem rfl nofun fun _ => nofun
    exact hnot hadmitted
  · intro other hother
    obtain rfl : call = other := some.inj (hcall.symm.trans hother)
    exact h.core.number hadmitted rfl

theorem isCurrent_iff (h : Core [] s) : s.isCurrent call ↔ ∃ p ∈ s.pending, p.call = call := by
  unfold State.isCurrent
  rw [Option.any_eq_true]
  constructor
  · rintro ⟨p, hfound, heq⟩
    exact ⟨p, (h.findPending.mp hfound).1, of_decide_eq_true heq⟩
  · rintro ⟨p, hp, rfl⟩
    exact ⟨p, h.findPending.mpr ⟨hp, rfl⟩, decide_eq_true rfl⟩

theorem HubOk.authorize (h : HubOk s) (answer : Bool)
    (hclean : ∀ awaiting ∈ s.authorizing, awaiting.1.number = number →
      (Waits s awaiting.1 ∨ (answer ∧ s.host = some awaiting.2)) ∧
        (answer → s.host = some awaiting.2 → s.isCurrent awaiting.1 → s.seen.length < 100000)) :
    HubOk (s.authorize number answer) := by
  unfold State.authorize
  split
  · exact h
  · next call host hfound =>
    have hmem := mem_of_find?_eq_some hfound
    have hnumber : call.number = number := by simpa using find?_some hfound
    obtain ⟨hwaits, hroom⟩ := hclean _ hmem hnumber
    obtain ⟨hadmitted, hforwarded⟩ := h.core.authorizing _ hmem
    have hanswered : HubOk { s with authorizing := s.authorizing.filter fun awaiting => awaiting.1 ≠ call } := by
      refine ⟨h.core.of_same rfl rfl rfl rfl rfl rfl rfl ?_,
        h.live.of_same rfl rfl rfl rfl fun _ hrelay => hrelay, ?_⟩
      · exact fun _ hawaiting => (mem_filter.mp hawaiting).1
      · exact h.settled.of_same rfl rfl
    dsimp only
    split
    · next hnegative =>
      refine hanswered.abandon_waits (hwaits.resolve_right ?_)
      rintro ⟨rfl, hhost⟩
      simp [hhost] at hnegative
    · next hpositive =>
      simp only [Bool.or_eq_true, Bool.not_eq_true', decide_eq_true_eq, not_or, Bool.not_eq_false,
        not_not, ne_eq] at hpositive
      obtain ⟨rfl, hhost⟩ := hpositive
      have hauthorized :
          HubOk (State.record { s with authorizing := s.authorizing.filter fun awaiting =>
          awaiting.1 ≠ call }
          (.authorized call host)) := by
        have hok : EventOk s.log (.authorized call host) := hadmitted
        exact hanswered.record_admitted hok trivial rfl (fun _ => nofun)
          (fun _ => ⟨nofun, nofun, nofun, fun _ => nofun⟩)
          hadmitted fun _ _ _ => nofun
      split
      · exact hauthorized
      · next hcurrent =>
        have hcurrent : s.isCurrent call := Bool.not_eq_false _ ▸ fun hnot => hcurrent (congrArg not hnot)
        have hseen := hroom rfl hhost hcurrent
        obtain ⟨p, hp, rfl⟩ := (isCurrent_iff h.core).mp hcurrent
        rw [if_neg]
        · have hok : EventOk (.authorized p.call host :: s.log) (.forwarded p.call host) := by
            refine ⟨mem_cons_self, h.live.host.symm.trans hhost, ?_, ?_, ?_⟩
            · exact fun other => not_mem_cons_of_ne_of_not_mem nofun (hforwarded other)
            · exact not_mem_cons_of_ne_of_not_mem nofun (h.core.pending p hp).uncancelled
            · exact (h.live.running p hp).imp_right fun hlost => not_mem_cons_of_ne_of_not_mem nofun hlost
          have hforwards := hauthorized.record_admitted hok trivial rfl (fun _ => nofun)
            (fun _ => ⟨nofun, nofun, nofun, fun _ => nofun⟩) (mem_cons_of_mem _ hadmitted) (by
              rintro awaiting hawaiting other heq
              have hne := (mem_filter.mp hawaiting).2
              simp [(Event.forwarded.inj heq).1] at hne)
          refine ⟨hforwards.core.of_same rfl rfl rfl rfl rfl rfl rfl fun _ hawaiting => hawaiting, ?_, ?_⟩
          · exact hforwards.live.of_same rfl rfl rfl rfl fun _ hrelay => hrelay
          · exact hforwards.settled.of_same rfl rfl
        · have hlength : (if p.call.request.id ∈ s.seen then s.seen else s.seen ++ [p.call.request.id]).length ≤
              s.seen.length + 1 := by split <;> simp
          exact Nat.not_lt.mpr (Nat.le_trans hlength hseen)

theorem HubOk.forwarded (h : HubOk s) (isSent : Bool)
    (hclean : isSent ∨ ∀ call ∈ s.forwarding, call.number = number → Waits s call) :
    HubOk (s.forwarded number isSent) := by
  unfold State.forwarded
  split
  · exact h
  · next call hfound =>
    have hanswered : HubOk { s with forwarding := s.forwarding.filter fun other => other ≠ call } :=
      ⟨h.core.of_same rfl rfl rfl rfl rfl rfl rfl fun _ hawaiting => hawaiting,
        h.live.of_same rfl rfl rfl rfl fun _ hrelay => hrelay, h.settled.of_same rfl rfl⟩
    split
    · exact hanswered
    · next hfailed =>
      refine hanswered.abandon_waits (hclean.resolve_left hfailed call (mem_of_find?_eq_some hfound) ?_)
      simpa using find?_some hfound

/-! ### Frames of the host -/

theorem HubOk.of_checking (h : HubOk s) (checking : List Checking) : HubOk { s with checking } :=
  ⟨h.core.of_same rfl rfl rfl rfl rfl rfl rfl fun _ hawaiting => hawaiting,
    h.live.of_same rfl rfl rfl rfl fun _ hrelay => hrelay, h.settled.of_same rfl rfl⟩

theorem HubOk.fromHost (h : HubOk s) (frame : Frame) : HubOk (s.fromHost wire frame) := by
  unfold State.fromHost
  split
  · exact h
  · split
    · exact h
    · split
      · exact ⟨h.core.of_same rfl rfl rfl rfl rfl rfl rfl fun _ hawaiting => hawaiting,
          h.live.of_same rfl rfl rfl rfl fun _ hrelay => hrelay, h.settled.of_same rfl rfl⟩
      · split
        · exact h.record_failed _
        · split
          · exact h
          · exact h.of_checking _

theorem receive_eq_ok (h : p.receive frame = .ok p') :
    p'.call = p.call ∧ p'.ack = p.ack ∧ p'.isHanded = p.isHanded ∧
      ((∃ id seq bytes, frame = .stream id seq bytes ∧ (seq : ℤ) = p.seq + 1 ∧
      seq - p.ack ≤ hostWindow ∧ p'.seq = seq) ∨
        ((∃ id callId method bytes, frame = .callback id callId method bytes) ∧ p'.seq = p.seq) ∨
        ((∃ id bytes, frame = .ended id bytes) ∧ p'.seq = p.seq)) := by
  cases frame with
  | stream frameId seq bytes =>
    rw [Pending.receive] at h
    split at h
    · cases h
    · next hin =>
      cases h
      simp only [ne_eq, Bool.or_eq_true, decide_eq_true_eq, not_or, not_not, Int.not_lt] at hin
      exact ⟨rfl, rfl, rfl, .inl ⟨frameId, seq, bytes, rfl, hin.1, hin.2, rfl⟩⟩
  | callback frameId callId method bytes =>
    rw [Pending.receive] at h
    split at h
    · cases h
    · cases h
      exact ⟨rfl, rfl, rfl, .inr (.inl ⟨⟨frameId, callId, method, bytes, rfl⟩, rfl⟩)⟩
  | ended frameId bytes =>
    cases h
    exact ⟨rfl, rfl, rfl, .inr (.inr ⟨⟨frameId, bytes, rfl⟩, rfl⟩)⟩
  | request | cancel | ack | reply | health => cases h

theorem HubOk.update (h : HubOk s) (hp : p ∈ s.pending) (hcall : p'.call = p.call)
    (hhanded : p.isHanded → p'.isHanded) (hok : EventOk s.log event) (hplain : event.IsPlain)
    (hevent : event.call = some p.call) (hrequested : ∀ call, event ≠ .requested call)
    (hforwarded : ∀ call host, event ≠ .forwarded call host) (hentry : PendingOk (event :: s.log) p') :
    HubOk ((s.setPending p').record event) := by
  have hnumber := h.core.number (h.core.pending p hp).requested rfl
  have hquiet : ∀ other : Call, other ≠ p.call → event.Quiet other := by
    intro other hne
    refine .of_call fun heq => hne ?_
    exact some.inj (heq.symm.trans hevent)
  have hcalls := h.core.map_call hp hcall
  refine ⟨?_, (h.live.setPending hp hcall hhanded h.core).record hplain, ?_⟩
  · refine
      { history := ⟨hok, h.core.history⟩, numbers := ?_, generations := ?_, lostRuns := ?_, ids := ?_, count := ?_
        probeCount := ?_, pending := ?_, probes := ?_, owing := nofun, distinct := nodup_nil, ends := ?_
        authorizing := ?_ }
    · intro other hmem
      obtain rfl | hmem := mem_cons.mp hmem
      · intro call hof
        rw [← some.inj (hevent.symm.trans hof)]
        exact hnumber
      · exact h.core.numbers other hmem
    · intro host hmem
      obtain rfl | hmem := mem_cons.mp hmem
      · cases hplain
      · exact h.core.generations host hmem
    · intro runId hmem
      obtain rfl | hmem := mem_cons.mp hmem
      · cases hplain
      · exact h.core.lostRuns runId hmem
    · have hids := congrArg (map fun call : Call => call.request.id) hcalls
      rw [map_map, map_map] at hids
      have hnodup := h.core.ids
      unfold State.ids at hnodup ⊢
      exact (congrArg (fun ids => (ids ++ s.probes.map fun probe => probe.call.request.id).Nodup) hids).mpr hnodup
    · have hlength := congrArg length hcalls
      rw [length_map, length_map] at hlength
      exact Nat.le_trans (Nat.le_of_eq hlength) h.core.count
    · have hcount := congrArg (countP fun call : Call => call.request.isFleetProbe) hcalls
      rw [countP_map, countP_map] at hcount
      exact Nat.le_trans (Nat.le_of_eq hcount) h.core.probeCount
    · intro other hother
      obtain rfl | ⟨hother, hid⟩ := mem_setPending hother
      · exact hentry
      · refine (h.core.pending other hother).cons (hquiet other.call fun heq => hid ?_)
        rw [heq, hcall]
    · intro probe hprobe
      refine (h.core.probes probe hprobe).cons fun heq => ?_
      exact h.core.apart hp hprobe (some.inj (hevent.symm.trans heq))
    · intro call hmem
      obtain rfl | hmem := mem_cons.mp hmem
      · exact absurd rfl (hrequested call)
      · obtain hnone | ⟨other, hother, rfl⟩ | hplace | hend := h.core.ends call hmem
        · cases hnone
        · have hmapped : other.call ∈ (s.setPending p').pending.map fun p => p.call := by
            rw [hcalls]
            exact mem_map_of_mem hother
          exact .inr (.inl (mem_map.mp hmapped))
        · exact .inr (.inr (.inl hplace))
        · exact .inr (.inr (.inr (hasEnd_cons.mpr (.inr hend))))
    · intro awaiting hawaiting
      obtain ⟨hadmitted, hnot⟩ := h.core.authorizing awaiting hawaiting
      refine ⟨mem_cons_of_mem _ hadmitted, fun host hmem => ?_⟩
      obtain heq | hmem := mem_cons.mp hmem
      · exact hforwarded _ _ heq.symm
      · exact hnot host hmem
  · have hsettled : Settled (s.setPending p') := h.settled.setPending hp hcall h.core
    exact hsettled.of_same rfl rfl

theorem PendingOk.of_same {log : List Event} (h : PendingOk log p) (hcall : p'.call = p.call)
    (hhanded : p'.isHanded = p.isHanded) (hseq : p'.seq = p.seq) (hack : p'.ack = p.ack) :
    PendingOk log p' := by
  refine ⟨?_, ?_, ?_, ?_, ?_, ?_, ?_⟩
  · rw [hcall]
    exact h.requested
  · rw [hcall]
    exact h.uncancelled
  · rw [hcall, hhanded]
    exact h.ended
  · rw [hcall, hseq]
    exact h.seq
  · rw [hcall, hack]
    exact h.ack
  · rw [hseq, hack]
    exact h.order
  · rw [hseq, hack]
    exact h.window

theorem HubOk.setPending (h : HubOk s) (hp : p ∈ s.pending) (hcall : p'.call = p.call)
    (hhanded : p'.isHanded = p.isHanded)
    (hseq : p'.seq = p.seq) (hack : p'.ack = p.ack) : HubOk (s.setPending p') := by
  have hok := h.core.pending p hp
  exact ⟨h.core.setPending hp hcall (hok.of_same hcall hhanded hseq hack),
    h.live.setPending hp hcall (fun htrue => hhanded.trans htrue) h.core, h.settled.setPending hp hcall h.core⟩

theorem Core.cancel_setPending (h : Core [] s) (hp : p ∈ s.pending) (hcall : p'.call = p.call) :
    (s.setPending p').cancel p.call.request.id p.call.worker = s.cancel p.call.request.id p.call.worker := by
  have hprobe : s.findProbe p.call.request.id = none := by
    rw [findProbe_eq_none]
    intro probe hprobe heq
    exact (nodup_append.mp h.ids).2.2 _ (mem_map_of_mem hp) _ (mem_map_of_mem hprobe) heq.symm
  have hprobe' : (s.setPending p').findProbe p.call.request.id = none := hprobe
  have hfound : s.findPending p.call.request.id = some p := h.findPending.mpr ⟨hp, rfl⟩
  have hfound' : (s.setPending p').findPending p.call.request.id = some p' := by
    unfold State.findPending at hfound ⊢
    unfold State.setPending
    rw [find?_map]
    have hsame : ((fun other : Pending => decide (other.call.request.id = p.call.request.id)) ∘ fun other =>
        if other.call.request.id = p'.call.request.id then p' else other) =
        fun other => decide (other.call.request.id = p.call.request.id) := by
      funext other
      change decide ((if other.call.request.id = p'.call.request.id then p' else other).call.request.id = _) = _
      split
      · next hid => rw [hid]
      · rfl
    rw [hsame, hfound, map_some, hcall, if_pos rfl]
  have herased : ∀ s' : State, s'.pending = s.pending →
      (s'.setPending p').erasePending p.call.request.id = s'.erasePending p.call.request.id := by
    intro s' hs'
    unfold State.erasePending State.setPending
    have hfilter : (s'.pending.map fun other => if other.call.request.id = p'.call.request.id then
        p' else other).filter
        (fun other => other.call.request.id ≠ p.call.request.id) =
          s'.pending.filter fun other => other.call.request.id ≠ p.call.request.id := by
      induction s'.pending with
      | nil => rfl
      | cons other rest ih =>
        rw [map_cons]
        by_cases hid : other.call.request.id = p'.call.request.id
        · rw [if_pos hid, filter_cons_of_neg (by simp [hcall]), filter_cons_of_neg (by simp [hid, hcall]), ih]
        · rw [if_neg hid, filter_cons_of_pos (by simpa [hcall] using hid),
            filter_cons_of_pos (by simpa [hcall] using hid), ih]
    rw [hfilter]
  unfold State.cancel
  rw [hprobe, hprobe', hfound, hfound']
  simp only [filter_none, filter_some, hcall, decide_true, if_true]
  unfold State.finish
  have hleft : State.findPending (((s.setPending p').record (.cancelled p.call)).sendEnd p.call State.stoppedReason)
      p.call.request.id = some p' := hfound'
  have hright : State.findPending ((s.record (.cancelled p.call)).sendEnd p.call State.stoppedReason)
      p.call.request.id = some p := hfound
  rw [hleft, hright]
  dsimp only
  rw [hcall]
  exact congrArg State.drainProbes (herased (((s.record (.cancelled p.call)).sendEnd p.call
    State.stoppedReason).rememberCompleted p.call.worker p.call.request.id) rfl)

theorem not_all_wire (h : ¬ (s.host.all fun host => decide (host.wire ≠ wire))) :
    ∃ host, s.host = some host ∧ host.wire = wire := by
  cases hhost : s.host with
  | none => simp [hhost] at h
  | some host => exact ⟨host, rfl, by simpa [hhost] using h⟩

theorem HubOk.sendOn (h : HubOk s) (hp : p ∈ s.pending) (hhanded : p.isHanded = false)
    (hhost : s.host = some host)
    (hwire : host.wire = wire) (hreceived : p.receive frame = .ok p')
    (hid : frame.id = some p.call.request.id) :
    HubOk ((s.setPending p').sendOn wire p' frame) := by
  have hok := h.core.pending p hp
  have hunended : ¬ HasEnd p.call s.log := by
    rw [hok.ended, hhanded]
    exact Bool.false_ne_true
  obtain ⟨hcall, hack, hsame, hcases⟩ := receive_eq_ok hreceived
  have hnot : p.isHanded → p'.isHanded := fun htrue => hsame.trans htrue
  have hseqEq := hok.seq
  have hackEq := hok.ack
  obtain ⟨frameId, seq, bytes, rfl, hnext, hwindow, hseq⟩ | ⟨⟨frameId, callId, method, bytes, rfl⟩, hseq⟩ |
    ⟨⟨frameId, bytes, rfl⟩, hseq⟩ := hcases
  · obtain rfl : frameId = p.call.request.id := some.inj hid
    have hevent : EventOk s.log (.toWorker p.call.worker p.call.request.id p.call (.stream seq)) := by
      refine ⟨hok.requested, rfl, rfl, hunended, fun other heq => ?_⟩
      rw [← Sent.stream.inj heq]
      omega
    unfold State.sendOn
    rw [hcall]
    refine h.update hp hcall hnot hevent trivial rfl (fun _ heq => by cases heq) (fun _ _ heq => by cases heq) ?_
    have horder := hok.order
    refine ⟨?_, ?_, ?_, ?_, ?_, ?_, ?_⟩
    · rw [hcall]
      exact mem_cons_of_mem _ hok.requested
    · rw [hcall]
      exact not_mem_cons_of_ne_of_not_mem (fun heq => by cases heq) hok.uncancelled
    · rw [hcall, hsame, hasEnd_cons, hok.ended]
      exact or_iff_right fun heq => by cases heq
    · have hone : streamed p.call (.toWorker p.call.worker p.call.request.id p.call (.stream seq) :: s.log) =
          streamed p.call s.log + 1 := by simp [streamed_cons, Event.streamOf]
      rw [hcall, hseq, hone]
      omega
    · rw [hcall, hack, hackEq]
      rfl
    · rw [hack, hseq]
      omega
    · rw [hack, hseq]
      omega
  · obtain rfl : frameId = p.call.request.id := some.inj hid
    have hevent : EventOk s.log (.toWorker p.call.worker p.call.request.id p.call (.callback callId)) :=
      ⟨hok.requested, rfl, rfl, hunended, fun _ heq => by cases heq⟩
    unfold State.sendOn
    rw [hcall]
    refine h.update hp hcall hnot hevent trivial rfl (fun _ heq => by cases heq) (fun _ _ heq => by cases heq) ?_
    have hquiet : Event.Quiet (.toWorker p.call.worker p.call.request.id p.call (.callback callId)) p.call :=
      ⟨fun heq => (by cases heq), fun heq => (by cases heq), fun heq => (by cases heq), fun _ heq => by cases heq⟩
    exact (hok.cons hquiet).of_same hcall hsame hseq hack
  · obtain rfl : frameId = p.call.request.id := some.inj hid
    have hevent : EventOk s.log (.toWorker p.call.worker p.call.request.id p.call .ended) :=
      ⟨hok.requested, rfl, rfl, hunended, fun _ heq => by cases heq⟩
    -- The entry is replaced twice, the second time by one that has been handed the end.
    have htwice : (s.setPending p').setPending { p' with isHanded := true } =
        s.setPending { p' with isHanded := true } := by
      unfold State.setPending
      rw [map_map]
      congr 1
      refine map_congr_left fun other _ => ?_
      change (if (if other.call.request.id = p'.call.request.id then p' else other).call.request.id =
        p'.call.request.id then _ else _) = _
      split <;> simp_all
    have hentry : PendingOk (.toWorker p.call.worker p.call.request.id p.call .ended :: s.log)
        { p with isHanded := true } := by
      refine ⟨mem_cons_of_mem _ hok.requested,
        not_mem_cons_of_ne_of_not_mem (fun heq => by cases heq) hok.uncancelled, ?_, ?_, ?_,
        hok.order, hok.window⟩
      · exact iff_of_true (hasEnd_cons.mpr (.inl rfl)) rfl
      · exact hseqEq.trans (by rw [streamed_cons, if_neg (fun heq => by cases heq)]; rfl)
      · exact hackEq
    have hhands : HubOk ((s.setPending { p' with isHanded := true }).record
        (.toWorker p'.call.worker p.call.request.id p'.call .ended)) := by
      rw [hcall]
      exact h.update hp rfl (fun _ => rfl) hevent trivial rfl (fun _ heq => by cases heq)
        (fun _ _ heq => by cases heq)
        (hentry.of_same rfl rfl hseq hack)
    unfold State.sendOn
    rw [htwice]
    refine ⟨hhands.core.of_same rfl rfl rfl rfl rfl rfl rfl fun _ hawaiting => hawaiting, ?_,
      hhands.settled.of_same rfl rfl⟩
    refine { host := hhands.live.host, hostless := hhands.live.hostless, hosted := hhands.live.hosted
             running := hhands.live.running, relaying := ?_ }
    intro relay hrelay
    obtain hrelay | hrelay := mem_append.mp hrelay
    · exact hhands.live.relaying relay hrelay
    · rw [mem_singleton.mp hrelay]
      exact ⟨⟨_, setPending_mem hp hcall, rfl, rfl⟩, host, hhost, hwire⟩

theorem HubOk.checked (h : HubOk s) (answer : Option Bool) (hclean : ∀ c ∈ s.checking, c.wire = wire →
      (answer = some false →
        ∀ p ∈ s.pending, some p.call.request.id = c.frame.id → p.call.worker = c.call.worker → p.isHanded = false) ∧
        (answer = some true → ∀ p ∈ s.pending, p.call = c.call → (p.receive c.frame).isOk → p.isHanded = false)) :
    HubOk (s.checked wire answer) := by
  unfold State.checked
  split
  · exact h
  · next c hfound =>
    obtain ⟨hrefused, htaken⟩ := hclean c (mem_of_find?_eq_some hfound) (by simpa using find?_some hfound)
    have hanswered := h.of_checking (s.checking.filter fun c => c.wire ≠ wire)
    dsimp only
    split
    · exact hanswered
    · exact hanswered
    · next id hframe =>
      refine hanswered.cancel fun p hp hid hworker => hrefused rfl p hp ?_ hworker
      rw [hframe, hid]
    · next id hframe =>
      split
      · exact hanswered
      · next hsome =>
        obtain ⟨host, hhost, hwire⟩ := not_all_wire hsome
        split
        · exact hanswered
        · next p hcurrent =>
          obtain ⟨hfind, hcall⟩ := filter_eq_some_iff.mp hcurrent
          obtain ⟨hp, hpid⟩ := h.core.findPending.mp hfind
          split
          · exact hanswered.record_failed _
          · next p' hreceived =>
            have hhanded : p.isHanded = false := htaken rfl p hp (of_decide_eq_true hcall) (by rw [hreceived]; rfl)
            obtain ⟨hsame, -⟩ := receive_eq_ok hreceived
            split
            · rw [← hpid, hsame, hanswered.core.cancel_setPending hp hsame]
              refine hanswered.cancel fun other hother hotherId _ => ?_
              rw [h.core.pending_eq hother hp hotherId]
              exact hhanded
            · exact hanswered.sendOn hp hhanded hhost hwire hreceived (by rw [hframe, hpid])

theorem HubOk.relayed (h : HubOk s) (isSent : Bool) : HubOk (s.relayed wire isSent) := by
  unfold State.relayed
  split
  · exact h
  · next relay hfound =>
    have hmem := mem_of_find?_eq_some hfound
    have hrelayWire : relay.1 = wire := by simpa using find?_some hfound
    obtain ⟨⟨p, hp, hcall, hhanded⟩, host, hhost, hwire⟩ := h.live.relaying relay hmem
    have hanswered : HubOk { s with relaying := s.relaying.filter fun relay => relay.1 ≠ wire } :=
      ⟨h.core.of_same rfl rfl rfl rfl rfl rfl rfl fun _ hawaiting => hawaiting,
        h.live.of_same rfl rfl rfl rfl fun _ hrelay => (mem_filter.mp hrelay).1, h.settled.of_same rfl rfl⟩
    split
    · -- The host is the only one that relays.
      have hnone : ∀ other ∈ s.relaying.filter fun relay => relay.1 ≠ wire, other.2 ≠ p.call := by
        intro other hother
        obtain ⟨hother, hne⟩ := mem_filter.mp hother
        obtain ⟨-, host', hhost', hwire'⟩ := h.live.relaying other hother
        obtain rfl : host = host' := some.inj (hhost.symm.trans hhost')
        exact absurd (hwire'.symm.trans (hwire.trans hrelayWire)) (of_decide_eq_true hne)
      obtain ⟨hcore, hlive, hsettled⟩ := finish_ok hanswered.core hanswered.live hp hnone
      rw [hhanded, if_pos rfl] at hcore
      rw [← hcall]
      exact ⟨hcore, hlive, hsettled⟩
    · exact hanswered

/-! ### Frames of a worker -/

theorem reply_eq_ok {callId bytes : ℕ} {value : ReplyValue} {isFailed isTooLong : Bool}
    (h : p.reply callId value isFailed bytes = .ok (p', isTooLong)) :
    p'.call = p.call ∧ p'.isHanded = p.isHanded ∧ p'.seq = p.seq ∧ p'.ack = p.ack := by
  unfold Pending.reply at h
  split at h
  · cases h
  · split at h
    · cases h
    · cases h
      exact ⟨rfl, rfl, rfl, rfl⟩

theorem HubOk.acknowledged (h : HubOk s) {seq : ℕ} (hp : p ∈ s.pending) (hnew : p.ack < seq)
    (hold : (seq : ℤ) ≤ p.seq) :
    HubOk ((s.setPending { p with ack := seq }).record (.acked p.call seq)) := by
  have hok := h.core.pending p hp
  have hackEq := hok.ack
  have hseqEq := hok.seq
  have hwindow := hok.window
  have hevent : EventOk s.log (.acked p.call seq) := ⟨hok.requested, by omega, by omega⟩
  refine h.update hp rfl (fun htrue => htrue) hevent trivial rfl (fun _ => nofun) (fun _ _ => nofun) ?_
  refine ⟨mem_cons_of_mem _ hok.requested, not_mem_cons_of_ne_of_not_mem nofun hok.uncancelled, ?_,
    ?_, ?_, hold, ?_⟩
  · rw [hasEnd_cons]
    exact (or_iff_right nofun).trans hok.ended
  · exact hseqEq.trans (by rw [streamed_cons, if_neg nofun]; rfl)
  · change (seq : ℤ) + 1 = ((if p.call = p.call then seq + 1 else _ : ℕ) : ℤ)
    rw [if_pos rfl]
    omega
  · dsimp only
    omega

theorem HubOk.fromWorkerPending (h : HubOk s) (hp : p ∈ s.pending) (hid : p.call.request.id = id)
    (hworker : p.call.worker = worker) (hcancel : frame = .cancel id → p.isHanded = false)
    (hframe : frame.id = some id)
    (hreply : ∀ callId value isFailed bytes, frame = .reply id callId value isFailed bytes →
      ((p.reply callId value isFailed bytes).toOption.any fun result => result.2) → p.isHanded = false) :
    HubOk (s.fromWorkerPending worker id p frame) := by
  have hwaits : p.isHanded = false → ∀ other ∈ s.pending, other.call.request.id = id → other.call.worker = worker →
      other.isHanded = false := by
    intro hhanded other hother hotherId _
    rw [h.core.pending_eq hother hp (hotherId.trans hid.symm)]
    exact hhanded
  unfold State.fromWorkerPending
  split
  · next frameId =>
    obtain rfl : frameId = id := some.inj hframe
    exact h.cancel (hwaits (hcancel rfl))
  · split
    · exact h.record_failed _
    · next hin =>
      simp only [Bool.or_eq_true, decide_eq_true_eq, not_or, Int.not_le, Int.not_lt] at hin
      exact h.acknowledged hp hin.1 hin.2
  · next frameId callId value isFailed bytes =>
    obtain rfl : frameId = id := some.inj hframe
    split
    · exact h.record_failed _
    · next p' isTooLong hreplied =>
      obtain ⟨hcall, hhanded, hseq, hack⟩ := reply_eq_ok hreplied
      split
      · next hlong =>
        subst hid
        subst hworker
        rw [h.core.cancel_setPending hp hcall]
        refine h.cancel (hwaits (hreply callId value isFailed bytes rfl ?_))
        rw [hreplied]
        exact hlong
      · exact h.setPending hp hcall hhanded hseq hack
  · exact h.record_failed _

theorem HubOk.fromWorker (h : HubOk s) (hcancel : ∀ id, frame = .cancel id →
      ∀ p ∈ s.pending, p.call.request.id = id → p.call.worker = worker → p.isHanded = false)
    (hreply : ∀ id callId value isFailed bytes, frame = .reply id callId value isFailed bytes →
      ∀ p ∈ s.pending, p.call.request.id = id → p.call.worker = worker →
        ((p.reply callId value isFailed bytes).toOption.any fun result => result.2) → p.isHanded = false) :
    HubOk (s.fromWorker worker frame) := by
  unfold State.fromWorker
  split
  · exact h.request _
  · exact h.record_failed _
  · next frame _ _ id _ hframe =>
    split
    · next hprobe =>
      have hcancelled : frame = .cancel id := of_decide_eq_true (Bool.and_eq_true_iff.mp hprobe).1
      exact h.cancel (hcancel id hcancelled)
    · split
      · unfold State.fromWorkerLate
        split <;> first
          | exact h.record_failed _
          | split
            · exact h
            · exact h.record_failed _
      · next p hfound =>
        obtain ⟨hp, hid⟩ := h.core.findPending.mp hfound
        split
        · exact h.record_failed _
        · next hworker =>
          have hworker := Decidable.not_not.mp hworker
          refine h.fromWorkerPending hp hid hworker (fun heq => hcancel id heq p hp hid hworker) hframe ?_
          exact fun callId value isFailed bytes heq => hreply id callId value isFailed bytes heq p hp hid hworker

theorem HubOk.elapse (h : HubOk s) (time : ℕ) : HubOk (s.elapse time) := by
  unfold State.elapse
  split
  · next htime =>
    rw [Bool.and_eq_true, all_eq_true, all_eq_true] at htime
    have hcore := h.core
    refine ⟨?_, h.live.of_same rfl rfl rfl rfl fun _ hrelay => hrelay, h.settled.of_same rfl rfl⟩
    refine
      { history := hcore.history, numbers := hcore.numbers, generations := hcore.generations,
        lostRuns := hcore.lostRuns
        ids := hcore.ids, count := hcore.count, probeCount := hcore.probeCount, pending := hcore.pending, probes := ?_
        owing := nofun, distinct := hcore.distinct, ends := hcore.ends, authorizing := hcore.authorizing }
    intro probe hprobe
    have hok := hcore.probes probe hprobe
    exact { hok with deadline := of_decide_eq_true (htime.2 probe hprobe) }
  · exact h

/-! ### Runs -/

/-- The entries that a cancellation finds have not been handed the end of the host. -/
def CancelOk (s : State) (id worker : ℕ) : Prop :=
  ∀ p ∈ s.pending, p.call.request.id = id → p.call.worker = worker → p.isHanded = false

/-- No step ends a call that has been sent its end: an authorization that is answered when the call
is over is granted, by the host of before; the request could be sent, or its call still waits; and
what is cancelled, or relayed of the host, has not been handed the end of the host. Nor is the
history of requests full. -/
def Clean (s : State) : Op → Prop
  | .attach _ _ _ | .detach => ∀ p ∈ s.pending, p.isHanded = false
  | .authorize number answer => ∀ awaiting ∈ s.authorizing, awaiting.1.number = number →
    (Waits s awaiting.1 ∨ (answer ∧ s.host = some awaiting.2)) ∧
      (answer → s.host = some awaiting.2 → s.isCurrent awaiting.1 → s.seen.length < 100000)
  | .forwarded number isSent => isSent ∨ ∀ call ∈ s.forwarding, call.number = number → Waits s call
  | .checked wire answer => ∀ c ∈ s.checking, c.wire = wire →
    (answer = some false →
      ∀ p ∈ s.pending, some p.call.request.id = c.frame.id → p.call.worker = c.call.worker → p.isHanded = false) ∧
      (answer = some true → ∀ p ∈ s.pending, p.call = c.call → (p.receive c.frame).isOk → p.isHanded = false)
  | .fromWorker worker (.cancel id) | .cancel id worker => CancelOk s id worker
  | .fromWorker worker (.reply id callId value isFailed bytes) =>
    ∀ p ∈ s.pending, p.call.request.id = id → p.call.worker = worker →
      ((p.reply callId value isFailed bytes).toOption.any fun result => result.2) → p.isHanded = false
  | .closeWorker worker => ∀ p ∈ s.pending, p.call.worker = worker → p.isHanded = false
  | _ => True

theorem HubOk.step (h : HubOk s) {op : Op} (hclean : Clean s op) : HubOk (step s op) := by
  cases op with
  | attach wire ownerId registrationGeneration => exact h.attach hclean _ _
  | detach => exact h.detach hclean
  | request request worker => exact h.request request
  | authorize number answer => exact h.authorize answer hclean
  | forwarded number isSent => exact h.forwarded isSent hclean
  | fromHost wire frame => exact h.fromHost frame
  | checked wire answer => exact h.checked answer hclean
  | relayed wire isSent => exact h.relayed isSent
  | fromWorker worker frame =>
    refine h.fromWorker ?_ ?_
    · rintro id rfl
      exact hclean
    · rintro id callId value isFailed bytes rfl
      exact hclean
  | cancel id worker => exact h.cancel hclean
  | closeWorker worker => exact h.closeWorker hclean
  | elapse time => exact h.elapse time

theorem HubOk.initial : HubOk State.initial := by
  refine ⟨?_, ⟨rfl, fun _ => ⟨rfl, rfl⟩, nofun, nofun, nofun⟩, fun hne => absurd rfl hne⟩
  exact
    { history := trivial, numbers := nofun, generations := nofun, lostRuns := nofun, ids := nodup_nil
      count := Nat.zero_le _, probeCount := Nat.zero_le _, pending := nofun, probes := nofun, owing := nofun
      distinct := nodup_nil, ends := nofun, authorizing := nofun }

/-- What is promised of a hub. In its history, frames go to the worker that asked for them, none
after the end, and the requests to the host; `EventOk` says when. -/
structure Sound (s : State) : Prop where
  history : History.Ok EventOk s.log
  ends : ∀ call, .requested call ∈ s.log →
    (HasEnd call s.log ↔ ¬ (Waits s call ∨ ∃ probe ∈ s.probes, probe.call = call))
  count : s.pending.length ≤ hostInFlight
  probeCount : s.pending.countP (fun p => p.call.request.isFleetProbe) ≤ hostInFlight / 2
  queue : s.probes ≠ [] → s.host.isSome ∧ s.probeCapacity = false
  queueTime : ∀ probe ∈ s.probes, ∃ time, .queued probe.call time ∈ s.log ∧ s.now ≤ time + 30000

theorem HubOk.sound (h : HubOk s) : Sound s where
  history := h.core.history
  ends call hrequested := by
    constructor
    · rintro hend (⟨p, hp, rfl, hhanded⟩ | ⟨probe, hprobe, rfl⟩)
      · rw [(h.core.pending p hp).ended, hhanded] at hend
        cases hend
      · exact (h.core.probes probe hprobe).fresh.not_hasEnd hend
    · intro hplaced
      obtain hnone | ⟨p, hp, rfl⟩ | hprobe | hend := h.core.ends call hrequested
      · cases hnone
      · cases hhanded : p.isHanded with
        | true => exact (h.core.pending p hp).ended.mpr hhanded
        | false => exact absurd (.inl ⟨p, hp, rfl, hhanded⟩) hplaced
      · exact absurd (.inr hprobe) hplaced
      · exact hend
  __ := h.core
  queue hne := by
    refine ⟨?_, h.settled hne⟩
    cases hhost : s.host with
    | none => exact absurd (h.live.hostless hhost).2 hne
    | some host => rfl
  queueTime probe hprobe := by
    have hok := h.core.probes probe hprobe
    obtain ⟨time, hqueued, htime⟩ := hok.time
    exact ⟨time, hqueued, Nat.le_trans hok.deadline (Nat.le_of_eq htime)⟩

theorem hub_sound_of_clean (ops : List Op) (hclean : Run.Meets step Clean State.initial ops) :
    Sound (Run.after step State.initial ops) :=
  (Run.inv_of_meets (fun _ _ h hop => h.step hop) HubOk.initial hclean).sound

instance Waits.decidable (s : State) (call : Call) : Decidable (Waits s call) :=
  inferInstanceAs (Decidable (∃ p ∈ s.pending, p.call = call ∧ p.isHanded = false))

instance CancelOk.decidable (s : State) (id worker : ℕ) : Decidable (CancelOk s id worker) :=
  inferInstanceAs (Decidable (∀ p ∈ s.pending, p.call.request.id = id → p.call.worker = worker →
    p.isHanded = false))

instance Clean.decidable (s : State) (op : Op) : Decidable (Clean s op) :=
  match op with
  | .attach _ _ _ => inferInstanceAs (Decidable (∀ p ∈ s.pending, p.isHanded = false))
  | .detach => inferInstanceAs (Decidable (∀ p ∈ s.pending, p.isHanded = false))
  | .request _ _ => inferInstanceAs (Decidable True)
  | .authorize number answer =>
    inferInstanceAs (Decidable (∀ awaiting ∈ s.authorizing, awaiting.1.number = number →
      (Waits s awaiting.1 ∨ (answer = true ∧ s.host = some awaiting.2)) ∧
        (answer = true → s.host = some awaiting.2 → s.isCurrent awaiting.1 = true → s.seen.length < 100000)))
  | .forwarded number isSent =>
    inferInstanceAs (Decidable (isSent = true ∨ ∀ call ∈ s.forwarding, call.number = number → Waits s call))
  | .fromHost _ _ => inferInstanceAs (Decidable True)
  | .checked wire answer => inferInstanceAs (Decidable (∀ c ∈ s.checking, c.wire = wire →
      (answer = some false →
        ∀ p ∈ s.pending, some p.call.request.id = c.frame.id → p.call.worker = c.call.worker → p.isHanded = false) ∧
        (answer = some true → ∀ p ∈ s.pending, p.call = c.call → (p.receive c.frame).isOk = true →
          p.isHanded = false)))
  | .relayed _ _ => inferInstanceAs (Decidable True)
  | .fromWorker worker frame =>
    match frame with
    | .cancel id => inferInstanceAs (Decidable (CancelOk s id worker))
    | .reply id callId value isFailed bytes =>
      inferInstanceAs (Decidable (∀ p ∈ s.pending, p.call.request.id = id → p.call.worker = worker →
        ((p.reply callId value isFailed bytes).toOption.any fun result => result.2) = true → p.isHanded = false))
    | .request _ | .ack _ _ | .stream _ _ _ | .ended _ _ | .callback _ _ _ _ | .health _ =>
      inferInstanceAs (Decidable True)
  | .cancel id worker => inferInstanceAs (Decidable (CancelOk s id worker))
  | .closeWorker worker =>
    inferInstanceAs (Decidable (∀ p ∈ s.pending, p.call.worker = worker → p.isHanded = false))
  | .elapse _ => inferInstanceAs (Decidable True)

/-- A request is answered with a stream, and the host ends it. -/
theorem hub_sound_of_clean_stream : Sound (Run.after step State.initial
    [.attach 1 0 0, .request ⟨7, 3, .other⟩ 9, .authorize 0 true, .forwarded 0 true, .fromHost 1 (.stream 7 0 10),
      .checked 1 (some true), .fromWorker 9 (.ack 7 0), .fromHost 1 (.ended 7 10), .checked 1 (some true),
      .relayed 1 true]) :=
  hub_sound_of_clean _ (by decide)

/-- The host is lost while the request is being authorized. -/
theorem end_after_detach : ¬ Sound (Run.after step State.initial
    [.attach 1 0 0, .request ⟨7, 3, .other⟩ 9, .detach, .authorize 0 true]) := by
  intro h
  obtain ⟨-, -, -, hunended, -⟩ := h.history.1
  exact hunended ⟨_, mem_cons_self, rfl⟩

end ArdurBot.HostHub
