import ArdurBot.Hosts.HubActs

/-!
# Attaching a host, and its entries

A host that is attached takes the place of another, whose calls are all sent their ends. An entry is
replaced by one of the same call.
-/

namespace ArdurBot.HostHub

open List

variable {owed : List Call} {s s' : State} {p : Pending} {probe : QueuedProbe} {call : Call}
  {event : Event} {wire worker : ℕ}

theorem Core.record_callless (h : Core owed s) (hok : EventOk s.log event) (hcall : event.call = none)
    (hlog : s'.log = event :: s.log) (hpending : s'.pending = s.pending) (hprobes : s'.probes = s.probes)
    (hcalls : s'.calls = s.calls) (hnow : s'.now = s.now) (hauthorizing : s'.authorizing = s.authorizing)
    (hgenerations : ∀ host, .attached host ∈ s'.log → host.connectionGeneration < s'.generations)
    (hlost : ∀ runId, .lost runId ∈ s'.log → runId ∈ s'.lostRuns) : Core owed s' := by
  have hother : ∀ call, event.call ≠ some call := by
    intro call heq
    rw [hcall] at heq
    cases heq
  have hend : ∀ call, HasEnd call (event :: s.log) ↔ HasEnd call s.log := by
    intro call
    rw [hasEnd_cons]
    exact or_iff_right fun hend => hother call (Event.call_of_endOf hend)
  refine
    { history := ?_, numbers := ?_, generations := hgenerations, lostRuns := hlost, ids := ?_,
      count := ?_, probeCount := ?_
      pending := ?_, probes := ?_, owing := ?_, distinct := h.distinct, ends := ?_, authorizing := ?_ }
  · rw [hlog]
    exact ⟨hok, h.history⟩
  · rw [hlog, hcalls]
    intro other hmem
    obtain rfl | hmem := mem_cons.mp hmem
    · intro call heq
      exact absurd heq (hother call)
    · exact h.numbers other hmem
  · rw [State.ids, hpending, hprobes]
    exact h.ids
  · rw [hpending]
    exact h.count
  · rw [hpending]
    exact h.probeCount
  · rw [hlog, hpending]
    exact fun p hp => (h.pending p hp).cons (.of_call (hother _))
  · rw [hlog, hprobes, hnow]
    exact fun probe hprobe => (h.probes probe hprobe).cons (hother _)
  · rw [hlog, hpending, hprobes]
    intro call howe
    have howing := h.owing call howe
    exact ⟨mem_cons_of_mem _ howing.requested, fun hmem => howing.unended ((hend call).mp hmem), howing.pending,
      howing.probes⟩
  · rw [hlog, hpending, hprobes]
    intro call hmem
    obtain rfl | hmem := mem_cons.mp hmem
    · cases hcall
    · rw [hend call]
      exact h.ends call hmem
  · rw [hlog, hauthorizing]
    intro awaiting hawaiting
    obtain ⟨hadmitted, hforwarded⟩ := h.authorizing awaiting hawaiting
    refine ⟨mem_cons_of_mem _ hadmitted, fun host hmem => ?_⟩
    obtain rfl | hmem := mem_cons.mp hmem
    · cases hcall
    · exact hforwarded host hmem

theorem Core.lose (h : Core owed s) (runId : ℕ) : Core owed (s.lose runId) := by
  have hok : EventOk s.log (.lost runId) := trivial
  refine h.record_callless hok rfl rfl rfl rfl rfl rfl rfl ?_ ?_
  · intro host hmem
    obtain heq | hmem := mem_cons.mp hmem
    · cases heq
    · exact h.generations host hmem
  · intro other hmem
    have hadded : ∀ other, other = runId ∨ other ∈ s.lostRuns →
        other ∈ if runId ∈ s.lostRuns then s.lostRuns else s.lostRuns ++ [runId] := by
      intro other hother
      split
      · next hknown =>
        obtain rfl | hother := hother
        · exact hknown
        · exact hother
      · exact mem_append.mpr (hother.symm.imp_right mem_singleton.mpr)
    obtain heq | hmem := mem_cons.mp hmem
    · exact hadded other (.inl (Event.lost.inj heq))
    · exact hadded other (.inr (h.lostRuns other hmem))

theorem Core.loseCall {rest : List Pending} (h : Core owed { s with pending := p :: rest })
    (hhanded : p.isHanded = false) :
    Core owed { s.loseCall p.call with pending := rest } := by
  have herased := h.erasePending mem_cons_self
  have hnodup := (nodup_append.mp h.ids).1
  rw [map_cons, nodup_cons] at hnodup
  have hrest : State.erasePending { s with pending := p :: rest } p.call.request.id = { s with pending := rest } := by
    unfold State.erasePending
    rw [filter_cons_of_neg (by simp), filter_eq_self.mpr]
    intro other hother
    refine decide_eq_true fun heq => hnodup.1 ?_
    rw [← heq]
    exact mem_map_of_mem hother
  rw [hhanded, if_neg Bool.false_ne_true, hrest] at herased
  exact (herased.lose p.call.request.runId).cancelled.sendEnd State.disconnectedReason

theorem Core.loseCalls {pending : List Pending} (h : Core owed { s with pending })
    (hhanded : ∀ p ∈ pending, p.isHanded = false) :
    Core owed { pending.foldl (fun s p => s.loseCall p.call) s with pending := [] } := by
  induction pending generalizing s with
  | nil => exact h
  | cons p rest ih =>
    exact ih (h.loseCall (hhanded p mem_cons_self)) fun other hother => hhanded other (mem_cons_of_mem _ hother)

theorem foldl_loseCall (s : State) (pending : List Pending) :
    (pending.foldl (fun s p => s.loseCall p.call) s).host = s.host ∧
      (pending.foldl (fun s p => s.loseCall p.call) s).relaying = s.relaying ∧
      (pending.foldl (fun s p => s.loseCall p.call) s).probes = s.probes ∧
      hostOf (pending.foldl (fun s p => s.loseCall p.call) s).log = hostOf s.log := by
  induction pending generalizing s with
  | nil => exact ⟨rfl, rfl, rfl, rfl⟩
  | cons p rest ih => exact ih (s.loseCall p.call)

theorem loseProbes_ok {probes : List QueuedProbe} (h : Core owed s) (hprobes : s.probes = probes) :
    let lost := probes.foldl
      (fun s probe => (s.lose probe.call.request.runId).cancel probe.call.request.id probe.call.worker) s
    Core owed lost ∧ lost.host = s.host ∧ lost.relaying = s.relaying ∧ lost.pending = s.pending ∧ lost.probes = [] ∧
      hostOf lost.log = hostOf s.log := by
  induction probes generalizing s with
  | nil => exact ⟨h, rfl, rfl, rfl, hprobes, rfl⟩
  | cons probe rest ih =>
    have hmem : probe ∈ (s.lose probe.call.request.runId).probes := by
      change probe ∈ s.probes
      rw [hprobes]
      exact mem_cons_self
    obtain ⟨heq, hcore⟩ := cancelProbe_ok (h.lose probe.call.request.runId) hmem
    have hnodup := (nodup_append.mp h.ids).2.1
    rw [hprobes, map_cons, nodup_cons] at hnodup
    have hrest : ((s.lose probe.call.request.runId).cancel probe.call.request.id
        probe.call.worker).probes = rest := by
      rw [heq]
      change (s.probes.filter fun other => other.call.request.id ≠ probe.call.request.id) = rest
      rw [hprobes, filter_cons_of_neg (by simp), filter_eq_self]
      intro other hother
      refine decide_eq_true fun heq => hnodup.1 ?_
      rw [← heq]
      exact mem_map_of_mem hother
    obtain ⟨hcore, hhost, hrelaying, hpending, hempty, hlog⟩ := ih hcore hrest
    refine ⟨hcore, ?_, ?_, ?_, hempty, ?_⟩
    · exact hhost.trans (by rw [heq]; rfl)
    · exact hrelaying.trans (by rw [heq]; rfl)
    · exact hpending.trans (by rw [heq]; rfl)
    · exact hlog.trans (by rw [heq]; rfl)

section

variable (h : HubOk s) (hhanded : ∀ p ∈ s.pending, p.isHanded = false)
include h hhanded

theorem detach_ok :
    Core [] s.detach ∧ s.detach.host = none ∧ s.detach.pending = [] ∧ s.detach.probes = [] ∧ s.detach.relaying = [] ∧
      hostOf s.detach.log = none := by
  have hrelaying : s.relaying = [] := by
    refine eq_nil_iff_forall_not_mem.mpr fun relay hrelay => ?_
    obtain ⟨⟨p, hp, -, htrue⟩, -⟩ := h.live.relaying relay hrelay
    rw [hhanded p hp] at htrue
    cases htrue
  have hok : EventOk s.log .detached := trivial
  have hdetached : Core [] s.unhosted := by
    refine h.core.record_callless hok rfl rfl rfl rfl rfl rfl rfl ?_ ?_
    · exact fun host hmem => h.core.generations host ((mem_cons.mp hmem).resolve_left nofun)
    · exact fun runId hmem => h.core.lostRuns runId ((mem_cons.mp hmem).resolve_left nofun)
  have hcalls : Core [] { s.pending.foldl (fun s p => s.loseCall p.call) s.unhosted with pending := [] } :=
    Core.loseCalls (s := s.unhosted) hdetached hhanded
  obtain ⟨hhost, hrelays, hprobes, hlog⟩ := foldl_loseCall s.unhosted s.pending
  obtain ⟨hcore, hhost', hrelays', hpending', hprobes', hlog'⟩ := loseProbes_ok hcalls rfl
  refine ⟨hcore, hhost'.trans hhost, hpending', hprobes', ?_, hlog'.trans hlog⟩
  exact (hrelays'.trans hrelays).trans hrelaying

theorem HubOk.detach : HubOk s.detach := by
  obtain ⟨hcore, hhost, hpending, hprobes, hrelaying, hlog⟩ := detach_ok h hhanded
  refine ⟨hcore, ⟨hhost.trans hlog.symm, fun _ => ⟨hpending, hprobes⟩, ?_, ?_, ?_⟩,
    fun hne => absurd hprobes hne⟩
  · simp [hpending]
  · simp [hpending]
  · simp [hrelaying]

theorem HubOk.attach (ownerId registration : ℕ) : HubOk (s.attach wire ownerId registration) := by
  obtain ⟨hcore, -, hpending, hprobes, hrelaying, -⟩ := detach_ok h hhanded
  have hpending' : (s.attach wire ownerId registration).pending = [] := hpending
  have hprobes' : (s.attach wire ownerId registration).probes = [] := hprobes
  have hrelaying' : (s.attach wire ownerId registration).relaying = [] := hrelaying
  refine ⟨?_, ⟨rfl, fun _ => ⟨hpending', hprobes'⟩, ?_, ?_, ?_⟩, fun hne => absurd hprobes' hne⟩
  · have hok : EventOk s.detach.log
        (.attached ⟨wire, ownerId, registration, s.detach.generations⟩) := hcore.generations
    refine hcore.record_callless hok rfl rfl rfl rfl rfl rfl rfl ?_ ?_
    · intro host hmem
      obtain heq | hmem := mem_cons.mp hmem
      · rw [Event.attached.inj heq]
        exact Nat.lt_succ_self _
      · exact Nat.lt_succ_of_lt (hcore.generations host hmem)
    · exact fun runId hmem => hcore.lostRuns runId ((mem_cons.mp hmem).resolve_left nofun)
  · simp [hpending']
  · simp [hpending']
  · simp [hrelaying']

end

theorem HubOk.closeWorker (h : HubOk s)
    (hhanded : ∀ p ∈ s.pending, p.call.worker = worker → p.isHanded = false) :
    HubOk (s.closeWorker worker) := by
  unfold State.closeWorker
  obtain ⟨hprobes, hkept⟩ := h.cancelAll ((s.probes.filter fun probe => probe.call.worker = worker).map
    fun probe => probe.call.request.id) hhanded
  rw [foldl_map] at hprobes hkept
  have hpending := (hprobes.cancelAll ((((s.probes.filter fun probe => probe.call.worker = worker).foldl
    (fun s probe => s.cancel probe.call.request.id worker) s).pending.filter fun p => p.call.worker = worker).map
    fun p => p.call.request.id) hkept).1
  rwa [foldl_map] at hpending

variable {p' : Pending}

theorem Core.map_call (h : Core owed s) (hp : p ∈ s.pending) (hcall : p'.call = p.call) :
    (s.setPending p').pending.map (fun p => p.call) = s.pending.map fun p => p.call := by
  unfold State.setPending
  rw [map_map]
  refine map_congr_left fun other hother => ?_
  change (if other.call.request.id = p'.call.request.id then p' else other).call = other.call
  split
  · next hid =>
    rw [hcall] at hid
    rw [h.pending_eq hother hp hid, hcall]
  · rfl

theorem mem_setPending {p : Pending} (h : p ∈ (s.setPending p').pending) :
    p = p' ∨ (p ∈ s.pending ∧ p.call.request.id ≠ p'.call.request.id) := by
  obtain ⟨other, hother, heq⟩ := mem_map.mp h
  split at heq
  · exact .inl heq.symm
  · next hid =>
    subst heq
    exact .inr ⟨hother, hid⟩

theorem setPending_mem (hp : p ∈ s.pending) (hcall : p'.call = p.call) : p' ∈ (s.setPending p').pending := by
  refine mem_map.mpr ⟨p, hp, ?_⟩
  rw [hcall, if_pos rfl]

theorem Core.setPending (h : Core owed s) (hp : p ∈ s.pending) (hcall : p'.call = p.call)
    (hok : PendingOk s.log p') :
    Core owed (s.setPending p') := by
  have hcalls := h.map_call hp hcall
  have hcallsOf : ∀ other ∈ (s.setPending p').pending, ∃ entry ∈ s.pending, entry.call = other.call := by
    intro other hother
    have hmem : other.call ∈ s.pending.map fun p => p.call := by
      rw [← hcalls]
      exact mem_map_of_mem hother
    exact mem_map.mp hmem
  refine
    { history := h.history, numbers := h.numbers, generations := h.generations, lostRuns := h.lostRuns, ids := ?_
      count := ?_, probeCount := ?_, pending := ?_, probes := h.probes, owing := ?_, distinct :=
        h.distinct, ends := ?_
      authorizing := h.authorizing }
  · have hids : (s.setPending p').pending.map (fun p => p.call.request.id) = s.pending.map fun p =>
        p.call.request.id := by
      have hmapped := congrArg (map fun call : Call => call.request.id) hcalls
      rwa [map_map, map_map] at hmapped
    have hold := h.ids
    unfold State.ids at hold ⊢
    rw [hids]
    exact hold
  · have hlength := congrArg length hcalls
    rw [length_map, length_map] at hlength
    rw [hlength]
    exact h.count
  · have hcount := congrArg (countP fun call : Call => call.request.isFleetProbe) hcalls
    rw [countP_map, countP_map] at hcount
    exact Nat.le_trans (Nat.le_of_eq hcount) h.probeCount
  · intro other hother
    obtain rfl | ⟨hother, -⟩ := mem_setPending hother
    · exact hok
    · exact h.pending other hother
  · intro call howe
    have howing := h.owing call howe
    refine ⟨howing.requested, howing.unended, fun other hother heq => ?_, howing.probes⟩
    obtain ⟨entry, hentry, hsame⟩ := hcallsOf other hother
    exact howing.pending entry hentry (hsame.trans heq)
  · intro call hrequested
    refine (h.ends call hrequested).imp_right fun hplace => hplace.imp_left ?_
    rintro ⟨entry, hentry, rfl⟩
    have hmem : entry.call ∈ (s.setPending p').pending.map fun p => p.call := by
      rw [hcalls]
      exact mem_map_of_mem hentry
    exact mem_map.mp hmem

theorem Live.setPending (h : Live s) (hp : p ∈ s.pending) (hcall : p'.call = p.call)
    (hhanded : p.isHanded → p'.isHanded) (hcore : Core owed s) : Live (s.setPending p') where
  host := h.host
  hostless hnone := by
    rw [(h.hostless hnone).1] at hp
    cases hp
  hosted other hother := by
    obtain rfl | ⟨hother, -⟩ := mem_setPending hother
    · rw [hcall]
      exact h.hosted p hp
    · exact h.hosted other hother
  running other hother := by
    obtain rfl | ⟨hother, -⟩ := mem_setPending hother
    · rw [hcall]
      exact h.running p hp
    · exact h.running other hother
  relaying relay hrelay := by
    obtain ⟨⟨other, hother, hsame, htrue⟩, hhost⟩ := h.relaying relay hrelay
    refine ⟨?_, hhost⟩
    by_cases hid : other.call.request.id = p'.call.request.id
    · rw [hcall] at hid
      obtain rfl := hcore.pending_eq hother hp hid
      exact ⟨p', setPending_mem hother hcall, hcall.trans hsame, hhanded htrue⟩
    · exact ⟨other, mem_map.mpr ⟨other, hother, if_neg hid⟩, hsame, htrue⟩

theorem Settled.setPending (h : Settled s) (hp : p ∈ s.pending) (hcall : p'.call = p.call)
    (hcore : Core owed s) :
    Settled (s.setPending p') := by
  have hcalls := hcore.map_call hp hcall
  have hlength := congrArg length hcalls
  have hcount := congrArg (countP fun call : Call => call.request.isFleetProbe) hcalls
  rw [length_map, length_map] at hlength
  rw [countP_map, countP_map] at hcount
  intro hprobes
  have hfull := h hprobes
  unfold State.probeCapacity at hfull ⊢
  rw [hlength]
  exact (congrArg (fun n => decide (s.pending.length < hostInFlight) &&
    decide (n < hostInFlight / 2)) hcount).trans hfull

end ArdurBot.HostHub
