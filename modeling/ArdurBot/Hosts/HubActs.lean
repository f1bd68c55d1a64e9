import ArdurBot.Hosts.HubOk

/-!
# How a host hub keeps what holds of it

A call that begins is refused, queued or admitted; what is taken out of the entries makes room for
what is queued.
-/

namespace ArdurBot.HostHub

open List Option Bool

variable {owed : List Call} {s s' : State} {p : Pending} {probe : QueuedProbe} {call : Call}
  {host : Host} {id worker : ℕ}

theorem Core.of_same (h : Core owed s) (hlog : s'.log = s.log) (hpending : s'.pending = s.pending)
    (hprobes : s'.probes = s.probes) (hcalls : s'.calls = s.calls) (hgenerations : s'.generations = s.generations)
    (hlost : s'.lostRuns = s.lostRuns) (hnow : s'.now = s.now)
    (hauthorizing : ∀ awaiting ∈ s'.authorizing, awaiting ∈ s.authorizing) : Core owed s' where
  history := by rw [hlog]; exact h.history
  numbers := by rw [hlog, hcalls]; exact h.numbers
  generations := by rw [hlog, hgenerations]; exact h.generations
  lostRuns := by rw [hlog, hlost]; exact h.lostRuns
  ids := by rw [State.ids, hpending, hprobes]; exact h.ids
  count := by rw [hpending]; exact h.count
  probeCount := by rw [hpending]; exact h.probeCount
  pending := by rw [hlog, hpending]; exact h.pending
  probes := by rw [hlog, hprobes, hnow]; exact h.probes
  owing call hcall := by
    have howing := h.owing call hcall
    refine ⟨?_, ?_, ?_, ?_⟩
    · rw [hlog]; exact howing.requested
    · rw [hlog]; exact howing.unended
    · rw [hpending]; exact howing.pending
    · rw [hprobes]; exact howing.probes
  distinct := h.distinct
  ends := by rw [hlog, hpending, hprobes]; exact h.ends
  authorizing awaiting hawaiting := by rw [hlog]; exact h.authorizing awaiting (hauthorizing awaiting hawaiting)

theorem Live.of_same (h : Live s) (hhost : s'.host = s.host) (hlog : s'.log = s.log)
    (hpending : s'.pending = s.pending)
    (hprobes : s'.probes = s.probes) (hrelaying : ∀ relay ∈ s'.relaying, relay ∈ s.relaying) : Live s' where
  host := by rw [hhost, hlog]; exact h.host
  hostless := by rw [hhost, hpending, hprobes]; exact h.hostless
  hosted := by rw [hhost, hlog, hpending]; exact h.hosted
  running := by rw [hlog, hpending]; exact h.running
  relaying relay hrelay := by rw [hhost, hpending]; exact h.relaying relay (hrelaying relay hrelay)

theorem Settled.of_same (h : Settled s) (hpending : s'.pending = s.pending) (hprobes : s'.probes = s.probes) :
    Settled s' := by
  unfold Settled State.probeCapacity at h ⊢
  rw [hpending, hprobes]
  exact h

theorem Core.rememberCompleted (h : Core owed s) (worker id : ℕ) :
    Core owed (s.rememberCompleted worker id) :=
  h.of_same rfl rfl rfl rfl rfl rfl rfl fun _ hawaiting => hawaiting

theorem Live.rememberCompleted (h : Live s) (worker id : ℕ) : Live (s.rememberCompleted worker id) :=
  h.of_same rfl rfl rfl rfl fun _ hrelay => hrelay

theorem findProbe_eq_none : s.findProbe id = none ↔ ∀ probe ∈ s.probes, probe.call.request.id ≠ id := by
  simp [State.findProbe]

theorem Core.findPending (h : Core owed s) :
    s.findPending id = some p ↔ p ∈ s.pending ∧ p.call.request.id = id :=
  have hids : (s.pending.map fun p => p.call.request.id).Nodup := (nodup_append.mp h.ids).1
  Table.find_eq_some hids

theorem Core.findProbe (h : Core owed s) :
    s.findProbe id = some probe ↔ probe ∈ s.probes ∧ probe.call.request.id = id :=
  have hids : (s.probes.map fun probe => probe.call.request.id).Nodup := (nodup_append.mp h.ids).2.1
  Table.find_eq_some hids

theorem not_refused {request : Request} (h : s.isRefused host request = false) :
    (request.isFleetProbe = false → s.pending.length < hostInFlight) ∧
      (∀ p ∈ s.pending, p.call.request.id ≠ request.id) ∧ (∀ probe ∈ s.probes, probe.call.request.id ≠ request.id) ∧
      (request.operation = .boardRun ∨ request.runId ∉ s.lostRuns) := by
  unfold State.isRefused at h
  simp only [or_eq_false_iff, and_eq_false_iff, not_eq_false', decide_eq_false_iff_not, Nat.not_le,
    decide_not, isSome_eq_false_iff, isNone_iff_eq_none] at h
  obtain ⟨⟨⟨⟨⟨⟨⟨hroom, -⟩, hpending⟩, hprobe⟩, -⟩, hrun⟩, -⟩, -⟩ := h
  refine ⟨fun hnot => ?_, by simpa [State.findPending] using hpending, findProbe_eq_none.mp hprobe, ?_⟩
  · exact hroom.resolve_left (by rw [hnot]; exact false_ne_true)
  · exact hrun.symm.imp of_decide_eq_true id

theorem mem_ids : id ∈ s.ids ↔ (∃ p ∈ s.pending, p.call.request.id = id) ∨ ∃ probe ∈ s.probes,
    probe.call.request.id = id := by
  simp [State.ids]

section

variable (h : Core (call :: owed) s)
include h

theorem Core.addProbe (hcall : probe.call = call) (hok : QueuedOk s.log s.now probe)
    (hid : call.request.id ∉ s.ids) : Core owed { s with probes := s.probes ++ [probe] } := by
  obtain ⟨hnew, hdistinct⟩ := nodup_cons.mp h.distinct
  have hids : State.ids { s with probes := s.probes ++ [probe] } = s.ids ++ [call.request.id] := by
    simp [State.ids, hcall]
  refine
    { history := h.history, numbers := h.numbers, generations := h.generations, lostRuns := h.lostRuns
      ids := ?_, count := h.count, probeCount := h.probeCount, pending := h.pending, probes := ?_, owing := ?_
      distinct := hdistinct, ends := ?_, authorizing := h.authorizing }
  · rw [hids]
    exact (perm_append_singleton _ _).nodup_iff.mpr (nodup_cons.mpr ⟨hid, h.ids⟩)
  · intro other hother
    obtain hother | hother := mem_append.mp hother
    · exact h.probes other hother
    · rw [mem_singleton.mp hother]
      exact hok
  · intro other hother
    have howing := h.owing other (mem_cons_of_mem _ hother)
    refine ⟨howing.requested, howing.unended, howing.pending, fun queued hqueued heq => ?_⟩
    obtain hqueued | hqueued := mem_append.mp hqueued
    · exact howing.probes queued hqueued heq
    · rw [mem_singleton.mp hqueued, hcall] at heq
      exact hnew (by rwa [heq])
  · intro other hother
    obtain howe | hplace | ⟨queued, hqueued, heq⟩ | hend := h.ends other hother
    · obtain rfl | howe := mem_cons.mp howe
      · exact .inr (.inr (.inl ⟨probe, mem_append_right _ (mem_singleton_self _), hcall⟩))
      · exact .inl howe
    · exact .inr (.inl hplace)
    · exact .inr (.inr (.inl ⟨queued, mem_append_left _ hqueued, heq⟩))
    · exact .inr (.inr (.inr hend))

theorem Core.addPending (hcall : p.call = call) (hok : PendingOk s.log p)
    (hid : call.request.id ∉ s.ids) (hcount : s.pending.length < hostInFlight)
    (hprobeCount : call.request.isFleetProbe →
      s.pending.countP (fun p => p.call.request.isFleetProbe) < hostInFlight / 2) :
    Core owed { s with pending := s.pending ++ [p] } := by
  obtain ⟨hnew, hdistinct⟩ := nodup_cons.mp h.distinct
  have hids : (State.ids { s with pending := s.pending ++ [p] }).Perm (call.request.id :: s.ids) := by
    simp only [State.ids, map_append, map_cons, map_nil, append_assoc, singleton_append, hcall]
    exact perm_middle
  refine
    { history := h.history, numbers := h.numbers, generations := h.generations, lostRuns := h.lostRuns
      ids := hids.nodup_iff.mpr (nodup_cons.mpr ⟨hid, h.ids⟩), count := ?_, probeCount := ?_, pending := ?_
      probes := h.probes, owing := ?_, distinct := hdistinct, ends := ?_, authorizing := h.authorizing }
  · rw [length_append, length_singleton]
    exact hcount
  · rw [countP_append, countP_singleton, hcall]
    have hold := h.probeCount
    split
    · next hprobe => exact hprobeCount hprobe
    · exact hold
  · intro other hother
    obtain hother | hother := mem_append.mp hother
    · exact h.pending other hother
    · rw [mem_singleton.mp hother]
      exact hok
  · intro other hother
    have howing := h.owing other (mem_cons_of_mem _ hother)
    refine ⟨howing.requested, howing.unended, fun entry hentry heq => ?_, howing.probes⟩
    obtain hentry | hentry := mem_append.mp hentry
    · exact howing.pending entry hentry heq
    · rw [mem_singleton.mp hentry, hcall] at heq
      exact hnew (by rwa [heq])
  · intro other hother
    obtain howe | ⟨entry, hentry, heq⟩ | hplace | hend := h.ends other hother
    · obtain rfl | howe := mem_cons.mp howe
      · exact .inr (.inl ⟨p, mem_append_right _ (mem_singleton_self _), hcall⟩)
      · exact .inl howe
    · exact .inr (.inl ⟨entry, mem_append_left _ hentry, heq⟩)
    · exact .inr (.inr (.inl hplace))
    · exact .inr (.inr (.inr hend))

theorem Core.record_owing {event : Event} (hok : EventOk s.log event) (hplain : event.IsPlain)
    (hcall : event.call = some call) (hend : event.endOf = none) (hrequested : event ≠ .requested call)
    (hauthorizing : ∀ awaiting ∈ s.authorizing, ∀ host, event ≠ .forwarded awaiting.1 host) :
    Core (call :: owed) (s.record event) := by
  have howing := h.owing call mem_cons_self
  refine h.record hok hplain ?_ ?_ ?_ hauthorizing ?_ h.distinct ?_ fun other hother => .inl hother
  · rintro other rfl
    exact hrequested (by rw [some.inj hcall])
  · intro p hp
    refine .of_call fun heq => howing.pending p hp ?_
    exact some.inj (heq.symm.trans hcall)
  · intro probe hprobe heq
    exact howing.probes probe hprobe (some.inj (heq.symm.trans hcall))
  · intro other hother
    obtain rfl : call = other := some.inj (hcall.symm.trans hother)
    exact h.number howing.requested rfl
  · intro other hother
    refine ⟨hother, fun heq => ?_⟩
    rw [hend] at heq
    cases heq

theorem Core.enqueue (hfresh : Fresh s.log call) (hid : call.request.id ∉ s.ids) :
    Core owed (s.enqueue call) := by
  have hrequested := (h.owing call mem_cons_self).requested
  have hrecord : Core (call :: owed) (s.record (.queued call s.now)) :=
    h.record_owing hrequested trivial rfl rfl nofun fun _ _ _ => nofun
  have hqueued : QueuedOk (.queued call s.now :: s.log) s.now ⟨call, s.now + 30000⟩ := by
    refine ⟨mem_cons_of_mem _ hrequested, ?_, Nat.le_add_right _ _, s.now, mem_cons_self, rfl⟩
    intro event hmem hcall
    obtain rfl | hmem := mem_cons.mp hmem
    · exact .inr ⟨s.now, rfl⟩
    · exact hfresh event hmem hcall
  exact hrecord.addProbe rfl hqueued hid

theorem Core.admitted (hlive : Live s) (hhost : s.host = some host) (hfresh : Fresh s.log call)
    (hid : call.request.id ∉ s.ids) (hcount : s.pending.length < hostInFlight)
    (hprobeCount : call.request.isFleetProbe →
      s.pending.countP (fun p => p.call.request.isFleetProbe) < hostInFlight / 2) : Core owed
      (s.admitted call host) := by
  have hrequested := (h.owing call mem_cons_self).requested
  have hok : EventOk s.log (.admitted call host) := ⟨hrequested, hlive.host.symm.trans hhost⟩
  have hrecord : Core (call :: owed) (s.record (.admitted call host)) :=
    h.record_owing hok trivial rfl rfl nofun fun _ _ _ => nofun
  have hquiet : Event.Quiet (.admitted call host) call := ⟨nofun, nofun, nofun, fun _ => nofun⟩
  have hnew : PendingOk (.admitted call host :: s.log) ⟨call, -1, -1, 0, 0, 0, 0, [], s.now + 15 * 60000, false⟩ := by
    refine PendingOk.cons ⟨hrequested, hfresh.not_mem rfl nofun fun _ => nofun, ?_, ?_, ?_, ?_, ?_⟩ hquiet
    · simp [hfresh.not_hasEnd]
    · simp [hfresh.streamed]
    · simp [hfresh.acked]
    · exact Int.le_refl _
    · simp [hostWindow]
  have hadded := hrecord.addPending (p := ⟨call, -1, -1, 0, 0, 0, 0, [], s.now + 15 * 60000, false⟩)
      rfl hnew hid hcount hprobeCount
  refine
    { history := hadded.history, numbers := hadded.numbers, generations := hadded.generations,
      lostRuns := hadded.lostRuns
      ids := hadded.ids, count := hadded.count, probeCount := hadded.probeCount, pending := hadded.pending
      probes := hadded.probes, owing := hadded.owing, distinct := hadded.distinct, ends :=
        hadded.ends, authorizing := ?_ }
  intro awaiting hawaiting
  obtain hawaiting | hawaiting := mem_append.mp hawaiting
  · exact hadded.authorizing awaiting hawaiting
  · rw [mem_singleton.mp hawaiting]
    refine ⟨mem_cons_self, fun other hmem => ?_⟩
    obtain heq | hmem := mem_cons.mp hmem
    · cases heq
    · have hnot : .forwarded call other ∉ s.log := hfresh.not_mem rfl nofun fun _ => nofun
      exact hnot hmem

end

theorem Live.enqueue (h : Live s) (hhost : s.host = some host) : Live (s.enqueue call) := by
  have hrecord : Live (s.record (.queued call s.now)) := h.record trivial
  refine { host := hrecord.host, hostless := fun hnone => ?_, hosted := hrecord.hosted, running := hrecord.running
           relaying := h.relaying }
  have hsome : s.host = none := hnone
  rw [hhost] at hsome
  cases hsome

theorem Live.admitted (h : Live s) (hhost : s.host = some host)
    (hrun : call.request.operation = .boardRun ∨ .lost call.request.runId ∉ s.log) :
    Live (s.admitted call host) := by
  have hrecord : Live (s.record (.admitted call host)) := h.record trivial
  refine { host := hrecord.host, hostless := fun hnone => ?_, hosted := ?_, running := ?_, relaying := ?_ }
  · have hsome : s.host = none := hnone
    rw [hhost] at hsome
    cases hsome
  · intro p hp
    obtain hp | hp := mem_append.mp hp
    · exact hrecord.hosted p hp
    · rw [mem_singleton.mp hp]
      exact ⟨host, hhost, mem_cons_self⟩
  · intro p hp
    obtain hp | hp := mem_append.mp hp
    · exact hrecord.running p hp
    · rw [mem_singleton.mp hp]
      exact hrun.imp id fun hlost => not_mem_cons_of_ne_of_not_mem nofun hlost
  · intro relay hrelay
    obtain ⟨⟨p, hp, hcall⟩, hhost⟩ := h.relaying relay hrelay
    exact ⟨⟨p, mem_append_left _ hp, hcall⟩, hhost⟩

theorem Core.begin (h : Core (call :: owed) s) (hlive : Live s) (hfresh : Fresh s.log call) :
    Core owed (s.begin call) ∧ Live (s.begin call) := by
  unfold State.begin
  split
  · exact ⟨h.sendEnd _, hlive.sendEnd _ _⟩
  · next host hhost =>
    split
    · exact ⟨h.sendEnd _, hlive.sendEnd _ _⟩
    · next hrefused =>
      obtain ⟨hroom, hpending, hprobes, hrun⟩ := not_refused (eq_false_of_ne_true hrefused)
      have hid : call.request.id ∉ s.ids := by
        rw [mem_ids]
        rintro (⟨p, hp, heq⟩ | ⟨probe, hprobe, heq⟩)
        · exact hpending p hp heq
        · exact hprobes probe hprobe heq
      split
      · exact ⟨h.enqueue hfresh hid, hlive.enqueue hhost⟩
      · next hfits =>
        have hcapacity : call.request.isFleetProbe → s.probeCapacity := by
          intro hprobe
          simpa [hprobe] using hfits
        unfold State.probeCapacity at hcapacity
        simp only [and_eq_true, decide_eq_true_eq] at hcapacity
        refine ⟨h.admitted hlive hhost hfresh hid ?_ fun hprobe => (hcapacity hprobe).2, hlive.admitted hhost ?_⟩
        · cases hprobe : call.request.isFleetProbe with
          | true => exact (hcapacity hprobe).1
          | false => exact hroom hprobe
        · exact hrun.imp id fun hnot hlost => hnot (h.lostRuns _ hlost)

theorem begin_probes (h : s.probeCapacity) : (s.begin call).probes = s.probes := by
  unfold State.begin
  split
  · rfl
  · split
    · rfl
    · split
      · next hfull => simp [h] at hfull
      · rfl

theorem begin_pending (h : p ∈ (s.begin call).pending) : p ∈ s.pending ∨ p.isHanded = false := by
  unfold State.begin at h
  split at h
  · exact .inl h
  · split at h
    · exact .inl h
    · split at h
      · exact .inl h
      · refine (mem_append.mp h).imp id fun hnew => ?_
        rw [mem_singleton.mp hnew]

theorem Settled.begin (h : Settled s) : Settled (s.begin call) := by
  unfold State.begin
  split
  · exact h
  · next host =>
    split
    · exact h
    · split
      · next hfull =>
        intro _
        exact not_eq_eq_eq_not.mp (and_eq_true_iff.mp hfull).2
      · intro hprobes
        have hfull := h hprobes
        unfold State.probeCapacity at hfull ⊢
        simp only [and_eq_false_iff, decide_eq_false_iff_not, Nat.not_lt] at hfull ⊢
        unfold State.admitted
        simp only [length_append, countP_append]
        omega

theorem drain_ok {probes : List QueuedProbe} (h : Core owed s) (hlive : Live s)
    (hprobes : s.probes = probes) :
    Core owed (s.drain probes) ∧ Live (s.drain probes) ∧ Settled (s.drain probes) := by
  induction probes generalizing s with
  | nil =>
    refine ⟨?_, ?_, fun hne => absurd rfl hne⟩
    · exact h.of_same rfl rfl hprobes.symm rfl rfl rfl rfl fun _ hawaiting => hawaiting
    · exact hlive.of_same rfl rfl rfl hprobes.symm fun _ hrelay => hrelay
  | cons probe rest ih =>
    unfold State.drain
    split
    · next hroom =>
      have hmem : probe ∈ s.probes := by
        rw [hprobes]
        exact mem_cons_self
      have hnodup := (nodup_append.mp h.ids).2.1
      rw [hprobes, map_cons, nodup_cons] at hnodup
      have hrest : (s.eraseProbe probe.call.request.id).probes = rest := by
        unfold State.eraseProbe
        rw [hprobes, filter_cons_of_neg (by simp), filter_eq_self]
        intro other hother
        refine decide_eq_true fun heq => hnodup.1 ?_
        rw [← heq]
        exact mem_map_of_mem hother
      have herased : { s with probes := rest } = s.eraseProbe probe.call.request.id := by
        rw [← hrest]
        rfl
      have hcapacity : (s.eraseProbe probe.call.request.id).probeCapacity := (and_eq_true _ _ ▸ hroom).2
      rw [herased]
      obtain ⟨hcore, hlive⟩ := (h.eraseProbe hmem).begin (hlive.eraseProbe _) (h.probes probe hmem).fresh
      exact ih hcore hlive ((begin_probes hcapacity).trans hrest)
    · next hroom =>
      have hsame : { s with probes := probe :: rest } = s := by rw [← hprobes]
      rw [hsame]
      refine ⟨h, hlive, fun hne => ?_⟩
      cases hhost : s.host with
      | none => exact absurd (hlive.hostless hhost).2 hne
      | some host => simpa [hhost] using hroom

theorem drain_pending {probes : List QueuedProbe} (h : p ∈ (s.drain probes).pending) :
    p ∈ s.pending ∨ p.isHanded = false := by
  induction probes generalizing s with
  | nil => exact .inl h
  | cons probe rest ih =>
    unfold State.drain at h
    split at h
    · obtain hmem | hnew := ih h
      · have hbegun := begin_pending hmem
        exact hbegun
      · exact .inr hnew
    · exact .inl h

theorem finish_ok (h : Core owed s) (hlive : Live s) (hp : p ∈ s.pending)
    (hrelaying : ∀ relay ∈ s.relaying, relay.2 ≠ p.call) :
    Core (if p.isHanded then owed else p.call :: owed) (s.finish p.call.request.id) ∧
      Live (s.finish p.call.request.id) ∧ Settled (s.finish p.call.request.id) := by
  unfold State.finish
  rw [h.findPending.mpr ⟨hp, rfl⟩]
  have hcore := h.rememberCompleted p.call.worker p.call.request.id
  exact drain_ok (hcore.erasePending hp)
    ((hlive.rememberCompleted _ _).erasePending hcore hp hrelaying) rfl

theorem finish_pending (h : p ∈ (s.finish id).pending) : p ∈ s.pending ∨ p.isHanded = false := by
  unfold State.finish at h
  split at h
  · exact (drain_pending h).imp (fun hmem => (mem_erasePending.mp hmem).1) fun hnew => hnew
  · exact (drain_pending h).imp (fun hmem => (mem_erasePending.mp hmem).1) fun hnew => hnew

theorem Live.not_relaying (h : Live s) (hcore : Core owed s) (hp : p ∈ s.pending)
    (hhanded : p.isHanded = false) :
    ∀ relay ∈ s.relaying, relay.2 ≠ p.call := by
  intro relay hrelay heq
  obtain ⟨⟨other, hother, hcall, htrue⟩, -⟩ := h.relaying relay hrelay
  obtain rfl := hcore.pending_eq hother hp (by rw [hcall, heq])
  rw [hhanded] at htrue
  cases htrue

theorem HubOk.abandon (h : HubOk s) (hp : p ∈ s.pending) (hhanded : p.isHanded = false) :
    HubOk (s.abandon p.call) := by
  obtain ⟨hcore, hlive, hsettled⟩ := finish_ok h.core h.live hp (h.live.not_relaying h.core hp hhanded)
  rw [hhanded, if_neg Bool.false_ne_true] at hcore
  exact ⟨hcore.sendEnd _, hlive.sendEnd _ _, hsettled.of_same rfl rfl⟩

theorem cancelProbe_ok (h : Core owed s) (hprobe : probe ∈ s.probes) :
    s.cancel probe.call.request.id probe.call.worker =
        (((s.eraseProbe probe.call.request.id).rememberCompleted probe.call.worker probe.call.request.id).record
          (.cancelled probe.call)).sendEnd probe.call State.stoppedReason ∧
      Core owed (s.cancel probe.call.request.id probe.call.worker) := by
  have heq : s.cancel probe.call.request.id probe.call.worker =
      (((s.eraseProbe probe.call.request.id).rememberCompleted probe.call.worker probe.call.request.id).record
        (.cancelled probe.call)).sendEnd probe.call State.stoppedReason := by
    unfold State.cancel
    rw [h.findProbe.mpr ⟨hprobe, rfl⟩, filter_some, if_pos (decide_eq_true rfl)]
  refine ⟨heq, ?_⟩
  rw [heq]
  exact ((h.eraseProbe hprobe).rememberCompleted _ _).cancelled.sendEnd _

theorem HubOk.cancel (h : HubOk s)
    (hwaits : ∀ p ∈ s.pending, p.call.request.id = id → p.call.worker = worker → p.isHanded = false) :
    HubOk (s.cancel id worker) := by
  unfold State.cancel
  split
  · next probe hfound =>
    obtain ⟨hfind, hworker⟩ := filter_eq_some_iff.mp hfound
    obtain ⟨hprobe, rfl⟩ := h.core.findProbe.mp hfind
    refine ⟨((h.core.eraseProbe hprobe).rememberCompleted _ _).cancelled.sendEnd _, ?_, ?_⟩
    · exact ((h.live.eraseProbe _).rememberCompleted _ _).cancelled.sendEnd _ _
    · intro hne
      refine h.settled fun hnone => hne ?_
      change (s.probes.filter _) = []
      rw [hnone]
      rfl
  · split
    · exact h
    · next p hfound =>
      obtain ⟨hfind, hworker⟩ := filter_eq_some_iff.mp hfound
      obtain ⟨hp, rfl⟩ := h.core.findPending.mp hfind
      have hhanded := hwaits p hp rfl (of_decide_eq_true hworker)
      have hnot := h.live.not_relaying h.core hp hhanded
      -- The entry is taken out last, but nothing looks at it before.
      have heq : ((s.record (.cancelled p.call)).sendEnd p.call State.stoppedReason).finish p.call.request.id =
          (((((s.rememberCompleted p.call.worker p.call.request.id).erasePending p.call.request.id).record
            (.cancelled p.call)).sendEnd p.call State.stoppedReason)).drainProbes := by
        have hsame : ((s.record (.cancelled p.call)).sendEnd p.call State.stoppedReason).findPending
            p.call.request.id =
            some p := hfind
        unfold State.finish
        rw [hsame]
        rfl
      rw [heq]
      have hcore := (h.core.rememberCompleted p.call.worker p.call.request.id).erasePending hp
      rw [hhanded, if_neg Bool.false_ne_true] at hcore
      have hlive := (h.live.rememberCompleted p.call.worker p.call.request.id).erasePending
        (h.core.rememberCompleted _ _) hp hnot
      obtain ⟨hcore, hlive, hsettled⟩ :=
        drain_ok (hcore.cancelled.sendEnd State.stoppedReason)
          (hlive.cancelled.sendEnd p.call State.stoppedReason) rfl
      exact ⟨hcore, hlive, hsettled⟩

theorem cancel_pending (h : p ∈ (s.cancel id worker).pending) : p ∈ s.pending ∨ p.isHanded = false := by
  unfold State.cancel at h
  split at h
  · exact .inl h
  · split at h
    · exact .inl h
    · have hfinished := finish_pending h
      exact hfinished

theorem HubOk.cancelAll (ids : List ℕ) (h : HubOk s)
    (hwaits : ∀ p ∈ s.pending, p.call.worker = worker → p.isHanded = false) :
    HubOk (ids.foldl (fun s id => s.cancel id worker) s) ∧
      ∀ p ∈ (ids.foldl (fun s id => s.cancel id worker) s).pending, p.call.worker = worker → p.isHanded = false := by
  induction ids generalizing s with
  | nil => exact ⟨h, hwaits⟩
  | cons id ids ih =>
    refine ih (h.cancel fun p hp _ hworker => hwaits p hp hworker) fun p hp hworker => ?_
    exact (cancel_pending hp).elim (fun hmem => hwaits p hmem hworker) fun hnew => hnew

end ArdurBot.HostHub
