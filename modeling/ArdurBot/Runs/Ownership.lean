import ArdurBot.Lib.History
import ArdurBot.Runs.AdmissionOk

/-!
# Who owns a run

The fences of the claims of a run, as its history has them. When each claim gives a greater fence
than those before, a row that has the fence of an attempt was last claimed by it.
-/

namespace ArdurBot.Runs

open List Utf16 ArdurBot.Core

/-- The claims of a run with their calls, the newest first. -/
def claims (runId : Text) : List Event → List (ℕ × Lease)
  | [] => []
  | event :: earlier =>
    match event.writer with
    | .claim call lease _ => if event.before.id = runId then (call, lease) :: claims runId earlier
      else claims runId earlier
    | _ => claims runId earlier

def lastRow (runId : Text) : List Event → Option Run
  | [] => none
  | event :: earlier => if event.before.id = runId then some event.after else lastRow runId earlier

variable {runId : Text} {history : List Event}

theorem mem_of_mem_claims {claim : ℕ × Lease} (h : claim ∈ claims runId history) :
    ∃ event ∈ history, event.before.id = runId := by
  induction history with
  | nil => cases h
  | cons event earlier ih =>
    have hearlier : claim ∈ claims runId earlier → ∃ event' ∈ event :: earlier, event'.before.id = runId := by
      intro hmem
      obtain ⟨event', hevent', hid⟩ := ih hmem
      exact ⟨event', mem_cons_of_mem _ hevent', hid⟩
    unfold claims at h
    split at h
    · split at h
      · next hid => exact ⟨event, mem_cons_self, hid⟩
      · exact hearlier h
    · exact hearlier h

theorem mem_of_lastRow {row : Run} (h : lastRow runId history = some row) :
    ∃ event ∈ history, event.before.id = runId := by
  induction history with
  | nil => cases h
  | cons event earlier ih =>
    unfold lastRow at h
    split at h
    · next hid => exact ⟨event, mem_cons_self, hid⟩
    · obtain ⟨event', hevent', hid⟩ := ih h
      exact ⟨event', mem_cons_of_mem _ hevent', hid⟩

/-- A release resumes a run that no one has, and changes nothing of one that a worker has but its
checkpoint. -/
structure Released (before after : Run) : Prop where
  owner : after.leaseOwner = before.leaseOwner
  fence : after.leaseFence = before.leaseFence
  expires : after.leaseExpiresAt = before.leaseExpiresAt
  turn : after.turnCheckpoint = before.turnCheckpoint
  status : after.status = before.status ∨ before.status = .waitingTakeover ∧ after.status = .queued

/-- What may be written, given what was written before. -/
def WriteOk (earlier : List Event) (event : Event) : Prop :=
  match event.writer with
  | .claim _ lease read => (∀ claim ∈ claims event.before.id earlier, claim.2.fence < lease.fence) ∧
      event.before.checkpoint = read.checkpoint ∧ event.before.status.isTerminal = false
  | .attempt call lease => (claims event.before.id earlier).head? = some (call, lease)
  | .requeue call lease => (claims event.before.id earlier).head? = some (call, lease) ∧
      ((takeoverCheckpointOf event.before.checkpoint).isSome → event.after.checkpoint = event.before.checkpoint)
  | .release => Released event.before event.after
  | .other => True

structure EventOk (earlier : List Event) (event : Event) : Prop where
  write : WriteOk earlier event
  /-- The row was as the write before left it. -/
  chain : ∀ row, lastRow event.before.id earlier = some row → event.before = row

theorem claims_pairwise (h : History.Ok EventOk history) (runId : Text) :
    (claims runId history).Pairwise fun later earlier => earlier.2.fence < later.2.fence := by
  induction history with
  | nil => exact List.Pairwise.nil
  | cons event earlier ih =>
    obtain ⟨hevent, hearlier⟩ := h
    have hwrite := hevent.write
    unfold WriteOk at hwrite
    unfold claims
    split
    · next call lease read hwriter =>
      rw [hwriter] at hwrite
      split
      · next hid =>
        subst hid
        exact List.Pairwise.cons (fun claim hclaim => hwrite.1 claim hclaim) (ih hearlier)
      · exact ih hearlier
    · exact ih hearlier

theorem le_head_of_pairwise {list : List (ℕ × Lease)} {first claim : ℕ × Lease}
    (h : list.Pairwise fun later earlier => earlier.2.fence < later.2.fence)
    (hfirst : list.head? = some first)
    (hmem : claim ∈ list) : claim = first ∨ claim.2.fence < first.2.fence := by
  cases list with
  | nil => cases hmem
  | cons other rest =>
    cases hfirst
    obtain rfl | hrest := mem_cons.mp hmem
    · exact .inl rfl
    · exact .inr (rel_of_pairwise_cons h hrest)

structure OwnedOk (s : System) : Prop where
  history : History.Ok EventOk s.history
  keys : (s.runs.map Run.id).Nodup
  fence : ∀ run ∈ s.runs, ∀ claim, (claims run.id s.history).head? = some claim →
    claim.2.fence = run.leaseFence
  known : ∀ event ∈ s.history, ∃ run ∈ s.runs, run.id = event.before.id
  recorded : ∀ run ∈ s.runs, ∀ row, lastRow run.id s.history = some row → run = row

def Owns (s : System) (index : ℕ) (a : Attempt) : Prop :=
  (index, a.lease) ∈ claims a.runId s.history

def OwnCallOk (s : System) (index : ℕ) : Call → Prop
  | .claimed a => Owns s index a
  | .starting a _ => Owns s index a
  | .working a _ => Owns s index a
  | _ => True

variable {s s' : System} {index : ℕ}

theorem Owns.head {a : Attempt} (h : Owns s index a) (hs : OwnedOk s) {run : Run}
    (hmem : run ∈ s.runs) (hid : run.id = a.runId) (hholds : a.lease.holds run) :
    (claims run.id s.history).head? = some (index, a.lease) := by
  rw [Lease.holds, Bool.and_eq_true, decide_eq_true_eq, decide_eq_true_eq] at hholds
  rw [Owns, ← hid] at h
  cases hfirst : (claims run.id s.history).head? with
  | none =>
    rw [head?_eq_none_iff] at hfirst
    rw [hfirst] at h
    cases h
  | some first =>
    have hfence := hs.fence run hmem first hfirst
    obtain heq | hlt := le_head_of_pairwise (claims_pairwise hs.history run.id) hfirst h
    · rw [heq]
    · have hown := hholds.2
      dsimp only at hlt
      omega

/-- What a claim, and what any other write, does to the fence. -/
def KeepsFence (writer : Writer) (before after : Run) : Prop :=
  match writer with
  | .claim _ lease _ => after.leaseFence = lease.fence
  | _ => after.leaseFence = before.leaseFence

theorem mem_claims_cons {claim : ℕ × Lease} (event : Event) (h : claim ∈ claims runId history) :
    claim ∈ claims runId (event :: history) := by
  unfold claims
  split
  · split
    · exact mem_cons_of_mem _ h
    · exact h
  · exact h

def Grew (s s' : System) : Prop :=
  ∀ runId, ∀ claim ∈ claims runId s.history, claim ∈ claims runId s'.history

theorem OwnCallOk.mono {call : Call} (h : OwnCallOk s index call) (hgrew : Grew s s') :
    OwnCallOk s' index call := by
  cases call with
  | claimed | starting | working => exact hgrew _ _ h
  | _ => exact trivial

theorem ownedOk_updateMany (h : OwnedOk s) (writer : Writer) (runId : Text) (matching : Run → Bool)
    (data : Run → Run) (hid : ∀ run, (data run).id = run.id)
    (hwrite : ∀ run ∈ s.runs, run.id = runId → matching run →
      WriteOk s.history ⟨writer, run, data run⟩ ∧ KeepsFence writer run (data run)) :
    OwnedOk (s.updateMany writer runId matching data).1 := by
  obtain hnone | ⟨run, hmem, hrun, hmatch, hsome⟩ := updateMany_cases (s := s) writer runId matching data
  · rw [hnone]
    exact h
  · rw [hsome]
    obtain ⟨hok, hfence⟩ := hwrite run hmem hrun hmatch
    have hrows : ∀ row ∈ (s.setRun runId data).runs, row.id ≠ run.id ∧ row ∈ s.runs ∨ row = data run := by
      intro row hrow
      obtain ⟨old, hold, rfl⟩ := mem_map.mp hrow
      by_cases hsame : old.id = runId
      · have heq : old = run := Table.eq_of_key h.keys hold hmem (hsame.trans hrun.symm)
        rw [if_pos hsame, heq]
        exact .inr rfl
      · rw [if_neg hsame]
        exact .inl ⟨fun heq => hsame (heq.trans hrun), hold⟩
    refine ⟨⟨⟨hok, fun row hrow => h.recorded run hmem row hrow⟩, h.history⟩, ?_, ?_, ?_, ?_⟩
    · refine Table.nodup_map h.keys fun row => ?_
      split
      · exact hid row
      · rfl
    · intro row hrow claim hclaim
      obtain ⟨hne, hold⟩ | rfl := hrows row hrow
      · refine h.fence row hold claim ?_
        unfold claims at hclaim
        split at hclaim
        · rw [if_neg (Ne.symm hne)] at hclaim
          exact hclaim
        · exact hclaim
      · rw [hid] at hclaim
        unfold claims at hclaim
        unfold KeepsFence at hfence
        dsimp only at hclaim
        split at hclaim
        · rw [if_pos rfl] at hclaim
          cases hclaim
          exact hfence.symm
        · next hother =>
          have hkept : (data run).leaseFence = run.leaseFence := by
            split at hfence
            · exact absurd rfl (hother _ _ _)
            · exact hfence
          rw [hkept]
          exact h.fence run hmem claim hclaim
    · intro event hevent
      obtain rfl | hevent := mem_cons.mp hevent
      · exact ⟨data run, mem_map.mpr ⟨run, hmem, if_pos hrun⟩, hid run⟩
      · obtain ⟨old, hold, hkey⟩ := h.known event hevent
        refine ⟨_, mem_map_of_mem hold, ?_⟩
        split
        · rw [hid, hkey]
        · exact hkey
    · intro row hrow last hlast
      unfold lastRow at hlast
      obtain ⟨hne, hold⟩ | rfl := hrows row hrow
      · rw [if_neg (Ne.symm hne)] at hlast
        exact h.recorded row hold last hlast
      · rw [hid, if_pos rfl] at hlast
        exact Option.some.inj hlast

theorem grew_updateMany (writer : Writer) (runId : Text) (matching : Run → Bool) (data : Run → Run) :
    Grew s (s.updateMany writer runId matching data).1 := by
  obtain hnone | ⟨run, -, -, -, hsome⟩ := updateMany_cases (s := s) writer runId matching data
  · rw [hnone]
    exact fun _ _ hmem => hmem
  · rw [hsome]
    exact fun _ _ hmem => mem_claims_cons _ hmem

end ArdurBot.Runs
