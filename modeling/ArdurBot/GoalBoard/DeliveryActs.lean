import ArdurBot.GoalBoard.DeliveryOk

/-!
# What the acts of a delivery change

Each act keeps what was written in order, and what the other workers know. The lock of a space keeps
the others of that space from its items, and the token of a claim those of a row.
-/

namespace ArdurBot.GoalBoard

open List Utf16 Option
open Bool hiding not_not not_or

variable {s s' : System} {index : ℕ} {sha256 : Text → Text} {job : Job}
  {place : Place} {hash : Text}

structure Acted (index : ℕ) (s s' : System) : Prop where
  ok : SystemOk s'
  others : ∀ other, other ≠ index → Leaves other s s'

theorem Row.Same.refl (row : Row) : row.Same row := ⟨rfl, rfl, rfl, rfl, rfl⟩

theorem leaves_refl (index : ℕ) (s : System) : Leaves index s s where
  locks _ h := h
  ledgerAt _ _ _ := rfl
  marks _ _ _ _ h := h
  ledgersOf _ _ _ := rfl
  isClosed _ _ _ := rfl
  rows row hrow := ⟨row, hrow, Row.Same.refl row⟩
  tokens row hrow htoken := ⟨row, hrow, rfl, htoken, rfl⟩
  settled _ _ h := h

theorem acted_refl (h : SystemOk s) (index : ℕ) : Acted index s s :=
  ⟨h, fun other _ => leaves_refl other s⟩

theorem itemOk_rows {rows : List Row} (h : ItemOk s place hash) :
    ItemOk { s with rows } place hash := { h with }

section

variable {id : Text} {condition : Row → Bool} {data : Row → Row}

theorem mem_update {row : Row} (h : row ∈ (s.update id condition data).rows) :
    ∃ before ∈ s.rows, row = before ∨ (before.id = id ∧ condition before ∧ row = data before) := by
  obtain ⟨before, hmem, rfl⟩ := mem_map.mp h
  refine ⟨before, hmem, ?_⟩
  by_cases hchanged : (decide (before.id = id) && condition before) = true
  · rw [if_pos hchanged]
    rw [and_eq_true, decide_eq_true_eq] at hchanged
    exact .inr ⟨hchanged.1, hchanged.2, rfl⟩
  · rw [if_neg hchanged]
    exact .inl rfl

variable (id condition) in
theorem same_ite (hsame : ∀ row, (data row).Same row) (row : Row) :
    Row.Same (if row.id = id && condition row then data row else row) row := by
  split
  · exact hsame row
  · exact Row.Same.refl row

theorem find_update (hsame : ∀ row, (data row).Same row) (goalId revisionId : Text)
    (transition : Transition) :
    (s.update id condition data).rows.find? (·.isKey goalId revisionId transition) =
      (s.rows.find? (·.isKey goalId revisionId transition)).map fun row =>
        if row.id = id && condition row then data row else row := by
  unfold System.update
  rw [find?_map]
  congr 1
  congr 1
  funext row
  obtain ⟨-, hgoal, hrevision, htransition, -⟩ := same_ite id condition hsame row
  unfold Row.isKey
  dsimp only [Function.comp_apply]
  rw [hgoal, hrevision, htransition]

theorem priorSettled_update (hsame : ∀ row, (data row).Same row)
    (hstate : ∀ row ∈ s.rows, condition row → goalBoardPriorSettled row.state →
      goalBoardPriorSettled (data row).state) (row : Row) (h : s.priorSettled row) :
    (s.update id condition data).priorSettled row := by
  unfold System.priorSettled at h ⊢
  rw [find_update hsame]
  cases hfind : s.rows.find? (·.isKey row.goalId row.revisionId .completed) with
  | none => rfl
  | some prior =>
    rw [hfind] at h
    rw [map_some, all_some]
    split
    · next hchanged =>
      rw [and_eq_true] at hchanged
      exact hstate prior (mem_of_find?_eq_some hfind) hchanged.2 h
    · exact h

theorem update_ok (h : SystemOk s) (hsame : ∀ row, (data row).Same row)
    (htoken : ∀ row ∈ s.rows, condition row → goalBoardPriorSettled (data row).state →
      (data row).claimToken = none) : SystemOk (s.update id condition data) where
  log := h.log
  items place hash hhash := itemOk_rows (h.items place hash hhash)
  ids row hrow other hother hid := by
    obtain ⟨before, hbefore, rfl⟩ := mem_map.mp hrow
    obtain ⟨before', hbefore', rfl⟩ := mem_map.mp hother
    have heq : before = before' :=
      h.ids _ hbefore _ hbefore'
        (((same_ite id condition hsame before).1.symm.trans hid).trans
        (same_ite id condition hsame before').1)
    rw [heq]
  settled row hrow hsettled := by
    obtain ⟨before, hbefore, rfl | ⟨-, hcondition, rfl⟩⟩ := mem_update hrow
    · exact h.settled row hbefore hsettled
    · exact htoken before hbefore hcondition hsettled

theorem update_leaves (hsame : ∀ row, (data row).Same row)
    (hstate : ∀ row ∈ s.rows, condition row → goalBoardPriorSettled row.state →
      goalBoardPriorSettled (data row).state) {other : ℕ}
    (hother : ∀ row ∈ s.rows, condition row → (data row).claimToken ≠ some other) :
    Leaves other s (s.update id condition data) where
  locks _ h := h
  ledgerAt _ _ _ := rfl
  marks _ _ _ _ h := h
  ledgersOf _ _ _ := rfl
  isClosed _ _ _ := rfl
  rows row hrow := ⟨_, mem_map_of_mem hrow, same_ite id condition hsame row⟩
  tokens row hrow htoken := by
    obtain ⟨before, hbefore, rfl | ⟨-, hcondition, rfl⟩⟩ := mem_update hrow
    · exact ⟨row, hbefore, rfl, htoken, rfl⟩
    · exact absurd htoken (hother before hbefore hcondition)
  settled row _ h := priorSettled_update hsame hstate row h

/-- A row is changed by the worker that holds its claim, or that claims it, or while nobody does. -/
theorem update_acted (h : SystemOk s) (hsame : ∀ row, (data row).Same row)
    (hstate : ∀ row ∈ s.rows, condition row → goalBoardPriorSettled row.state →
      goalBoardPriorSettled (data row).state)
    (htoken : ∀ row ∈ s.rows, condition row → (data row).claimToken = none ∨
      (data row).claimToken = some index ∧ goalBoardPriorSettled (data row).state = false) :
    Acted index s (s.update id condition data) := by
  refine ⟨update_ok h hsame ?_, fun other hne => update_leaves hsame hstate ?_⟩
  · intro row hrow hcondition hsettled
    obtain hnone | ⟨-, hno⟩ := htoken row hrow hcondition
    · exact hnone
    · rw [hsettled] at hno
      cases hno
  · intro row hrow hcondition
    obtain hnone | ⟨hmine, -⟩ := htoken row hrow hcondition
    · rw [hnone]
      exact some_ne_none _ |>.symm
    · rw [hmine]
      exact fun heq => hne (some.inj heq).symm

end

theorem claim_acted (h : SystemOk s) (id : Text) (deadline : ℕ) :
    Acted index s (claim s index id deadline) := by
  unfold claim
  refine update_acted h (fun _ => ⟨rfl, rfl, rfl, rfl, rfl⟩) (fun _ _ _ hsettled => hsettled) ?_
  intro row _ hdue
  unfold Row.isDue at hdue
  rw [and_eq_true, and_eq_true] at hdue
  refine .inr ⟨rfl, ?_⟩
  show goalBoardPriorSettled row.state = false
  rw [of_decide_eq_true hdue.1.1]
  rfl

theorem SystemOk.unsettled (h : SystemOk s) {row : Row} (hrow : row ∈ s.rows)
    (htoken : row.claimToken = some index) :
    ¬ goalBoardPriorSettled row.state := by
  intro hsettled
  rw [h.settled row hrow hsettled] at htoken
  cases htoken

theorem release_acted (h : SystemOk s) (state : State) (failure : Text) (receipt : Option (Option Text)) :
    Acted index s (release s index job state failure receipt) := by
  unfold release
  refine update_acted h (fun _ => ⟨rfl, rfl, rfl, rfl, rfl⟩) ?_ (fun _ _ _ => .inl rfl)
  intro row hrow htoken hsettled
  exact absurd hsettled (h.unsettled hrow (of_decide_eq_true htoken))

theorem unclaim_acted (h : SystemOk s) : Acted index s (unclaim s index job) := by
  unfold unclaim
  exact update_acted h (fun _ => ⟨rfl, rfl, rfl, rfl, rfl⟩) (fun _ _ _ hsettled => hsettled)
    (fun _ _ _ => .inl rfl)

theorem running_update (h : Running s index job) {id : Text} {condition : Row → Bool} {data : Row → Row}
    (hsame : ∀ row, (data row).Same row) (htoken : ∀ row, (data row).claimToken = none) :
    Running (s.update id condition data) index job := by
  obtain ⟨row, hrow, hjob⟩ := h.row
  refine ⟨⟨_, mem_map_of_mem hrow, (same_ite id condition hsame row).trans hjob⟩, ?_⟩
  intro other hother hid hmine
  obtain ⟨before, hbefore, rfl | ⟨-, -, rfl⟩⟩ := mem_update hother
  · exact h.token other hbefore hid hmine
  · rw [htoken before] at hmine
    cases hmine

theorem running_release (h : Running s index job) (state : State) (failure : Text)
    (receipt : Option (Option Text)) :
    Running (release s index job state failure receipt) index job :=
  running_update h (fun _ => ⟨rfl, rfl, rfl, rfl, rfl⟩) fun _ => rfl

theorem same_of_held (h : SystemOk s) (hrunning : Running s index job) {row : Row}
    (hrow : row ∈ s.rows) (hid : row.id = job.row.id) : row.Same job.row := by
  obtain ⟨other, hother, hsame⟩ := hrunning.row
  rw [h.ids row hrow other hother (hid.trans hsame.1.symm)]
  exact hsame

theorem ack_acted (h : SystemOk s) (hrunning : Running s index job) (hpassed : Passed sha256 s job)
    (result : KeyedResult) :
    Acted index s (ack s index job result) ∧ Running (ack s index job result) index job := by
  unfold ack
  split
  · exact ⟨acted_refl h index, hrunning⟩
  · next row hfind =>
    have hrow := mem_of_find?_eq_some hfind
    have hheld := find?_some hfind
    rw [and_eq_true, decide_eq_true_eq] at hheld
    obtain ⟨hid, hheld⟩ := hheld
    unfold Row.isHeld at hheld
    rw [and_eq_true, and_eq_true, decide_eq_true_eq, decide_eq_true_eq] at hheld
    obtain ⟨⟨htoken, hgeneration⟩, hexpires⟩ := hheld
    have hsame := same_of_held h hrunning hrow hid
    have hevent : EventOk s.log (.delivered row index job.row.claimGeneration s.now (s.priorSettled row)) := by
      refine ⟨htoken, hgeneration, hexpires, fun haccepted => ?_⟩
      rw [System.priorSettled, hsame.2.1, hsame.2.2.1]
      exact hpassed.settled (hsame.2.2.2.1 ▸ haccepted)
    have hacted : Acted index s (s.update job.row.id (·.isHeld index job s.now) (delivered result)) :=
      update_acted h (fun _ => ⟨rfl, rfl, rfl, rfl, rfl⟩) (fun _ _ _ _ => rfl) (fun _ _ _ => .inl rfl)
    refine ⟨⟨⟨⟨hevent, hacted.ok.log⟩, ?_, hacted.ok.ids, hacted.ok.settled⟩, fun other hne => ?_⟩, ?_⟩
    · intro place hash hhash
      have hitem := hacted.ok.items place hash hhash
      refine ⟨hitem.marks, fun ledger hat => ?_, hitem.none⟩
      have hkeeps := hitem.keeps ledger hat
      exact { hkeeps with }
    · have hleaves := hacted.others other hne
      exact { hleaves with }
    · have hupdate : Running (s.update job.row.id (·.isHeld index job s.now) (delivered result)) index job :=
        running_update hrunning (fun _ => ⟨rfl, rfl, rfl, rfl, rfl⟩) fun _ => rfl
      exact ⟨hupdate.row, hupdate.token⟩

theorem locks_acted (h : SystemOk s) {locks : Text → Option ℕ} (hkept : ∀ other, other ≠ index → ∀ space,
    s.locks space = some other → locks space = some other) : Acted index s { s with locks } := by
  refine ⟨⟨h.log, fun place hash hhash => ?_, h.ids, h.settled⟩, fun other hne => ?_⟩
  · have hitem := h.items place hash hhash
    exact { hitem with }
  · have hrefl := leaves_refl other s
    exact { hrefl with locks := hkept other hne }

theorem lock_acted (h : SystemOk s) {spaceId : Text} {holder : Option ℕ} (hfree : ∀ other, other ≠ index →
    s.locks spaceId ≠ some other) : Acted index s (s.lock spaceId holder) := by
  refine locks_acted h fun other hne space hspace => ?_
  split
  · next heq => exact absurd (heq ▸ hspace) (hfree other hne)
  · exact hspace

theorem unlock_acted (h : SystemOk s) : Acted index s (unlock s index) := by
  refine locks_acted h fun other hne space hspace => ?_
  rw [if_neg]
  · exact hspace
  · rw [hspace]
    exact fun heq => hne (some.inj heq)

variable {other : ℕ} {item : Item}

theorem put_leaves {event : Event} (hother : s.locks place.spaceId ≠ some other)
    (hledgers : ∀ place' hash, place' ≠ place → ledgersOf (event :: s.log) place' hash = ledgersOf s.log place' hash)
    (hclosed : ∀ place' hash, place' ≠ place → isClosed (event :: s.log) place' hash = isClosed s.log place' hash) :
    Leaves other s ((s.put place item).record event) := by
  have hne : ∀ place' : Place, s.locks place'.spaceId = some other → place' ≠ place := by
    intro place' hlock heq
    exact hother (heq ▸ hlock)
  have hitems : ∀ place', place' ≠ place → ((s.put place item).record event).items place' = s.items place' :=
    fun place' hplace => if_neg hplace
  refine ⟨fun _ h => h, ?_, ?_, fun place' hash hlock => hledgers place' hash (hne place' hlock),
    fun place' hash hlock => hclosed place' hash (hne place' hlock), ?_, ?_, fun _ _ h => h⟩
  · intro place' hash hlock
    unfold ledgerAt
    rw [hitems place' (hne place' hlock)]
  · intro place' hash _ hlock hmarks
    unfold marks at hmarks ⊢
    rw [hitems place' (hne place' hlock)]
    exact hmarks
  · exact fun row hrow => ⟨row, hrow, Row.Same.refl row⟩
  · exact fun row hrow htoken => ⟨row, hrow, rfl, htoken, rfl⟩

theorem others_locked (hlocked : Locked s index job) (hne : other ≠ index) :
    s.locks job.row.place.spaceId ≠ some other := by
  unfold Locked at hlocked
  show s.locks job.row.spaceId ≠ some other
  rw [hlocked]
  exact fun heq => hne (some.inj heq).symm

theorem ledgersOf_ledger (log : List Event) (place place' : Place) (hash hash' : Text) (generation : ℕ)
    (ledger : GoalBoardLedger) : ledgersOf (.ledger place hash generation ledger :: log) place' hash' =
      if place = place' ∧ hash = hash' then ledger :: ledgersOf log place' hash' else ledgersOf log place' hash' := by
  unfold ledgersOf
  rw [filterMap_cons]
  dsimp only
  split
  · next h =>
    split at h
    · cases h
    · next hne => rw [if_neg hne]
  · next h =>
    split at h
    · next heq =>
      rw [if_pos heq, some.inj h]
    · cases h

theorem ledger_set (item : Item) (hash hash' : Text) {ledger : GoalBoardLedger}
    (hparse : parseGoalBoardLedger (formatGoalBoardLedger ledger) = some ledger) :
    Item.ledger { item with metadata := Dict.set item.metadata (goalBoardMetadataName hash) (formatGoalBoardLedger ledger) } hash' =
      if hash = hash' then some ledger else item.ledger hash' := by
  unfold Item.ledger
  split
  · next heq =>
    rw [← heq, Dict.get_set_self]
    exact hparse
  · next hne => rw [goalBoardMetadataName, goalBoardMetadataName, Dict.get_set_ne fun heq => hne (append_cancel_left heq).symm]

theorem ledgerAt_put (place place' : Place) (item : Item) (event : Event) (hash : Text) :
    ledgerAt ((s.put place item).record event) place' hash =
      if place' = place then item.ledger hash else ledgerAt s place' hash := by
  unfold ledgerAt System.record System.put
  dsimp only
  split
  · rfl
  · rfl

theorem marks_put (place place' : Place) (item : Item) (event : Event) (hash : Text) :
    marks ((s.put place item).record event) place' hash =
      if place' = place then item.comments.countP (isMarked hash) else marks s place' hash := by
  unfold marks System.record System.put
  dsimp only
  split
  · next h =>
    split at h
    · cases h
    · next hne => rw [if_neg hne, h]
  · next item' h =>
    split at h
    · next heq =>
      rw [if_pos heq]
      cases h
      rfl
    · next hne => rw [if_neg hne, h]

theorem ledgerAt_of_items (h : s.items place = some item) (hash : Text) :
    ledgerAt s place hash = item.ledger hash := by
  unfold ledgerAt
  rw [h]
  rfl

theorem ledgerAt_put_kept (h : ∀ hash, item.ledger hash = ledgerAt s place hash) (event : Event)
    (place' : Place)
    (hash : Text) : ledgerAt ((s.put place item).record event) place' hash = ledgerAt s place' hash := by
  rw [ledgerAt_put]
  split
  · next heq => rw [heq, h]
  · rfl

theorem marks_of_items (h : s.items place = some item) (hash : Text) :
    marks s place hash = item.comments.countP (isMarked hash) := by
  unfold marks
  rw [h]

theorem ItemOk.not_closed (h : ItemOk s place hash)
    (hunclosed : ∀ ledger, ledgerAt s place hash = some ledger → ledger.close = .unclosed) :
    isClosed s.log place hash = false := by
  cases hat : ledgerAt s place hash with
  | none => exact (h.none hat).2
  | some ledger =>
    cases hclosed : isClosed s.log place hash with
    | false => rfl
    | true => exact absurd (hunclosed ledger hat) ((h.keeps ledger hat).closed hclosed)

theorem ItemOk.ledgers (h : ItemOk s place hash) {before : GoalBoardLedger}
    (hbefore : before ∈ ledgersOf s.log place hash) :
    ∃ ledger, ledgerAt s place hash = some ledger ∧ before.generation ≤ ledger.generation ∧
      (before.commented → ledger.commented) ∧ (before.close ≠ .unclosed → ledger.close ≠ .unclosed) := by
  cases hat : ledgerAt s place hash with
  | none =>
    rw [(h.none hat).1] at hbefore
    cases hbefore
  | some ledger =>
    have hkeeps := h.keeps ledger hat
    exact ⟨ledger, rfl, hkeeps.generation _ hbefore, hkeeps.commented _ hbefore, hkeeps.close _ hbefore⟩

structure Wrote (s s' : System) (place : Place) (hash : Text) (ledger : GoalBoardLedger) :
  Prop where
  isHash : isGoalBoardHash hash
  rows : s'.rows = s.rows
  locks : s'.locks = s.locks
  marked : marks s' place hash = marks s place hash
  current : ledgerAt s' place hash = some ledger
  ledgers : ledgersOf s'.log place hash = ledger :: ledgersOf s.log place hash
  closed : isClosed s'.log place hash = isClosed s.log place hash

theorem writeLedger_acted (h : SystemOk s) (hlocked : Locked s index job) {commented : Bool} {close : Close}
    (hevent : EventOk s.log (.ledger job.row.place (job.hash sha256) job.row.claimGeneration
      ⟨job.row.claimGeneration, commented, close⟩))
    (hclose : isClosed s.log job.row.place (job.hash sha256) → close ≠ .unclosed)
    (hwrite : writeLedger sha256 s job commented close = some s') : Acted index s s' ∧
      Wrote s s' job.row.place (job.hash sha256) ⟨job.row.claimGeneration, commented, close⟩ := by
  unfold writeLedger at hwrite
  dsimp only at hwrite
  split at hwrite
  · next hallowed =>
    have hparse := parse_of_allowed hallowed
    have hhash : isGoalBoardHash (job.hash sha256) := by
      unfold allowedBoardMetadata at hallowed
      rw [and_eq_true] at hallowed
      exact hallowed.1
    rcases hitem : s.items job.row.place with _ | item
    · rw [hitem] at hwrite
      cases hwrite
    rw [hitem, map_some, some.injEq] at hwrite
    subst hwrite
    refine ⟨⟨⟨⟨hevent, h.log⟩, ?_, h.ids, h.settled⟩, fun other hne => ?_⟩, ?_⟩
    · intro place hash hhash'
      have hok := h.items place hash hhash'
      refine ⟨?_, fun ledger hat => ?_, fun hat => ?_⟩
      · rw [marks_put]
        split
        · next heq =>
          subst heq
          rw [← marks_of_items hitem]
          exact hok.marks
        · exact hok.marks
      · rw [ledgerAt_put, ledger_set _ _ _ hparse] at hat
        by_cases hsame : job.row.place = place ∧ job.hash sha256 = hash
        · obtain ⟨hplace, heq⟩ := hsame
          rw [if_pos hplace.symm, if_pos heq] at hat
          subst hplace heq
          obtain rfl := some.inj hat
          have hledgers := ledgersOf_ledger s.log job.row.place job.row.place (job.hash sha256) (job.hash sha256)
            job.row.claimGeneration ⟨job.row.claimGeneration, commented, close⟩
          rw [if_pos ⟨rfl, rfl⟩] at hledgers
          have hall : ∀ before ∈ ledgersOf (Event.ledger job.row.place (job.hash sha256) job.row.claimGeneration
              ⟨job.row.claimGeneration, commented, close⟩ :: s.log) job.row.place (job.hash sha256),
              before.generation ≤ job.row.claimGeneration ∧ (before.commented → commented) ∧
                (before.close ≠ .unclosed → close ≠ .unclosed) := by
            intro before hbefore
            rw [hledgers] at hbefore
            obtain rfl | hbefore := mem_cons.mp hbefore
            · exact ⟨Nat.le_refl _, id, id⟩
            · exact hevent.2.2 before hbefore
          exact ⟨fun before hb => (hall before hb).1, fun before hb => (hall before hb).2.1,
            fun before hb => (hall before hb).2.2, hclose, hevent.2.1⟩
        · have hat' : ledgerAt s place hash = some ledger := by
            split at hat
            · next hplace =>
              rw [if_neg fun heq => hsame ⟨hplace.symm, heq⟩] at hat
              rw [hplace, ledgerAt_of_items hitem]
              exact hat
            · exact hat
          have hkeeps := hok.keeps ledger hat'
          have hledgers := ledgersOf_ledger s.log job.row.place place (job.hash sha256) hash
            job.row.claimGeneration ⟨job.row.claimGeneration, commented, close⟩
          rw [if_neg hsame] at hledgers
          exact ⟨fun before hb => hkeeps.generation before (hledgers ▸ hb),
            fun before hb => hkeeps.commented before (hledgers ▸ hb),
            fun before hb => hkeeps.close before (hledgers ▸ hb), hkeeps.closed, hkeeps.receipt⟩
      · rw [ledgerAt_put, ledger_set _ _ _ hparse] at hat
        have hsame : ¬ (job.row.place = place ∧ job.hash sha256 = hash) := by
          rintro ⟨hplace, heq⟩
          rw [if_pos hplace.symm, if_pos heq] at hat
          cases hat
        have hat' : ledgerAt s place hash = none := by
          split at hat
          · next hplace =>
            rw [if_neg fun heq => hsame ⟨hplace.symm, heq⟩] at hat
            rw [hplace, ledgerAt_of_items hitem]
            exact hat
          · exact hat
        have hledgers := ledgersOf_ledger s.log job.row.place place (job.hash sha256) hash
          job.row.claimGeneration ⟨job.row.claimGeneration, commented, close⟩
        rw [if_neg hsame] at hledgers
        exact ⟨hledgers.trans (hok.none hat').1, (hok.none hat').2⟩
    · refine put_leaves (others_locked hlocked hne) ?_ fun _ _ _ => rfl
      intro place hash hplace
      rw [ledgersOf_ledger, if_neg fun heq => hplace heq.1.symm]
    · refine ⟨hhash, rfl, rfl, ?_, ?_, ?_, rfl⟩
      · rw [marks_put, if_pos rfl, marks_of_items hitem]
      · rw [ledgerAt_put, if_pos rfl, ledger_set _ _ _ hparse, if_pos rfl]
      · exact (ledgersOf_ledger _ _ _ _ _ _ _).trans (if_pos ⟨rfl, rfl⟩)
  · cases hwrite

theorem isClosed_close (log : List Event) (place place' : Place) (hash hash' : Text)
    (generation : ℕ) (shown : Item) :
    isClosed (.close place hash generation shown :: log) place' hash' =
      (decide (place = place') && decide (hash = hash') || isClosed log place' hash') := by
  unfold isClosed
  rw [any_cons]

theorem addComment_acted (h : SystemOk s) (hlocked : Locked s index job)
    (hhash : isGoalBoardHash (job.hash sha256))
    (hmarks : marks s job.row.place (job.hash sha256) = 0)
    (hcomment : goalBoardMarker (job.hash sha256) <+: job.comment)
    (hevent : EventOk s.log (.comment job.row.place (job.hash sha256) job.row.claimGeneration))
    {id createdAt : Text} (hadd : addComment sha256 s job id createdAt = some s') :
    Acted index s s' ∧ s'.rows = s.rows ∧ s'.locks = s.locks ∧
      ledgerAt s' job.row.place (job.hash sha256) = ledgerAt s job.row.place (job.hash sha256) := by
  unfold addComment at hadd
  rcases hitem : s.items job.row.place with _ | item
  · rw [hitem] at hadd
    cases hadd
  rw [hitem, map_some, some.injEq] at hadd
  subst hadd
  have hledger : ∀ place hash, ledgerAt ((s.put job.row.place
      { item with comments := item.comments ++ [⟨id, job.comment, createdAt⟩] }).record
      (.comment job.row.place (job.hash sha256) job.row.claimGeneration)) place hash = ledgerAt s place hash :=
    ledgerAt_put_kept (fun hash => by rw [ledgerAt_of_items hitem]; rfl) _
  refine ⟨⟨⟨⟨hevent, h.log⟩, ?_, h.ids, h.settled⟩, fun other hne => ?_⟩, rfl, rfl, hledger _ _⟩
  · intro place hash hhash'
    have hok := h.items place hash hhash'
    refine ⟨?_, fun ledger hat => ?_, fun hat => ?_⟩
    · rw [marks_put]
      split
      · next heq =>
        subst heq
        rw [countP_append, ← marks_of_items hitem, countP_singleton]
        split
        · next hmarked =>
          have heq : hash = job.hash sha256 :=
            hash_eq_of_marker hhash' hhash (List.isPrefixOf_iff_prefix.mp hmarked) hcomment
          rw [heq, hmarks]
        · exact hok.marks
      · exact hok.marks
    · have hkeeps := hok.keeps ledger ((hledger place hash).symm.trans hat)
      exact { hkeeps with }
    · exact hok.none ((hledger place hash).symm.trans hat)
  · exact put_leaves (others_locked hlocked hne) (fun _ _ _ => rfl) fun _ _ _ => rfl

theorem closeItem_acted (h : SystemOk s) (hlocked : Locked s index job)
    (hintends : Intends sha256 s job) {seen : Seen}
    (hseen : seen.Consents) (hclose : closeItem sha256 s job seen.shown = some s') :
    Acted index s s' ∧ s'.rows = s.rows ∧
      s'.locks = s.locks ∧
      ledgerAt s' job.row.place (job.hash sha256) = ledgerAt s job.row.place (job.hash sha256) := by
  unfold closeItem at hclose
  rcases hitem : s.items job.row.place with _ | item
  · rw [hitem] at hclose
    cases hclose
  rw [hitem, map_some, some.injEq] at hclose
  subst hclose
  have hledger : ∀ place hash, ledgerAt ((s.put job.row.place { item with closed := true }).record
      (.close job.row.place (job.hash sha256) job.row.claimGeneration seen.shown)) place hash =
        ledgerAt s place hash :=
    ledgerAt_put_kept (fun hash => by rw [ledgerAt_of_items hitem]; rfl) _
  have hevent : EventOk s.log (.close job.row.place (job.hash sha256) job.row.claimGeneration seen.shown) :=
    ⟨hseen.1, hseen.2, hintends.open_, hintends.ledgers⟩
  refine ⟨⟨⟨⟨hevent, h.log⟩, ?_, h.ids, h.settled⟩, fun other hne => ?_⟩, rfl, rfl, hledger _ _⟩
  · intro place hash hhash'
    have hok := h.items place hash hhash'
    refine ⟨?_, fun ledger hat => ?_, fun hat => ?_⟩
    · rw [marks_put]
      split
      · next heq =>
        subst heq
        rw [← marks_of_items hitem]
        exact hok.marks
      · exact hok.marks
    · have hat' := (hledger place hash).symm.trans hat
      have hkeeps := hok.keeps ledger hat'
      refine ⟨hkeeps.generation, hkeeps.commented, hkeeps.close, fun hclosed => ?_, hkeeps.receipt⟩
      change isClosed (_ :: s.log) place hash at hclosed
      rw [isClosed_close, or_eq_true, and_eq_true, decide_eq_true_eq, decide_eq_true_eq] at hclosed
      obtain ⟨rfl, rfl⟩ | hclosed := hclosed
      · rw [hintends.current] at hat'
        rw [← some.inj hat']
        show Close.closing ≠ .unclosed
        decide
      · exact hkeeps.closed hclosed
    · have hat' := (hledger place hash).symm.trans hat
      refine ⟨(hok.none hat').1, ?_⟩
      change isClosed (_ :: s.log) place hash = false
      rw [isClosed_close, (hok.none hat').2, Bool.or_false, and_eq_false_iff, decide_eq_false_iff_not,
        decide_eq_false_iff_not]
      by_contra hboth
      rw [not_or, not_not, not_not] at hboth
      obtain ⟨rfl, rfl⟩ := hboth
      rw [hintends.current] at hat'
      cases hat'
  · refine put_leaves (others_locked hlocked hne) (fun _ _ _ => rfl) ?_
    intro place hash hplace
    rw [isClosed_close, decide_eq_false fun heq => hplace heq.symm, Bool.false_and, Bool.false_or]

end ArdurBot.GoalBoard
