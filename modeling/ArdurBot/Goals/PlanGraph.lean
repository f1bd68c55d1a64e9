import ArdurBot.Goals.Plan

/-!
# The statuses of a plan that follow from others

The loop that derives the statuses again changes no more than which of the pending and blocked steps
are which (`erase` forgets that). On a plan without a cycle it ends, and then a step is blocked
exactly if a chain of outstanding prerequisites leads from it to one that is cancelled
(`blocked_iff`).
-/

namespace ArdurBot.Goals

open List Utf16 Function
open Option hiding any any_eq_true map map_map

variable {row : PlanStep} {f : PlanStep → PlanStep} {rows' : List PlanStep} {prior : StepStatus}

section

variable {rows : List PlanStep}

theorem findStep_eq_some (hkeys : (rows.map PlanStep.clientId).Nodup) {id : Text} :
    findStep rows id = some row ↔ row ∈ rows ∧ row.clientId = id := by
  induction rows with
  | nil => simp [findStep]
  | cons head rows ih =>
    rw [map_cons, nodup_cons] at hkeys
    by_cases hid : head.clientId = id
    · have hfind : findStep (head :: rows) id = some head := by simp [findStep, hid]
      rw [hfind, some.injEq]
      constructor
      · rintro rfl
        exact ⟨mem_cons_self, hid⟩
      · rintro ⟨hmem, hrow⟩
        obtain rfl | hmem := mem_cons.mp hmem
        · rfl
        · exact absurd (mem_map.mpr ⟨row, hmem, hrow.trans hid.symm⟩) hkeys.1
    · have hfind : findStep (head :: rows) id = findStep rows id := by simp [findStep, hid]
      rw [hfind, ih hkeys.2]
      constructor
      · exact fun h => ⟨mem_cons_of_mem _ h.1, h.2⟩
      · rintro ⟨hmem, hrow⟩
        obtain rfl | hmem := mem_cons.mp hmem
        · exact absurd hrow hid
        · exact ⟨hmem, hrow⟩

theorem clientId_of_findStep {id : Text} (h : findStep rows id = some row) : row.clientId = id := by
  simpa using find?_some h

theorem mem_of_findStep {id : Text} (h : findStep rows id = some row) : row ∈ rows :=
  mem_of_find?_eq_some h

theorem findStep_map (hf : ∀ row, (f row).clientId = row.clientId) (id : Text) :
    findStep (rows.map f) id = (findStep rows id).map f := by
  rw [findStep, findStep, find?_map]
  congr 2
  funext row
  simp [hf]

theorem map_clientId_map (hf : ∀ row, (f row).clientId = row.clientId) :
    (rows.map f).map PlanStep.clientId = rows.map PlanStep.clientId := by
  rw [map_map]
  exact map_congr_left fun row _ => hf row

end

def erase (row : PlanStep) : PlanStep :=
  { row with revision := 0, status := if row.status.isDerived then .pending else row.status }

/-- The same rows, but for which of them are pending and which blocked. -/
def Reshape (rows rows' : List PlanStep) : Prop := (rows.map erase).Perm (rows'.map erase)

theorem clientId_erase (row : PlanStep) : (erase row).clientId = row.clientId := rfl

theorem Reshape.clientId {rows : List PlanStep} (h : Reshape rows rows') :
    (rows.map PlanStep.clientId).Perm (rows'.map PlanStep.clientId) := by
  have hmap := h.map PlanStep.clientId
  rwa [map_clientId_map clientId_erase, map_clientId_map clientId_erase] at hmap

theorem Reshape.nodup {rows : List PlanStep} (h : Reshape rows rows')
    (hkeys : (rows.map PlanStep.clientId).Nodup) :
    (rows'.map PlanStep.clientId).Nodup :=
  h.clientId.nodup_iff.mp hkeys

theorem Reshape.trans {a b c : List PlanStep} (hab : Reshape a b) (hbc : Reshape b c) : Reshape a c :=
  List.Perm.trans hab hbc

section

variable {rows : List PlanStep} (h : Reshape rows rows')
include h

theorem Reshape.symm : Reshape rows' rows := List.Perm.symm h

theorem Reshape.findStep_eq (hkeys : (rows.map PlanStep.clientId).Nodup) (id : Text) :
    (findStep rows id).map erase = (findStep rows' id).map erase := by
  have hkeysErased : ((rows.map erase).map PlanStep.clientId).Nodup := by
    rwa [map_clientId_map clientId_erase]
  have hkeysErased' : ((rows'.map erase).map PlanStep.clientId).Nodup := by
    rw [map_clientId_map clientId_erase]
    exact h.nodup hkeys
  rw [← findStep_map clientId_erase, ← findStep_map clientId_erase]
  ext row
  rw [findStep_eq_some hkeysErased, findStep_eq_some hkeysErased', h.mem_iff]

theorem Reshape.find (hkeys : (rows.map PlanStep.clientId).Nodup) {id : Text}
    (hrow : findStep rows id = some row) :
    ∃ row', findStep rows' id = some row' ∧ erase row = erase row' := by
  have heq := h.findStep_eq hkeys id
  rw [hrow] at heq
  obtain ⟨row', hrow', herase⟩ := map_eq_some_iff.mp heq.symm
  exact ⟨row', hrow', herase.symm⟩

end

def prerequisitesOf (rows : List PlanStep) (id : Text) : List Text :=
  ((findStep rows id).map PlanStep.prerequisiteIds).getD []

theorem Reshape.prerequisitesOf_eq {rows : List PlanStep} (h : Reshape rows rows')
    (hkeys : (rows.map PlanStep.clientId).Nodup) :
    prerequisitesOf rows = prerequisitesOf rows' := by
  funext id
  have heq := congrArg (Option.map PlanStep.prerequisiteIds) (h.findStep_eq hkeys id)
  simp only [Option.map_map] at heq
  exact congrArg (getD · []) heq

theorem deriveStatus_isDerived (hprior : prior.isDerived) (statuses : Text → Option StepStatus)
    (ids : List Text) :
    (deriveStatus prior statuses ids).isDerived := by
  rw [deriveStatus, hprior]
  simp only [Bool.not_true, Bool.false_eq_true, if_false]
  split <;> rfl

theorem deriveStatus_of_not_isDerived (hprior : prior.isDerived = false)
    (statuses : Text → Option StepStatus) (ids : List Text) :
    deriveStatus prior statuses ids = prior := by
  rw [deriveStatus, hprior]
  rfl

theorem deriveStatus_erase (row : PlanStep) (statuses : Text → Option StepStatus) :
    deriveStatus (erase row).status statuses row.prerequisiteIds =
      deriveStatus row.status statuses row.prerequisiteIds := by
  cases hderived : row.status.isDerived with
  | true =>
    have hpending : (erase row).status = .pending := by simp [erase, hderived]
    rw [hpending, deriveStatus, deriveStatus, hderived]
    rfl
  | false =>
    have hsame : (erase row).status = row.status := by simp [erase, hderived]
    rw [hsame]

theorem deriveStatus_congr {row' : PlanStep} (h : erase row = erase row')
    (statuses : Text → Option StepStatus) :
    deriveStatus row.status statuses row.prerequisiteIds =
      deriveStatus row'.status statuses row'.prerequisiteIds := by
  have hids : row.prerequisiteIds = row'.prerequisiteIds := by
    show (erase row).prerequisiteIds = (erase row').prerequisiteIds
    rw [h]
  rw [← deriveStatus_erase row, ← deriveStatus_erase row', hids, h]

theorem deriveStatus_eq_blocked (hprior : prior.isDerived) {statuses : Text → Option StepStatus}
    {ids : List Text} :
    deriveStatus prior statuses ids = .blocked ↔
      ∃ id ∈ ids, statuses id = some .blocked ∨ statuses id = some .cancelled := by
  have hany : (ids.any fun id => statuses id = some .blocked || statuses id = some .cancelled) = true ↔
      ∃ id ∈ ids, statuses id = some .blocked ∨ statuses id = some .cancelled := by
    simp
  rw [← hany, deriveStatus, hprior]
  simp only [Bool.not_true, Bool.false_eq_true, if_false]
  split
  · next h => exact iff_of_true rfl h
  · next h => exact iff_of_false (by simp) h

/-- A chain of outstanding prerequisites leads from the step to a cancelled one. -/
inductive ReachesCancelled (rows : List PlanStep) : Text → Prop
  | here {id prerequisite} (hrequires : prerequisite ∈ prerequisitesOf rows id)
      (hcancelled : statusOf rows prerequisite = some .cancelled) : ReachesCancelled rows id
  | through {id prerequisite status} (hrequires : prerequisite ∈ prerequisitesOf rows id)
      (hstatus : statusOf rows prerequisite = some status) (hderived : status.isDerived)
      (hreaches : ReachesCancelled rows prerequisite) : ReachesCancelled rows id

/-- Each derived status is the one that the others give. -/
def Settled (rows : List PlanStep) : Prop :=
  ∀ row ∈ rows, deriveStatus row.status (statusOf rows) row.prerequisiteIds = row.status

/-- **A step is blocked exactly if a chain leads from it to a cancelled one.** -/
theorem blocked_iff {rows : List PlanStep} (hkeys : (rows.map PlanStep.clientId).Nodup) {order : List Text}
    (hsorted : Dag.Sorted (prerequisitesOf rows) order) (hall : ∀ row ∈ rows, row.clientId ∈ order)
    (hsettled : Settled rows) (hrow : row ∈ rows) (hderived : row.status.isDerived) :
    row.status = .blocked ↔ ReachesCancelled rows row.clientId := by
  have hfind : ∀ row ∈ rows, findStep rows row.clientId = some row :=
    fun row hmem => (findStep_eq_some hkeys).mpr ⟨hmem, rfl⟩
  have hrequires : ∀ row ∈ rows, prerequisitesOf rows row.clientId = row.prerequisiteIds := by
    intro row hmem
    rw [prerequisitesOf, hfind row hmem]
    rfl
  have hblocked : ∀ row ∈ rows, row.status.isDerived → (row.status = .blocked ↔
      ∃ id ∈ row.prerequisiteIds, statusOf rows id = some .blocked ∨ statusOf rows id = some .cancelled) := by
    intro row hmem hderived
    rw [← deriveStatus_eq_blocked hderived, hsettled row hmem]
  constructor
  · -- along the order, since a prerequisite comes after what requires it
    intro hstatus
    have hmem := hall row hrow
    clear hall
    induction order generalizing row with
    | nil => simp at hmem
    | cons head rest ih =>
      obtain heq | hmem := mem_cons.mp hmem
      · obtain ⟨id, hid, hprior⟩ := (hblocked row hrow hderived).mp hstatus
        have hid' : id ∈ prerequisitesOf rows row.clientId := by rwa [hrequires row hrow]
        obtain hprior | hprior := hprior
        · obtain ⟨prior, hfound, hpriorStatus⟩ := map_eq_some_iff.mp hprior
          have hpriorId := clientId_of_findStep hfound
          have hpriorDerived : prior.status.isDerived := by
            rw [hpriorStatus]
            rfl
          have hrest : prior.clientId ∈ rest := by
            rw [hpriorId]
            exact hsorted.1 id (heq ▸ hid')
          have hreach := ih hsorted.2 (mem_of_findStep hfound) hpriorDerived hpriorStatus hrest
          exact .through hid' hprior rfl (hpriorId ▸ hreach)
        · exact .here hid' hprior
      · exact ih hsorted.2 hrow hderived hstatus hmem
  · intro hreaches
    have hgeneral : ∀ id, ReachesCancelled rows id → ∀ row ∈ rows, row.clientId = id →
        row.status.isDerived → row.status = .blocked := by
      intro id hid
      induction hid with
      | @here id prerequisite hrequired hcancelled =>
        rintro row hmem rfl hderived
        rw [hrequires row hmem] at hrequired
        exact (hblocked row hmem hderived).mpr ⟨_, hrequired, .inr hcancelled⟩
      | @through id prerequisite status hrequired hstatus hpriorDerived _ ih =>
        rintro row hmem rfl hderived
        rw [hrequires row hmem] at hrequired
        obtain ⟨prior, hfound, rfl⟩ := map_eq_some_iff.mp hstatus
        have hpriorBlocked := ih prior (mem_of_findStep hfound) (clientId_of_findStep hfound) hpriorDerived
        rw [hpriorBlocked] at hstatus
        exact (hblocked row hmem hderived).mpr ⟨_, hrequired, .inl hstatus⟩
    exact hgeneral _ hreaches row hrow rfl hderived

section Loop

variable {rows : List PlanStep} (hkeys : (rows.map PlanStep.clientId).Nodup)

section

variable (revision : ℕ) (id : Text) (rows : List PlanStep)

theorem map_erase_relax : (relax revision id rows).map erase = rows.map erase := by
  rw [relax, map_map]
  apply map_congr_left
  intro row _
  show erase (if row.clientId = id then _ else row) = erase row
  split
  · dsimp only
    split
    · rfl
    · next hchanged =>
      cases hderived : row.status.isDerived with
      | true =>
        have hnext := deriveStatus_isDerived hderived (statusOf rows) row.prerequisiteIds
        simp [erase, hderived, hnext]
      | false => exact absurd (deriveStatus_of_not_isDerived hderived _ _) hchanged
  · rfl

end

theorem statusOf_relax (revision : ℕ) (a : Text) (s : List PlanStep) (b : Text) :
    statusOf (relax revision a s) b =
      if b = a then (findStep s a).map fun row => deriveStatus row.status (statusOf s) row.prerequisiteIds
      else statusOf s b := by
  rw [statusOf, relax, findStep_map fun row => by
    dsimp only
    split_ifs <;> rfl]
  cases hfind : findStep s b with
  | none =>
    split
    · next hba => simp [← hba, hfind]
    · simp [statusOf, hfind]
  | some row =>
    have hid := clientId_of_findStep hfind
    by_cases hba : b = a
    · subst hba
      simp only [hfind, map_some, hid, if_true]
      split
      · next hsame => rw [hsame]
      · rfl
    · have hne : row.clientId ≠ a := fun h => hba (hid.symm.trans h)
      simp [hba, hne, statusOf, hfind]

/-- What the derived statuses come to. -/
noncomputable def finalStatus (rows : List PlanStep) (id : Text) : Option StepStatus := by
  classical
  exact (findStep rows id).map fun row =>
    if row.status.isDerived then if ReachesCancelled rows id then .blocked else .pending else row.status

theorem finalStatus_eq_cancelled {id : Text} :
    finalStatus rows id = some .cancelled ↔ statusOf rows id = some .cancelled := by
  rcases hrow : findStep rows id with _ | row
  · simp [finalStatus, statusOf, hrow]
  cases hderived : row.status.isDerived with
  | true =>
    have hne : row.status ≠ .cancelled := by
      rintro hcancelled
      rw [hcancelled] at hderived
      exact absurd hderived (by decide)
    by_cases hreaches : ReachesCancelled rows id <;> simp [finalStatus, statusOf, hrow, hderived, hreaches, hne]
  | false => simp [finalStatus, statusOf, hrow, hderived]

theorem finalStatus_eq_blocked {id : Text} : finalStatus rows id = some .blocked ↔
      ReachesCancelled rows id ∧ ∃ status, statusOf rows id = some status ∧ status.isDerived := by
  rcases hrow : findStep rows id with _ | row
  · simp [finalStatus, statusOf, hrow]
  cases hderived : row.status.isDerived with
  | true => by_cases hreaches :
    ReachesCancelled rows id <;> simp [finalStatus, statusOf, hrow, hderived, hreaches]
  | false =>
    have hne : row.status ≠ .blocked := by
      rintro hblocked
      rw [hblocked] at hderived
      exact absurd hderived (by decide)
    simp [finalStatus, statusOf, hrow, hderived, hne]

theorem reachesCancelled_iff {id : Text} :
    ReachesCancelled rows id ↔ ∃ prerequisite ∈ prerequisitesOf rows id,
      finalStatus rows prerequisite = some .blocked ∨ finalStatus rows prerequisite = some .cancelled := by
  constructor
  · intro h
    cases h with
    | here hrequires hcancelled => exact ⟨_, hrequires, .inr (finalStatus_eq_cancelled.mpr hcancelled)⟩
    | through hrequires hstatus hderived hreaches =>
      exact ⟨_, hrequires, .inl (finalStatus_eq_blocked.mpr ⟨hreaches, _, hstatus, hderived⟩)⟩
  · rintro ⟨prerequisite, hrequires, hblocked | hcancelled⟩
    · obtain ⟨hreaches, status, hstatus, hderived⟩ := finalStatus_eq_blocked.mp hblocked
      exact .through hrequires hstatus hderived hreaches
    · exact .here hrequires (finalStatus_eq_cancelled.mp hcancelled)

theorem solves_finalStatus (revision : ℕ) : Dag.Solves (prerequisitesOf rows) statusOf (relax revision)
      (fun id statuses => (findStep rows id).map fun row =>
        deriveStatus row.status statuses row.prerequisiteIds)
      (finalStatus rows) fun s => s.map erase = rows.map erase where
  inv id s hs := by rw [map_erase_relax, hs]
  relax id s hs b := by
    rw [statusOf_relax]
    split
    · have hsame : (findStep s id).map erase = (findStep rows id).map erase := by
        rw [← findStep_map clientId_erase, ← findStep_map clientId_erase, hs]
      rcases hs' : findStep s id with _ | row
      · rw [hs'] at hsame
        rw [map_eq_none_iff.mp hsame.symm]
      rw [hs'] at hsame
      obtain ⟨row', hrow', herase⟩ := map_eq_some_iff.mp hsame.symm
      rw [hrow']
      exact congrArg some (deriveStatus_congr herase.symm (statusOf s))
    · rfl
  local_ id v w hvw := by
    rcases hrow : findStep rows id with _ | row
    · rfl
    have hrequires : prerequisitesOf rows id = row.prerequisiteIds := by simp [prerequisitesOf, hrow]
    rw [hrequires] at hvw
    have hany : (row.prerequisiteIds.any fun id => v id = some .blocked || v id = some .cancelled) =
        row.prerequisiteIds.any fun id => w id = some .blocked || w id = some .cancelled := by
      rw [Bool.eq_iff_iff, any_eq_true, any_eq_true]
      constructor
      · rintro ⟨id, hid, h⟩
        exact ⟨id, hid, by rwa [← hvw id hid]⟩
      · rintro ⟨id, hid, h⟩
        exact ⟨id, hid, by rwa [hvw id hid]⟩
    simp only [map_some, deriveStatus, hany]
  solution id := by
    rcases hrow : findStep rows id with _ | row
    · simp [finalStatus, hrow]
    have hrequires : prerequisitesOf rows id = row.prerequisiteIds := by simp [prerequisitesOf, hrow]
    cases hderived : row.status.isDerived with
    | false =>
      simp [finalStatus, hrow, hderived, deriveStatus_of_not_isDerived hderived]
    | true =>
      have hiff : deriveStatus row.status (finalStatus rows) row.prerequisiteIds = .blocked ↔
          ReachesCancelled rows id := by
        rw [deriveStatus_eq_blocked hderived, ← hrequires, ← reachesCancelled_iff]
      have hnext := deriveStatus_isDerived hderived (finalStatus rows) row.prerequisiteIds
      by_cases hreaches : ReachesCancelled rows id
      · simp [hiff.mpr hreaches, finalStatus_eq_blocked.mpr
          ⟨hreaches, row.status, by simp [statusOf, hrow], hderived⟩]
      · have hpending : deriveStatus row.status (finalStatus rows) row.prerequisiteIds = .pending := by
          have hne := fun h => hreaches (hiff.mp h)
          cases hvalue : deriveStatus row.status (finalStatus rows) row.prerequisiteIds <;>
            simp [hvalue, StepStatus.isDerived] at hnext hne ⊢
        simp [hrow, hpending, finalStatus, hderived, hreaches]

theorem sweep_of_settled {s : List PlanStep} (h : Settled s) (revision : ℕ) : sweep revision s = s := by
  have hrelax : ∀ id, relax revision id s = s := by
    intro id
    have hmap : ∀ row ∈ s, (if row.clientId = id then
        let next := deriveStatus row.status (statusOf s) row.prerequisiteIds
        if next = row.status then row else { row with status := next, revision }
        else row) = row := by
      intro row hrow
      simp [h row hrow]
    rw [relax]
    exact (map_congr_left hmap).trans (map_id' s)
  have hfold : ∀ ids : List Text, Dag.sweep (relax revision) ids s = s := by
    intro ids
    induction ids with
    | nil => rfl
    | cons id ids ih => rw [Dag.sweep, foldl_cons, hrelax, ← Dag.sweep, ih]
  exact hfold _

theorem settle_eq {revision : ℕ} {n : ℕ} {s : List PlanStep}
    (h : sweep revision ((sweep revision)^[n] s) = (sweep revision)^[n] s) :
    settle revision (n + 1) s = .ok ((sweep revision)^[n] s) := by
  induction n generalizing s with
  | zero =>
    have hsettled : sweep revision s = s := h
    rw [settle]
    simp [hsettled]
  | succ n ih =>
    rw [settle]
    split
    · next hsettled => rw [iterate_fixed hsettled]
    · rw [ih h, iterate_succ_apply]

/-- **On a plan without a cycle the loop ends**, with every derived status the one that the others
give. -/
theorem recompute_spec (hkeys : (rows.map PlanStep.clientId).Nodup)
    (hknown : ∀ row ∈ rows, ∀ id ∈ row.prerequisiteIds, id ∈ rows.map PlanStep.clientId)
    {order : List Text} (hperm : order.Perm (rows.map PlanStep.clientId))
    (hsorted : Dag.Sorted (prerequisitesOf rows) order) (list : RowOrder) (revision : ℕ) :
    ∃ rows', recomputePlanStepStatuses list revision rows = .ok rows' ∧ Reshape rows rows' ∧ Settled rows' := by
  have hreshape : Reshape rows (list.val rows) := ((list.property rows).map erase).symm
  have hprerequisites := hreshape.prerequisitesOf_eq hkeys
  have hlength : order.length = rows.length := by rw [hperm.length_eq, length_map]
  have hkeys' := hreshape.nodup hkeys
  have hids : ∀ id ∈ order, id ∈ (list.val rows).map PlanStep.clientId :=
    fun id hid => hreshape.clientId.mem_iff.mp (hperm.mem_iff.mp hid)
  rw [hprerequisites] at hsorted
  have hknown' : ∀ row ∈ list.val rows, ∀ id ∈ row.prerequisiteIds, id ∈ order :=
    fun row hrow id hid => hperm.mem_iff.mpr (hknown row ((list.property rows).mem_iff.mp hrow) id hid)
  have hall : ∀ row ∈ list.val rows, row.clientId ∈ order :=
    fun row hrow => hperm.mem_iff.mpr (mem_map.mpr ⟨row, (list.property rows).mem_iff.mp hrow, rfl⟩)
  rw [recomputePlanStepStatuses, ← hlength]
  generalize list.val rows = s at hreshape hkeys' hids hsorted hknown' hall
  have h := @solves_finalStatus s revision
  have hagree := h.agree_iterate hsorted hids rfl
  have hinv : ∀ n, ((Dag.sweep (relax revision) (s.map PlanStep.clientId))^[n] s).map erase = s.map erase := by
    intro n
    induction n with
    | zero => rfl
    | succ n ih =>
      rw [iterate_succ_apply']
      exact h.inv_sweep ih _
  have hsweep : ∀ n, (sweep revision)^[n] s = (Dag.sweep (relax revision) (s.map PlanStep.clientId))^[n] s := by
    intro n
    induction n with
    | zero => rfl
    | succ n ih =>
      have hsame : ((Dag.sweep (relax revision) (s.map PlanStep.clientId))^[n] s).map PlanStep.clientId =
          s.map PlanStep.clientId := by
        rw [← map_clientId_map clientId_erase, hinv, map_clientId_map clientId_erase]
      rw [iterate_succ_apply', iterate_succ_apply', ih, sweep, hsame]
  rw [← hsweep] at hagree
  have hresult := hinv order.length
  rw [← hsweep] at hresult
  have hreshape' : Reshape s ((sweep revision)^[order.length] s) := by
    rw [Reshape, hresult]
  have hsettled : Settled ((sweep revision)^[order.length] s) := by
    intro row hrow
    have hfind := (findStep_eq_some (hreshape'.nodup hkeys')).mpr ⟨hrow, rfl⟩
    obtain ⟨before, hbefore, herase⟩ := hreshape'.symm.find (hreshape'.nodup hkeys') hfind
    have hmem := mem_of_findStep hbefore
    have hid : before.clientId = row.clientId := clientId_of_findStep hbefore
    have hvalue := hagree row.clientId (hid ▸ hall before hmem)
    have hlocal := h.local_ row.clientId _ (finalStatus s) fun id hid' =>
      hagree id (hknown' before hmem id (by simpa [prerequisitesOf, hbefore] using hid'))
    rw [h.solution, ← hvalue] at hlocal
    simp only [hbefore, map_some, statusOf, hfind, some.injEq] at hlocal
    rw [deriveStatus_congr herase]
    exact hlocal
  exact ⟨_, settle_eq (sweep_of_settled hsettled revision), hreshape.trans hreshape', hsettled⟩

end Loop

end ArdurBot.Goals
