import ArdurBot.Evidence.Verify

/-!
# What the verifiers accept

A verifier collects failures, so that it accepts means that each check passed. This module says so
once for the loop over the records (`ok_of_verifyRecord` and `verifyRecord_of_ok`, one step each
way) and once for the seal; the results about chains and seals never look into the verifiers again.
-/

namespace ArdurBot.Evidence

open Utf16 Json
open Checked (bind_eq_ok)

variable {p : Platform} {key : p.Key} {options : VerificationOptions}

/-- What the loop checks of a record on its own. -/
structure RecordOk (p : Platform) (key : p.Key) (options : VerificationOptions)
  (previous : Option Text)
    (jws : Text) (claims : JsValue) : Prop where
  inspected : ∃ decoded, inspect p jws key receiptTyp = .ok (.ok decoded) ∧ decoded.payload = claims
  parent : parentMatches claims (previous.map (sha256 p))
  valid : validateReceiptClaims p claims = .ok ()
  unrevoked : isRevoked options claims = false

theorem failIf_failures_eq_nil {s : ChainState} {condition : Bool} {index : ℕ} {complaint : Complaint} :
    (s.failIf condition index complaint).failures = [] ↔ s.failures = [] ∧ condition = false := by
  cases condition <;> simp [ChainState.failIf, ChainState.fail]

theorem failIf_eq {s : ChainState} {condition : Bool} (h : condition = false) (index : ℕ)
    (complaint : Complaint) : s.failIf condition index complaint = s := by
  rw [h]
  rfl

section

variable (s : ChainState)

@[simp] theorem start_failures (index : ℕ) (claims : JsValue) :
    (s.start index claims).failures = s.failures := by
  rw [ChainState.start]
  split <;> rfl

/-- The claims fit the run that the loop has seen. -/
def FitsRun (index : ℕ) (claims : JsValue) : Prop :=
  (s.start index claims).firstClaims.any (fun identity =>
    !inRun claims identity (s.start index claims).runId index) = false

/-- The state after a record that is accepted. -/
def accept (last index : ℕ) (claims : JsValue) : ChainState :=
  if index = last then
    { s.start index claims with headReceiptId := asString (get claims (lit "receipt_id")) }
  else s.start index claims

@[simp] theorem accept_failures (last index : ℕ) (claims : JsValue) :
    (accept s last index claims).failures = s.failures := by
  rw [accept]
  split <;> simp

end

section

variable {last index : ℕ} {previous : Option Text} {jws : Text} {s : ChainState}

theorem verifyRecord_of_ok
    {claims : JsValue} (h : RecordOk p key options previous jws claims) (hrun : FitsRun s index claims) :
    verifyRecord p key options last index previous jws s = accept s last index claims := by
  obtain ⟨decoded, hinspect, rfl⟩ := h.inspected
  have hparent : (isObject decoded.payload && !parentMatches decoded.payload (previous.map (sha256 p))) = false := by
    simp [h.parent]
  simp only [verifyRecord, hinspect, h.valid]
  rw [failIf_eq hparent, failIf_eq hrun, failIf_eq h.unrevoked]
  rfl

theorem ok_of_verifyRecord (h : (verifyRecord p key options last index previous jws s).failures = []) :
    s.failures = [] ∧ ∃ claims, RecordOk p key options previous jws claims ∧ FitsRun s index claims := by
  rw [verifyRecord] at h
  rcases hinspect : inspect p jws key receiptTyp with _ | result
  · simp [hinspect, ChainState.fail] at h
  rcases result with _ | decoded
  · simp [hinspect, ChainState.fail] at h
  simp only [hinspect] at h
  rcases hvalid : validateReceiptClaims p decoded.payload with _ | u
  · simp [hvalid, ChainState.fail] at h
  simp only [hvalid] at h
  rw [apply_ite ChainState.failures, ite_self, failIf_failures_eq_nil, failIf_failures_eq_nil,
    start_failures, failIf_failures_eq_nil] at h
  obtain ⟨⟨⟨hs, hparent⟩, hrun⟩, hrevoked⟩ := h
  rw [failIf_eq hparent] at hrun
  refine ⟨hs, decoded.payload, ⟨⟨decoded, hinspect, rfl⟩, ?_, hvalid, hrevoked⟩, hrun⟩
  rw [validateReceiptClaims, seq_eq_ok, requireClaim_eq_ok] at hvalid
  simpa [hvalid.1] using hparent

end

theorem decodeCompact_of_inspect {jws typ : Text} {decoded : Decoded}
    (h : inspect p jws key typ = .ok (.ok decoded)) : decodeCompact jws = .ok decoded := by
  rw [inspect] at h
  rcases hd : decodeCompact jws with _ | d
  · simp [hd] at h
  simp only [hd, bind_eq_ok] at h
  obtain ⟨complaint, -, h⟩ := h
  cases complaint with
  | some c => simp [pure, Except.pure] at h
  | none =>
    cases hcheck : (checkSignature p d key typ).or (checkPayload d) with
    | some c => simp [hcheck, pure, Except.pure] at h
    | none =>
      simp only [hcheck, pure, Except.pure, Except.ok.injEq] at h
      rw [h]

/-- Every record is accepted, each after the one before it. -/
inductive Accepts (p : Platform) (key : p.Key) (options : VerificationOptions) (last : ℕ) :
    ℕ → Option Text → List Text → ChainState → ChainState → Prop
  | nil {index previous s} : Accepts p key options last index previous [] s s
  | cons {index previous jws rest s s' claims} (h : RecordOk p key options previous jws claims)
      (hrun : FitsRun s index claims)
      (hrest : Accepts p key options last (index + 1) (some jws) rest (accept s last index claims) s') :
      Accepts p key options last index previous (jws :: rest) s s'

section

variable {last index : ℕ} {previous : Option Text} {records : List Text}

theorem accepts_of_verifyRecords {s : ChainState}
    (h : (verifyRecords p key options last index previous records s).failures = []) :
    s.failures = [] ∧ Accepts p key options last index previous records s
      (verifyRecords p key options last index previous records s) := by
  induction records generalizing index previous s with
  | nil => exact ⟨h, .nil⟩
  | cons jws rest ih =>
    rw [verifyRecords] at h ⊢
    obtain ⟨hstep, hrest⟩ := ih h
    obtain ⟨hs, claims, hok, hrun⟩ := ok_of_verifyRecord hstep
    rw [verifyRecord_of_ok hok hrun] at hrest ⊢
    exact ⟨hs, .cons hok hrun hrest⟩

section

variable {s s' : ChainState} (h : Accepts p key options last index previous records s s')
include h

theorem verifyRecords_of_accepts : verifyRecords p key options last index previous records s = s' := by
  induction h with
  | nil => rfl
  | cons hok hrun _ ih => rw [verifyRecords, verifyRecord_of_ok hok hrun, ih]

theorem Accepts.failures_eq : s'.failures = s.failures := by
  induction h with
  | nil => rfl
  | cons _ _ _ ih => rw [ih, accept_failures]

end

end

theorem withSignerMatch_ok (result : VerificationResult) (fingerprint : Option Text) :
    (withSignerMatch p result key fingerprint).ok = result.ok := by
  rw [withSignerMatch]
  split <;> rfl

theorem verifyChainContents_ok {records : List Text} : (verifyChainContents p records key options).ok ↔
      records ≠ [] ∧ (∃ id, evidenceKeyId p key = .ok id) ∧
        ∃ s, Accepts p key options (records.length - 1) 0 none records {} s := by
  rw [verifyChainContents]
  by_cases hempty : records = []
  · simp [hempty, failed]
  · rw [if_neg hempty]
    rcases hid : evidenceKeyId p key with _ | id
    · simp [failed]
    simp only [decide_eq_true_eq, hempty, ne_eq, not_false_eq_true, true_and, Except.ok.injEq, exists_eq']
    constructor
    · intro h
      exact ⟨_, (accepts_of_verifyRecords h).2⟩
    · rintro ⟨s, hs⟩
      rw [verifyRecords_of_accepts hs, hs.failures_eq]

/-- What `verifySeal` checks of a seal over a good chain. -/
structure SealOk (p : Platform) (key : p.Key) (options : VerificationOptions) (sealJwt : Text)
    (records : List Text) (claims : JsValue) : Prop where
  inspected : ∃ decoded, inspect p sealJwt key sealTyp = .ok (.ok decoded) ∧ decoded.payload = claims
  valid : validateSealClaims claims = .ok ()
  unrevoked : isRevoked options claims = false
  head : ∃ lastJws, records.getLast? = some lastJws ∧
    namesHead p claims lastJws (verifyChainContents p records key options).headReceiptId
  counts : sealMatches claims (payloads records)

theorem verifyChainContents_failures {records : List Text} : (verifyChainContents p records key options).ok ↔
      (verifyChainContents p records key options).failures = [] := by
  rw [verifyChainContents]
  split
  · simp [failed]
  · cases evidenceKeyId p key <;> simp [failed]

@[simp] theorem result_fail_ok (r : VerificationResult) (complaint : Complaint) :
    (r.fail complaint).ok = false := rfl

theorem hasHead_of_valid {claims : JsValue} (h : validateSealClaims claims = .ok ()) :
    (isObject claims && hasOwn claims (lit "receipt_chain_head") &&
      !isNull (get claims (lit "receipt_chain_head"))) := by
  simp only [validateSealClaims, seq_eq_ok, requireClaim_eq_ok, Bool.and_eq_true, List.all_eq_true] at h
  obtain ⟨hobject, ⟨-, hkeys⟩, -, -, -, -, -, -, -, -, hhead, -⟩ := h
  have hown := hkeys (lit "receipt_chain_head") (by decide)
  have hnull : isNull (get claims (lit "receipt_chain_head")) = false := by
    simp only [chainHeadOk, Bool.and_eq_true] at hhead
    cases hvalue : get claims (lit "receipt_chain_head") <;> simp [hvalue, isObject, isNull] at hhead ⊢
  simp [hobject, hown, hnull]

theorem verifySealContents_ok {sealJwt : Text} {records : List Text} :
    (verifySealContents p sealJwt records key options).ok ↔
      (verifyChainContents p records key options).ok ∧
        ∃ claims, SealOk p key options sealJwt records claims := by
  rw [verifySealContents]
  constructor
  · intro h
    rcases hid : evidenceKeyId p key with _ | id
    · simp [hid] at h
    rcases hinspect : inspect p sealJwt key sealTyp with _ | result
    · simp [hid, hinspect] at h
    rcases result with _ | decoded
    · simp [hid, hinspect] at h
    simp only [hid, hinspect] at h
    split at h
    · simp at h
    · rcases hvalid : validateSealClaims decoded.payload with _ | u
      · simp [hvalid] at h
      rcases hlast : records.getLast? with _ | lastJws
      · simp [hvalid, hlast] at h
      simp only [hvalid, hlast] at h
      by_cases hrevoked : isRevoked options decoded.payload
      · rw [if_pos hrevoked] at h
        split at h <;> simp [VerificationResult.fail] at h
      · rw [if_neg hrevoked] at h
        by_cases hnames : namesHead p decoded.payload lastJws
            (verifyChainContents p records key options).headReceiptId
        · simp only [hnames, Bool.not_true, Bool.false_eq_true, if_false] at h
          by_cases hfailures : (verifyChainContents p records key options).failures = []
          · by_cases hcounts : sealMatches decoded.payload (payloads records)
            · exact ⟨verifyChainContents_failures.mpr hfailures, decoded.payload,
                ⟨decoded, hinspect, rfl⟩, hvalid, by simpa using hrevoked,
                ⟨lastJws, hlast, hnames⟩, hcounts⟩
            · simp [hfailures, hcounts] at h
          · rw [if_pos hfailures] at h
            exact absurd (verifyChainContents_failures.mp h) hfailures
        · simp [hnames, VerificationResult.fail] at h
  · rintro ⟨hchain, claims, hseal⟩
    obtain ⟨decoded, hinspect, rfl⟩ := hseal.inspected
    obtain ⟨lastJws, hlast, hnames⟩ := hseal.head
    obtain ⟨-, ⟨id, hid⟩, -⟩ := verifyChainContents_ok.mp hchain
    have hfailures := verifyChainContents_failures.mp hchain
    simp [hid, hinspect, hasHead_of_valid hseal.valid, hseal.valid, hseal.unrevoked, hlast, hnames,
      hfailures, hseal.counts]

end ArdurBot.Evidence
