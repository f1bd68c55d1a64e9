import ArdurBot.Evidence.Emitted

/-!
# A chain that is built verifies

The writer and the verifier are written apart. Here they meet: the records that a run's builder
emitted, resumed as often as one likes, pass `verifyChain`, and the seal that `sealRun` makes of
them passes `verifySeal`.
-/

namespace ArdurBot.Evidence

open List Utf16 Json HashChain

variable {p : Platform} {key : p.Key} {kid : Text} {run : ReceiptRunIdentity}

theorem isDigit_of_mem_natToString {n : ℕ} {u : CodeUnit} (h : u ∈ natToString n) : isDigit u := by
  rw [natToString] at h
  split at h
  · rw [mem_singleton.mp h]
    decide
  · exact isDigit_of_mem_digitsOf h

theorem runIdOf_stepId (runId : Text) (step : ℕ) : runIdOf (stepId runId step) = runId := by
  have hmem : unit ':' ∈ stepId runId step := by simp [stepId]
  have hreverse : (stepId runId step).reverse = (natToString step).reverse ++ unit ':' :: runId.reverse := by
    simp [stepId]
  have hdigits : ∀ u ∈ (natToString step).reverse, decide (u ≠ unit ':') := by
    intro u hu
    have hdigit := isDigit_of_mem_natToString (mem_reverse.mp hu)
    rw [decide_eq_true_eq]
    rintro rfl
    exact absurd hdigit (by decide)
  rw [runIdOf, if_pos hmem, hreverse, dropWhile_append_of_pos hdigits, dropWhile_cons_of_neg (by decide)]
  simp

theorem Emitted.recordOk {previous : Option Text} {step : ℕ} {jws : Text} {claims : JsValue}
    (h : Emitted p key kid run previous step jws claims) :
    RecordOk p (p.createPublicKey key) {} previous jws (canonical claims) := by
  obtain ⟨decoded, hinspect, hpayload⟩ := inspect_signed h.signed
  refine ⟨⟨decoded, hinspect, hpayload⟩, ?_, validateReceiptClaims_canonical h.keyed h.valid, rfl⟩
  rw [parentMatches, get_canonical h.keyed, get_canonical h.keyed, isTextOrNull_canonical,
    isTextOrNull_canonical]
  exact h.parent

theorem mem_claims_of_mem_identityClaims {claim : Text} (h : claim ∈ identityClaims)
    (run : ReceiptRunIdentity) :
    ∃ text, ∀ step, (claim, text) ∈ run.claims step := by
  simp only [identityClaims, mem_cons, not_mem_nil, or_false] at h
  obtain rfl | rfl | rfl | rfl | rfl | rfl := h
  · exact ⟨run.grantId, fun step => by simp [ReceiptRunIdentity.claims]⟩
  · exact ⟨run.traceId, fun step => by simp [ReceiptRunIdentity.claims]⟩
  · exact ⟨run.runNonce, fun step => by simp [ReceiptRunIdentity.claims]⟩
  · exact ⟨(run.actor.or run.botId).getD [], fun step => by simp [ReceiptRunIdentity.claims]⟩
  · exact ⟨run.verifier, fun step => by simp [ReceiptRunIdentity.claims]⟩
  · exact ⟨run.verifier, fun step => by simp [ReceiptRunIdentity.claims]⟩

theorem Emitted.get_eq {previous : Option Text} {step : ℕ} {jws : Text} {claims : JsValue}
    (h : Emitted p key kid run previous step jws claims) {claim text : Text}
    (hmem : (claim, text) ∈ run.claims step) : get (canonical claims) claim = .str text := by
  rw [get_canonical h.keyed, h.identity _ hmem]
  rfl

/-- The verifier has seen a record of this run first. -/
structure Started (run : ReceiptRunIdentity) (s : ChainState) : Prop where
  runId : s.runId = some run.runId
  first : ∃ identity, s.firstClaims = some identity ∧
    ∀ claim text, (∀ step, (claim, text) ∈ run.claims step) → get identity claim = .str text

section

variable {previous : Option Text} {step : ℕ} {jws : Text} {claims : JsValue} {s : ChainState}
  (h : Emitted p key kid run previous step jws claims) (hs : step = 0 ∨ Started run s)
include h hs

theorem Emitted.started : Started run (s.start step (canonical claims)) := by
  rw [ChainState.start]
  split
  · next hstep =>
    have hid : get (canonical claims) (lit "step_id") = .str (stepId run.runId step) :=
      h.get_eq (by simp [ReceiptRunIdentity.claims])
    refine ⟨?_, _, rfl, fun claim text hmem => h.get_eq (hmem step)⟩
    show (asString (get (canonical claims) (lit "step_id"))).map runIdOf = some run.runId
    rw [hid]
    exact congrArg some (runIdOf_stepId run.runId step)
  · next hstep => exact hs.resolve_left hstep

theorem Emitted.fitsRun : FitsRun s step (canonical claims) := by
  have hstarted := h.started hs
  obtain ⟨identity, hfirst, hidentity⟩ := hstarted.first
  obtain ⟨-, hnamed, -⟩ := receiptIdentity_eq_ok h.named
  have hid : get (canonical claims) (lit "step_id") = .str (stepId run.runId step) :=
    h.get_eq (by simp [ReceiptRunIdentity.claims])
  have hstep : isText (get (canonical claims) (lit "step_id")) (stepId run.runId step) := by
    simp [hid, isText, stringIs, asString]
  have hsame : identityClaims.all (fun claim =>
      sameString (get (canonical claims) claim) (get identity claim)) := by
    rw [all_eq_true]
    intro claim hclaim
    obtain ⟨text, hmem⟩ := mem_claims_of_mem_identityClaims hclaim run
    rw [h.get_eq (hmem step), hidentity claim text hmem]
    simp [sameString, isText, stringIs, asString]
  simp [FitsRun, hfirst, hstarted.runId, inRun, hnamed, hstep, hsame]

end

theorem started_accept {last step : ℕ} {claims : JsValue} {s : ChainState}
    (h : Started run (s.start step claims)) : Started run (accept s last step claims) := by
  rw [accept]
  split
  · exact ⟨h.runId, h.first⟩
  · exact h

theorem accepts_of_emittedFrom {last step : ℕ} {previous : Option Text} {records : List Text} {s : ChainState}
    (h : EmittedFrom p key kid run previous step records) (hs : step = 0 ∨ Started run s) :
    ∃ s', Accepts p (p.createPublicKey key) {} last step previous records s s' := by
  induction records generalizing step previous s with
  | nil => exact ⟨s, .nil⟩
  | cons jws rest ih =>
    obtain ⟨⟨claims, hemitted⟩, hrest⟩ := h
    have hstarted : Started run (accept s last step (canonical claims)) :=
      started_accept (hemitted.started hs)
    obtain ⟨s', hs'⟩ := ih hrest (.inr hstarted)
    exact ⟨s', .cons hemitted.recordOk (hemitted.fitsRun hs) hs'⟩

theorem EmittedFrom.verifyChain_ok {records : List Text} (h : EmittedFrom p key kid run none 0 records)
    (hne : records ≠ []) (fingerprint : Option Text) :
    (verifyChain p records (p.createPublicKey key) fingerprint {}).ok := by
  rw [verifyChain, withSignerMatch_ok, verifyChainContents_ok]
  refine ⟨hne, ?_, accepts_of_emittedFrom h (.inl rfl)⟩
  obtain ⟨jws, rest, rfl⟩ := exists_cons_of_ne_nil hne
  obtain ⟨⟨claims, hemitted⟩, -⟩ := h
  exact ⟨kid, hemitted.signed.keyId⟩

section

variable {previous : Option Text} {step : ℕ} {jws : Text} {claims : JsValue}
  (h : Emitted p key kid run previous step jws claims)
include h

theorem Emitted.readTail_eq : readTail jws key kid = .ok (canonical claims) := by
  obtain ⟨headerText, claimsText, signature, -, hclaims, -, hdecodes, hlength, hverify⟩ := h.signed.decodes
  obtain ⟨hobject, halg, hkid, htyp, hkeys⟩ := isHeader_header kid receiptTyp
  have hstable : canonicalizeOrThrow (canonical claims) = .ok claimsText :=
    canonicalizeOrThrow_eq_ok.mpr hclaims.stable
  have hvalid := validateReceiptClaims_canonical h.keyed h.valid
  simp [readTail, hdecodes, hvalid, h.signed.keyId, hobject, halg, hkid, htyp, hkeys, verifyCompactSignature,
    hlength, hverify, hstable, requireClaim, throwUnless, isText, stringIs, asString, bind, Except.bind,
    pure, Except.pure]

theorem Emitted.resumeChain_eq (hstep : step < maxSafeInteger) : resumeChain jws step run key kid =
      .ok { key, kid, previousJws := some jws, nextStep := step + 1 } := by
  have hidentity : (run.claims step).forM (fun expected =>
      throwUnless (isText (get (canonical claims) expected.1) expected.2)
        (.format .tailMismatch expected.1 (lit "Stored tail belongs to a different run or step"))) =
      .ok () := by
    rw [forM_eq_ok]
    intro claim hmem
    exact throwUnless_eq_ok.mpr (by
      rw [get_canonical h.keyed, h.identity claim hmem]
      simp [canonical, isText, stringIs, asString])
  have hresumable : throwUnless (step < maxSafeInteger)
      (.format .invalidSequence (lit "lastSeq") (lit "Expected a resumable sequence")) = .ok () :=
    throwUnless_eq_ok.mpr (decide_eq_true hstep)
  simp only [resumeChain, hresumable, h.named, h.readTail_eq, bind, Except.bind]
  rw [hidentity]
  rfl

end

inductive ChainOp where
  | append (input : ReceiptInput) (receiptId : Text) (random : ℕ)
  | resume

/-- The builder, and the records that it has returned and the caller stored. -/
structure ChainRun (p : Platform) where
  chain : EvidenceChain p
  records : List ChainRecord

def ChainRun.jwsList (s : ChainRun p) : List Text := s.records.map ChainRecord.jws

section

variable (run : ReceiptRunIdentity) (key : p.Key) (kid : Text)

def reopen (records : List ChainRecord) :
    Result (EvidenceChain p) :=
  match records.getLast? with
  | none => .ok (createEvidenceChain key kid)
  | some last => resumeChain last.jws last.seq run key kid

/-- A resumption that throws leaves the caller with the builder it had. -/
def ChainRun.step (s : ChainRun p) : ChainOp → ChainRun p
  | .append input receiptId random =>
    match s.chain.append input receiptId random with
    | (.ok record, chain) => { chain, records := s.records ++ [record] }
    | (.error _, chain) => { s with chain }
  | .resume =>
    match reopen run key kid s.records with
    | .ok chain => { s with chain }
    | .error _ => s

end

@[simp] theorem step_resume_records (s : ChainRun p) : (s.step run key kid .resume).records = s.records := by
  rw [ChainRun.step]
  split <;> rfl

def ChainRun.after (run : ReceiptRunIdentity) (key : p.Key) (kid : Text) (ops : List ChainOp) : ChainRun p :=
  ops.foldl (ChainRun.step run key kid) { chain := createEvidenceChain key kid, records := [] }

def ChainOp.OfRun (run : ReceiptRunIdentity) : ChainOp → Prop
  | .append input _ _ => input.toReceiptRunIdentity = run
  | .resume => True

/-- The records are the run's, and the builder stands after the last one. -/
structure Faithful (run : ReceiptRunIdentity) (key : p.Key) (kid : Text) (s : ChainRun p) :
  Prop where
  emitted : EmittedFrom p key kid run none 0 s.jwsList
  seqs : s.records.map ChainRecord.seq = List.range s.records.length
  chain : s.chain = { key, kid, previousJws := s.jwsList.getLast?, nextStep := s.records.length }

section

variable {s : ChainRun p}

theorem Faithful.seq_last (h : Faithful run key kid s) {last : ChainRecord}
    (hlast : s.records.getLast? = some last) : last.seq + 1 = s.records.length := by
  have hseq := congrArg getLast? h.seqs
  rw [getLast?_map, hlast, getLast?_range] at hseq
  have hpos : s.records.length ≠ 0 := by
    intro hzero
    rw [length_eq_zero_iff.mp hzero] at hlast
    simp at hlast
  simp only [Option.map_some, hpos, if_false, Option.some.injEq] at hseq
  omega

theorem Faithful.append (hp : p.Documented) (h : Faithful run key kid s) {input : ReceiptInput}
    (hinput : input.toReceiptRunIdentity = run) {receiptId : Text} {random : ℕ} {record : ChainRecord}
    {chain : EvidenceChain p} (happend : s.chain.append input receiptId random = (.ok record, chain)) :
    Faithful run key kid { chain, records := s.records ++ [record] } := by
  obtain ⟨hemitted, hseq, rfl⟩ := emitted_append hp happend
  rw [hinput, h.chain] at hemitted
  rw [h.chain] at hseq
  refine ⟨?_, ?_, ?_⟩
  · rw [ChainRun.jwsList, map_append, EmittedFrom, map_singleton, chainedFrom_concat]
    refine ⟨h.emitted, ?_⟩
    simpa [ChainRun.jwsList] using hemitted
  · rw [map_append, h.seqs, map_singleton, hseq, length_append, length_singleton, range_succ]
  · rw [h.chain]
    simp [ChainRun.jwsList]

theorem Faithful.reopen_eq (h : Faithful run key kid s)
    (hlength : s.records.length ≤ maxSafeInteger) : reopen run key kid s.records = .ok s.chain := by
  rw [reopen, h.chain]
  rcases hlast : s.records.getLast? with _ | last
  · have hnil := getLast?_eq_none_iff.mp hlast
    simp [ChainRun.jwsList, hnil, createEvidenceChain]
  have hseq := h.seq_last hlast
  obtain ⟨front, hfront⟩ := getLast?_eq_some_iff.mp hlast
  have hemitted := h.emitted
  rw [ChainRun.jwsList, hfront, map_append, map_singleton, EmittedFrom, chainedFrom_concat]
    at hemitted
  obtain ⟨-, claims, hemitted⟩ := hemitted
  have hstep : 0 + (front.map ChainRecord.jws).length = last.seq := by
    rw [hfront, length_append, length_singleton] at hseq
    rw [length_map]
    omega
  rw [hstep] at hemitted
  have hjws : s.jwsList.getLast? = some last.jws := by
    rw [ChainRun.jwsList, getLast?_map, hlast]
    rfl
  rw [hjws, ← hseq]
  exact hemitted.resumeChain_eq (by omega)

theorem Faithful.eq_of_reopen (h : Faithful run key kid s) {chain : EvidenceChain p}
    (hchain : reopen run key kid s.records = .ok chain) : chain = s.chain := by
  by_cases hlength : s.records.length ≤ maxSafeInteger
  · have hsame := (h.reopen_eq hlength).symm.trans hchain
    exact (Except.ok.inj hsame).symm
  · have hne : s.records ≠ [] := by
      rintro hnil
      rw [hnil] at hlength
      exact hlength (Nat.zero_le _)
    have hlast := getLast?_eq_some_getLast hne
    have hseq := h.seq_last hlast
    rw [reopen, hlast] at hchain
    simp only [resumeChain, seq_eq_ok, throwUnless_eq_ok, decide_eq_true_eq] at hchain
    have hsmall := hchain.1
    omega

theorem Faithful.step_resume (h : Faithful run key kid s) : s.step run key kid .resume = s := by
  rw [ChainRun.step]
  split
  · next chain hchain => rw [h.eq_of_reopen hchain]
  · rfl

theorem Faithful.step (hp : p.Documented) (h : Faithful run key kid s) {op : ChainOp}
    (hop : op.OfRun run) : Faithful run key kid (s.step run key kid op) := by
  cases op with
  | append input receiptId random =>
    rw [ChainRun.step]
    split
    · next record chain happend => exact h.append hp hop happend
    · next e chain happend =>
      rw [append_error happend]
      exact h
  | resume =>
    rw [h.step_resume]
    exact h

end

theorem Faithful.after (hp : p.Documented) {ops : List ChainOp} (hops : ∀ op ∈ ops, op.OfRun run) :
    Faithful run key kid (ChainRun.after run key kid ops) := by
  have hrun : ∀ s : ChainRun p, Faithful run key kid s →
      Faithful run key kid (ops.foldl (ChainRun.step run key kid) s) := by
    induction ops with
    | nil => exact fun s hs => hs
    | cons op ops ih =>
      intro s hs
      rw [forall_mem_cons] at hops
      exact ih hops.2 _ (hs.step hp hops.1)
  exact hrun _ ⟨trivial, rfl, rfl⟩

end ArdurBot.Evidence
