import ArdurBot.Evidence.Accept
import ArdurBot.Evidence.Stable
import ArdurBot.Lib.HashChain

/-!
# What the builder emits

`Emitted` says what a record of a run is that `append` returned: its claims, its place in the run,
its parent and its signature. The rest of the development looks at `append` through `emitted_append`
only.
-/

namespace ArdurBot.Evidence

open List Utf16 Json HashChain
open Checked (bind_eq_ok)

variable {p : Platform}

/-- A record that the run's builder emitted at this step, after the record `previous`. -/
structure Emitted (p : Platform) (key : p.Key) (kid : Text) (run : ReceiptRunIdentity)
  (previous : Option Text)
    (step : ℕ) (jws : Text) (claims : JsValue) : Prop where
  keyed : claims.WellKeyed
  valid : validateReceiptClaims p claims = .ok ()
  parent : parentMatches claims (previous.map (sha256 p))
  identity : ∀ claim ∈ run.claims step, get claims claim.1 = .str claim.2
  named : receiptIdentity run step = .ok (run.claims step)
  safe : step ≤ maxSafeInteger
  signed : Signed p claims key kid receiptTyp jws

/-- The records of a run, each emitted after the one before it. -/
abbrev EmittedFrom (p : Platform) (key : p.Key) (kid : Text) (run : ReceiptRunIdentity) :
    Option Text → ℕ → List Text → Prop :=
  ChainedFrom fun previous step jws => ∃ claims, Emitted p key kid run previous step jws claims

theorem keys_filterMap_sublist (value : Text → Option JsValue) (table : List Text) :
    (keys (table.filterMap fun key => (value key).map fun v => (key, v))).Sublist table := by
  induction table with
  | nil => exact .slnil
  | cons key table ih =>
    cases hvalue : value key with
    | none =>
      rw [filterMap_cons_none (by simp [hvalue])]
      exact ih.cons key
    | some v =>
      rw [filterMap_cons_some (by simp [hvalue]; rfl), Json.keys_cons]
      exact ih.cons_cons key

theorem wellKeyed_of_mem_optionalClaims {optional : List (Text × JsData)} {field : Text × JsValue}
    (h : field ∈ optionalClaims optional) : field.2.WellKeyed := by
  obtain ⟨key, -, hvalue⟩ := mem_filterMap.mp h
  obtain ⟨value, hget, rfl⟩ := Option.map_eq_some_iff.mp hvalue
  obtain ⟨entry, hfind, rfl⟩ := Option.map_eq_some_iff.mp hget
  obtain ⟨data, -, rfl⟩ := mem_map.mp (mem_of_find?_eq_some hfind)
  exact data.2.property

theorem wellKeyed_textOrNull (text : Option Text) : (textOrNull text).WellKeyed := by
  cases text <;> trivial

section Claims

variable {input : ReceiptInput} {step iat : ℕ} {receiptId argumentsHash invocationDigest : Text}
  {parentHash : Option Text}

theorem nodup_claims :
    (keys (requiredClaims input (input.claims step) receiptId parentHash argumentsHash invocationDigest iat ++
      optionalClaims input.optional)).Nodup := by
  have hkeys : keys (requiredClaims input (input.claims step) receiptId parentHash argumentsHash
      invocationDigest iat) = [lit "grant_id", lit "trace_id", lit "run_nonce", lit "actor",
        lit "verifier_id", lit "iss", lit "step_id", lit "schema_version", lit "canonicalization",
        lit "receipt_kind", lit "receipt_id", lit "parent_receipt_hash", lit "parent_receipt_id",
        lit "tool", lit "action_class", lit "side_effect_class", lit "target", lit "resource_family",
        lit "verdict", lit "evidence_level", lit "reason", lit "policy_decisions", lit "arguments_hash",
        lit "invocation_digest", lit "budget_remaining", lit "timestamp", lit "iat", lit "exp",
        lit "jti"] := rfl
  rw [Json.keys_append, hkeys]
  refine List.Nodup.sublist (List.Sublist.append_left (keys_filterMap_sublist _ _) _) ?_
  unfold receiptOptionalClaims
  repeat rw [lit_ofList]
  decide +kernel

theorem wellKeyed_claims :
    (JsValue.obj (requiredClaims input (input.claims step) receiptId parentHash argumentsHash
      invocationDigest iat ++ optionalClaims input.optional)).WellKeyed := by
  refine ⟨nodup_claims, allFields_iff.mpr fun field hmem => ?_⟩
  obtain hmem | hmem := mem_append.mp hmem
  · have hparent := wellKeyed_textOrNull parentHash
    have hparentId := wellKeyed_textOrNull (parentHash.map (·.take 16))
    have hdigest : (JsValue.obj [(lit "alg", .str (lit "sha-256")),
        (lit "canonicalization", .str (lit "jcs-rfc8785")), (lit "scope", .str (lit "normalized_input")),
        (lit "value", .str invocationDigest)]).WellKeyed :=
      ⟨(by decide : [lit "alg", lit "canonicalization", lit "scope", lit "value"].Nodup),
        trivial, trivial, trivial, trivial, trivial⟩
    have hall : AllFields (fun _ => True) True (requiredClaims input (input.claims step) receiptId parentHash
        argumentsHash invocationDigest iat) :=
      ⟨trivial, trivial, trivial, trivial, trivial, trivial, trivial, trivial, trivial, trivial, trivial,
        hparent, hparentId, trivial, trivial, trivial, trivial, trivial, trivial, trivial, trivial,
        input.policyDecisions.property, trivial, hdigest, input.budgetRemaining.property, trivial, trivial,
        trivial, trivial, trivial⟩
    exact allFields_iff.mp hall field hmem
  · exact wellKeyed_of_mem_optionalClaims hmem

theorem get_of_mem_identity :
    ∀ claim ∈ input.claims step, get (.obj (requiredClaims input (input.claims step) receiptId parentHash
      argumentsHash invocationDigest iat ++ optionalClaims input.optional)) claim.1 = .str claim.2 := by
  intro claim hmem
  simp only [ReceiptRunIdentity.claims, mem_cons, not_mem_nil, or_false] at hmem
  obtain rfl | rfl | rfl | rfl | rfl | rfl | rfl := hmem
  · rfl
  · rfl
  · rfl
  · rfl
  · rfl
  · rfl
  · rfl

end Claims

theorem isTextOrNull_textOrNull (text : Option Text) : isTextOrNull (textOrNull text) text := by
  cases text <;> simp [textOrNull, isTextOrNull, isText, stringIs, asString, isNull]

theorem receiptIdentity_eq_ok {run : ReceiptRunIdentity} {step : ℕ} {identity : List (Text × Text)}
    (h : receiptIdentity run step = .ok identity) :
    identity = run.claims step ∧ isNonemptyText run.runId ∧ isNonemptyText run.spaceId := by
  simp only [receiptIdentity, seq_eq_ok, requireClaim_eq_ok, pure, Except.pure, Except.ok.injEq] at h
  exact ⟨h.2.2.symm, h.1, h.2.1⟩

theorem buildReceiptClaims_eq_ok {input : ReceiptInput} {step : ℕ} {receiptId : Text} {previous : Option Text}
    {claims : JsValue} (h : buildReceiptClaims p input step receiptId previous = .ok claims) :
    receiptIdentity input.toReceiptRunIdentity step = .ok (input.claims step) ∧ step ≤ maxSafeInteger ∧
      validateReceiptClaims p claims = .ok () ∧
      ∃ argumentsHash invocationDigest iat, claims = .obj (requiredClaims input (input.claims step) receiptId
        (previous.map (sha256 p)) argumentsHash invocationDigest iat ++ optionalClaims input.optional) := by
  simp only [buildReceiptClaims, bind_eq_ok, requireClaim_eq_ok, decide_eq_true_eq] at h
  obtain ⟨identity, hidentity, -, hsafe, iat, -, args, -, invocation, -, ⟨⟩, hvalid, hclaims⟩ := h
  obtain ⟨rfl, -⟩ := receiptIdentity_eq_ok hidentity
  have heq := Except.ok.inj hclaims
  rw [heq] at hvalid
  exact ⟨hidentity, hsafe, hvalid, _, _, _, heq.symm⟩

variable {chain chain' : EvidenceChain p} {random : ℕ}

/-- **What append returns is emitted**, and the chain then stands after it. -/
theorem emitted_append (hp : p.Documented) {input : ReceiptInput} {receiptId : Text}
    {record : ChainRecord} (h : chain.append input receiptId random = (.ok record, chain')) :
    (∃ claims, Emitted p chain.key chain.kid input.toReceiptRunIdentity chain.previousJws chain.nextStep
      record.jws claims) ∧ record.seq = chain.nextStep ∧
      chain' = { chain with previousJws := some record.jws, nextStep := chain.nextStep + 1 } := by
  rw [EvidenceChain.append] at h
  split at h
  · simp at h
  · next made hmade =>
    obtain ⟨hrecord, rfl⟩ := Prod.mk.inj h
    cases Except.ok.inj hrecord
    simp only [bind_eq_ok, pure, Except.pure, Except.ok.injEq] at hmade
    obtain ⟨claims, hbuild, jws, hsign, rfl⟩ := hmade
    obtain ⟨hnamed, hsafe, hvalid, argumentsHash, invocationDigest, iat, rfl⟩ :=
      buildReceiptClaims_eq_ok hbuild
    simp only [signReceipt, seq_eq_ok] at hsign
    refine ⟨⟨_, wellKeyed_claims, hvalid, ?_, ?_, hnamed, hsafe,
      signed_signCompact hp wellKeyed_claims hsign.2.2⟩, rfl, rfl⟩
    · rw [parentMatches, Bool.and_eq_true]
      exact ⟨isTextOrNull_textOrNull _, isTextOrNull_textOrNull _⟩
    · exact get_of_mem_identity

theorem append_error {input : ReceiptInput} {receiptId : Text} {e : Thrown}
    (h : chain.append input receiptId random = (.error e, chain')) : chain' = chain := by
  rw [EvidenceChain.append] at h
  split at h
  · exact (Prod.mk.inj h).2.symm
  · simp at h

end ArdurBot.Evidence
