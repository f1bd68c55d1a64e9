import ArdurBot.Evidence.Completeness

/-!
# A chain that is built can be sealed

`sealRun` accepts the records of a run and the verifier accepts its seal.
-/

namespace ArdurBot.Evidence

open List Utf16 Json Sorted HashChain
open Checked (bind_eq_ok)

variable {p : Platform} {key : p.Key} {kid : Text} {run : ReceiptRunIdentity}

variable {iat n random step : ℕ} {jti lastJws receiptId sealJwt text : Text} {claims v : JsValue}
  {input : SealRunInput} {receipts : List JsValue} {previous : Option Text} {records : List Text}
  {decoded : Decoded}

theorem natOf_natValue (h : n ≤ maxSafeInteger) : natOf (natValue n) = some n := by
  have hlt : n < 2 ^ 53 := by
    rw [maxSafeInteger] at h
    omega
  have hsafe : isSafeInteger (.finite ⟨n, roundNearest_natCast hlt⟩) := by
    simp [isSafeInteger, h]
  rw [natValue, ofNat_eq hlt, natOf, hsafe]
  simp

theorem canonicalize_natValue (h : n ≤ maxSafeInteger) : ∃ t, canonicalize (natValue n) = .ok t := by
  have hlt : n < 2 ^ 53 := by
    rw [maxSafeInteger] at h
    omega
  have hsafe : isSafeInteger (.finite ⟨n, roundNearest_natCast hlt⟩) := by
    simp [isSafeInteger, h]
  rw [natValue, ofNat_eq hlt, canonicalize, encode, encodeNumber, hsafe]
  simp [isFinite]

theorem canonicalize_str : (∃ t, canonicalize (.str text) = .ok t) ↔ WellFormed text := by
  rw [canonicalize, encode, serializeString, WellFormed]
  by_cases h : wellFormed text <;> simp [h]

theorem mapM_encodeEntry {l : List (Text × Except Text Text)} :
    (∃ ts, l.mapM encodeEntry = .ok ts) ↔ ∀ entry ∈ l, ∃ t, encodeEntry entry = .ok t := by
  induction l with
  | nil => simp [pure, Except.pure]
  | cons entry l ih =>
    rw [forall_mem_cons, ← ih, mapM_cons]
    cases hentry : encodeEntry entry with
    | error e => simp [bind, Except.bind]
    | ok t =>
      cases l.mapM encodeEntry with
      | error e => simp [bind, Except.bind]
      | ok ts => simp [bind, Except.bind, pure, Except.pure]

theorem canonicalize_obj {fields : Fields} : (∃ t, canonicalize (.obj fields) = .ok t) ↔
      ∀ field ∈ fields, WellFormed field.1 ∧ ∃ t, canonicalize field.2 = .ok t := by
  have hsort : (∃ t, canonicalize (.obj fields) = .ok t) ↔
      ∃ ts, (sortByKey Prod.fst (encodeFields fields)).mapM encodeEntry = .ok ts := by
    rw [canonicalize, encode]
    cases (sortByKey Prod.fst (encodeFields fields)).mapM encodeEntry <;> simp
  rw [hsort, mapM_encodeEntry, encodeFields_eq]
  constructor
  · intro h field hmem
    obtain ⟨t, ht⟩ := h (field.1, encode field.2)
      ((sortByKey_perm _ _).mem_iff.mpr (mem_map.mpr ⟨field, hmem, rfl⟩))
    obtain ⟨hkey, value, hvalue, -⟩ := encodeEntry_eq_ok.mp ht
    exact ⟨hkey, value, hvalue⟩
  · intro h entry hentry
    obtain ⟨field, hmem, rfl⟩ := mem_map.mp ((sortByKey_perm _ _).mem_iff.mp hentry)
    obtain ⟨hkey, value, hvalue⟩ := h field hmem
    exact ⟨_, encodeEntry_eq_ok.mpr ⟨hkey, value, hvalue, rfl⟩⟩

theorem canonicalize_header {kid typ : Text} :
    (∃ t, canonicalize (header kid typ) = .ok t) ↔ WellFormed kid ∧ WellFormed typ := by
  have halg : WellFormed (lit "alg") ∧ WellFormed (lit "ES256") := by decide
  have hkid : WellFormed (lit "kid") := by decide
  have htyp : WellFormed (lit "typ") := by decide
  rw [header, canonicalize_obj]
  simp only [forall_mem_cons, canonicalize_str]
  exact ⟨fun h => ⟨h.2.1.2, h.2.2.1.2⟩, fun h => ⟨halg, ⟨hkid, h.1⟩, ⟨htyp, h.2⟩, by simp⟩⟩

/-! ### The claims of a seal -/

/-- A text that may stand for a name in a seal. -/
def IsName (text : Text) : Prop := isNonemptyText text ∧ WellFormed text

theorem exists_str_of_isNonemptyString (h : isNonemptyString v) :
    ∃ text, v = .str text ∧ isNonemptyText text := by
  cases v with
  | str text => exact ⟨text, rfl, by simpa [isNonemptyString, stringIs, asString] using h⟩
  | _ => simp [isNonemptyString, stringIs, asString] at h

theorem exists_isName_of_valid (hkeyed : claims.WellKeyed)
    (h : validateReceiptClaims p claims = .ok ()) {claim : Text} (hmem : claim ∈ nonemptyClaims) :
    ∃ text, get claims claim = .str text ∧ IsName text := by
  simp only [validateReceiptClaims, seq_eq_ok, requireEach, forM_eq_ok, requireClaim_eq_ok] at h
  obtain ⟨text, htext, hnonempty⟩ := exists_str_of_isNonemptyString (h.2.2.2.2.1 claim hmem)
  have hfield : getField (entries claims) claim = some (.str text) := by
    rw [get] at htext
    cases hget : getField (entries claims) claim with
    | none => simp [hget, undefined] at htext
    | some value => simpa [hget] using htext
  have hentry := (getField_eq_some (nodup_keys_entries hkeyed)).mp hfield
  have hencoded := (validateNames_eq_ok.mp h.2.2.1 _ hentry).2
  exact ⟨text, htext, hnonempty, canonicalize_str.mp hencoded⟩

theorem isHash_sha256 (hp : p.Documented) (text : Text) : isHash (sha256 p text) := by
  have hlength : ∀ bytes : Bytes, (hex bytes).length = 2 * bytes.length := by
    intro bytes
    induction bytes with
    | nil => rfl
    | cons b bytes ih =>
      rw [hex, flatMap_cons, length_append, ← hex, ih, length_cons, length_cons, length_cons, length_nil]
      omega
  have hdigit : ∀ n < 16, (unit 'a' ≤ hexDigit n && hexDigit n ≤ unit 'f' || isDigit (hexDigit n)) := by
    decide
  rw [isHash, sha256, hlength, hp.length_digest, Bool.and_eq_true, all_eq_true]
  refine ⟨by decide, fun u hu => ?_⟩
  obtain ⟨b, -, hb⟩ := mem_flatMap.mp hu
  have hlt := b.toNat_lt
  simp only [mem_cons, not_mem_nil, or_false] at hb
  obtain rfl | rfl := hb
  · exact hdigit _ (by omega)
  · exact hdigit _ (by omega)

theorem wellFormed_sha256 (hp : p.Documented) (text : Text) : WellFormed (sha256 p text) := by
  have h := isHash_sha256 hp text
  rw [isHash, Bool.and_eq_true, all_eq_true] at h
  have hf : (unit 'f').toNat = 102 := rfl
  have h9 : (unit '9').toNat = 57 := rfl
  refine wellFormed_of_not_surrogate fun u hu => not_surrogate_of_lt ?_
  have hunit := h.2 u hu
  simp only [Bool.or_eq_true, Bool.and_eq_true, decide_eq_true_eq, isDigit, UInt16.le_iff_toNat_le,
    hf, h9] at hunit
  omega

/-- What `sealRun` puts into a seal, where the checks of the seal look at it. -/
structure Sealable (input : SealRunInput) (jti : Text) (receipts : List JsValue) (iat : ℕ) :
  Prop where
  iss : IsName input.iss
  sub : IsName input.actor
  passport : IsName input.grantId
  jti : IsName jti
  count : receipts.length ≤ maxSafeInteger
  iat : iat ≤ maxEpochSeconds

theorem wellKeyed_sealClaims (input : SealRunInput) (jti receiptId : Text) (receipts : List JsValue)
    (lastJws : Text) (iat : ℕ) :
    (sealClaims p input jti receipts (.str receiptId) lastJws iat).WellKeyed := by
  have hhead : (JsValue.obj [(lit "hash_algorithm", .str (lit "sha-256")), (lit "receipt_id", .str receiptId),
      (lit "receipt_jwt_sha256", .str (sha256 p lastJws))]).WellKeyed :=
    ⟨(by decide : [lit "hash_algorithm", lit "receipt_id", lit "receipt_jwt_sha256"].Nodup), trivial, trivial,
      trivial, trivial⟩
  exact ⟨(by decide +kernel : sealRequiredClaims.Nodup), trivial, trivial, trivial, trivial, trivial, trivial,
    trivial, trivial, trivial, hhead, trivial, trivial, trivial, trivial⟩

theorem canonicalize_sealClaims (hp : p.Documented) (h : Sealable input jti receipts iat)
    (hreceipt : IsName receiptId) (lastJws : Text) :
    ∃ text, canonicalize (sealClaims p input jti receipts (.str receiptId) lastJws iat) = .ok text := by
  have hmax : maxSafeInteger = 9007199254740991 := rfl
  have hlife : sealLifetimeSeconds = 7776000 := rfl
  have hepoch : maxEpochSeconds = 253402300799 := rfl
  have hiat := h.iat
  have hcount := h.count
  have hpermits : (receipts.filter isCompliant).length ≤ receipts.length := length_filter_le _ _
  have hkeys : ∀ key ∈ sealRequiredClaims ++ [lit "hash_algorithm", lit "receipt_id",
      lit "receipt_jwt_sha256"], WellFormed key := by
    unfold sealRequiredClaims
    repeat rw [lit_ofList]
    decide +kernel
  simp only [WellFormed, sealRequiredClaims, cons_append, nil_append, forall_mem_cons] at hkeys
  have hhead : ∃ text, canonicalize (.obj [(lit "hash_algorithm", .str (lit "sha-256")),
      (lit "receipt_id", .str receiptId), (lit "receipt_jwt_sha256", .str (sha256 p lastJws))]) = .ok text := by
    rw [canonicalize_obj]
    simp only [WellFormed, forall_mem_cons, canonicalize_str, hkeys, true_and]
    exact ⟨by decide, hreceipt.2, wellFormed_sha256 hp lastJws, by simp⟩
  rw [sealClaims, canonicalize_obj]
  simp only [WellFormed, forall_mem_cons, canonicalize_str, hkeys, true_and]
  exact ⟨by decide, by decide, h.iss.2, h.sub.2, by decide, canonicalize_natValue (by omega),
    canonicalize_natValue (by omega), h.jti.2, h.passport.2, hhead, canonicalize_natValue hcount,
    canonicalize_natValue (by omega), canonicalize_natValue (by omega), by simp⟩

/-- What a checker reads in the claims of a seal. -/
structure SealFields (p : Platform) (input : SealRunInput) (id : Text) (receipts : List JsValue)
    (receiptId : JsValue) (lastJws : Text) (seconds : ℕ) (claims : JsValue) : Prop where
  object : isObject claims
  keys : ownKeys claims = sealRequiredClaims
  schemaVersion : get claims (lit "schema_version") = .str (lit "ardur.behavioral_attestation.v0.2")
  type : get claims (lit "type") = .str (lit "behavioral_attestation")
  iss : get claims (lit "iss") = .str input.iss
  sub : get claims (lit "sub") = .str input.actor
  aud : get claims (lit "aud") = .str (lit "vibap-attestation-verifier")
  iat : get claims (lit "iat") = natValue seconds
  exp : get claims (lit "exp") = natValue (seconds + sealLifetimeSeconds)
  jti : get claims (lit "jti") = .str id
  passport : get claims (lit "passport_jti") = .str input.grantId
  head : get claims (lit "receipt_chain_head") = .obj [(lit "hash_algorithm", .str (lit "sha-256")),
    (lit "receipt_id", receiptId), (lit "receipt_jwt_sha256", .str (sha256 p lastJws))]
  totalEvents : get claims (lit "total_events") = natValue receipts.length
  permits : get claims (lit "permits") = natValue (receipts.filter isCompliant).length
  denials : get claims (lit "denials") = natValue (receipts.length - (receipts.filter isCompliant).length)

theorem get_sealClaims (p : Platform) (input : SealRunInput) (jti : Text) (receipts : List JsValue)
    (receiptId : JsValue) (lastJws : Text) (iat : ℕ) :
    SealFields p input jti receipts receiptId lastJws iat
      (sealClaims p input jti receipts receiptId lastJws iat) :=
  ⟨rfl, rfl, rfl, rfl, rfl, rfl, rfl, rfl, rfl, rfl, rfl, rfl, rfl, rfl, rfl⟩

theorem chainHeadOk_head (hp : p.Documented) (hreceipt : IsName receiptId) (lastJws : Text) :
    chainHeadOk (.obj [(lit "hash_algorithm", .str (lit "sha-256")), (lit "receipt_id", .str receiptId),
      (lit "receipt_jwt_sha256", .str (sha256 p lastJws))]) := by
  have hhead : chainHeadOk (.obj [(lit "hash_algorithm", .str (lit "sha-256")),
      (lit "receipt_id", .str receiptId), (lit "receipt_jwt_sha256", .str (sha256 p lastJws))]) =
        (isNonemptyText receiptId && isHash (sha256 p lastJws)) := rfl
  rw [hhead, hreceipt.1, isHash_sha256 hp]
  rfl

/-- For any lifetime, since the kernel would count this one down. -/
theorem expires_after (issuedAt lifetime : ℕ) : ((some (issuedAt + lifetime)).any fun exp =>
      (some issuedAt).any fun iat => exp = iat + lifetime) = true := by
  simp

theorem validateSealClaims_sealClaims (hp : p.Documented) (h : Sealable input jti receipts iat)
    (hreceipt : IsName receiptId) (lastJws : Text) :
    validateSealClaims (sealClaims p input jti receipts (.str receiptId) lastJws iat) = .ok () := by
  have hmax : maxSafeInteger = 9007199254740991 := rfl
  have hlife : sealLifetimeSeconds = 7776000 := rfl
  have hepoch : maxEpochSeconds = 253402300799 := rfl
  have hiat := h.iat
  have hcount := h.count
  have hpermits : (receipts.filter isCompliant).length ≤ receipts.length := length_filter_le _ _
  have hiatValue : natOf (natValue iat) = some iat := natOf_natValue (by omega)
  have hexpValue : natOf (natValue (iat + sealLifetimeSeconds)) = some (iat + sealLifetimeSeconds) :=
    natOf_natValue (by omega)
  have htotalValue : natOf (natValue receipts.length) = some receipts.length := natOf_natValue hcount
  have hpermitsValue : natOf (natValue (receipts.filter isCompliant).length) =
      some (receipts.filter isCompliant).length := natOf_natValue (by omega)
  have hdenialsValue : natOf (natValue (receipts.length - (receipts.filter isCompliant).length)) =
      some (receipts.length - (receipts.filter isCompliant).length) := natOf_natValue (by omega)
  obtain ⟨text, htext⟩ := canonicalize_sealClaims hp h hreceipt lastJws
  have hencoded : canonicalizeOrThrow (sealClaims p input jti receipts (.str receiptId) lastJws iat) = .ok text :=
    canonicalizeOrThrow_eq_ok.mpr htext
  have hchain := chainHeadOk_head hp hreceipt lastJws
  have hget := get_sealClaims p input jti receipts (.str receiptId) lastJws iat
  generalize sealClaims p input jti receipts (.str receiptId) lastJws iat = claims at hencoded hget
  simp only [validateSealClaims, seq_eq_ok, requireClaim_eq_ok, requireEach, forM_eq_ok]
  have hkeys : ((ownKeys claims).length = sealRequiredClaims.length &&
      sealRequiredClaims.all (hasOwn claims)) := by
    simp [hasOwn, hget.keys]
  refine ⟨hget.object, hkeys, ?_, ?_, ?_, ?_, ?_, ?_, ?_, ?_, ?_, ?_⟩
  · simp [hget.schemaVersion, isText, stringIs, asString]
  · simp [hget.type, isText, stringIs, asString]
  · simp [hget.aud, isText, stringIs, asString]
  · intro claim hmem
    simp only [mem_cons, not_mem_nil, or_false] at hmem
    obtain rfl | rfl | rfl | rfl := hmem
    · rw [hget.iss]
      exact h.iss.1
    · rw [hget.sub]
      exact h.sub.1
    · rw [hget.jti]
      exact h.jti.1
    · rw [hget.passport]
      exact h.passport.1
  · rw [hget.iat, isNonnegativeInteger, hiatValue]
    rfl
  · simp only [hget.exp, hget.iat, hexpValue, hiatValue]
    exact expires_after iat sealLifetimeSeconds
  · intro claim hmem
    simp only [mem_cons, not_mem_nil, or_false] at hmem
    obtain rfl | rfl | rfl := hmem
    · rw [hget.totalEvents, isNonnegativeInteger, htotalValue]
      rfl
    · rw [hget.permits, isNonnegativeInteger, hpermitsValue]
      rfl
    · rw [hget.denials, isNonnegativeInteger, hdenialsValue]
      rfl
  · rw [hget.permits, hget.denials, hget.totalEvents, hpermitsValue, hdenialsValue, htotalValue]
    simp
    omega
  · rw [hget.head]
    exact hchain
  · rw [hencoded]
    rfl

theorem payloads_append (a b : List Text) : payloads (a ++ b) = payloads a ++ payloads b := by
  rw [payloads, payloads, payloads, filterMap_append]

theorem Emitted.payloads_eq {jws : Text} (h : Emitted p key kid run previous step jws claims) :
    payloads [jws] = [canonical claims] := by
  obtain ⟨decoded, hdecoded, hpayload⟩ := decodeCompact_signed h.signed
  simp [payloads, hdecoded, hpayload, Except.toOption]

theorem payloads_of_emittedFrom (h : EmittedFrom p key kid run previous step records) :
    (payloads records).length = records.length ∧ ∀ receipt ∈ payloads records,
      ∃ previous step jws claims, Emitted p key kid run previous step jws claims ∧ receipt = canonical claims := by
  induction records generalizing previous step with
  | nil => exact ⟨rfl, by simp [payloads]⟩
  | cons jws rest ih =>
    obtain ⟨⟨claims, hemitted⟩, hrest⟩ := h
    obtain ⟨hlength, hall⟩ := ih hrest
    have hsplit : payloads (jws :: rest) = canonical claims :: payloads rest := by
      have happend := payloads_append [jws] rest
      rwa [hemitted.payloads_eq] at happend
    rw [hsplit]
    refine ⟨by simp [hlength], ?_⟩
    intro receipt hmem
    obtain rfl | hmem := mem_cons.mp hmem
    · exact ⟨_, _, _, _, hemitted, rfl⟩
    · exact hall receipt hmem

theorem payloads_getLast? (h : EmittedFrom p key kid run previous step records)
    (hlast : records.getLast? = some lastJws) :
    ∃ previous step claims, Emitted p key kid run previous step lastJws claims ∧
      (payloads records).getLast? = some (canonical claims) := by
  obtain ⟨front, rfl⟩ := getLast?_eq_some_iff.mp hlast
  obtain ⟨-, claims, hemitted⟩ := chainedFrom_concat.mp h
  refine ⟨_, _, claims, hemitted, ?_⟩
  rw [payloads_append, hemitted.payloads_eq, getLast?_append]
  rfl

theorem Accepts.headReceiptId {options : VerificationOptions} {last index : ℕ} {s s' : ChainState}
    {publicKey : p.Key}
    (h : Accepts p publicKey options last index previous records s s')
    (hindex : index + records.length = last + 1)
    (hlast : records.getLast? = some lastJws) (hdecoded : decodeCompact lastJws = .ok decoded) :
    s'.headReceiptId = asString (get decoded.payload (lit "receipt_id")) := by
  induction h with
  | nil => simp at hlast
  | @cons index previous jws rest s s' claims hok hrun hrest ih =>
    cases rest with
    | nil =>
      cases hrest
      obtain ⟨seen, hinspect, rfl⟩ := hok.inspected
      have hjws : jws = lastJws := by simpa using hlast
      have hsame := decodeCompact_of_inspect hinspect
      rw [hjws, hdecoded] at hsame
      have hstep : index = last := by simpa using hindex
      rw [accept, if_pos hstep, Except.ok.inj hsame]
    | cons next rest =>
      refine ih ?_ ?_
      · rw [length_cons] at hindex
        omega
      · rw [getLast?_cons_cons] at hlast
        exact hlast

theorem headReceiptId_of_emittedFrom (h : EmittedFrom p key kid run none 0 records)
    (hlast : records.getLast? = some lastJws) (hdecoded : decodeCompact lastJws = .ok decoded) :
    (verifyChainContents p records (p.createPublicKey key) {}).headReceiptId =
      asString (get decoded.payload (lit "receipt_id")) := by
  have hne : records ≠ [] := by
    rintro rfl
    simp at hlast
  have hlength := length_pos_iff.mpr hne
  have hok := h.verifyChain_ok hne none
  rw [verifyChain, withSignerMatch_ok, verifyChainContents_ok] at hok
  obtain ⟨-, ⟨id, hid⟩, s, haccepts⟩ := hok
  rw [verifyChainContents, if_neg hne, hid]
  show (verifyRecords p _ {} _ 0 none records {}).headReceiptId = _
  rw [verifyRecords_of_accepts haccepts]
  exact haccepts.headReceiptId (by omega) hlast hdecoded

/-! ### Sealing -/

theorem epochSeconds_le {now : Option ℤ} (h : epochSeconds now = .ok iat) : iat ≤ maxEpochSeconds := by
  rcases now with _ | ms
  · simp [epochSeconds] at h
  rw [epochSeconds] at h
  split at h
  · next hrange =>
    cases Except.ok.inj h
    omega
  · simp at h

theorem sealRun_eq_ok (h : sealRun p input jti key random kid = .ok sealJwt) :
    ∃ last lastJws iat, (payloads input.records).getLast? = some last ∧
      input.records.getLast? = some lastJws ∧ epochSeconds input.now = .ok iat ∧
      (∀ receipt ∈ payloads input.records, isText (get receipt (lit "actor")) input.actor ∧
        isText (get receipt (lit "grant_id")) input.grantId ∧
        isText (get receipt (lit "iss")) input.iss) ∧
      validateSealClaims (sealClaims p input jti (payloads input.records) (get last (lit "receipt_id")) lastJws
        iat) = .ok () ∧
      signCompact p (sealClaims p input jti (payloads input.records) (get last (lit "receipt_id")) lastJws iat)
        key random kid sealTyp = .ok sealJwt := by
  simp only [sealRun, seq_eq_ok, throwUnless_eq_ok, requireClaim_eq_ok, all_eq_true, Bool.and_eq_true] at h
  obtain ⟨-, -, hidentity, h⟩ := h
  split at h
  · next last lastJws hlast hlastJws =>
    simp only [bind_eq_ok] at h
    obtain ⟨iat, hiat, ⟨⟩, hvalid, hsign⟩ := h
    exact ⟨last, lastJws, iat, hlast, hlastJws, hiat,
      fun receipt hmem => ⟨(hidentity receipt hmem).1.1, (hidentity receipt hmem).1.2,
        (hidentity receipt hmem).2⟩, hvalid, hsign⟩
  · simp at h

theorem isText_str (text : Text) : isText (.str text) text := by
  simp [isText, stringIs, asString]

theorem eq_str_of_isText (h : isText v text) : v = .str text := by
  cases v with
  | str s =>
    have hs : s = text := by simpa [isText, stringIs, asString] using h
    rw [hs]
  | _ => simp [isText, stringIs, asString] at h

theorem sealMatches_of_fields {receiptId : JsValue} (hkeyed : claims.WellKeyed)
    (h : SealFields p input jti receipts receiptId lastJws iat claims)
    (hcount : receipts.length ≤ maxSafeInteger)
    (hidentity : ∀ receipt ∈ receipts, isText (get receipt (lit "actor")) input.actor ∧
      isText (get receipt (lit "grant_id")) input.grantId ∧
      isText (get receipt (lit "iss")) input.iss) :
    sealMatches (canonical claims) receipts := by
  have hpermits : (receipts.filter isCompliant).length ≤ receipts.length := length_filter_le _ _
  have hall : receipts.all (fun receipt =>
      sameString (get receipt (lit "actor")) (get (canonical claims) (lit "sub")) &&
        sameString (get receipt (lit "grant_id")) (get (canonical claims) (lit "passport_jti")) &&
        sameString (get receipt (lit "iss")) (get (canonical claims) (lit "iss"))) := by
    rw [all_eq_true]
    intro receipt hmem
    obtain ⟨hactor, hgrant, hiss⟩ := hidentity receipt hmem
    rw [get_canonical hkeyed, get_canonical hkeyed, get_canonical hkeyed, h.sub, h.passport, h.iss,
      eq_str_of_isText hactor, eq_str_of_isText hgrant, eq_str_of_isText hiss]
    simp [sameString, asString, canonical, isText_str]
  rw [sealMatches, hall, get_canonical hkeyed, get_canonical hkeyed, get_canonical hkeyed, natOf_canonical,
    natOf_canonical, natOf_canonical, h.totalEvents, h.permits, h.denials, natOf_natValue hcount,
    natOf_natValue (hpermits.trans hcount), natOf_natValue ((Nat.sub_le _ _).trans hcount)]
  simp

/-- **The seal of a chain that was built verifies with it.** -/
theorem EmittedFrom.verifySeal_ok (hp : p.Documented) (h : EmittedFrom p key kid run none 0 records)
    (hlength : records.length ≤ maxSafeInteger) (hrecords : input.records = records)
    (hseal : sealRun p input jti key random kid = .ok sealJwt) (fingerprint : Option Text) :
    (verifySeal p sealJwt records (p.createPublicKey key) fingerprint {}).ok := by
  obtain ⟨last, lastJws, iat, hlast, hlastJws, hiat, hidentity, hvalid, hsign⟩ := sealRun_eq_ok hseal
  rw [hrecords] at hlast hlastJws hidentity hvalid hsign
  have hne : records ≠ [] := by
    rintro rfl
    simp at hlastJws
  obtain ⟨previous, step, claims, hemitted, hpayload⟩ := payloads_getLast? h hlastJws
  obtain ⟨receiptId, hreceiptId, hname⟩ :=
    exists_isName_of_valid hemitted.keyed hemitted.valid (by decide : lit "receipt_id" ∈ nonemptyClaims)
  have hlastId : get last (lit "receipt_id") = .str receiptId := by
    rw [hlast, Option.some.injEq] at hpayload
    rw [hpayload, get_canonical hemitted.keyed, hreceiptId]
    rfl
  rw [hlastId] at hvalid hsign
  have hkeyed := wellKeyed_sealClaims (p := p) input jti receiptId (payloads records) lastJws iat
  have hfields := get_sealClaims p input jti (payloads records) (.str receiptId) lastJws iat
  obtain ⟨decoded, hinspect, hdecoded⟩ := inspect_signed (signed_signCompact hp hkeyed hsign)
  obtain ⟨seen, hseen, hseenPayload⟩ := decodeCompact_signed hemitted.signed
  have hcount : (payloads records).length ≤ maxSafeInteger := by
    rw [(payloads_of_emittedFrom h).1]
    exact hlength
  have hheadId := headReceiptId_of_emittedFrom h hlastJws hseen
  rw [hseenPayload, get_canonical hemitted.keyed, hreceiptId] at hheadId
  rw [verifySeal, withSignerMatch_ok, verifySealContents_ok]
  refine ⟨?_, canonical _, ⟨decoded, hinspect, hdecoded⟩, ?_, rfl, ⟨lastJws, hlastJws, ?_⟩, ?_⟩
  · have hchain := h.verifyChain_ok hne none
    rwa [verifyChain, withSignerMatch_ok] at hchain
  · exact validateSealClaims_canonical hkeyed hvalid
  · have hhead := wellKeyed_get hkeyed (lit "receipt_chain_head")
    rw [namesHead, hheadId, get_canonical hkeyed, get_canonical hhead, get_canonical hhead, isText_canonical,
      isTextOrNull_canonical, hfields.head]
    show (isText (.str (sha256 p lastJws)) (sha256 p lastJws) && isText (.str receiptId) receiptId)
    rw [isText_str, isText_str]
    rfl
  · exact sealMatches_of_fields hkeyed hfields hcount hidentity

theorem EmittedFrom.sealRun_ok (hp : p.Documented) {records : List Text}
    (h : EmittedFrom p key kid run none 0 records) (hne : records ≠ [])
    (hlength : records.length ≤ maxSafeInteger) {input : SealRunInput}
    (hrecords : input.records = records) (hactor : input.actor = (run.actor.or run.botId).getD [])
    (hgrant : input.grantId = run.grantId) (hiss : input.iss = run.verifier) {jti : Text}
    (hjti : IsName jti) {iat : ℕ} (hiat : epochSeconds input.now = .ok iat) (random : ℕ) :
    ∃ sealJwt, sealRun p input jti key random kid = .ok sealJwt := by
  have hcount : (payloads records).length ≤ maxSafeInteger := by
    rw [(payloads_of_emittedFrom h).1]
    exact hlength
  have hlastJws := getLast?_eq_some_getLast hne
  obtain ⟨previous, step, claims, hemitted, hpayload⟩ := payloads_getLast? h hlastJws
  have hname : ∀ claim ∈ nonemptyClaims, ∃ text, get (canonical claims) claim = .str text ∧ IsName text := by
    intro claim hmem
    obtain ⟨text, htext, hname⟩ := exists_isName_of_valid hemitted.keyed hemitted.valid hmem
    exact ⟨text, by rw [get_canonical hemitted.keyed, htext]; rfl, hname⟩
  have hidentity : ∀ claim text, (claim, text) ∈ run.claims step → claim ∈ nonemptyClaims → IsName text := by
    intro claim text hmem hclaim
    obtain ⟨named, hnamed, hok⟩ := hname claim hclaim
    rw [hemitted.get_eq hmem] at hnamed
    cases hnamed
    exact hok
  obtain ⟨receiptId, hreceiptId, hreceipt⟩ := hname (lit "receipt_id") (by decide)
  have hsealable : Sealable input jti (payloads records) iat := {
    iss := by
      rw [hiss]
      exact hidentity (lit "iss") _ (by simp [ReceiptRunIdentity.claims]) (by decide)
    sub := by
      rw [hactor]
      exact hidentity (lit "actor") _ (by simp [ReceiptRunIdentity.claims]) (by decide)
    passport := by
      rw [hgrant]
      exact hidentity (lit "grant_id") _ (by simp [ReceiptRunIdentity.claims]) (by decide)
    jti := hjti
    count := hcount
    iat := epochSeconds_le hiat
  }
  have hmatch : (payloads records).all (fun receipt => isText (get receipt (lit "actor")) input.actor &&
      isText (get receipt (lit "grant_id")) input.grantId && isText (get receipt (lit "iss")) input.iss) := by
    rw [all_eq_true]
    intro receipt hmem
    obtain ⟨_, step, _, claims, hrecord, rfl⟩ := (payloads_of_emittedFrom h).2 receipt hmem
    have hgetActor : get (canonical claims) (lit "actor") = .str input.actor :=
      hrecord.get_eq (by simp [ReceiptRunIdentity.claims, hactor])
    have hgetGrant : get (canonical claims) (lit "grant_id") = .str input.grantId :=
      hrecord.get_eq (by simp [ReceiptRunIdentity.claims, hgrant])
    have hgetIss : get (canonical claims) (lit "iss") = .str input.iss :=
      hrecord.get_eq (by simp [ReceiptRunIdentity.claims, hiss])
    rw [hgetActor, hgetGrant, hgetIss, isText_str, isText_str, isText_str]
    rfl
  have hvalid := validateSealClaims_sealClaims hp hsealable hreceipt (records.getLast hne)
  obtain ⟨claimsText, hclaimsText⟩ := canonicalize_sealClaims hp hsealable hreceipt (records.getLast hne)
  obtain ⟨signedHeader, -, -, hsignedHeader, -⟩ := hemitted.signed.decodes
  have hkid := (canonicalize_header.mp ⟨signedHeader, hsignedHeader.stable⟩).1
  obtain ⟨headerText, hheaderText⟩ := canonicalize_header.mpr ⟨hkid, (by decide : WellFormed sealTyp)⟩
  have hsign : ∃ sealJwt, signCompact p (sealClaims p input jti (payloads records) (.str receiptId)
      (records.getLast hne) iat) key random kid sealTyp = .ok sealJwt := by
    simp [signCompact, hemitted.signed.usable, hemitted.signed.keyId, throwUnless,
      canonicalizeOrThrow_eq_ok.mpr hheaderText, canonicalizeOrThrow_eq_ok.mpr hclaimsText, bind, Except.bind,
      pure, Except.pure]
  obtain ⟨sealJwt, hsealJwt⟩ := hsign
  refine ⟨sealJwt, ?_⟩
  simp only [sealRun, hrecords, seq_eq_ok, throwUnless_eq_ok, requireClaim_eq_ok]
  refine ⟨by simpa using hne, h.verifyChain_ok hne none, hmatch, ?_⟩
  rw [hpayload, hlastJws]
  simp only [bind_eq_ok, hreceiptId]
  exact ⟨iat, hiat, (), hvalid, hsealJwt⟩

/-! ### Completeness -/

/-- What `randomUUID` gives. -/
def isUuid (text : Text) : Bool :=
  text.length = 36 && text.all fun u => isDigit u || unit 'a' ≤ u && u ≤ unit 'f' || u = unit '-'

theorem isName_of_isUuid (h : isUuid text) : IsName text := by
  rw [isUuid, Bool.and_eq_true, all_eq_true, decide_eq_true_eq] at h
  have hf : (unit 'f').toNat = 102 := rfl
  have ha : (unit 'a').toNat = 97 := rfl
  have hunit : ∀ u ∈ text, 45 ≤ u.toNat ∧ u.toNat ≤ 102 := by
    intro u hu
    have hshape := h.2 u hu
    simp only [Bool.or_eq_true, Bool.and_eq_true, isDigit_iff, decide_eq_true_eq, UInt16.le_iff_toNat_le, ha,
      hf] at hshape
    obtain (hdigit | hletter) | rfl := hshape
    · omega
    · omega
    · decide
  have hshown : ∀ n : ℕ, n < 103 → 45 ≤ n → isWhite n.toUInt16 = false := by decide +kernel
  have hwhite : ∀ u ∈ text, isWhite u = false := by
    intro u hu
    have hu' := hshown u.toNat (Nat.lt_succ_of_le (hunit u hu).2) (hunit u hu).1
    rwa [show u.toNat.toUInt16 = u from UInt16.ofNat_toNat] at hu'
  have hdrop : ∀ l : Text, (∀ u ∈ l, isWhite u = false) → l.dropWhile isWhite = l := by
    intro l hl
    cases l with
    | nil => rfl
    | cons u l => rw [dropWhile_cons_of_neg (by simp [hl u mem_cons_self])]
  constructor
  · rw [isNonemptyText, trim, hdrop text hwhite,
      hdrop text.reverse fun u hu => hwhite u (mem_reverse.mp hu), reverse_reverse,
      decide_eq_true_eq]
    rintro rfl
    exact absurd h.1 (by decide)
  · exact wellFormed_of_not_surrogate fun u hu =>
      not_surrogate_of_lt ((Nat.lt_succ_of_le (hunit u hu).2).trans (by norm_num))

/-- **A chain that is built verifies, and so does its seal.** The receipts are of one run, in any
number that an array can hold, and the chain may be resumed at any time and any append may throw. -/
theorem chain_verifies (hp : p.Documented) (run : ReceiptRunIdentity) (key : p.Key) (kid : Text)
    {ops : List ChainOp} (hops : ∀ op ∈ ops, op.OfRun run) {s : ChainRun p}
    (hafter : s = ChainRun.after run key kid ops) (hlength : s.records.length < 2 ^ 32)
    (fingerprint : Option Text) :
    reopen run key kid s.records = .ok s.chain ∧
    (s.records ≠ [] → (verifyChain p s.jwsList (p.createPublicKey key) fingerprint {}).ok = true) ∧
    (∀ input jti random sealJwt, input.records = s.jwsList →
      sealRun p input jti key random kid = .ok sealJwt →
        (verifySeal p sealJwt s.jwsList (p.createPublicKey key) fingerprint {}).ok = true) ∧
    (s.records ≠ [] → ∀ now iat jti random, epochSeconds now = .ok iat → isUuid jti = true →
      ∃ sealJwt, sealRun p {
        records := s.jwsList
        actor := (run.actor.or run.botId).getD []
        grantId := run.grantId
        iss := run.verifier
        now } jti key random kid = .ok sealJwt) ∧
    ∀ input receiptId random e chain, s.chain.append input receiptId random = (.error e, chain) →
      chain.previousJws = s.chain.previousJws ∧ chain.nextStep = s.chain.nextStep := by
  have hs : Faithful run key kid s := by
    rw [hafter]
    exact Faithful.after hp hops
  have hsafe : s.records.length ≤ maxSafeInteger := by
    have hmax : maxSafeInteger = 9007199254740991 := rfl
    omega
  have hjws : s.jwsList.length ≤ maxSafeInteger := by
    rw [ChainRun.jwsList, length_map]
    exact hsafe
  have hne : s.records ≠ [] → s.jwsList ≠ [] := fun h hnil => h (map_eq_nil_iff.mp hnil)
  refine ⟨hs.reopen_eq hsafe, ?_, ?_, ?_, ?_⟩
  · exact fun hrecords => hs.emitted.verifyChain_ok (hne hrecords) fingerprint
  · exact fun input jti random sealJwt hinput hseal => hs.emitted.verifySeal_ok hp hjws hinput hseal fingerprint
  · exact fun hrecords now iat jti random hiat hjti =>
      hs.emitted.sealRun_ok hp (hne hrecords) hjws rfl rfl rfl rfl (isName_of_isUuid hjti) hiat random
  · intro input receiptId random e chain herror
    rw [append_error herror]
    exact ⟨rfl, rfl⟩

section

variable {input : ReceiptInput} {receiptId : Text} {chain : EvidenceChain p} {m n random : ℕ}

theorem isAscii_encode (bytes : Bytes) : IsAscii (Base64url.encode bytes) :=
  fun _ hu => Base64url.toNat_lt_of_isLetter (Base64url.isLetter_of_mem_encode hu)

/-- A record is as long as its header and its claims make it. -/
theorem append_of_lengths (hp : p.Documented)
    (hsome : ((buildReceiptClaims p input chain.nextStep receiptId chain.previousJws).bind fun claims =>
      signReceipt p claims chain.key random chain.kid).toOption.isSome)
    (hheader : (canonicalizeOrThrow (header chain.kid receiptTyp)).toOption.map (fun t => (utf8 t).length) = some m)
    (hclaims : ((buildReceiptClaims p input chain.nextStep receiptId chain.previousJws).bind
      canonicalizeOrThrow).toOption.map (fun t => (utf8 t).length) = some n) :
    ∃ record, chain.append input receiptId random =
        (.ok record, { chain with previousJws := some record.jws, nextStep := chain.nextStep + 1 }) ∧
      (utf8 record.jws).length = (4 * m + 2) / 3 + (4 * n + 2) / 3 + 88 := by
  cases hbuild : buildReceiptClaims p input chain.nextStep receiptId chain.previousJws with
  | error e =>
    rw [hbuild] at hsome
    cases hsome
  | ok claims =>
  rw [hbuild, Except.bind] at hsome hclaims
  cases hsign : signReceipt p claims chain.key random chain.kid with
  | error e =>
    rw [hsign] at hsome
    cases hsome
  | ok jws =>
  refine ⟨⟨jws, receiptId, sha256 p jws, chain.previousJws.map (sha256 p), chain.nextStep⟩, ?_, ?_⟩
  · rw [EvidenceChain.append, hbuild]
    simp only [bind, Except.bind, hsign, pure, Except.pure]
  simp only [signReceipt, signCompact, bind_eq_ok, pure, Except.pure, Except.ok.injEq] at hsign
  obtain ⟨-, -, -, -, -, -, -, -, -, -, headerText, hheaderText, claimsText, hclaimsText, rfl⟩ := hsign
  rw [hheaderText] at hheader
  rw [hclaimsText] at hclaims
  have hm : (utf8 headerText).length = m := Option.some.inj hheader
  have hn : (utf8 claimsText).length = n := Option.some.inj hclaims
  have hdot : dot.toNat < 128 := by decide
  have hascii := ((isAscii_encode (utf8 headerText)).append (.cons hdot
    (isAscii_encode (utf8 claimsText)))).append (.cons hdot (isAscii_encode (p.sign chain.key random
      (asciiBytes (Base64url.encode (utf8 headerText) ++ dot :: Base64url.encode (utf8 claimsText))))))
  show (utf8 _).length = _
  rw [length_utf8_of_ascii hascii]
  simp only [length_append, length_cons, Base64url.length_encode, hp.length_sign, hm, hn]
  omega

theorem after_resume (hp : p.Documented) {run : ReceiptRunIdentity} {key : p.Key} {kid : Text}
    {ops rest : List ChainOp} (hops : ∀ op ∈ ops, op.OfRun run) :
    ChainRun.after run key kid (ops ++ .resume :: rest) = ChainRun.after run key kid (ops ++ rest) := by
  unfold ChainRun.after
  rw [foldl_append, foldl_append, foldl_cons]
  exact congrArg (foldl _ · rest) (Faithful.after hp hops).step_resume

end

/-! ### Two records of a run -/

/-- `n` as so many bytes, the first one first. -/
def bigEndian (count n : ℕ) : Bytes :=
  (List.range count).map fun i => (n / 256 ^ (count - 1 - i)).toUInt8

def testDigest (bytes : Bytes) : Bytes :=
  match bytes.length with
  | 22 => bigEndian 32 0x22962ab19e16bcc6c87760cc2a0d8706197bbeeb6864f00087d158bb65eac2ed
  | 50 => bigEndian 32 0xbc0909d601bcccee04a3433e05d595e09304b6ff83f98071ef3e78a8eebbd3f7
  | 91 => bigEndian 32 0x5bf4fc1b7de1e1f461ef70659d7bf631106e884da4ccff36280917d1b1ae2539
  | 1714 => bigEndian 32 0x6a0b014e178466339f54050738272699ebfe338ee57af0cc86e2e3181f2269e0
  | 1815 => bigEndian 32 0xbe4c16724941a03a279f25079defda3014c669ac309be540f35860609641316d
  | _ => bigEndian 32 0

def testSign (data : Bytes) : Bytes :=
  match data.length with
  | 1627 => bigEndian 32 0x66101b9302d286302e30d53607cc539d360393960125d499163953d47f987bb9 ++
    bigEndian 32 0x65b47e768a01164e59d8debf67e6ef001947229bdb993a90fdc8a6ac038e7c88
  | 1728 => bigEndian 32 0x7663689f848f7d97425a29586a447981e92efe77533504d3f4f74276b758aa36 ++
    bigEndian 32 0x477c1d4c5e00eadb41b7cdead111e01afde607fcc2a1dd5198b437afc47afafa
  | 824 => bigEndian 32 0x47b2b08da911e5fe5bd606cff5dfab3a55a6a924f0e1b6b71a8e2fdec0da715a ++
    bigEndian 32 0x2849035f65575f6686af95d7427f60f0eb22ccb9b230dc05625c45a0ab2bf22b
  | _ => bigEndian 64 0

/-- One key, its public half (`false`), and what SHA-256 and ES256 give for two records of the input
of `test-input.ts` and their seal, which are told apart by their lengths. -/
def testPlatform : Platform where
  Key := Bool
  isPrivate key := key
  isP256 _ := true
  createPublicKey _ := false
  spki _ :=
    bigEndian 27 0x3059301306072a8648ce3d020106082a8648ce3d03010703420004 ++
      (bigEndian 32 0xa9434635e5037bb1dd3355194727916c907a26e816f114cee78f89460d5f888f ++
        bigEndian 32 0x9d77aa54f6e5c8cfb32082585e61c66d636615260c64ec8a53edf9e288ac8697)
  digest bytes := testDigest bytes
  sign _ _ data := testSign data
  verify _ data signature := signature = testSign data
  isOtherOrSeparator c := c < 33 || 126 < c

theorem length_bigEndian (count n : ℕ) : (bigEndian count n).length = count := by
  simp [bigEndian]

theorem testPlatform_documented : testPlatform.Documented where
  length_sign key random data := by
    show (testSign data).length = 64
    rw [testSign]
    split
    · rw [length_append, length_bigEndian, length_bigEndian]
    · rw [length_append, length_bigEndian, length_bigEndian]
    · rw [length_append, length_bigEndian, length_bigEndian]
    · exact length_bigEndian 64 _
  verify_sign key random data := decide_eq_true rfl
  length_digest bytes := by
    show (testDigest bytes).length = 32
    rw [testDigest]
    split
    · exact length_bigEndian 32 _
    · exact length_bigEndian 32 _
    · exact length_bigEndian 32 _
    · exact length_bigEndian 32 _
    · exact length_bigEndian 32 _
    · exact length_bigEndian 32 _

def testKey : testPlatform.Key := true

def testKid : Text := lit "sha256:5bf4fc1b7de1e1f461ef70659d7bf631106e884da4ccff36280917d1b1ae2539"

def testRun : ReceiptRunIdentity where
  runId := lit "run-test"
  spaceId := lit "space-test"
  botId := some (lit "bot-test")
  actor := none
  verifierId := none
  grantId := lit "grant-test"
  traceId := lit "trace-test"
  runNonce := lit "MDEyMzQ1Njc4OWFiY2RlZg"

def testInput : ReceiptInput where
  toReceiptRunIdentity := testRun
  tool := lit "read_file"
  args := ⟨.obj [(lit "path", .str (lit "example.txt"))], by decide, trivial, trivial⟩
  actionClass := lit "read"
  sideEffectClass := lit "none"
  target := lit "example.txt"
  resourceFamily := lit "filesystem"
  verdict := lit "compliant"
  reason := lit "Allowed by rule"
  policyDecisions := ⟨.arr [.obj [(lit "backend", .str (lit "local")), (lit "decision", .str (lit "permit")),
    (lit "rule_id", .str (lit "read")), (lit "reason", .null), (lit "eval_ms", natValue 0)]],
    ⟨by decide, trivial, trivial, trivial, trivial, trivial, trivial⟩, trivial⟩
  budgetRemaining := ⟨.obj [], by decide, trivial⟩
  now := some 1790683200000
  optional := []

def firstReceiptId : Text := lit "3f2c9a4e-6d1b-4c8e-9a57-0b6e5d4c3a21"

def secondReceiptId : Text := lit "c0d47f13-9be2-4a60-8c35-27f1e6b9d804"

/-- The same input at no valid time, which `append` refuses. -/
def refusedInput : ReceiptInput := { testInput with now := none }

/-- The chain is resumed after its first record, and an append throws before the second. -/
def testOps : List ChainOp :=
  [.append testInput firstReceiptId 0, .resume, .append refusedInput secondReceiptId 0,
    .append testInput secondReceiptId 0]

theorem ofRun_testOps : ∀ op ∈ testOps, op.OfRun testRun := by
  intro op hop
  simp only [testOps, mem_cons, not_mem_nil, or_false] at hop
  obtain rfl | rfl | rfl | rfl := hop
  · exact rfl
  · trivial
  · exact rfl
  · exact rfl

section

variable {jws : Text}

/-- The chain after a first record. -/
def testChain (jws : Text) : EvidenceChain testPlatform where
  key := testKey
  kid := testKid
  previousJws := some jws
  nextStep := 1

theorem length_header :
    (canonicalizeOrThrow (header testKid receiptTyp)).toOption.map (fun t => (utf8 t).length) =
    some 128 := by
  rw [show testKid = _ from lit_ofList _]
  decide +kernel

theorem append_first : ∃ record :
    ChainRecord, (createEvidenceChain testKey testKid).append testInput firstReceiptId 0 =
    (.ok record, testChain record.jws) ∧ (utf8 record.jws).length = 1714 := by
  refine @append_of_lengths testPlatform testInput firstReceiptId
    (createEvidenceChain testKey testKid) 128 1091 0
    testPlatform_documented ?_ length_header ?_
  · rw [show testKid = _ from lit_ofList _, show firstReceiptId = _ from lit_ofList _]
    decide +kernel
  · rw [show firstReceiptId = _ from lit_ofList _]
    decide +kernel

theorem append_refused (jws : Text) : ∃ e,
    (testChain jws).append refusedInput secondReceiptId 0 = (.error e, testChain jws) :=
  ⟨_, rfl⟩

theorem testDigest_congr {a b : Bytes} (h : a.length = b.length) : testDigest a = testDigest b := by
  unfold testDigest
  rw [h]

theorem buildReceiptClaims_congr {other : Text} (h : (utf8 jws).length = (utf8 other).length)
    (input : ReceiptInput)
    (step : ℕ) (receiptId : Text) : buildReceiptClaims testPlatform input step receiptId (some jws) =
      buildReceiptClaims testPlatform input step receiptId (some other) := by
  have hsame : sha256 testPlatform jws = sha256 testPlatform other := congrArg hex (testDigest_congr h)
  unfold buildReceiptClaims
  rw [Option.map_some, hsame, Option.map_some]

/-- A text that the platform hashes as it does the first record. -/
def sameHash : Text := List.replicate 1714 (unit 'A')

theorem length_sameHash : (utf8 sameHash).length = 1714 := by
  decide +kernel

/-- The first record is in the second by its hash only. -/
theorem append_second (h : (utf8 jws).length = 1714) : ∃ record : ChainRecord,
    (testChain jws).append testInput secondReceiptId 0 =
      (.ok record, { testChain jws with previousJws := some record.jws, nextStep := 2 }) ∧
      (utf8 record.jws).length = 1815 := by
  have hlength : (utf8 jws).length = (utf8 sameHash).length := by
    rw [h, length_sameHash]
  have hbuild := buildReceiptClaims_congr hlength testInput 1 secondReceiptId
  refine @append_of_lengths testPlatform testInput secondReceiptId (testChain jws) 128 1167 0
    testPlatform_documented ?_ length_header ?_
  · show ((buildReceiptClaims testPlatform testInput 1 secondReceiptId (some jws)).bind fun claims =>
      signReceipt testPlatform claims testKey 0 testKid).toOption.isSome
    rw [hbuild, show testKid = _ from lit_ofList _, show secondReceiptId = _ from lit_ofList _]
    decide +kernel
  · show ((buildReceiptClaims testPlatform testInput 1 secondReceiptId (some jws)).bind
      canonicalizeOrThrow).toOption.map (fun t => (utf8 t).length) = some 1167
    rw [hbuild, show secondReceiptId = _ from lit_ofList _]
    decide +kernel

end

theorem records_testOps : ∃ first second : ChainRecord,
    (ChainRun.after testRun testKey testKid testOps).records = [first, second] ∧
      (utf8 first.jws).length = 1714 ∧ (utf8 second.jws).length = 1815 := by
  obtain ⟨first, hfirst, hfirstLength⟩ := append_first
  obtain ⟨e, hrefused⟩ := append_refused first.jws
  obtain ⟨second, hsecond, hsecondLength⟩ := append_second hfirstLength
  refine ⟨first, second, ?_, hfirstLength, hsecondLength⟩
  have hresumed : ChainRun.after testRun testKey testKid testOps = _ :=
    @after_resume _ testPlatform_documented testRun testKey testKid [.append testInput firstReceiptId 0]
      [.append refusedInput secondReceiptId 0, .append testInput secondReceiptId 0]
      fun op hop => ofRun_testOps op (mem_cons.mpr (.inl (mem_singleton.mp hop)))
  rw [hresumed]
  simp only [ChainRun.after, singleton_append, foldl_cons, foldl_nil, ChainRun.step, hfirst,
    hrefused, hsecond, nil_append]

theorem length_testOps : (ChainRun.after testRun testKey testKid testOps).records.length = 2 := by
  obtain ⟨first, second, hrecords, -⟩ := records_testOps
  rw [hrecords]
  rfl

theorem chain_verifies_test : ∃ s, s = ChainRun.after testRun testKey testKid testOps ∧
    s.records.length = 2 ∧ reopen testRun testKey testKid s.records = .ok s.chain ∧
      (verifyChain testPlatform s.jwsList (testPlatform.createPublicKey testKey) none {}).ok = true ∧
      ∃ sealJwt, (verifySeal testPlatform sealJwt s.jwsList (testPlatform.createPublicKey testKey) none {}).ok =
        true := by
  refine ⟨_, rfl, ?_⟩
  have hlength := length_testOps
  generalize hafter : ChainRun.after testRun testKey testKid testOps = s at hlength ⊢
  obtain ⟨hreopen, hchain, hsealed, hseals, -⟩ :=
    chain_verifies testPlatform_documented testRun testKey testKid
    ofRun_testOps hafter.symm (by rw [hlength]; norm_num) none
  have hne : s.records ≠ [] := by
    intro hnil
    rw [hnil] at hlength
    exact absurd hlength (by decide)
  have hnow : epochSeconds (some 1790683200000) = .ok 1790683200 := rfl
  obtain ⟨sealJwt, hseal⟩ := hseals hne _ _ (lit "8b1f0c7d-52e4-4f6a-b3c9-1d0e9f8a7b65") 0 hnow (by decide)
  exact ⟨hlength, hreopen, hchain hne, sealJwt, hsealed _ _ _ _ rfl hseal⟩

/-- No record is no chain: a run that has emitted nothing has nothing to verify. -/
theorem no_records_rejected : (verifyChain testPlatform (ChainRun.after testRun testKey testKid []).jwsList
    (testPlatform.createPublicKey testKey) none {}).ok = false := by
  have hnil : (ChainRun.after testRun testKey testKid []).jwsList = [] := rfl
  rw [hnil, verifyChain, withSignerMatch_ok, verifyChainContents, if_pos rfl]
  rfl

end ArdurBot.Evidence
