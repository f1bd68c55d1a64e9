import ArdurBot.Evidence.Receipt

/-!
# A check cannot tell a value from its canonical form

The writer checks the claims it has built, the verifier those it has parsed, and these are the
canonical form of the former. Each thing the validators look at is the same in both: a property of
the canonical form is the canonical form of the property, and the views of a scalar are equal. So
claims that pass once pass again.
-/

namespace ArdurBot.Evidence

open List Utf16 Json Sorted
open Checked (bind_eq_ok)

variable {p : Platform}

@[simp] theorem asString_canonical (v : JsValue) : asString (canonical v) = asString v := by
  cases v with
  | num n => cases n <;> rfl
  | _ => rfl

@[simp] theorem isNull_canonical (v : JsValue) : isNull (canonical v) = isNull v := by
  cases v with
  | num n => cases n <;> rfl
  | _ => rfl

@[simp] theorem isObject_canonical (v : JsValue) : isObject (canonical v) = isObject v := by
  cases v with
  | num n => cases n <;> rfl
  | _ => rfl

@[simp] theorem isBoolean_canonical (v : JsValue) : isBoolean (canonical v) = isBoolean v := by
  cases v with
  | num n => cases n <;> rfl
  | _ => rfl

section

variable (v : JsValue)

@[simp] theorem natOf_canonical : natOf (canonical v) = natOf v := by
  cases v with
  | num n => cases n with
    | negZero => decide +kernel
    | _ => rfl
  | _ => rfl

@[simp] theorem isNonnegativeNumber_canonical :
    isNonnegativeNumber (canonical v) = isNonnegativeNumber v := by
  cases v with
  | num n => cases n with
    | negZero | _ => rfl
  | _ => rfl

theorem asArray_canonical : asArray (canonical v) = (asArray v).map (map canonical) := by
  cases v with
  | num n => cases n <;> rfl
  | arr items => simp [canonical, asArray, canonicalItems_eq]
  | _ => rfl

@[simp] theorem stringIs_canonical (test : Text → Bool) : stringIs (canonical v) test = stringIs v test := by
  rw [stringIs, asString_canonical, stringIs]

@[simp] theorem isText_canonical (text : Text) : isText (canonical v) text = isText v text :=
  stringIs_canonical v _

end

@[simp] theorem isMember_canonical (table : List Text) (v : JsValue) :
    isMember table (canonical v) = isMember table v :=
  stringIs_canonical v _

@[simp] theorem isNonemptyString_canonical (v : JsValue) :
    isNonemptyString (canonical v) = isNonemptyString v :=
  stringIs_canonical v _

@[simp] theorem isNonnegativeInteger_canonical (v : JsValue) :
    isNonnegativeInteger (canonical v) = isNonnegativeInteger v := by
  rw [isNonnegativeInteger, natOf_canonical, isNonnegativeInteger]

@[simp] theorem sameString_canonical (v w : JsValue) :
    sameString (canonical v) (canonical w) = sameString v w := by
  simp [sameString]

@[simp] theorem parentsAgree_canonical (hash id : JsValue) :
    parentsAgree (canonical hash) (canonical id) = parentsAgree hash id := by
  simp [parentsAgree]

section

variable (v : JsValue)

@[simp] theorem isTextOrNull_canonical (text : Option Text) :
    isTextOrNull (canonical v) text = isTextOrNull v text := by
  cases text <;> simp [isTextOrNull]

theorem entries_canonical_perm :
    (entries (canonical v)).Perm ((entries v).map fun entry => (entry.1, canonical entry.2)) := by
  cases v with
  | num n => cases n <;> rfl
  | obj fields =>
    rw [canonical, canonicalFields_eq]
    exact sortByKey_perm _ _
  | _ => rfl

theorem ownKeys_eq : ownKeys v = keys (entries v) := by
  cases v <;> rfl

theorem ownKeys_canonical_perm : (ownKeys (canonical v)).Perm (ownKeys v) := by
  rw [ownKeys_eq, ownKeys_eq]
  have h := (entries_canonical_perm v).map Prod.fst
  rwa [map_map] at h

@[simp] theorem length_ownKeys_canonical : (ownKeys (canonical v)).length = (ownKeys v).length :=
  (ownKeys_canonical_perm v).length_eq

end

variable {claims v : JsValue} {key : p.Key} {u : Unit} {allowed : List Text} {fields : Fields}
  {jws kid typ : Text}

@[simp] theorem mem_ownKeys_canonical {key : Text} : key ∈ ownKeys (canonical v) ↔ key ∈ ownKeys v :=
  (ownKeys_canonical_perm v).mem_iff

@[simp] theorem all_ownKeys_canonical (v : JsValue) (test : Text → Bool) :
    (ownKeys (canonical v)).all test = (ownKeys v).all test :=
  (ownKeys_canonical_perm v).all_eq

@[simp] theorem hasOwn_canonical (v : JsValue) (claim : Text) :
    hasOwn (canonical v) claim = hasOwn v claim := by
  simp [hasOwn]

theorem nodup_keys_entries (h : v.WellKeyed) : (keys (entries v)).Nodup := by
  cases v with
  | obj fields => exact h.1
  | _ => exact nodup_nil

theorem wellKeyed_of_mem_entries (h : v.WellKeyed) {entry : Text × JsValue}
    (hmem : entry ∈ entries v) : entry.2.WellKeyed := by
  cases v with
  | obj fields => exact allFields_iff.mp h.2 entry hmem
  | _ => simp [entries] at hmem

theorem get_canonical (h : v.WellKeyed) (claim : Text) :
    get (canonical v) claim = canonical (get v claim) := by
  have hperm := entries_canonical_perm v
  have hkeys : (keys ((entries v).map fun entry => (entry.1, canonical entry.2))) = keys (entries v) := by
    rw [Json.keys, Json.keys, map_map]
    rfl
  have hnodup : (keys (entries (canonical v))).Nodup := by
    have hsame : (keys (entries (canonical v))).Perm (keys (entries v)) := hkeys ▸ hperm.map Prod.fst
    exact hsame.nodup_iff.mpr (nodup_keys_entries h)
  rw [get, get]
  cases hget : getField (entries v) claim with
  | none =>
    have hnone : getField (entries (canonical v)) claim = none := by
      rw [getField_eq_none] at hget ⊢
      intro hmem
      exact hget (hkeys ▸ (hperm.map Prod.fst).mem_iff.mp hmem)
    rw [hnone]
    rfl
  | some value =>
    have hmem := (getField_eq_some (nodup_keys_entries h)).mp hget
    have hsome : getField (entries (canonical v)) claim = some (canonical value) := by
      rw [getField_eq_some hnodup]
      exact hperm.mem_iff.mpr (mem_map.mpr ⟨_, hmem, rfl⟩)
    rw [hsome]
    rfl

theorem wellKeyed_get (h : v.WellKeyed) (claim : Text) : (get v claim).WellKeyed := by
  rw [get]
  cases hget : getField (entries v) claim with
  | none => trivial
  | some value =>
    exact wellKeyed_of_mem_entries h ((getField_eq_some (nodup_keys_entries h)).mp hget)

theorem forM_eq_ok {α : Type} {l : List α} {f : α → Result Unit} :
    l.forM f = .ok u ↔ ∀ a ∈ l, f a = .ok () := by
  induction l with
  | nil => simp [forM_eq_forM, pure, Except.pure]
  | cons a l ih =>
    rw [forM_eq_forM] at ih ⊢
    rw [forM_cons, seq_eq_ok, ih]
    simp

theorem validateNames_eq_ok : validateNames allowed fields = .ok u ↔
      ∀ entry ∈ fields, entry.1 ∈ allowed ∧ ∃ text, canonicalize entry.2 = .ok text := by
  induction fields with
  | nil => simp [validateNames]
  | cons entry fields ih =>
    obtain ⟨claim, value⟩ := entry
    rw [validateNames]
    by_cases hallowed : claim ∈ allowed
    · cases hvalue : canonicalize value with
      | ok text => simp [hallowed, hvalue, ih]
      | error e => simp [hallowed, hvalue]
    · simp [hallowed]

theorem validateBudget_eq_ok : validateBudget fields = .ok u ↔
      ∀ entry ∈ fields, (isToken entry.1 && isNonnegativeInteger entry.2) = true := by
  induction fields with
  | nil => simp [validateBudget]
  | cons entry fields ih =>
    obtain ⟨key, remaining⟩ := entry
    rw [validateBudget, seq_eq_ok, requireClaim_eq_ok, ih]
    simp

theorem validateDigest_canonical (h : v.WellKeyed) (claim : Text) :
    validateDigest (canonical v) claim = validateDigest v claim := by
  simp [validateDigest, get_canonical h]

theorem validateDecision_canonical (h : v.WellKeyed) (claim : Text) :
    validateDecision p (canonical v) claim = validateDecision p v claim := by
  simp [validateDecision, get_canonical h]

theorem validateDecisions_canonical {index : ℕ} {decisions : List JsValue}
    (h : ∀ v ∈ decisions, v.WellKeyed) :
    validateDecisions p index (decisions.map canonical) = validateDecisions p index decisions := by
  induction decisions generalizing index with
  | nil => rfl
  | cons v decisions ih =>
    rw [map_cons, validateDecisions, validateDecisions, validateDecision_canonical (h v mem_cons_self),
      ih fun w hw => h w (mem_cons_of_mem v hw)]

theorem validatePolicyDecisions_canonical (h : v.WellKeyed) :
    validatePolicyDecisions p (canonical v) = validatePolicyDecisions p v := by
  rw [validatePolicyDecisions, validatePolicyDecisions, asArray_canonical]
  cases v with
  | arr items =>
    exact validateDecisions_canonical (allItems_iff.mp h)
  | _ => rfl

theorem validateDenial_canonical (h : v.WellKeyed) : validateDenial (canonical v) = validateDenial v := by
  simp [validateDenial, get_canonical h]

theorem validateNames_canonical (h : v.WellKeyed) (hvalid : validateNames allowed (entries v) = .ok ()) :
    validateNames allowed (entries (canonical v)) = .ok () := by
  rw [validateNames_eq_ok] at hvalid ⊢
  intro entry hmem
  obtain ⟨before, hbefore, rfl⟩ := mem_map.mp ((entries_canonical_perm v).mem_iff.mp hmem)
  obtain ⟨hallowed, text, htext⟩ := hvalid before hbefore
  exact ⟨hallowed, text, (canonicalize_spec (wellKeyed_of_mem_entries h hbefore) htext).stable⟩

theorem validateBudget_canonical (hvalid : validateBudget (entries v) = .ok ()) :
    validateBudget (entries (canonical v)) = .ok () := by
  rw [validateBudget_eq_ok] at hvalid ⊢
  intro entry hmem
  obtain ⟨before, hbefore, rfl⟩ := mem_map.mp ((entries_canonical_perm v).mem_iff.mp hmem)
  simpa using hvalid before hbefore

/-- **Valid claims stay valid** when they are canonicalized and parsed. -/
theorem validateReceiptClaims_canonical (h : v.WellKeyed) (hvalid : validateReceiptClaims p v = .ok ()) :
    validateReceiptClaims p (canonical v) = .ok () := by
  have hdigest := wellKeyed_get h (lit "invocation_digest")
  simp only [validateReceiptClaims, seq_eq_ok, requireClaim_eq_ok, checkIf_eq_ok, requirePresent,
    requireEach, forM_eq_ok, throwUnless_eq_ok, get_canonical h, get_canonical hdigest, isObject_canonical,
    hasOwn_canonical, isText_canonical, isNonemptyString_canonical, stringIs_canonical, isNull_canonical,
    parentsAgree_canonical, isMember_canonical, natOf_canonical, sameString_canonical,
    isBoolean_canonical, validateDigest_canonical (wellKeyed_get h _), validateDenial_canonical h,
    validatePolicyDecisions_canonical (wellKeyed_get h _)] at hvalid ⊢
  obtain ⟨h1, h2, hnames, h4, h5, h6, h7, h8, h9, h10, h11, h12, h13, h14, h15, h16, h17, h18, h19, h20,
    hbudget, hrest⟩ := hvalid
  exact ⟨h1, h2, validateNames_canonical h hnames, h4, h5, h6, h7, h8, h9, h10, h11, h12, h13, h14, h15,
    h16, h17, h18, h19, h20, validateBudget_canonical hbudget, hrest⟩

theorem chainHeadOk_canonical (h : v.WellKeyed) : chainHeadOk (canonical v) = chainHeadOk v := by
  simp [chainHeadOk, get_canonical h]

theorem validateSealClaims_canonical (h : v.WellKeyed) (hvalid : validateSealClaims v = .ok ()) :
    validateSealClaims (canonical v) = .ok () := by
  simp only [validateSealClaims, seq_eq_ok, requireClaim_eq_ok, requireEach, forM_eq_ok, get_canonical h,
    isObject_canonical, length_ownKeys_canonical, funext (hasOwn_canonical v), isText_canonical,
    isNonemptyString_canonical, isNonnegativeInteger_canonical, natOf_canonical,
    chainHeadOk_canonical (wellKeyed_get h _)] at hvalid ⊢
  obtain ⟨h1, h2, h3, h4, h5, h6, h7, h8, h9, h10, h11, hencoded⟩ := hvalid
  obtain ⟨text, htext, -⟩ := bind_eq_ok.mp hencoded
  have hstable : canonicalizeOrThrow (canonical v) = .ok text := by
    rw [canonicalizeOrThrow] at htext ⊢
    cases hv : canonicalize v with
    | error e => simp [hv] at htext
    | ok t =>
      rw [hv] at htext
      cases htext
      rw [(canonicalize_spec h hv).stable]
  refine ⟨h1, h2, h3, h4, h5, h6, h7, h8, h9, h10, h11, ?_⟩
  rw [hstable]
  rfl

theorem splitOn_pair {a b : Text} (ha : dot ∉ a) (hb : dot ∉ b) : (a ++ dot :: b).splitOn dot = [a, b] := by
  have hjoin : a ++ dot :: b = [dot].intercalate [a, b] := by
    simp [intercalate, intersperse]
  rw [hjoin]
  apply splitOn_intercalate
  · intro part hpart
    simp only [mem_cons, not_mem_nil, or_false] at hpart
    obtain rfl | rfl := hpart
    · exact ha
    · exact hb
  · simp

theorem checkHeader_header {headerText : Text} (h : CanonicalText (header kid typ) headerText)
    {decoded : Decoded} (hheader : decoded.header = header kid typ)
    (hdata : (decoded.data.splitOn dot).head? = some (Base64url.encode (utf8 headerText))) :
    checkHeader decoded typ = .ok none := by
  have htext : canonicalizeOrThrow (header kid typ) = .ok headerText :=
    canonicalizeOrThrow_eq_ok.mpr h.stable
  obtain ⟨hobject, halg, hkid, htyp, hlength⟩ := isHeader_header kid typ
  simp only [checkHeader, hheader, hobject, halg, hkid, htyp, hlength, htext, hdata]
  simp [isText, stringIs, asString, bind, Except.bind, pure, Except.pure]

theorem inspect_signed (h : Signed p claims key kid typ jws) :
    ∃ decoded, inspect p jws (p.createPublicKey key) typ = .ok (.ok decoded) ∧
      decoded.payload = canonical claims := by
  obtain ⟨headerText, claimsText, signature, hheader, hclaims, -, hdecodes, hlength, hverify⟩ := h.decodes
  have hhead : ((Base64url.encode (utf8 headerText) ++ dot :: Base64url.encode (utf8 claimsText)).splitOn
      dot).head? = some (Base64url.encode (utf8 headerText)) := by
    rw [splitOn_pair (dot_notMem_encode _) (dot_notMem_encode _), head?_cons]
  have hkid := (isHeader_header kid typ).2.2.1
  have hstable : canonicalize (canonical claims) = .ok claimsText := hclaims.stable
  refine ⟨{
    header := header kid typ
    payload := canonical claims
    payloadBytes := utf8 claimsText
    signature
    data := Base64url.encode (utf8 headerText) ++ dot :: Base64url.encode (utf8 claimsText) }, ?_, rfl⟩
  simp only [inspect, hdecodes]
  have hcheck : checkHeader {
      header := header kid typ
      payload := canonical claims
      payloadBytes := utf8 claimsText
      signature
      data := Base64url.encode (utf8 headerText) ++ dot :: Base64url.encode (utf8 claimsText) } typ =
        .ok none := checkHeader_header hheader rfl hhead
  rw [hcheck]
  simp [checkSignature, checkPayload, h.keyId, verifyCompactSignature, hlength, hverify, hkid, hstable,
    isText, stringIs, asString, bind, Except.bind, pure, Except.pure]

theorem decodeCompact_signed (h : Signed p claims key kid typ jws) :
    ∃ decoded, decodeCompact jws = .ok decoded ∧ decoded.payload = canonical claims := by
  obtain ⟨_, _, _, -, -, -, hdecodes, -⟩ := h.decodes
  exact ⟨_, hdecodes, rfl⟩

end ArdurBot.Evidence
