import ArdurBot.Evidence.Sealed

/-!
# A seal binds its records

Two lists of records under which one seal verifies are one list. The seal names the hash of the last
record, and each record names the hash of the one before it and the first none, so the lists are
hash chains that end in one record.
-/

namespace ArdurBot.Evidence

open List Utf16 Json HashChain Bool

variable {p : Platform} {key : p.Key} {options : VerificationOptions}

/-- The hash of its parent that a record names. -/
def parentHashOf (jws : Text) : Option Text :=
  (decodeCompact jws).toOption.bind fun decoded => asString (get decoded.payload (lit "parent_receipt_hash"))

theorem asString_of_isTextOrNull {value : JsValue} {text : Option Text} (h : isTextOrNull value text) :
    asString value = text := by
  cases text with
  | none =>
    cases value <;> simp [isTextOrNull, isNull] at h
    rfl
  | some text =>
    simp only [isTextOrNull, isText, stringIs, Option.any_eq_true, decide_eq_true_eq] at h
    obtain ⟨s, hs, rfl⟩ := h
    exact hs

variable {previous : Option Text} {jws : Text} {claims : JsValue} {index last : ℕ}
  {records : List Text} {s s' : ChainState}

theorem parentHashOf_of_ok (h : RecordOk p key options previous jws claims) :
    parentHashOf jws = previous.map (sha256 p) := by
  obtain ⟨decoded, hinspect, rfl⟩ := h.inspected
  have hparent := h.parent
  rw [parentMatches, and_eq_true] at hparent
  rw [parentHashOf, decodeCompact_of_inspect hinspect]
  exact asString_of_isTextOrNull hparent.1

theorem chainedFrom_of_accepts (h : Accepts p key options last index previous records s s') :
    ChainedFrom (fun previous _ jws => parentHashOf jws = previous.map (sha256 p)) previous index records := by
  induction h with
  | nil => trivial
  | cons hok _ _ ih => exact ⟨parentHashOf_of_ok hok, ih⟩

theorem isAscii_of_decodes {decoded : Decoded} (h : decodeCompact jws = .ok decoded) : IsAscii jws := by
  have hpart : ∀ {part : Text}, isPart part → IsAscii part := by
    intro part hpart u hu
    simp only [isPart, isBase64url, and_eq_true, all_eq_true] at hpart
    exact Base64url.toNat_lt_of_isLetter (hpart.1.2 u hu)
  rw [decodeCompact] at h
  split at h
  · next a b c hsplit =>
    split at h
    · next hparts =>
      simp only [and_eq_true] at hparts
      have hdot : dot.toNat < 128 := by decide
      have hjoin : jws = a ++ dot :: (b ++ dot :: c) := by
        have hjoin : [dot].intercalate (jws.splitOn dot) = jws := intercalate_splitOn dot
        rw [hsplit] at hjoin
        simpa [intercalate, intersperse] using hjoin.symm
      rw [hjoin]
      exact (hpart hparts.1.1).append (.cons hdot ((hpart hparts.1.2).append (.cons hdot (hpart hparts.2))))
    · simp at h
  · simp at h

theorem utf8_injective_of_ascii {a b : Text} (ha : IsAscii a) (hb : IsAscii b)
    (h : utf8 a = utf8 b) : a = b := by
  have hdecode : ∀ {t : Text}, IsAscii t → decodeUtf8 (utf8 t) = some t := by
    intro t ht
    apply decodeUtf8_utf8
    · exact wellFormed_of_not_surrogate fun u hu => not_surrogate_of_lt ((ht u hu).trans (by norm_num))
    · intro hmark
      have hmem : byteOrderMark ∈ t := mem_of_head? hmark
      exact absurd (ht _ hmem) (by decide)
  have hboth := hdecode ha
  rw [h, hdecode hb] at hboth
  exact (Option.some.inj hboth).symm

private theorem hexDigit_injective : ∀ m < 16, ∀ n < 16, hexDigit m = hexDigit n → m = n := by
  decide

theorem hex_injective {a b : Bytes} (h : hex a = hex b) : a = b := by
  induction a generalizing b with
  | nil => cases b with
    | nil => rfl
    | cons y b => simp [hex] at h
  | cons x a ih => cases b with
    | nil => simp [hex] at h
    | cons y b =>
      simp only [hex, flatMap_cons, cons_append, nil_append, cons.injEq] at h
      obtain ⟨hhigh, hlow, hrest⟩ := h
      have hx := x.toNat_lt
      have hy := y.toNat_lt
      have hdiv := hexDigit_injective _ (by omega) _ (by omega) hhigh
      have hmod := hexDigit_injective _ (by omega) _ (by omega) hlow
      have hbyte : x = y := UInt8.toNat_inj.mp (by omega)
      rw [hbyte, ih hrest]

theorem sha256_of_namesHead {lastJws : Text} {headReceiptId : Option Text}
    (h : namesHead p claims lastJws headReceiptId) :
    asString (get (get claims (lit "receipt_chain_head")) (lit "receipt_jwt_sha256")) = some (sha256 p lastJws) := by
  rw [namesHead, and_eq_true] at h
  exact @asString_of_isTextOrNull _ (some _) h.1

theorem decodes_of_accepts (h : Accepts p key options last index previous records s s') :
    ∀ jws ∈ records, ∃ decoded, decodeCompact jws = .ok decoded := by
  induction h with
  | nil => simp
  | cons hok _ _ ih =>
    intro jws hmem
    obtain rfl | hmem := mem_cons.mp hmem
    · obtain ⟨decoded, hinspect, -⟩ := hok.inspected
      exact ⟨decoded, decodeCompact_of_inspect hinspect⟩
    · exact ih jws hmem

/-- **A seal binds its records.** SHA-256 is assumed to tell apart the records that are compared. -/
theorem records_eq_of_seal {records records' : List Text} {sealJwt : Text} (key : p.Key)
    {fingerprint fingerprint' : Option Text} {options options' : VerificationOptions}
    (hinj : ∀ a ∈ records, ∀ b ∈ records', p.digest (utf8 a) = p.digest (utf8 b) → utf8 a = utf8 b)
    (hchain : (verifyChain p records key fingerprint options).ok = true)
    (hchain' : (verifyChain p records' key fingerprint' options').ok = true)
    (hseal : (verifySeal p sealJwt records key fingerprint options).ok = true)
    (hseal' : (verifySeal p sealJwt records' key fingerprint' options').ok = true) :
    records = records' := by
  rw [verifyChain, withSignerMatch_ok] at hchain hchain'
  rw [verifySeal, withSignerMatch_ok] at hseal hseal'
  obtain ⟨-, -, s, haccepts⟩ := verifyChainContents_ok.mp hchain
  obtain ⟨-, -, s', haccepts'⟩ := verifyChainContents_ok.mp hchain'
  have hrecords : ∀ a ∈ records, ∀ b ∈ records', sha256 p a = sha256 p b → a = b := by
    intro a ha b hb hhash
    obtain ⟨da, hda⟩ := decodes_of_accepts haccepts a ha
    obtain ⟨db, hdb⟩ := decodes_of_accepts haccepts' b hb
    exact utf8_injective_of_ascii (isAscii_of_decodes hda) (isAscii_of_decodes hdb)
      (hinj a ha b hb (hex_injective hhash))
  -- one seal has one payload, and so names one last record
  obtain ⟨-, claims, hok⟩ := verifySealContents_ok.mp hseal
  obtain ⟨-, claims', hok'⟩ := verifySealContents_ok.mp hseal'
  obtain ⟨decoded, hinspect, rfl⟩ := hok.inspected
  obtain ⟨decoded', hinspect', rfl⟩ := hok'.inspected
  have hpayload : decoded = decoded' := by
    have hsame := (decodeCompact_of_inspect hinspect).symm.trans (decodeCompact_of_inspect hinspect')
    exact Except.ok.inj hsame
  obtain ⟨lastJws, hlast, hnames⟩ := hok.head
  obtain ⟨lastJws', hlast', hnames'⟩ := hok'.head
  have hhead := sha256_of_namesHead hnames
  rw [hpayload, sha256_of_namesHead hnames'] at hhead
  have hlastEq : lastJws = lastJws' :=
    hrecords _ (mem_of_getLast? hlast) _ (mem_of_getLast? hlast') (Option.some.inj hhead).symm
  apply eq_of_getLast?_eq (chainedFrom_of_accepts haccepts) (chainedFrom_of_accepts haccepts') hrecords
  rw [hlast, hlast', hlastEq]

theorem testDigest_ne {a b : Bytes} (ha : a.length = 1714) (hb : b.length = 1815) :
    testDigest a ≠ testDigest b := by
  unfold testDigest
  rw [ha, hb]
  decide +kernel

theorem records_eq_of_seal_test : ∃ records records' : List Text, records.length = 2 ∧
    (∃ sealJwt, (verifySeal testPlatform sealJwt records (testPlatform.createPublicKey testKey) none {}).ok = true ∧
      (verifySeal testPlatform sealJwt records' (testPlatform.createPublicKey testKey) none {}).ok = true) ∧
    records = records' := by
  have hlength := length_testOps
  obtain ⟨first, second, hrecords, hfirst, hsecond⟩ := records_testOps
  have hs : Faithful testRun testKey testKid (ChainRun.after testRun testKey testKid testOps) :=
    Faithful.after testPlatform_documented ofRun_testOps
  generalize ChainRun.after testRun testKey testKid testOps = s at hlength hrecords hs
  have hsafe : s.jwsList.length = 2 := by
    rw [ChainRun.jwsList, length_map, hlength]
  have hne : s.jwsList ≠ [] := by
    intro hnil
    rw [hnil] at hsafe
    exact absurd hsafe (by decide)
  have hcount : s.jwsList.length ≤ maxSafeInteger := by
    rw [hsafe]
    decide
  have hnow : epochSeconds (some 1790683200000) = .ok 1790683200 := rfl
  have hid : isUuid (lit "8b1f0c7d-52e4-4f6a-b3c9-1d0e9f8a7b65") = true := by decide
  obtain ⟨sealJwt, hmade⟩ := @EmittedFrom.sealRun_ok _ _ _ _ testPlatform_documented _ hs.emitted hne hcount
    { records := s.jwsList, actor := _, grantId := _, iss := _, now := _ } rfl rfl rfl rfl _
    (isName_of_isUuid hid) _ hnow 0
  have hchain := hs.emitted.verifyChain_ok hne none
  have hseal := hs.emitted.verifySeal_ok testPlatform_documented hcount rfl hmade none
  have hinj : ∀ a ∈ s.jwsList, ∀ b ∈ s.jwsList,
      testPlatform.digest (utf8 a) = testPlatform.digest (utf8 b) → utf8 a = utf8 b := by
    have hapart := testDigest_ne hfirst hsecond
    intro a ha b hb hsame
    rw [ChainRun.jwsList, hrecords] at ha hb
    rw [map_cons, map_singleton, mem_pair] at ha hb
    rcases ha with rfl | rfl <;> rcases hb with rfl | rfl
    · rfl
    · exact absurd hsame hapart
    · exact absurd hsame.symm hapart
    · rfl
  exact ⟨s.jwsList, s.jwsList, hsafe, ⟨sealJwt, hseal, hseal⟩,
    records_eq_of_seal _ hinj hchain hchain hseal hseal⟩

end ArdurBot.Evidence
