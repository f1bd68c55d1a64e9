import ArdurBot.Evidence.Format

/-!
# Compact JWS

`jws.ts` and `keys.ts` of `packages/evidence/src`: three base64url parts with dots between them, of
which the first two are JSON and the last is the signature of both.

`decodeCompact_signCompact` is what the rest needs of it: a signed value decodes to its canonical
form, and every check that is made of the parts passes.
-/

namespace ArdurBot.Evidence

open Utf16 Json
open Checked (bind_eq_ok)

variable (p : Platform)

def hex (bytes : Bytes) : Text :=
  bytes.flatMap fun b => [hexDigit (b.toNat / 16), hexDigit (b.toNat % 16)]

def sha256 (value : Text) : Text := hex (p.digest (utf8 value))

/-- `requireP256`, the only thing that loading a key checks once it is a `KeyObject`. -/
def requireP256 (key : p.Key) : Result Unit :=
  if p.isP256 key then .ok () else .error (.typeError (lit "Evidence keys must be EC P-256"))

def evidenceKeyId (publicKey : p.Key) : Result Text := do
  requireP256 p publicKey
  if p.isPrivate publicKey then .error (.typeError (lit "Expected a public key"))
  else return lit "sha256:" ++ hex (p.digest (p.spki publicKey))

def header (kid typ : Text) : JsValue :=
  .obj [(lit "alg", .str (lit "ES256")), (lit "kid", .str kid), (lit "typ", .str typ)]

def dot : CodeUnit := unit '.'

/-- `random` is what ES256 draws. -/
def signCompact (claims : JsValue) (key : p.Key) (random : ℕ) (kid typ : Text) : Result Text := do
  let invalidKey : Thrown :=
    .format .invalidKey (lit "kid") (lit "Expected matching EC P-256 private key")
  throwUnless (p.isPrivate key && p.isP256 key) invalidKey
  let id ← evidenceKeyId p (p.createPublicKey key)
  throwUnless (id = kid) invalidKey
  let headerText ← canonicalizeOrThrow (header kid typ)
  let claimsText ← canonicalizeOrThrow claims
  let data := Base64url.encode (utf8 headerText) ++ dot :: Base64url.encode (utf8 claimsText)
  return data ++ dot :: Base64url.encode (p.sign key random (asciiBytes data))

structure Decoded where
  header : JsValue
  payload : JsValue
  payloadBytes : Bytes
  signature : Bytes
  data : Text

def parseOrThrow (bytes : Bytes) : Result JsValue :=
  match decodeUtf8 bytes with
  | none => .error (.typeError (lit "The encoded data was not valid for encoding utf-8"))
  | some text =>
    match parse text with
    | none => .error .syntaxError
    | some value => .ok value

/-- A part is unpadded base64url, and the only such text for its bytes. -/
def isPart (part : Text) : Bool :=
  isBase64url part && Base64url.encode (Base64url.decode part) = part

def decodeCompact (jws : Text) : Result Decoded :=
  match jws.splitOn dot with
  | [header, payload, signature] =>
    if isPart header && isPart payload && isPart signature then do
      let payloadBytes := Base64url.decode payload
      let headerValue ← parseOrThrow (Base64url.decode header)
      let payloadValue ← parseOrThrow payloadBytes
      return {
        header := headerValue
        payload := payloadValue
        payloadBytes
        signature := Base64url.decode signature
        data := header ++ dot :: payload
      }
    else .error (.format .invalidJws (lit "jws") (lit "Expected three unpadded base64url parts"))
  | _ => .error (.format .invalidJws (lit "jws") (lit "Expected three unpadded base64url parts"))

def verifyCompactSignature (decoded : Decoded) (key : p.Key) : Result Bool := do
  let _ ← evidenceKeyId p key
  return decoded.signature.length = 64 && p.verify key (asciiBytes decoded.data) decoded.signature

/-- What is documented of the two algorithms: an ES256 signature has 64 bytes and verifies under the
public half, and a SHA-256 digest has 32 bytes. -/
structure Platform.Documented : Prop where
  length_sign : ∀ key random data, (p.sign key random data).length = 64
  verify_sign : ∀ key random data, p.verify (p.createPublicKey key) data (p.sign key random data)
  length_digest : ∀ bytes, (p.digest bytes).length = 32

variable {p}

theorem isPart_encode {bytes : Bytes} (h : bytes ≠ []) : isPart (Base64url.encode bytes) := by
  have hne := Base64url.encode_ne_nil h
  have hall : (Base64url.encode bytes).all Base64url.isLetter :=
    List.all_eq_true.mpr fun u hu => Base64url.isLetter_of_mem_encode hu
  simp [isPart, isBase64url, hne, hall, Base64url.decode_encode]

theorem dot_notMem_encode (bytes : Bytes) : dot ∉ Base64url.encode bytes := by
  intro h
  exact absurd (Base64url.isLetter_of_mem_encode h) (by decide)

theorem splitOn_parts {a b c : Text} (ha : dot ∉ a) (hb : dot ∉ b) (hc : dot ∉ c) :
    (a ++ dot :: b ++ dot :: c).splitOn dot = [a, b, c] := by
  have hjoin : a ++ dot :: b ++ dot :: c = [dot].intercalate [a, b, c] := by
    simp [List.intercalate, List.intersperse]
  rw [hjoin]
  apply List.splitOn_intercalate
  · intro part hpart
    simp only [List.mem_cons, List.not_mem_nil, or_false] at hpart
    obtain rfl | rfl | rfl := hpart
    · exact ha
    · exact hb
    · exact hc
  · simp

variable {v : JsValue} {t : Text}

theorem CanonicalText.head?_ne (h : CanonicalText v t) : t.head? ≠ some byteOrderMark := by
  obtain ⟨u, rest, heq, hu⟩ := stringify_head h.plain
  rw [h.printed, heq]
  intro hmark
  have hvalue : u = byteOrderMark := by simpa using hmark
  rw [hvalue] at hu
  exact absurd hu (by decide)

theorem parseOrThrow_utf8 (h : CanonicalText v t) : parseOrThrow (utf8 t) = .ok (canonical v) := by
  simp only [parseOrThrow, decodeUtf8_utf8 h.wellFormed h.head?_ne, h.parses]

theorem utf8_ne_nil (h : CanonicalText v t) : utf8 t ≠ [] := by
  intro hnil
  have hdecode := decodeUtf8_utf8 h.wellFormed h.head?_ne
  obtain ⟨u, rest, heq, -⟩ := stringify_head h.plain
  have hempty : decodeUtf8 [] = some [] := by decide
  rw [hnil, hempty, h.printed, heq] at hdecode
  simp at hdecode

theorem wellKeyed_header (kid typ : Text) : (header kid typ).WellKeyed :=
  ⟨(by decide : [lit "alg", lit "kid", lit "typ"].Nodup), trivial, trivial, trivial, trivial⟩

theorem canonical_header (kid typ : Text) : canonical (header kid typ) = header kid typ := rfl

theorem isHeader_header (kid typ : Text) :
    isObject (header kid typ) ∧ get (header kid typ) (lit "alg") = .str (lit "ES256") ∧
      get (header kid typ) (lit "kid") = .str kid ∧ get (header kid typ) (lit "typ") = .str typ ∧
      (ownKeys (header kid typ)).length = 3 :=
  ⟨rfl, rfl, rfl, rfl, rfl⟩

theorem canonicalizeOrThrow_eq_ok : canonicalizeOrThrow v = .ok t ↔ canonicalize v = .ok t := by
  rw [canonicalizeOrThrow]
  cases canonicalize v <;> simp

structure Signed (p : Platform) (claims : JsValue) (key : p.Key) (kid typ jws : Text) : Prop where
  usable : (p.isPrivate key && p.isP256 key) = true
  keyId : evidenceKeyId p (p.createPublicKey key) = .ok kid
  decodes : ∃ headerText claimsText signature,
    CanonicalText (header kid typ) headerText ∧ CanonicalText claims claimsText ∧
    canonicalize claims = .ok claimsText ∧
    decodeCompact jws = .ok {
      header := header kid typ
      payload := canonical claims
      payloadBytes := utf8 claimsText
      signature
      data := Base64url.encode (utf8 headerText) ++ dot :: Base64url.encode (utf8 claimsText) } ∧
    signature.length = 64 ∧
    p.verify (p.createPublicKey key)
      (asciiBytes (Base64url.encode (utf8 headerText) ++ dot :: Base64url.encode (utf8 claimsText)))
      signature

/-- **A signed value decodes to its canonical form, signature and all.** -/
theorem signed_signCompact (hp : p.Documented) {claims : JsValue} (hkeyed : claims.WellKeyed) {key : p.Key}
    {random : ℕ} {kid typ jws : Text} (h : signCompact p claims key random kid typ = .ok jws) :
    Signed p claims key kid typ jws := by
  simp only [signCompact, bind_eq_ok, throwUnless_eq_ok, decide_eq_true_eq] at h
  obtain ⟨-, husable, id, hid, -, hkid, headerText, hheader, claimsText, hclaims, hjws⟩ := h
  have hheaderText := canonicalize_spec (wellKeyed_header kid typ) (canonicalizeOrThrow_eq_ok.mp hheader)
  have hclaimsText := canonicalize_spec hkeyed (canonicalizeOrThrow_eq_ok.mp hclaims)
  set data := Base64url.encode (utf8 headerText) ++ dot :: Base64url.encode (utf8 claimsText)
  have hsignature : p.sign key random (asciiBytes data) ≠ [] := by
    intro hnil
    have hlen := hp.length_sign key random (asciiBytes data)
    simp [hnil] at hlen
  have hdecodes : decodeCompact jws = .ok {
      header := header kid typ
      payload := canonical claims
      payloadBytes := utf8 claimsText
      signature := p.sign key random (asciiBytes data)
      data } := by
    have hjws : data ++ dot :: Base64url.encode (p.sign key random (asciiBytes data)) = jws := by
      simpa [pure, Except.pure] using hjws
    rw [← hjws, decodeCompact, splitOn_parts (dot_notMem_encode _) (dot_notMem_encode _) (dot_notMem_encode _)]
    simp only [isPart_encode (utf8_ne_nil hheaderText), isPart_encode (utf8_ne_nil hclaimsText),
      isPart_encode hsignature, Bool.and_self, if_true, Base64url.decode_encode,
      parseOrThrow_utf8 hheaderText, parseOrThrow_utf8 hclaimsText, canonical_header, bind,
      Except.bind, pure, Except.pure]
    rfl
  exact ⟨husable, hkid ▸ hid, headerText, claimsText, _, hheaderText, hclaimsText,
    canonicalizeOrThrow_eq_ok.mp hclaims, hdecodes, hp.length_sign key random _,
    hp.verify_sign key random _⟩

end ArdurBot.Evidence
