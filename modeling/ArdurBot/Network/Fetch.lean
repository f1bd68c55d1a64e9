import Mathlib.Data.Rat.Defs
import ArdurBot.Lib.Dict
import ArdurBot.Network.Address

/-!
# Fetching a web page

The address of a page comes from a model or from a redirect. Each hop checks its URL and the
addresses of its host before it asks, and the connection looks the host up again and checks what it
dials. Parsing a URL, resolving a name and what the servers answer are the world's.
-/

namespace ArdurBot.Network

open Utf16

structure Url where
  href : Text
  protocol : Text
  username : Text
  password : Text
  hostname : Text
  origin : Text

/-- What the platform gives: `new URL(value, base)`, `Number` and a text decoder. -/
structure Platform where
  parseUrl : Text → Option Text → Option Url
  number : Text → Option ℚ
  decode : List UInt8 → Text

structure ResolvedAddress where
  address : Text
  family : ℕ

/-- What a resolver answers, or how it failed, also by a deadline. -/
abbrev Answer := Except String (List ResolvedAddress)

def isBlockedHostname (hostname : Text) : Bool :=
  let lowered := hostname.map lower
  let normalized := if lowered.getLast? = some dot then lowered.dropLast else lowered
  if normalized = lit "localhost" ∨ (lit ".localhost").isSuffixOf normalized ∨
    (lit ".local").isSuffixOf normalized
      ∨ (lit ".internal").isSuffixOf normalized ∨ normalized = lit "metadata.google.internal"
      ∨ normalized = lit "metadata.goog" then
    true
  else if isIP normalized ≠ 0 then isPrivateAddress normalized
  else false

def arePublic (addresses : List ResolvedAddress) : Bool :=
  !addresses.isEmpty && !addresses.any fun entry => isPrivateAddress entry.address

def assertPublicAddresses (addresses : List ResolvedAddress) : Except String Unit :=
  if arePublic addresses then .ok () else .error "URL resolves to a private address"

/-- The host of a URL, as it is checked and dialled. -/
def Url.host (url : Url) : Text := unbracketed url.hostname

def assertSafeWebUrl (platform : Platform) (answer : Answer) (value : Text) : Except String Url :=
  match platform.parseUrl value none with
  | none => .error "URL is invalid"
  | some url =>
      if url.protocol ≠ lit "http:" ∧ url.protocol ≠ lit "https:" then .error "Only http: and https: URLs are allowed"
      else if url.username ≠ [] ∨ url.password ≠ [] then .error "URL must not contain credentials"
      else if isBlockedHostname url.host then .error "URL targets a private or internal host"
      else do
        assertPublicAddresses (← answer)
        return url

structure LookupOptions where
  all : Bool
  family : ℕ

/-- `selectLookupAddress`: family 0 is any. -/
def selectLookupAddress (addresses : List ResolvedAddress) (options : LookupOptions) :
    Except String (List ResolvedAddress) :=
  let candidates := addresses.filter fun entry => options.family == 0 || entry.family == options.family
  if options.all then
    if candidates = [] then .error "Endpoint did not resolve to an address" else .ok candidates
  else
    match candidates with
    | selected :: _ => .ok [selected]
    | [] => .error "Endpoint did not resolve to an address"

/-- A lookup of the dispatcher: its options and what the resolver answers then. -/
structure Lookup where
  options : LookupOptions
  answer : Answer

/-- `createAddressCheckedLookup`: what it delivers to the connection. -/
def checkedLookup (lookup : Lookup) : Except String (List ResolvedAddress) := do
  let addresses ← lookup.answer
  assertPublicAddresses addresses
  selectLookupAddress addresses lookup.options

/-- The addresses that are dialled: a literal without a lookup, else what the lookups deliver. -/
def dialled (host : Text) (lookups : List Lookup) : List Text :=
  if isIP host ≠ 0 then [host]
  else
    lookups.flatMap fun lookup =>
      match checkedLookup lookup with
      | .ok addresses => addresses.map ResolvedAddress.address
      | .error _ => []

abbrev Headers := List (Text × Text)

structure Response where
  status : ℕ
  location : Option Text
  contentLength : Option Text
  contentType : Option Text
  /-- The chunks of the body, each of which may fail. -/
  body : List (Except String (List UInt8))

/-- What the world answers at one hop. The response is what comes over a connection, where there is
one: an open one to the same origin may be reused, and looks nothing up. -/
structure HopWorld where
  aborted : Bool
  answer : Answer
  reuses : Bool
  lookups : List Lookup
  response : Except String Response

structure Request where
  url : Url
  /-- The headers of the caller, where they are still sent. -/
  callerHeaders : Option Headers
  headers : Headers
  reused : Bool
  lookups : List Lookup
  dialled : List Text

inductive Attempt
  | refused (value : Text) (error : String)
  | requested (request : Request)

structure Fetched where
  url : Text
  body : Text
  contentType : Option Text

structure Options where
  userAgent : Text
  headers : Option Headers
  maxBytes : ℕ

/-- The headers of a request: one of the caller replaces one of its name. -/
def requestHeaders (userAgent : Text) (callerHeaders : Option Headers) : Headers :=
  (callerHeaders.getD []).foldl (fun headers header => Dict.set headers header.1 header.2)
    [(lit "user-agent", userAgent),
      (lit "accept", lit "text/html,application/xhtml+xml,application/xml;q=0.9,text/plain;q=0.8,*/*;q=0.5")]

def readBodyCapped (maxBytes : ℕ) :
    List (Except String (List UInt8)) → List UInt8 → Except String (List UInt8)
  | [], bytes => .ok bytes
  | .error error :: _, _ => .error error
  | .ok chunk :: chunks, bytes =>
      if chunk = [] then readBodyCapped maxBytes chunks bytes
      else if maxBytes < bytes.length + chunk.length then .error "Response is too large"
      else readBodyCapped maxBytes chunks (bytes ++ chunk)

variable (platform : Platform) (options : Options)

/-- What is made of a response that is no redirect. -/
def readResponse (url : Url) (response : Response) : Except String Fetched :=
  if response.status < 200 ∨ 300 ≤ response.status then .error s!"Request failed: HTTP {response.status}"
  else if (response.contentLength.bind platform.number).any fun length => (options.maxBytes : ℚ) < length then
    .error "Response is too large"
  else do
    let buffer ← readBodyCapped options.maxBytes response.body []
    return { url := url.href, body := platform.decode buffer, contentType := response.contentType }

/-- `pool` has the origins that the dispatcher has connections to. -/
def requestOf (hop : HopWorld) (pool : List Text) (url : Url) (headers : Option Headers) : Request where
  url
  callerHeaders := headers
  headers := requestHeaders options.userAgent headers
  reused := hop.reuses && pool.contains url.origin
  lookups := hop.lookups
  dialled := if hop.reuses && pool.contains url.origin then [] else dialled url.host hop.lookups

def Request.isConnected (request : Request) : Bool := request.reused || request.dialled ≠ []

/-- Without a connection the lookup's error fails the fetch. -/
def HopWorld.answerTo (hop : HopWorld) (request : Request) : Except String Response :=
  if request.isConnected then hop.response else .error "fetch failed"

/-- `followRedirects`, with what it asked on the way. -/
def followRedirects (world : ℕ → HopWorld) :
    ℕ → ℕ → List Text → Text → Option Headers → List Attempt × Except String Fetched
  | redirectsRemaining, hop, pool, rawUrl, headers =>
    if (world hop).aborted then ([], .error "Request timed out")
    else
      match assertSafeWebUrl platform (world hop).answer rawUrl with
      | .error error => ([.refused rawUrl error], .error error)
      | .ok validated =>
        let asked := requestOf options (world hop) pool validated headers
        let request := Attempt.requested asked
        match (world hop).answerTo asked with
        | .error error => ([request], .error error)
        | .ok response =>
          if 300 ≤ response.status ∧ response.status < 400 then
            match redirectsRemaining with
            | 0 => ([request], .error "Too many redirects")
            | redirectsRemaining + 1 =>
              match response.location.filter (· ≠ []) with
              | none => ([request], .error "Redirect missing Location header")
              | some location =>
                match platform.parseUrl location (some validated.href) with
                | none => ([request], .error "Invalid URL")
                | some next =>
                  let kept := if next.origin = validated.origin then headers else none
                  let rest :=
                    followRedirects world redirectsRemaining (hop + 1) (validated.origin :: pool)
                    next.href kept
                  (request :: rest.1, rest.2)
          else ([request], readResponse platform options validated response)

def maxRedirects : ℕ := 5

def fetchSafeWebText (world : ℕ → HopWorld) (url : Text) : List Attempt × Except String Fetched :=
  followRedirects platform options world maxRedirects 0 [] url options.headers

end ArdurBot.Network
