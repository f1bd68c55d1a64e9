import ArdurBot.Lib.Checked
import ArdurBot.Network.Fetch
import ArdurBot.Network.Forms

/-!
# A safe fetch

Whatever the resolver and the servers answer, a fetch dials only addresses that were checked for the
host of that hop, asks at most six times, and sends the headers of its caller only while the origin
stays that of the first URL.
-/

namespace ArdurBot.Network

open List Utf16 Bool
open Option hiding any any_eq_false map map_map
open Checked (bind_eq_ok)

section

variable {host : Text} {parts : List Text}

theorem isPrivateAddress_lower (address : Text) :
    isPrivateAddress (address.map lower) = isPrivateAddress address := by
  have h : normalized (address.map lower) = normalized address := by
    unfold normalized
    rw [map_map]
    congr 1
    refine map_congr_left fun code _ => ?_
    rw [Function.comp, ← UInt16.toNat_inj, toNat_lower (lower code), toNat_lower code]
    split_ifs <;> omega
  unfold isPrivateAddress
  simp only [h]

theorem getLast?_of_isGroup {part : Text} (h : isGroup part) : part.getLast? ≠ some dot := by
  simp only [isGroup, and_eq_true] at h
  exact fun hlast => notMem_of_isHexDigit h.2 (by decide) (mem_of_getLast? hlast)

theorem Ipv4.getLast?_text (address : Ipv4) : address.text.getLast? ≠ some dot := by
  intro hlast
  obtain ⟨-, -, hdot, -, hne⟩ := octetText_spec address.d
  have hsplit : address.text
      = (octetText address.a ++ dot ::
        (octetText address.b ++ dot :: (octetText address.c ++ [dot]))) ++ octetText address.d := by
    rw [address.text_eq]
    simp
  rw [hsplit, getLast?_append_of_ne_nil _ hne] at hlast
  exact hdot (mem_of_getLast? hlast)

theorem getLast?_joined_of (hparts : Parts parts) (h : ∀ part ∈ parts, part.getLast? ≠ some dot) :
    (joined parts).getLast? ≠ some dot := by
  obtain rfl | ⟨init, part, rfl⟩ := eq_nil_or_concat parts
  · simp [joined]
  · have hmem : part ∈ init.concat part := by simp
    rw [concat_eq_append, joined_concat, getLast?_append_of_ne_nil _ (hparts part hmem).1]
    exact h part hmem

theorem Spelling.getLast?_body (spelling : Spelling) : spelling.body.getLast? ≠ some dot := by
  have hleft : ∀ part ∈ spelling.leftParts, part.getLast? ≠ some dot :=
    fun part hpart => getLast?_of_isGroup (spelling.isGroup_left part hpart)
  have hright : ∀ part ∈ spelling.rightParts, part.getLast? ≠ some dot := by
    intro part hpart
    obtain hgroup | htail := mem_append.mp hpart
    · exact getLast?_of_isGroup (spelling.isGroup_right part hgroup)
    · obtain ⟨tail, -, rfl⟩ := mem_map.mp htail
      exact tail.getLast?_text
  unfold body spelled
  split_ifs
  · by_cases hnil : spelling.rightParts = []
    · have hcolon : colon ≠ dot := by decide
      simp [hnil, joined, hcolon]
    · have hne : joined spelling.rightParts ≠ [] := mt (joined_eq_nil spelling.parts_right).mp hnil
      rw [getLast?_append_cons, getLast?_cons_of_ne_nil (by simp), getLast?_cons_of_ne_nil hne]
      exact getLast?_joined_of spelling.parts_right hright
  · refine getLast?_joined_of (spelling.parts_left.append spelling.parts_right) fun part hpart => ?_
    exact (mem_append.mp hpart).elim (hleft part) (hright part)

/-- A literal address, other than one with a zone id, is one in lower case too and does not end in a
dot. -/
theorem literal_lower (h : isIP host ≠ 0) (hpercent : percent ∉ host) :
    isIP (host.map lower) ≠ 0 ∧ (host.map lower).getLast? ≠ some dot := by
  have hkinds : isIPv4 host ∨ isIPv6 host := by
    by_contra hnot
    obtain ⟨h4, h6⟩ := not_or.mp hnot
    exact h (by unfold isIP; rw [if_neg h4, if_neg h6])
  obtain h4 | h6 := hkinds
  · obtain ⟨address, rfl⟩ := isIPv4_iff.mp h4
    rw [address.map_lower]
    exact ⟨h, address.getLast?_text⟩
  · obtain ⟨spelling, rfl⟩ := isIPv6_iff.mp h6
    have hzone : spelling.zoneText = [] := by
      unfold Spelling.zoneText
      rcases hz : spelling.zone with _ | zone
      · rfl
      refine absurd ?_ hpercent
      unfold Spelling.text Spelling.zoneText
      rw [hz]
      exact mem_append_right _ mem_cons_self
    have hlowered : spelling.text.map lower = spelling.lowered.body := by
      rw [spelling.body_lowered, Spelling.text, hzone, append_nil]
    refine ⟨?_, ?_⟩
    · rw [← spelling.text_lowered, spelling.lowered.isIP_text]
      decide
    · rw [hlowered]
      exact spelling.lowered.getLast?_body

theorem public_of_literal (hblocked : isBlockedHostname host = false) (h : isIP host ≠ 0)
    (hpercent : percent ∉ host) :
    isPrivateAddress host = false := by
  obtain ⟨hip, hlast⟩ := literal_lower h hpercent
  unfold isBlockedHostname at hblocked
  simp only [if_neg hlast, if_pos hip] at hblocked
  split_ifs at hblocked
  rwa [isPrivateAddress_lower] at hblocked

end

/-- What is documented of URLs: a URL is parsed back from its text, and the host of a web URL has no
percent sign. -/
structure Platform.Documented (platform : Platform) : Prop where
  reparse : ∀ value base url, platform.parseUrl value base = some url →
    platform.parseUrl url.href none = some url
  hostname :
    ∀ value base url,
      platform.parseUrl value base = some url →
        url.protocol = lit "http:" ∨ url.protocol = lit "https:" → percent ∉ url.hostname

/-- The address is one that the check of its host let through. -/
def PassedCheck (host : Text) (lookups : List Lookup) (address : Text) : Prop :=
  isBlockedHostname host = false
    ∧ isPrivateAddress address = false
    ∧ ((isIP host ≠ 0 ∧ address = host)
      ∨ ∃ lookup ∈ lookups, ∃ addresses,
          lookup.answer = .ok addresses ∧ assertPublicAddresses addresses = .ok ()
            ∧ address ∈ addresses.map ResolvedAddress.address)

section

variable {platform : Platform} {options : Options} {answer : Answer} {value address host : Text}
  {url : Url} {lookups : List Lookup} {lookup : Lookup} {addresses delivered : List ResolvedAddress}

theorem subset_of_select {wanted : LookupOptions} (h : selectLookupAddress addresses wanted = .ok delivered) :
    delivered ⊆ addresses := by
  unfold selectLookupAddress at h
  simp only at h
  split at h
  · split at h
    · cases h
    · obtain rfl := Except.ok.inj h
      exact filter_subset_self _
  · split at h
    · rename_i selected rest hcandidates
      obtain rfl := Except.ok.inj h
      intro entry hentry
      obtain rfl := mem_singleton.mp hentry
      exact filter_subset_self _ (hcandidates ▸ mem_cons_self)
    · cases h

theorem checkedLookup_ok (h : checkedLookup lookup = .ok delivered) :
    ∃ addresses, lookup.answer = .ok addresses ∧ assertPublicAddresses addresses = .ok () ∧
      delivered ⊆ addresses := by
  obtain ⟨addresses, hanswer, h⟩ := bind_eq_ok.mp h
  obtain ⟨_, hassert, hselect⟩ := bind_eq_ok.mp h
  exact ⟨addresses, hanswer, hassert, subset_of_select hselect⟩

/-- What the check of a hop asks of its URL and of what its host resolves to. -/
structure Url.Checked (url : Url) (answer : Answer) : Prop where
  protocol : url.protocol = lit "http:" ∨ url.protocol = lit "https:"
  credentials : url.username = [] ∧ url.password = []
  host : isBlockedHostname url.host = false
  resolved : ∃ addresses, answer = .ok addresses ∧ addresses ≠ [] ∧
    ∀ entry ∈ addresses, isPrivateAddress entry.address = false

theorem assertPublicAddresses_ok (h : assertPublicAddresses addresses = .ok ()) :
    addresses ≠ [] ∧ ∀ entry ∈ addresses, isPrivateAddress entry.address = false := by
  unfold assertPublicAddresses arePublic at h
  split_ifs at h with hpublic
  simp only [and_eq_true, not_eq_true', any_eq_false] at hpublic
  exact ⟨isEmpty_eq_false_iff.mp hpublic.1, fun entry hmem => by simpa using hpublic.2 entry hmem⟩

theorem assertSafeWebUrl_ok (h : assertSafeWebUrl platform answer value = .ok url) :
    platform.parseUrl value none = some url ∧ url.Checked answer := by
  unfold assertSafeWebUrl at h
  rcases hparse : platform.parseUrl value none with _ | parsed
  · rw [hparse] at h; cases h
  rw [hparse] at h
  simp only at h
  split_ifs at h with hprotocol hcredentials hblocked
  obtain ⟨addresses, hanswer, h⟩ := bind_eq_ok.mp h
  obtain ⟨_, hassert, h⟩ := bind_eq_ok.mp h
  obtain rfl := Except.ok.inj h
  refine ⟨rfl, ?_, not_or.mp hcredentials |>.imp not_not.mp not_not.mp, by simpa using hblocked,
    addresses, hanswer, assertPublicAddresses_ok hassert⟩
  by_contra hnot
  exact hprotocol (not_or.mp hnot)

section

variable (hdocumented : platform.Documented) (h : assertSafeWebUrl platform answer value = .ok url)
include hdocumented h

theorem percent_notMem_host : percent ∉ url.host := by
  obtain ⟨hparse, hchecked⟩ := assertSafeWebUrl_ok h
  have hhostname := hdocumented.hostname _ _ _ hparse hchecked.protocol
  have hsubset : url.host ⊆ url.hostname := by
    unfold Url.host unbracketed
    simp only
    split_ifs
    · exact fun code hcode => mem_of_mem_tail (dropLast_subset _ hcode)
    · exact tail_subset _
    · exact dropLast_subset _
    · exact List.Subset.refl _
  exact fun hmem => hhostname (hsubset hmem)

theorem passedCheck_of_dialled (hmem : address ∈ dialled url.host lookups) :
    PassedCheck url.host lookups address := by
  have hblocked := (assertSafeWebUrl_ok h).2.host
  unfold dialled at hmem
  split_ifs at hmem with hip
  · obtain rfl := mem_singleton.mp hmem
    exact ⟨hblocked, public_of_literal hblocked hip (percent_notMem_host hdocumented h), .inl ⟨hip, rfl⟩⟩
  · obtain ⟨lookup, hlookup, haddress⟩ := mem_flatMap.mp hmem
    rcases hchecked : checkedLookup lookup with _ | delivered
    · rw [hchecked] at haddress
      exact absurd haddress not_mem_nil
    rw [hchecked] at haddress
    obtain ⟨addresses, hanswer, hassert, hsubset⟩ := checkedLookup_ok hchecked
    obtain ⟨entry, hentry, rfl⟩ := mem_map.mp haddress
    refine ⟨hblocked, (assertPublicAddresses_ok hassert).2 entry (hsubset hentry),
      .inr ⟨lookup, hlookup, addresses, hanswer, hassert, ?_⟩⟩
    exact mem_map_of_mem (hsubset hentry)

end

end

def requests (attempts : List Attempt) : List Request :=
  attempts.filterMap fun
    | .requested request => some request
    | .refused _ _ => none

section

variable {platform : Platform} {options : Options} {world : ℕ → HopWorld}
  {redirectsRemaining hop : ℕ} {rawUrl : Text} {headers : Option Headers} {attempts : List Attempt}
  {result : Except String Fetched} {request : Request} {pool : List Text}

/-- How a fetch goes: it stops before a hop, at a check or at a response, or a redirect leads to the
rest. -/
inductive Followed (platform : Platform) (options : Options) (world : ℕ → HopWorld) :
    ℕ → ℕ → List Text → Text → Option Headers → List Attempt → Except String Fetched → Prop
  | aborted {remaining hop : ℕ} {pool : List Text} {rawUrl : Text} {headers : Option Headers}
    (error : String) :
      Followed platform options world remaining hop pool rawUrl headers [] (.error error)
  | refused {remaining hop : ℕ} {pool : List Text} {rawUrl : Text} {headers : Option Headers} {error : String}
      (h : assertSafeWebUrl platform (world hop).answer rawUrl = .error error) :
      Followed platform options world remaining hop pool rawUrl headers [.refused rawUrl error] (.error error)
  | ended {remaining hop : ℕ} {pool : List Text} {rawUrl : Text} {headers : Option Headers} {url : Url}
      (result : Except String Fetched) (h : assertSafeWebUrl platform (world hop).answer rawUrl = .ok url)
      (hconnected : ∀ fetched, result = .ok fetched →
        (requestOf options (world hop) pool url headers).isConnected) :
      Followed platform options world remaining hop pool rawUrl headers
        [.requested (requestOf options (world hop) pool url headers)] result
  | redirected {remaining hop : ℕ} {pool : List Text} {rawUrl location : Text} {headers : Option Headers}
      {url next : Url} {attempts : List Attempt} {result : Except String Fetched}
      (h : assertSafeWebUrl platform (world hop).answer rawUrl = .ok url)
      (hconnected : (requestOf options (world hop) pool url headers).isConnected)
      (hnext : platform.parseUrl location (some url.href) = some next)
      (rest : Followed platform options world remaining (hop + 1) (url.origin :: pool) next.href
        (if next.origin = url.origin then headers else none) attempts result) :
      Followed platform options world (remaining + 1) hop pool rawUrl headers
        (.requested (requestOf options (world hop) pool url headers) :: attempts) result

theorem isConnected_of_answerTo {hop : HopWorld} {request : Request} {response : Response}
    (h : hop.answerTo request = .ok response) : request.isConnected := by
  unfold HopWorld.answerTo at h
  split at h
  · assumption
  · cases h

theorem followed_followRedirects (platform : Platform) (options : Options) (world : ℕ → HopWorld)
    (redirectsRemaining hop : ℕ) (pool : List Text) (rawUrl : Text) (headers : Option Headers) :
    Followed platform options world redirectsRemaining hop pool rawUrl headers
      (followRedirects platform options world redirectsRemaining hop pool rawUrl headers).1
      (followRedirects platform options world redirectsRemaining hop pool rawUrl headers).2 := by
  induction redirectsRemaining generalizing hop pool rawUrl headers with
  | zero =>
    unfold followRedirects
    split_ifs with haborted
    · exact .aborted _
    rcases hassert : assertSafeWebUrl platform (world hop).answer rawUrl with _ | url
    · exact .refused hassert
    simp only
    rcases hanswer : (world hop).answerTo (requestOf options (world hop) pool url headers) with _ | response
    · exact .ended _ hassert nofun
    simp only
    split_ifs
    · exact .ended _ hassert nofun
    · exact .ended _ hassert fun _ _ => isConnected_of_answerTo hanswer
  | succ remaining ih =>
    unfold followRedirects
    split_ifs with haborted
    · exact .aborted _
    rcases hassert : assertSafeWebUrl platform (world hop).answer rawUrl with _ | url
    · exact .refused hassert
    simp only
    rcases hanswer : (world hop).answerTo (requestOf options (world hop) pool url headers) with _ | response
    · exact .ended _ hassert nofun
    have hconnected := isConnected_of_answerTo hanswer
    simp only
    split_ifs with hredirect
    · rcases response.location.filter (· ≠ []) with _ | location
      · exact .ended _ hassert nofun
      simp only
      cases hnext : platform.parseUrl location (some url.href) with
      | none => exact .ended _ hassert nofun
      | some next => exact .redirected hassert hconnected hnext (ih _ _ _ _)
    · exact .ended _ hassert fun _ _ => hconnected

theorem requests_requested (request : Request) (attempts : List Attempt) :
    requests (.requested request :: attempts) = request :: requests attempts := rfl

section

variable (h : Followed platform options world redirectsRemaining hop pool rawUrl headers attempts result)
include h

theorem Followed.checked {index : ℕ} (hrequest : (requests attempts)[index]? = some request) :
    ∃ value pool headers, assertSafeWebUrl platform (world (hop + index)).answer value = .ok request.url ∧
      request = requestOf options (world (hop + index)) pool request.url headers := by
  induction h generalizing index with
  | aborted | refused => cases hrequest
  | ended result h =>
    cases index with
    | zero =>
      obtain rfl := some.inj hrequest
      exact ⟨_, _, _, h, rfl⟩
    | succ index => cases hrequest
  | @redirected remaining hop _ _ _ _ _ _ _ _ h hconnected hnext rest ih =>
    cases index with
    | zero =>
      obtain rfl := some.inj hrequest
      exact ⟨_, _, _, h, rfl⟩
    | succ index =>
      rw [show hop + (index + 1) = hop + 1 + index by omega]
      exact ih hrequest

/-- All requests but the last have a connection, and the last too if the fetch succeeds. -/
theorem Followed.connected {before after : List Request}
    (hrequests : requests attempts = before ++ request :: after)
    (hgoes : after ≠ [] ∨ ∃ fetched, result = .ok fetched) :
    request.dialled ≠ [] ∨ request.url.origin ∈ pool ∨
      ∃ earlier ∈ before, earlier.url.origin = request.url.origin ∧ earlier.dialled ≠ [] := by
  have hreused : ∀ {hop : HopWorld} {pool : List Text} {url : Url} {headers : Option Headers},
      (requestOf options hop pool url headers).isConnected →
        (requestOf options hop pool url headers).dialled ≠ [] ∨ url.origin ∈ pool := by
    intro hop pool url headers hconnected
    obtain hreused | hdialled := or_eq_true_iff.mp hconnected
    · exact .inr (contains_iff_mem.mp (and_eq_true_iff.mp hreused).2)
    · exact .inl (of_decide_eq_true hdialled)
  induction h generalizing before with
  | aborted | refused => cases before <;> cases hrequests
  | ended result h hconnected =>
    obtain ⟨rfl, hlast⟩ : before = [] ∧ [_] = request :: after := by
      cases before with
      | nil => exact ⟨rfl, hrequests⟩
      | cons first before => cases before <;> cases hrequests
    obtain ⟨rfl, rfl⟩ := cons.inj hlast
    obtain hnil | ⟨fetched, hfetched⟩ := hgoes
    · exact absurd rfl hnil
    · exact (hreused (hconnected fetched hfetched)).imp_right .inl
  | redirected h hconnected hnext rest ih =>
    rw [requests_requested] at hrequests
    cases before with
    | nil =>
      obtain ⟨rfl, -⟩ := cons.inj hrequests
      exact (hreused hconnected).imp_right .inl
    | cons first before =>
      obtain ⟨rfl, hrest⟩ := cons.inj hrequests
      obtain hdialled | hpool | ⟨earlier, hearlier, hsame⟩ := ih hrest hgoes
      · exact .inl hdialled
      · obtain horigin | hpool := mem_cons.mp hpool
        · obtain hdialled | hpool := hreused hconnected
          · exact .inr (.inr ⟨_, mem_cons_self, horigin.symm, hdialled⟩)
          · exact .inr (.inl (horigin ▸ hpool))
        · exact .inr (.inl hpool)
      · exact .inr (.inr ⟨earlier, mem_cons_of_mem _ hearlier, hsame⟩)

theorem Followed.requests_ne_nil {fetched : Fetched} (hfetched : result = .ok fetched) :
    requests attempts ≠ [] := by
  cases h with
  | aborted | refused => cases hfetched
  | ended | redirected => exact cons_ne_nil _ _

theorem Followed.length_le : (requests attempts).length ≤ redirectsRemaining + 1 := by
  induction h with
  | aborted | refused => exact Nat.zero_le _
  | ended => exact Nat.le_add_left _ _
  | redirected h hconnected hnext rest ih =>
    rw [requests_requested, length_cons]
    omega

theorem Followed.refused_last {value : Text} {error : String} (hmem : .refused value error ∈ attempts) :
    attempts.getLast? = some (.refused value error) ∧ result = .error error := by
  induction h with
  | aborted => cases hmem
  | refused h =>
    obtain ⟨rfl, rfl⟩ := Attempt.refused.inj (mem_singleton.mp hmem)
    exact ⟨rfl, rfl⟩
  | ended result h => cases mem_singleton.mp hmem
  | redirected h hconnected hnext rest ih =>
    obtain heq | hrest := mem_cons.mp hmem
    · cases heq
    · obtain ⟨hlast, hresult⟩ := ih hrest
      exact ⟨by rw [getLast?_cons, hlast]; rfl, hresult⟩

theorem Followed.head_url
    (hhead : (requests attempts).head? = some request) :
    platform.parseUrl rawUrl none = some request.url := by
  cases h with
  | aborted | refused => cases hhead
  | ended result h | redirected h hconnected hnext rest =>
    obtain rfl := some.inj hhead
    exact (assertSafeWebUrl_ok h).1

end

/-- The requests all go to the origin of the first URL. -/
def sameOrigin (first : Url) (earlier : List Request) : Bool :=
  earlier.all fun request => request.url.origin = first.origin

theorem sameOrigin_congr {first other : Url} (h : first.origin = other.origin) :
    sameOrigin first = sameOrigin other := by
  unfold sameOrigin
  rw [h]

section

variable (hdocumented : platform.Documented)
  (h : Followed platform options world redirectsRemaining hop pool rawUrl headers attempts result)
include hdocumented h

/-- The headers of the caller are sent while the origin is that of the first URL, and never again
after another. -/
theorem Followed.callerHeaders {first : Url}
    (hfirst : platform.parseUrl rawUrl none = some first) {index : ℕ}
    (hrequest : (requests attempts)[index]? = some request) :
    request.callerHeaders
      = if sameOrigin first ((requests attempts).take (index + 1)) then headers else none := by
  induction h generalizing first index with
  | aborted | refused => cases hrequest
  | ended result h =>
    obtain rfl := some.inj ((assertSafeWebUrl_ok h).1.symm.trans hfirst)
    cases index with
    | zero =>
      obtain rfl := some.inj hrequest
      simp [requests, requestOf, sameOrigin]
    | succ index => cases hrequest
  | @redirected _ _ _ _ _ headers url next attempts _ h hconnected hnext rest ih =>
    obtain rfl := some.inj ((assertSafeWebUrl_ok h).1.symm.trans hfirst)
    rw [requests_requested] at hrequest ⊢
    cases index with
    | zero =>
      obtain rfl := some.inj hrequest
      simp [requestOf, sameOrigin]
    | succ index =>
      rw [getElem?_cons_succ] at hrequest
      have hparse := hdocumented.reparse _ _ _ hnext
      rw [ih hparse hrequest, take_succ_cons]
      -- the next hop is for the URL of the redirect
      obtain ⟨second, hsecond⟩ : ∃ second, (requests attempts).head? = some second := by
        cases hlist : requests attempts with
        | nil => rw [hlist] at hrequest; cases hrequest
        | cons second others => exact ⟨second, rfl⟩
      have hurl := rest.head_url hsecond
      rw [hparse] at hurl
      have hmem : second ∈ (requests attempts).take (index + 1) := by
        cases hlist : requests attempts with
        | nil => rw [hlist] at hsecond; cases hsecond
        | cons other others =>
          rw [hlist] at hsecond
          obtain rfl := some.inj hsecond
          exact mem_cons_self
      have horigin : second.url.origin = next.origin := by rw [some.inj hurl]
      by_cases hsame : next.origin = url.origin
      · rw [if_pos hsame, sameOrigin_congr hsame]
        simp [sameOrigin, requestOf]
      · rw [if_neg hsame, ite_self, if_neg]
        intro hall
        have hothers := all_eq_true.mp (and_eq_true_iff.mp hall).2 second hmem
        exact hsame (horigin.symm.trans (of_decide_eq_true hothers))

theorem Followed.dialled (hrequest : request ∈ requests attempts) {address : Text}
    (haddress : address ∈ request.dialled) :
    PassedCheck request.url.host request.lookups address := by
  obtain ⟨index, hindex⟩ := mem_iff_getElem?.mp hrequest
  obtain ⟨value, pool, headers, hassert, hrequest⟩ := h.checked hindex
  have hdials : request.lookups = (world (hop + index)).lookups ∧
      request.dialled ⊆ Network.dialled request.url.host request.lookups := by
    rw [hrequest]
    refine ⟨rfl, ?_⟩
    unfold requestOf
    dsimp only
    split
    · exact nil_subset _
    · exact Subset.refl _
  exact passedCheck_of_dialled hdocumented hassert (hdials.2 haddress)

end

/-- What holds of a fetch: a hop is asked for only when it passed its check, and the fetch goes on
from it only over a connection, which was dialled for it or for an earlier hop to its origin. -/
structure FetchSafe (platform : Platform) (options : Options) (world : ℕ → HopWorld) (url : Text)
  (attempts : List Attempt)
    (result : Except String Fetched) : Prop where
  checked : ∀ (index : ℕ) request, (requests attempts)[index]? = some request →
    request.url.Checked (world index).answer
  dialled : ∀ request ∈ requests attempts, ∀ address ∈ request.dialled,
    PassedCheck request.url.host request.lookups address
  atMost : (requests attempts).length ≤ 6
  callerHeaders : ∀ first, platform.parseUrl url none = some first →
    ∀ (index : ℕ) request, (requests attempts)[index]? = some request → request.callerHeaders =
      if sameOrigin first ((requests attempts).take (index + 1)) then options.headers else none
  headers : ∀ request ∈ requests attempts, request.headers =
    requestHeaders options.userAgent request.callerHeaders
  unparsed : platform.parseUrl url none = none → requests attempts = []
  refused : ∀ value error, .refused value error ∈ attempts →
    attempts.getLast? = some (.refused value error) ∧ result = .error error
  connected : ∀ before request after, requests attempts = before ++ request :: after →
    (after ≠ [] ∨ ∃ fetched, result = .ok fetched) → request.dialled ≠ [] ∨
      ∃ earlier ∈ before, earlier.url.origin = request.url.origin ∧ earlier.dialled ≠ []
  asked : ∀ fetched, result = .ok fetched → requests attempts ≠ []

/-- Whatever the servers and the resolver answer. -/
theorem fetchSafeWebText_safe (platform : Platform) (hdocumented : platform.Documented) (options : Options)
    (world : ℕ → HopWorld) (url : Text) :
    FetchSafe platform options world url (fetchSafeWebText platform options world url).1
      (fetchSafeWebText platform options world url).2 := by
  have h := followed_followRedirects platform options world maxRedirects 0 [] url options.headers
  refine ⟨fun index request hindex => ?_,
    fun request hrequest address => h.dialled hdocumented hrequest, h.length_le,
    fun first hfirst index request => h.callerHeaders hdocumented hfirst, fun request hrequest => ?_, fun hnone => ?_,
    fun value error => h.refused_last, fun before request after hsplit hgoes => ?_, fun fetched => h.requests_ne_nil⟩
  · obtain ⟨value, pool, headers, hassert, -⟩ := h.checked hindex
    rw [Nat.zero_add] at hassert
    exact (assertSafeWebUrl_ok hassert).2
  · obtain ⟨index, hindex⟩ := mem_iff_getElem?.mp hrequest
    obtain ⟨value, pool, headers, -, heq⟩ := h.checked hindex
    rw [heq]
    rfl
  · cases hlist : requests (fetchSafeWebText platform options world url).1 with
    | nil => rfl
    | cons request others =>
      have hfirst : (requests (fetchSafeWebText platform options world url).1).head? = some request := by
        rw [hlist]
        rfl
      have hhead := h.head_url hfirst
      rw [hnone] at hhead
      cases hhead
  · exact (h.connected hsplit hgoes).imp_right fun hpool => hpool.resolve_left not_mem_nil

end

def exampleUrl (origin : String) : Url where
  href := lit origin ++ lit "/"
  protocol := lit "https:"
  username := []
  password := []
  hostname := (lit origin).drop 8
  origin := lit origin

def examplePlatform : Platform where
  parseUrl value _ :=
    if value = lit "https://example.com/" then some (exampleUrl "https://example.com")
    else if value = lit "https://example.org/" then some (exampleUrl "https://example.org")
    else none
  number _ := none
  decode bytes := bytes.map fun byte => byte.toUInt16

theorem examplePlatform_documented : examplePlatform.Documented := by
  have hparse : ∀ value base url, examplePlatform.parseUrl value base = some url →
      url = exampleUrl "https://example.com" ∨ url = exampleUrl "https://example.org" := by
    intro value base url h
    simp only [examplePlatform] at h
    split_ifs at h
    · exact .inl (some.inj h).symm
    · exact .inr (some.inj h).symm
  constructor
  · intro value base url h
    obtain rfl | rfl := hparse value base url h <;> rfl
  · intro value base url h _
    obtain rfl | rfl := hparse value base url h <;> decide

def examplePublic : Answer := .ok [{ address := lit "203.0.113.10", family := 4 }]

/-- The first hop leads to another origin, where the name resolves to a private address once it is
dialled. -/
def exampleWorld (hop : ℕ) : HopWorld where
  aborted := false
  answer := examplePublic
  reuses := true
  lookups :=
    [{ options := { all := true, family := 0 },
       answer := if hop = 0 then examplePublic else .ok [{ address := lit "10.0.0.1", family := 4 }] }]
  response :=
    .ok
      { status := if hop = 0 then 302 else 200
        location := some (lit "https://example.org/")
        contentLength := none
        contentType := none
        body := [] }

def exampleOptions : Options where
  userAgent := lit "agent"
  headers := some [(lit "authorization", lit "token")]
  maxBytes := 10

theorem fetchSafeWebText_safe_redirected : ∃ attempts result,
    fetchSafeWebText examplePlatform exampleOptions exampleWorld (lit "https://example.com/") = (attempts, result) ∧
      FetchSafe examplePlatform exampleOptions exampleWorld (lit "https://example.com/") attempts result ∧
      (requests attempts).map Request.dialled = [[lit "203.0.113.10"], []] ∧
      (requests attempts).map Request.callerHeaders = [exampleOptions.headers, none] ∧ result.toOption.isNone :=
  ⟨_, _, rfl, fetchSafeWebText_safe examplePlatform examplePlatform_documented exampleOptions exampleWorld _,
    by decide +kernel, by decide +kernel, by decide +kernel⟩

end ArdurBot.Network
