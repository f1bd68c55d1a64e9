import ArdurBot.Core.Redaction

/-!
# The streaming redactor

`createStreamingRedactor` of `packages/core/src/events.ts` redacts a text that arrives in chunks. It
keeps a buffer of undecided text: a position is decided only when as many units follow it as the
longest secret has, and a surrogate pair is never cut between two outputs.

Whatever the chunks are, what the outputs concatenate to is the whole text redacted and sanitized at
once (`streamed_eq_whole`). The step lemma is `drainLoop_spec`: a drain moves a part of the scan of
the buffer into the output, and the same part whatever text still follows.
-/

namespace ArdurBot.Core

open List Utf16 Scan

/-- `values`, `maxLength` and the mutable `buffer` that the closure keeps. -/
structure StreamingRedactor where
  values : List Secret
  maxLength : Nat
  buffer : JsString

def createStreamingRedactor (secrets : List JsString) : StreamingRedactor :=
  let values := activeSecrets secrets
  { values, maxLength := values.head?.elim 0 fun longest => longest.val.length, buffer := [] }

def charCodeAt (value : JsString) (index : Nat) : CodeUnit := value.getD index 0

/-- The `while (offset < safeStartLimit)` loop of `drain`; the result is the output and the offset
the loop stops at. -/
def drainLoop (values : List Secret) (buffer : JsString) (final : Bool) (safeStartLimit : Nat)
    (offset : Nat) (output : JsString) : JsString × Nat :=
  if offset < safeStartLimit then
    match values.find? fun value => secretAt buffer value.val offset with
    | some secret =>
      drainLoop values buffer final safeStartLimit (offset + secret.val.length) (output ++ redacted)
    | none =>
      let code := charCodeAt buffer offset
      if isHighSurrogate code then
        match nextCode buffer (offset + 1) with
        | some next =>
          if isLowSurrogate next then
            -- the low unit lies outside the drain window: both wait
            if !final && offset + 1 ≥ safeStartLimit then (output, offset)
            else drainLoop values buffer final safeStartLimit (offset + 2) (output ++ [code, next])
          else drainLoop values buffer final safeStartLimit (offset + 1) (output ++ [code])
        | none =>
          if !final then (output, offset)
          else drainLoop values buffer final safeStartLimit (offset + 1) (output ++ [code])
      else drainLoop values buffer final safeStartLimit (offset + 1) (output ++ [code])
  else (output, offset)
termination_by safeStartLimit - offset
decreasing_by
  · have := secret.length_pos
    omega
  all_goals omega

def endsWithHighSurrogate (value : JsString) : Bool := endsHigh value

/-- The output of the drain window and the buffer after it. -/
def drainWindow (r : StreamingRedactor) (final : Bool) : JsString × JsString :=
  if r.values.isEmpty then (r.buffer, [])
  else
    let safeStartLimit := if final then r.buffer.length else r.buffer.length - r.maxLength
    let (output, offset) := drainLoop r.values r.buffer final safeStartLimit 0 []
    (output, r.buffer.drop offset)

/-- The part of `drain` before the output is sanitized: a trailing high surrogate goes back in front
of the buffer. -/
def drainRaw (r : StreamingRedactor) (final : Bool) : JsString × JsString :=
  let (output, buffer) := drainWindow r final
  if !final && endsWithHighSurrogate output then
    (output.dropLast, output.drop (output.length - 1) ++ buffer)
  else (output, buffer)

def drain (r : StreamingRedactor) (final : Bool) : JsString × StreamingRedactor :=
  let (output, buffer) := drainRaw r final
  (sanitizeUtf16ForJson output, { r with buffer })

def StreamingRedactor.push (r : StreamingRedactor) (chunk : JsString) : JsString × StreamingRedactor :=
  drain { r with buffer := r.buffer ++ chunk } false

def StreamingRedactor.finish (r : StreamingRedactor) : JsString × StreamingRedactor := drain r true

/-- What the pushes and the final `finish` return, one after another. -/
def StreamingRedactor.outputs (r : StreamingRedactor) : List JsString → List JsString
  | [] => [r.finish.1]
  | chunk :: chunks => (r.push chunk).1 :: (r.push chunk).2.outputs chunks

def streamed (secrets chunks : List JsString) : JsString :=
  ((createStreamingRedactor secrets).outputs chunks).flatten

/-! ### Where a drain stands in the scan

`text` is the buffer with whatever will still follow it. A drain never sees what follows, so each
step lemma is about the whole of `text` and the loop lemma supplies the fact that the choice is the
same. -/

/-- A scan of `text` that has written `output` and goes on at `offset`, and that would not have
chosen differently had it been told to start one unit earlier when that unit is a high surrogate. -/
structure DrainedTo (values : List Secret) (text output : JsString) (offset : Nat) : Prop where
  scanned : output ++ replaceAll values redacted (text.drop offset) = replaceAll values redacted text
  undecided : ∀ before u, output = before ++ [u] → isHigh u → firstMatch values (u :: text.drop offset) = none

section Steps

variable {values : List Secret} {text output : JsString} {offset : Nat}

theorem firstMatch_low (hwf : ∀ s ∈ values, WellFormed s.val) {u : CodeUnit} (hu : isLow u)
    (rest : JsString) : firstMatch values (u :: rest) = none := by
  rw [firstMatch_none]
  intro s hs hstart
  obtain ⟨v, t, hval⟩ := exists_cons_of_ne_nil s.property
  have hhead : v = u := (cons_prefix_cons.mp (hval ▸ hstart)).1
  have hnot : isLow v = false := (hval ▸ hwf s hs : WellFormed (v :: t)).not_isLow_head
  simp [hhead, hu] at hnot

theorem DrainedTo.secret (h : DrainedTo values text output offset) {s : Secret}
    (hs : firstMatch values (text.drop offset) = some s) :
    DrainedTo values text (output ++ redacted) (offset + s.val.length) := by
  constructor
  · rw [← h.scanned, replaceAll_of_some hs, drop_drop, append_assoc]
  · intro before u hlast hhigh
    have hmask : redacted = lit "[redacted" ++ [93] := by decide
    rw [hmask, ← append_assoc] at hlast
    have hu : 93 = u := by simpa using (append_inj' hlast rfl).2
    subst hu
    exact absurd hhigh (by decide)

theorem DrainedTo.unit (h : DrainedTo values text output offset) {u : CodeUnit} {rest : JsString}
    (hdrop : text.drop offset = u :: rest) (hnone : firstMatch values (u :: rest) = none) :
    DrainedTo values text (output ++ [u]) (offset + 1) := by
  have hrest : text.drop (offset + 1) = rest := by
    rw [← drop_drop, hdrop, drop_succ_cons, drop_zero]
  constructor
  · rw [← h.scanned, hdrop, replaceAll_of_none hnone, hrest, append_assoc, singleton_append]
  · intro before v hlast _
    have hv : u = v := by simpa using (append_inj' hlast rfl).2
    rw [hrest, ← hv]
    exact hnone

theorem DrainedTo.pair (h : DrainedTo values text output offset)
    (hwf : ∀ s ∈ values, WellFormed s.val) {u v : CodeUnit} {rest : JsString}
    (hdrop : text.drop offset = u :: v :: rest) (hnone : firstMatch values (u :: v :: rest) = none)
    (hv : isLow v) : DrainedTo values text (output ++ [u, v]) (offset + 2) := by
  have hrest : text.drop (offset + 1) = v :: rest := by
    rw [← drop_drop, hdrop, drop_succ_cons, drop_zero]
  have hboth := (h.unit hdrop hnone).unit hrest (firstMatch_low hwf hv rest)
  rwa [append_assoc] at hboth

end Steps

section Loop

variable {values : List Secret} {buffer future : JsString} {final : Bool} {safeStartLimit : Nat}

/-- The loop only moves along the scan, provided what follows the buffer changes no choice it
makes. -/
theorem drainLoop_spec (hwf : ∀ s ∈ values, WellFormed s.val)
    (hlimit : safeStartLimit ≤ buffer.length) (hlocal : ∀ i < safeStartLimit,
      firstMatch values ((buffer ++ future).drop i) = firstMatch values (buffer.drop i))
    {offset : Nat} {output : JsString} (hoffset : offset ≤ buffer.length)
    (h : DrainedTo values (buffer ++ future) output offset) :
    DrainedTo values (buffer ++ future)
        (drainLoop values buffer final safeStartLimit offset output).1
        (drainLoop values buffer final safeStartLimit offset output).2 ∧
      (drainLoop values buffer final safeStartLimit offset output).2 ≤ buffer.length := by
  have hunits : ∀ i < safeStartLimit, (buffer ++ future).drop i =
      charCodeAt buffer i :: (buffer ++ future).drop (i + 1) := by
    intro i hi
    have hin : i < buffer.length := hi.trans_le hlimit
    have hboth : i < (buffer ++ future).length := by
      rw [length_append]
      omega
    have hcode : charCodeAt buffer i = buffer[i] := by simp [charCodeAt, List.getD, hin]
    rw [drop_eq_getElem_cons hboth, getElem_append_left hin, hcode]
  have hunit : ∀ i output, i < safeStartLimit → firstMatch values (buffer.drop i) = none →
      DrainedTo values (buffer ++ future) output i →
      DrainedTo values (buffer ++ future) (output ++ [charCodeAt buffer i]) (i + 1) := by
    intro i output hi hnone hto
    exact hto.unit (hunits i hi) (hunits i hi ▸ (hlocal i hi).trans hnone)
  fun_induction drainLoop values buffer final safeStartLimit offset output with
  | case1 offset output hlt s hs ih =>
    have hmatch : firstMatch values (buffer.drop offset) = some s := hs
    refine ih ?_ (h.secret ((hlocal offset hlt).trans hmatch))
    have hlen := (firstMatch_some hmatch).2.length_le
    rw [length_drop] at hlen
    omega
  | case2 offset output hlt hnone code hhigh next hnext hlow hwait => exact ⟨h, hoffset⟩
  | case3 offset output hlt hnone code hhigh next hnext hlow hgo ih =>
    obtain ⟨hin, hget⟩ := List.getElem?_eq_some_iff.mp hnext
    have hdrop : (buffer ++ future).drop offset = code :: next :: (buffer ++ future).drop (offset + 2) := by
      have hboth : offset + 1 < (buffer ++ future).length := by
        rw [length_append]
        omega
      rw [hunits offset hlt, drop_eq_getElem_cons hboth, getElem_append_left hin, hget]
    have hmatch := (hlocal offset hlt).trans hnone
    rw [hdrop] at hmatch
    exact ih (by omega) (h.pair hwf hdrop hmatch hlow)
  | case4 offset output hlt hnone code hhigh next hnext hlow ih =>
    exact ih (by omega) (hunit offset output hlt hnone h)
  | case5 offset output hlt hnone code hhigh hnext hwait => exact ⟨h, hoffset⟩
  | case6 offset output hlt hnone code hhigh hnext hgo ih =>
    exact ih (by omega) (hunit offset output hlt hnone h)
  | case7 offset output hlt hnone code hhigh ih =>
    exact ih (by omega) (hunit offset output hlt hnone h)
  | case8 offset output hlt => exact ⟨h, hoffset⟩

theorem drainLoop_final_offset (offset : Nat) (output : JsString) :
    safeStartLimit ≤ (drainLoop values buffer true safeStartLimit offset output).2 := by
  fun_induction drainLoop values buffer true safeStartLimit offset output with
  | case1 offset output hlt s hs ih => exact ih
  | case2 offset output hlt hnone code hhigh next hnext hlow hwait => simp at hwait
  | case3 offset output hlt hnone code hhigh next hnext hlow hgo ih => exact ih
  | case4 offset output hlt hnone code hhigh next hnext hlow ih => exact ih
  | case5 offset output hlt hnone code hhigh hnext hwait => simp at hwait
  | case6 offset output hlt hnone code hhigh hnext hgo ih => exact ih
  | case7 offset output hlt hnone code hhigh ih => exact ih
  | case8 offset output hlt => exact Nat.le_of_not_lt hlt

end Loop

/-- What the closure keeps true of `maxLength`. -/
structure StreamingRedactor.Sound (r : StreamingRedactor) : Prop where
  wellFormed : ∀ s ∈ r.values, WellFormed s.val
  bounded : ∀ s ∈ r.values, s.val.length ≤ r.maxLength

variable {secrets : List JsString} {r : StreamingRedactor}

theorem sound_createStreamingRedactor (hwf : ∀ s ∈ secrets, WellFormed s) :
    (createStreamingRedactor secrets).Sound := by
  constructor
  · intro s hs
    exact hwf s.val (mem_activeSecrets.mp hs)
  · intro s hs
    have hactive : s ∈ activeSecrets secrets := hs
    cases h : activeSecrets secrets with
    | nil => simp [h] at hactive
    | cons longest others =>
      have hlen := length_le_of_activeSecrets_eq_cons h s hactive
      simpa [createStreamingRedactor, h] using hlen

/-- Before the trailing surrogate is put back, a drain has moved a part of the scan into the
output. -/
private theorem drainedTo_drain (hr : r.Sound) (final : Bool) (future : JsString)
    (hfuture : final → future = []) :
    let limit := if final then r.buffer.length else r.buffer.length - r.maxLength
    DrainedTo r.values (r.buffer ++ future) (drainLoop r.values r.buffer final limit 0 []).1
        (drainLoop r.values r.buffer final limit 0 []).2 ∧
      (drainLoop r.values r.buffer final limit 0 []).2 ≤ r.buffer.length := by
  intro limit
  have hlimit : limit ≤ r.buffer.length := by
    cases final <;> simp [limit]
  apply drainLoop_spec hr.wellFormed hlimit _ (Nat.zero_le _) ⟨by simp, fun before u h => by simp at h⟩
  intro i hi
  cases final with
  | true => rw [hfuture rfl, append_nil]
  | false =>
    have hwindow : i < r.buffer.length - r.maxLength := hi
    rw [drop_append_of_le_length (by omega)]
    apply firstMatch_append
    intro s hs
    have := hr.bounded s hs
    rw [length_drop]
    omega

theorem drainRaw_final (hr : r.Sound) : (drainRaw r true).1 = replaceAll r.values redacted r.buffer := by
  by_cases hvalues : r.values = []
  · simp [drainRaw, drainWindow, hvalues, replaceAll_no_patterns]
  · obtain ⟨hdrained, hle⟩ := drainedTo_drain hr true [] (fun _ => rfl)
    have hge : r.buffer.length ≤ (drainLoop r.values r.buffer true r.buffer.length 0 []).2 :=
      drainLoop_final_offset 0 []
    have hscanned := hdrained.scanned
    simp only [append_nil, if_true] at hscanned hle
    rw [drop_eq_nil_of_le hge, replaceAll_nil, append_nil] at hscanned
    simp [drainRaw, drainWindow, hvalues, hscanned]

private theorem drainWindow_spec (hr : r.Sound) (future : JsString) :
    (drainWindow r false).1 ++ replaceAll r.values redacted ((drainWindow r false).2 ++ future) =
        replaceAll r.values redacted (r.buffer ++ future) ∧
      ∀ before u, (drainWindow r false).1 = before ++ [u] → isHigh u →
        firstMatch r.values (u :: ((drainWindow r false).2 ++ future)) = none := by
  by_cases hvalues : r.values = []
  · refine ⟨?_, fun _ _ _ _ => by rw [hvalues]; rfl⟩
    simp [drainWindow, hvalues, replaceAll_no_patterns]
  · obtain ⟨hdrained, hle⟩ := drainedTo_drain hr false future (fun h => by simp at h)
    simp only [Bool.false_eq_true, if_false] at hdrained hle
    simp only [drainWindow, List.isEmpty_iff, hvalues, if_false, Bool.false_eq_true, ← drop_append_of_le_length hle]
    exact ⟨hdrained.scanned, hdrained.undecided⟩

/-- An earlier drain may be run before the rest of the text is known: what it returns and what it
keeps redact and sanitize to the same as the buffer did, whatever follows. -/
theorem drainRaw_spec (hr : r.Sound) (future : JsString) :
    replaceLone (replaceAll r.values redacted (r.buffer ++ future)) =
      replaceLone (drainRaw r false).1 ++
        replaceLone (replaceAll r.values redacted ((drainRaw r false).2 ++ future)) := by
  obtain ⟨hscanned, hwaits⟩ := drainWindow_spec hr future
  rw [← hscanned]
  by_cases hends : endsHigh (drainWindow r false).1
  · have hne : (drainWindow r false).1 ≠ [] := by
      intro h
      simp [h] at hends
    obtain ⟨before, u, hout⟩ : ∃ before u, (drainWindow r false).1 = before ++ [u] :=
      ⟨_, _, (dropLast_append_getLast hne).symm⟩
    have hhigh : isHigh u := by rwa [hout, endsHigh_concat] at hends
    have hput : drainRaw r false = (before, u :: (drainWindow r false).2) := by
      simp [drainRaw, endsWithHighSurrogate, hout, endsHigh_concat, hhigh]
    rw [hput, hout, append_assoc, singleton_append, cons_append, replaceAll_of_none (hwaits before u hout hhigh)]
    apply replaceLone_append
    intro _
    simpa using not_isLow_of_isHigh hhigh
  · have hkeep : drainRaw r false = drainWindow r false := by
      simp [drainRaw, endsWithHighSurrogate, hends]
    rw [hkeep]
    exact replaceLone_append _ _ fun h => absurd h hends

theorem outputs_flatten (hr : r.Sound) (chunks : List JsString) : (r.outputs chunks).flatten =
      replaceLone (replaceAll r.values redacted (r.buffer ++ chunks.flatten)) := by
  induction chunks generalizing r with
  | nil =>
    simp only [StreamingRedactor.outputs, StreamingRedactor.finish, drain, sanitizeUtf16ForJson_eq,
      drainRaw_final hr, flatten_cons, flatten_nil, append_nil]
  | cons chunk chunks ih =>
    have hpushed : ({ r with buffer := r.buffer ++ chunk } : StreamingRedactor).Sound :=
      ⟨hr.wellFormed, hr.bounded⟩
    have hdrain := drainRaw_spec hpushed chunks.flatten
    rw [StreamingRedactor.outputs, flatten_cons, ih (r := (r.push chunk).2) ⟨hr.wellFormed, hr.bounded⟩, flatten_cons,
      ← append_assoc, hdrain]
    simp only [StreamingRedactor.push, drain, sanitizeUtf16ForJson_eq]

theorem streamed_eq_whole (hwf : ∀ s ∈ secrets, WellFormed s) (chunks : List JsString) :
    streamed secrets chunks = sanitizeUtf16ForJson (redactSecrets chunks.flatten secrets) := by
  rw [streamed, outputs_flatten (sound_createStreamingRedactor hwf), sanitizeUtf16ForJson_eq,
    redactSecrets_eq]
  rfl

/-- What the redactor hides stays hidden. A secret that can overlap the mask, such as "act", shows
in every mask, and sanitizing can write a U+FFFD that the secret has. -/
theorem not_infix_redacted {s : JsString} (hs : s ∈ secrets) (hne : s ≠ [])
    (hov : ¬ Overlaps redacted s) (hrep : replacement ∉ s) (text : JsString) :
    ¬ s <:+: sanitizeUtf16ForJson (redactSecrets text secrets) := by
  rw [sanitizeUtf16ForJson_eq, redactSecrets_eq]
  intro hshows
  have hactive : (⟨s, hne⟩ : Secret) ∈ activeSecrets secrets := mem_activeSecrets.mpr hs
  exact not_infix_replaceAll hactive (by decide) hov text (infix_of_infix_replaceLone hrep hshows)

/-- **Streaming redaction is whole-text redaction**, and no prefix of the stream shows a secret that
neither overlaps the mask nor contains U+FFFD. -/
theorem streaming_redaction (secrets : List JsString) (hwf : ∀ s ∈ secrets, WellFormed s)
    (text : JsString) (chunks : List JsString) (hcut : chunks.flatten = text) :
    streamed secrets chunks = sanitizeUtf16ForJson (redactSecrets text secrets) ∧
      ∀ shown, shown <+: streamed secrets chunks → ∀ s ∈ secrets, s ≠ [] →
        ¬ Overlaps redacted s → replacement ∉ s → ¬ s <:+: shown := by
  have hwhole := streamed_eq_whole hwf chunks
  rw [hcut] at hwhole
  refine ⟨hwhole, fun shown hshown s hs hne hov hrep hin => ?_⟩
  rw [hwhole] at hshown
  exact not_infix_redacted hs hne hov hrep text (hin.trans hshown.isInfix)

/-- "key" cut inside, after half a surrogate pair. -/
theorem streaming_redaction_key : streamed [lit "key"] [0xd83d :: [], 0xde00 :: lit "k", lit "ey."] =
      sanitizeUtf16ForJson (redactSecrets ([0xd83d, 0xde00] ++ lit "key.") [lit "key"]) ∧
      ∀ shown, shown <+: streamed [lit "key"] [0xd83d :: [], 0xde00 :: lit "k", lit "ey."] →
        ∀ s ∈ [lit "key"], s ≠ [] → ¬ Overlaps redacted s → replacement ∉ s → ¬ s <:+: shown :=
  streaming_redaction [lit "key"] (by decide) _ _ (by decide)

/-- The mask spells a secret out. -/
theorem mask_shows_secret : ¬ ∀ (secrets : List JsString) (text : JsString) (chunks : List JsString),
      (∀ s ∈ secrets, WellFormed s) → chunks.flatten = text →
        streamed secrets chunks = sanitizeUtf16ForJson (redactSecrets text secrets) ∧
        ∀ shown, shown <+: streamed secrets chunks → ∀ s ∈ secrets, s ≠ [] → ¬ s <:+: shown := by
  intro h
  obtain ⟨-, hhidden⟩ := h [lit "redacted"] (lit "redacted") [lit "redacted"] (by decide) (by decide)
  apply hhidden (lit "[redacted]") _ (lit "redacted") mem_cons_self (by decide)
  · exact ⟨lit "[", lit "]", by decide⟩
  · have hout : streamed [lit "redacted"] [lit "redacted"] = lit "[redacted]" := by decide +kernel
    exact ⟨[], by rw [hout, append_nil]⟩

end ArdurBot.Core
