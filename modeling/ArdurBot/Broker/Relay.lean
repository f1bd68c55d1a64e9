import ArdurBot.Broker.ProviderRun

/-!
# The dispatcher of a relay

`HermesRelayDispatcher` of `packages/adapters/src/hermes-provider-broker.ts`: a connection opens one
request of the broker at a time, and reads its response in chunks. Other requests may be open on the
broker.
-/

namespace ArdurBot.ProviderBroker

open List
open Option hiding map map_map

/-- The bytes of a chunk: `24 * 1024`. -/
def chunkBytes : ℕ := 24 * 1024

structure Chunk where
  seq : ℕ
  bytes : Bytes
  done : Bool
deriving DecidableEq

structure Served where
  request : ℕ
  response : Bytes
  chunks : List Chunk
deriving DecidableEq

/-- `opening` is the request that is awaited. The responses that were `served`, with the last first,
are not kept anywhere. -/
structure Relay where
  broker : Calls.State Broker Request
  opening : Option ℕ
  response : Option Bytes
  readSequence : ℕ
  served : List Served

/-- The broker goes on, with requests of others too; or the relay is asked to open a request, sees
that it was opened, is asked to cancel, or is asked for a chunk. -/
inductive RelayOp where
  | broker (op : Calls.Op Request Answer Event)
  | openProvider (r : Request)
  | opened
  | cancel
  | read (seq : ℕ)

def chunkAt (response : Bytes) (seq : ℕ) : Chunk where
  seq
  bytes := (response.drop (seq * chunkBytes)).take chunkBytes
  done := response.length ≤ (seq + 1) * chunkBytes

def handOut (served : List Served) (chunk : Chunk) : List Served :=
  match served with
  | [] => []
  | first :: rest => { first with chunks := first.chunks ++ [chunk] } :: rest

namespace Relay

section

variable (s : Relay)

def openProvider (r : Request) : Relay :=
  if s.opening.isSome || s.response.isSome then s
  else { s with broker := Calls.step program s.broker (.start r), opening := some s.broker.calls.length }

def serve (index : ℕ) (response : Bytes) : Relay :=
  { s with
    opening := none
    response := some response
    readSequence := 0
    served := { request := index, response, chunks := [] } :: s.served }

/-- The broker's `open` settles. -/
def opened : Relay :=
  match s.opening with
  | none => s
  | some index =>
    match (s.broker.calls[index]?).map Request.phase with
    | some (.done (some response)) => s.serve index response
    | some (.done none) => { s with opening := none }
    | _ => s

def cancel : Relay :=
  { s with
    broker := if s.opening.isSome then Calls.step program s.broker (.environment .revoke) else s.broker
    response := none }

def read (seq : ℕ) : Relay :=
  match s.response with
  | none => s
  | some response =>
    if seq ≠ s.readSequence then s
    else
      { s with
        readSequence := s.readSequence + 1
        response := if (chunkAt response s.readSequence).done then none else some response
        served := handOut s.served (chunkAt response s.readSequence) }

def step : RelayOp → Relay
  | .broker op => { s with broker := Calls.step program s.broker op }
  | .openProvider r => s.openProvider r
  | .opened => s.opened
  | .cancel => s.cancel
  | .read seq => s.read seq

end

end Relay

def newRelay (translated requiresModel admits : Bool) (expiresAt now : ℕ) : Relay where
  broker := ⟨newBroker translated requiresModel admits expiresAt now, []⟩
  opening := none
  response := none
  readSequence := 0
  served := []

def RelayOp.isStart : RelayOp → Prop
  | .broker op => Calls.OnStarts Request.isNew op
  | .openProvider r => r.isNew
  | _ => True

instance : ∀ op : RelayOp, Decidable op.isStart
  | .broker op => inferInstanceAs (Decidable (Calls.OnStarts Request.isNew op))
  | .openProvider r => inferInstanceAs (Decidable r.isNew)
  | .opened => inferInstanceAs (Decidable True)
  | .cancel => inferInstanceAs (Decidable True)
  | .read _ => inferInstanceAs (Decidable True)

def RelayTimely (s : Relay) : RelayOp → Prop
  | .broker op => Calls.OnActs Timely s.broker op
  | _ => True

instance (s : Relay) : ∀ op, Decidable (RelayTimely s op)
  | .broker op => inferInstanceAs (Decidable (Calls.OnActs Timely s.broker op))
  | .openProvider _ => inferInstanceAs (Decidable True)
  | .opened => inferInstanceAs (Decidable True)
  | .cancel => inferInstanceAs (Decidable True)
  | .read _ => inferInstanceAs (Decidable True)

section

variable (response : Bytes) (count : ℕ)

/-- The chunks of a response that have been handed out. -/
def chunksOf : List Chunk := (List.range count).map (chunkAt response)

theorem chunksOf_succ :
    chunksOf response (count + 1) = chunksOf response count ++ [chunkAt response count] := by
  unfold chunksOf
  rw [range_succ, map_append, map_singleton]

theorem seq_chunksOf : (chunksOf response count).map Chunk.seq = range count := by
  unfold chunksOf
  rw [map_map]
  exact map_id _

theorem length_chunksOf : (chunksOf response count).length = count := by
  unfold chunksOf
  rw [length_map, length_range]

theorem flatten_chunksOf :
    ((chunksOf response count).map Chunk.bytes).flatten = response.take (count * chunkBytes) := by
  induction count with
  | zero =>
    rw [Nat.zero_mul, take_zero]
    rfl
  | succ count ih =>
    rw [chunksOf_succ, map_append, flatten_append, ih, Nat.succ_mul, take_add]
    congr 1
    exact append_nil _

end

/-- What was handed out of a response: its chunks in order, of which the last one ends it, none
twice. -/
structure ServedOk (b : Broker) (served : Served) : Prop where
  delivered : (served.request, served.response) ∈ b.delivered
  inOrder : served.chunks.map Chunk.seq = List.range served.chunks.length
  bytes : (served.chunks.map Chunk.bytes).flatten = served.response.take (served.chunks.length * chunkBytes)
  whole : ∀ chunk ∈ served.chunks, chunk.done → (served.chunks.map Chunk.bytes).flatten = served.response
  last : ∀ chunk ∈ served.chunks, chunk.done → chunk.seq + 1 = served.chunks.length

structure RelayOk (s : Relay) : Prop where
  served : ∀ served ∈ s.served, ServedOk s.broker.shared served
  once : (s.served.map Served.request).Nodup

/-- How far a response has been handed out: as far as its chunks go, which do not end before. -/
structure HandedOut (b : Broker) (served : Served) : Prop where
  delivered : (served.request, served.response) ∈ b.delivered
  chunks : served.chunks = chunksOf served.response served.chunks.length
  more : ∀ count, count + 1 < served.chunks.length → (count + 1) * chunkBytes < served.response.length

variable {b : Broker} {served : Served} {s : Relay} {index : ℕ} {response : Bytes}

theorem HandedOut.servedOk (h : HandedOut b served) : ServedOk b served where
  delivered := h.delivered
  inOrder := by
    rw [h.chunks, seq_chunksOf, length_chunksOf]
  bytes := by
    rw [h.chunks, flatten_chunksOf, length_chunksOf]
  whole := by
    intro chunk hchunk hdone
    rw [h.chunks] at hchunk ⊢
    obtain ⟨seq, hseq, rfl⟩ := mem_map.mp hchunk
    rw [flatten_chunksOf]
    have hends : served.response.length ≤ (seq + 1) * chunkBytes := of_decide_eq_true hdone
    have hbound : (seq + 1) * chunkBytes ≤ served.chunks.length * chunkBytes :=
      Nat.mul_le_mul_right _ (mem_range.mp hseq)
    exact take_of_length_le (by omega)
  last := by
    intro chunk hchunk hdone
    rw [h.chunks] at hchunk
    obtain ⟨seq, hseq, rfl⟩ := mem_map.mp hchunk
    have hends : served.response.length ≤ (seq + 1) * chunkBytes := of_decide_eq_true hdone
    have hseq' := mem_range.mp hseq
    by_contra hmore
    change seq + 1 ≠ served.chunks.length at hmore
    have hnot := h.more seq (by omega)
    omega

/-- The response that is read is the last one served, and not at its end. -/
def Reading (s : Relay) : Prop :=
  ∀ response ∈ s.response, ∃ served ∈ s.served.head?, served.response = response ∧ s.readSequence =
    served.chunks.length ∧
    ∀ count, count < served.chunks.length → (count + 1) * chunkBytes < response.length

structure RelayKept (s : Relay) : Prop where
  broker : Kept s.broker
  opening : ∀ index ∈ s.opening, index < s.broker.calls.length ∧ s.response = none ∧
    ∀ served ∈ s.served, served.request ≠ index
  served : ∀ served ∈ s.served, HandedOut s.broker.shared served ∧ served.request < s.broker.calls.length
  once : (s.served.map Served.request).Nodup
  reading : Reading s

theorem length_step (s : Calls.State Broker Request) (op : Calls.Op Request Answer Event) :
    s.calls.length ≤ (Calls.step program s op).calls.length := by
  cases op with
  | start r =>
    change s.calls.length ≤ (s.calls ++ [r]).length
    rw [length_append]
    omega
  | act index answer =>
    unfold Calls.step
    dsimp only
    split
    · exact Nat.le_refl _
    · change s.calls.length ≤ (s.calls.set index _).length
      rw [length_set]
  | environment event => exact Nat.le_refl _

theorem HandedOut.later {b' : Broker} (h : HandedOut b served)
    (hdelivered : ∀ entry ∈ b.delivered, entry ∈ b'.delivered) :
    HandedOut b' served :=
  ⟨hdelivered _ h.delivered, h.chunks, h.more⟩

theorem relayKept_broker (h : RelayKept s) (op : Calls.Op Request Answer Event)
    (hstart : Calls.OnStarts Request.isNew op) (htimely : Calls.OnActs Timely s.broker op) :
    RelayKept { s with broker := Calls.step program s.broker op } where
  broker := Calls.holds_step keeps_program h.broker hstart htimely
  opening index hindex := by
    obtain ⟨hbound, hnone, hunserved⟩ := h.opening index hindex
    exact ⟨Nat.lt_of_lt_of_le hbound (length_step s.broker op), hnone, hunserved⟩
  served served hmem := by
    obtain ⟨hout, hbound⟩ := h.served served hmem
    have hlater := hout.later fun entry hentry => delivered_step h.broker htimely hentry
    exact ⟨hlater, Nat.lt_of_lt_of_le hbound (length_step s.broker op)⟩
  __ := h

theorem relayKept_openProvider (h : RelayKept s) {r : Request} (hnew : r.isNew) :
    RelayKept (s.openProvider r) := by
  unfold Relay.openProvider
  split
  · exact h
  · next hidle =>
    rw [Bool.or_eq_true, not_or] at hidle
    have hbroker := relayKept_broker h (.start r) hnew trivial
    refine { hbroker with opening := ?_ }
    intro index hindex
    obtain rfl := some.inj hindex
    refine ⟨?_, ?_, ?_⟩
    · change s.broker.calls.length < (s.broker.calls ++ [r]).length
      rw [length_append, length_singleton]
      omega
    · exact not_isSome_iff_eq_none.mp hidle.2
    · intro served hmem
      exact Nat.ne_of_lt (h.served served hmem).2

theorem delivered_of_done {s : Calls.State Broker Request} (h : Kept s)
    (hdone : (s.calls[index]?).map Request.phase = some (.done (some response))) :
    (index, response) ∈ s.shared.delivered := by
  obtain ⟨r, hcall, hphase⟩ := map_eq_some_iff.mp hdone
  have hstage := h.calls index r hcall
  unfold StageOk at hstage
  rw [hphase] at hstage
  exact (hstage.2.2 response).mpr rfl

section

variable (h : RelayKept s)
include h

theorem relayKept_serve (hopening : s.opening = some index)
    (hdelivered : (index, response) ∈ s.broker.shared.delivered) :
    RelayKept (s.serve index response) := by
  obtain ⟨hbound, -, hunserved⟩ := h.opening index hopening
  have hnew : HandedOut s.broker.shared { request := index, response, chunks := [] } :=
    ⟨hdelivered, rfl, fun _ hcount => absurd hcount (Nat.not_lt_zero _)⟩
  refine ⟨h.broker, ?_, ?_, ?_, ?_⟩
  · intro index' hindex'
    cases hindex'
  · intro served hmem
    obtain rfl | hold := mem_cons.mp hmem
    · exact ⟨hnew, hbound⟩
    · exact h.served served hold
  · change (index :: s.served.map Served.request).Nodup
    refine nodup_cons.mpr ⟨?_, h.once⟩
    intro hmem
    obtain ⟨served, hserved, hsame⟩ := mem_map.mp hmem
    exact hunserved served hserved hsame
  · intro response' hresponse'
    obtain rfl := some.inj hresponse'
    exact ⟨_, rfl, rfl, rfl, fun _ hcount => absurd hcount (Nat.not_lt_zero _)⟩

theorem relayKept_opened : RelayKept s.opened := by
  unfold Relay.opened
  split
  · exact h
  · next index hopening =>
    split
    · next response hdone => exact relayKept_serve h hopening (delivered_of_done h.broker hdone)
    · refine ⟨h.broker, ?_, h.served, h.once, h.reading⟩
      intro index' hindex'
      cases hindex'
    · exact h

theorem relayKept_cancel : RelayKept s.cancel := by
  have hnone : RelayKept { s with response := none } := by
    refine ⟨h.broker, ?_, h.served, h.once, ?_⟩
    · intro index hindex
      obtain ⟨hbound, -, hunserved⟩ := h.opening index hindex
      exact ⟨hbound, rfl, hunserved⟩
    · intro response hresponse
      cases hresponse
  unfold Relay.cancel
  split
  · exact relayKept_broker hnone (.environment .revoke) trivial trivial
  · exact hnone

theorem relayKept_next (hresponse : s.response = some response) : RelayKept { s with
      readSequence := s.readSequence + 1
      response := if (chunkAt response s.readSequence).done then none else some response
      served := handOut s.served (chunkAt response s.readSequence) } := by
  obtain ⟨served, hfirst, hsame, hsequence, hmore⟩ := h.reading response hresponse
  obtain ⟨rest, hserved⟩ : ∃ rest, s.served = served :: rest := by
    cases hcases : s.served with
    | nil =>
      rw [hcases] at hfirst
      cases hfirst
    | cons first rest =>
      rw [hcases] at hfirst
      rw [some.inj hfirst]
      exact ⟨rest, rfl⟩
  have hmem : served ∈ s.served := hserved ▸ mem_cons_self
  obtain ⟨hout, hbound⟩ := h.served served hmem
  have hopening : s.opening = none := by
    cases hcases : s.opening with
    | none => rfl
    | some index =>
      have hnone := (h.opening index hcases).2.1
      rw [hresponse] at hnone
      cases hnone
  have hchunks : served.chunks ++ [chunkAt response s.readSequence] =
      chunksOf response (served.chunks.length + 1) := by
    rw [chunksOf_succ, hsequence, ← hsame, ← hout.chunks]
  have hnext : HandedOut s.broker.shared { served with chunks := served.chunks ++
      [chunkAt response s.readSequence] } := by
    refine ⟨hout.delivered, ?_, ?_⟩
    · dsimp only
      rw [hchunks, length_chunksOf, hsame]
    · intro count hcount
      dsimp only at hcount ⊢
      rw [length_append, length_singleton] at hcount
      rw [hsame]
      exact hmore count (by omega)
  rw [hserved]
  refine ⟨h.broker, ?_, ?_, ?_, ?_⟩
  · intro index hindex
    rw [hopening] at hindex
    cases hindex
  · intro served' hmem'
    obtain rfl | hold := mem_cons.mp hmem'
    · exact ⟨hnext, hbound⟩
    · exact h.served served' (hserved ▸ mem_cons_of_mem _ hold)
  · have honce := h.once
    rw [hserved] at honce
    exact honce
  · intro response' hresponse'
    dsimp only at hresponse'
    split at hresponse'
    · cases hresponse'
    · next hdone =>
      obtain rfl := some.inj hresponse'
      refine ⟨_, rfl, hsame, ?_, ?_⟩
      · dsimp only
        rw [length_append, length_singleton, hsequence]
      · intro count hcount
        rw [length_append, length_singleton] at hcount
        by_cases hlast : count < served.chunks.length
        · exact hmore count hlast
        · have hcount' : count = s.readSequence := by omega
          have hlonger : ¬ response.length ≤ (s.readSequence + 1) * chunkBytes :=
            fun hends => hdone (decide_eq_true hends)
          rw [hcount']
          omega

theorem relayKept_read (seq : ℕ) : RelayKept (s.read seq) := by
  unfold Relay.read
  split
  · exact h
  · next response hresponse =>
    split
    · exact h
    · exact relayKept_next h hresponse

theorem relayKept_step {op : RelayOp} (hstart : op.isStart) (htimely : RelayTimely s op) :
    RelayKept (s.step op) := by
  cases op with
  | broker op => exact relayKept_broker h op hstart htimely
  | openProvider r => exact relayKept_openProvider h hstart
  | opened => exact relayKept_opened h
  | cancel => exact relayKept_cancel h
  | read seq => exact relayKept_read h seq

end

/-- A request is opened, checked and started, and the provider answers. -/
def callRun : List RelayOp :=
  .openProvider (newRequest true true true true) ::
    [Answer.go, .active true, .write true, .go, .active true, .response { ok := true, json := false, events := true },
      .active true].map fun answer => .broker (.act 0 answer)

/-- The whole response is read, up to the write of the terminal record. -/
def readRun : List RelayOp :=
  [Answer.next (some [104, 105]) [] true, .active true, .active true, .next none [] true,
    .active true, .go, .go].map
    fun answer => .broker (.act 0 answer)

/-- The terminal record is stored, and the response handed out. -/
def answerRun : List RelayOp :=
  [.broker (.act 0 (.write true)), .broker (.act 0 .go), .opened, .read 0]

/-- The usage of a response is noted, and the snapshot is not stored. -/
def lostRun : List RelayOp :=
  [Answer.next (some [104, 105]) [{ usage := true, error := false, model := none }] true,
    .active true, .write false, .go,
    .go].map fun answer => .broker (.act 0 answer)

end ArdurBot.ProviderBroker
