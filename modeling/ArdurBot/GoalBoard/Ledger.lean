import ArdurBot.Lib.Json.Number
import ArdurBot.Lib.Utf8

/-!
# The ledger of a delivery to the board

`goal-delivery-key.ts` of `packages/adapters/src/board`, and what
`packages/host-runtime/src/board/argv.ts` admits of it. A delivery marks its comment, and keeps in
the metadata of the item which generation wrote last, and how far it got.
-/

namespace ArdurBot.GoalBoard

open List Json Utf16

inductive Transition where
  | completed
  | accepted
deriving DecidableEq

def Transition.name : Transition → Text
  | .completed => lit "completed"
  | .accepted => lit "accepted"

/-- `/^[a-f0-9]{16}$/` -/
def isGoalBoardHash (hash : Text) : Bool := hash.length = 16 && hash.all isLowerHex

def goalBoardDeliveryKey (goalId revisionId : Text) (transition : Transition) : Text :=
  goalId ++ lit ":" ++ revisionId ++ lit ":" ++ transition.name

def goalBoardHash (sha256 : Text → Text) (key : Text) : Text := (sha256 key).take 16

def goalBoardMarker (hash : Text) : Text := lit "[Goal " ++ hash ++ lit "]"

def isUnreserved (b : UInt8) : Bool :=
  (lit "-_.!~*'()").any (fun u => u.toUInt8 = b) || 48 ≤ b && b ≤ 57 || 65 ≤ b && b ≤ 90 || 97 ≤ b && b ≤ 122

def percentDigit (n : ℕ) : CodeUnit := (lit "0123456789ABCDEF").getD n 0

def percentByte (b : UInt8) : Text :=
  if isUnreserved b then [b.toUInt16]
    else [unit '%', percentDigit (b.toNat / 16), percentDigit (b.toNat % 16)]

def encodeURIComponent (text : Text) : Option Text :=
  if wellFormed text then some ((utf8 text).flatMap percentByte) else none

def goalResultPath (groupId goalId revisionId : Text) : Option Text := do
  let groupId ← encodeURIComponent groupId
  let goalId ← encodeURIComponent goalId
  let revisionId ← encodeURIComponent revisionId
  some (lit "/app/g/" ++ groupId ++ lit "?goal=" ++ goalId ++ lit "&revision=" ++ revisionId)

def Transition.label : Transition → Text
  | .completed => lit "Goal completed"
  | .accepted => lit "Goal accepted"

def goalBoardCommentText (transition : Transition) (resultPath hash : Text) : Text :=
  (goalBoardMarker hash ++ lit "\n" ++ transition.label ++ lit "\n" ++ resultPath).take 500

/-- `unclosed` is `open`. -/
inductive Close where
  | unclosed
  | closed
  | alreadyClosed
  | leftOpen
  | closing
deriving DecidableEq

structure GoalBoardLedger where
  generation : ℕ
  commented : Bool
  close : Close
deriving DecidableEq

/-- The digit of `CLOSE_CODE`. -/
def Close.code : Close → CodeUnit
  | .unclosed => unit '0'
  | .closed => unit '1'
  | .alreadyClosed => unit '2'
  | .leftOpen => unit '3'
  | .closing => unit '4'

def readClose (u : CodeUnit) : Option Close :=
  [Close.unclosed, .closed, .alreadyClosed, .leftOpen, .closing].find? fun close => close.code = u

def readCommented (u : CodeUnit) : Option Bool :=
  if u = unit '0' then some false else if u = unit '1' then some true else none

def goalBoardMetadataName (hash : Text) : Text := lit "ardur_gd_" ++ hash

def formatGoalBoardLedger (ledger : GoalBoardLedger) : Text :=
  digitsOf ledger.generation ++ [unit ':', unit 'c', if ledger.commented then unit '1'
    else unit '0', unit ':', unit 'x',
    ledger.close.code]

/-- `[1-9][0-9]{0,8}`, of digits. -/
def isGeneration (digits : Text) : Bool :=
  digits ≠ [] && digits.head? ≠ some (unit '0') && digits.length ≤ 9

def parseGoalBoardLedger (value : Text) : Option GoalBoardLedger :=
  let digits := value.takeWhile isDigit
  match value.dropWhile isDigit with
  | [colon, c, commented, colon', x, close] =>
    if isGeneration digits && colon = unit ':' && c = unit 'c' && colon' = unit ':' && x = unit 'x' then do
      let commented ← readCommented commented
      let close ← readClose close
      some ⟨readDigits digits, commented, close⟩
    else none
  | _ => none

/-- What the host admits of a ledger: a close is intended only with a comment. -/
def allowedBoardMetadata (hash value : Text) : Bool :=
  isGoalBoardHash hash && (parseGoalBoardLedger value).any fun ledger =>
    ledger.close ≠ .closing || ledger.commented

theorem readClose_code (close : Close) : readClose close.code = some close := by
  cases close <;> rfl

theorem readCommented_format (commented : Bool) :
    readCommented (if commented then unit '1' else unit '0') = some commented := by
  cases commented <;> rfl

theorem takeWhile_format (ledger : GoalBoardLedger) :
    (formatGoalBoardLedger ledger).takeWhile isDigit = digitsOf ledger.generation ∧
      (formatGoalBoardLedger ledger).dropWhile isDigit =
        [unit ':', unit 'c', if ledger.commented then unit '1' else unit '0', unit ':', unit 'x',
          ledger.close.code] := by
  have hdigits : ∀ u ∈ digitsOf ledger.generation, isDigit u := fun _ => isDigit_of_mem_digitsOf
  unfold formatGoalBoardLedger
  rw [takeWhile_append_of_pos hdigits, dropWhile_append_of_pos hdigits]
  refine ⟨?_, rfl⟩
  rw [show takeWhile isDigit (unit ':' :: _) = [] from rfl, append_nil]

theorem parse_format (ledger : GoalBoardLedger) : parseGoalBoardLedger (formatGoalBoardLedger ledger) =
      if isGeneration (digitsOf ledger.generation) then some ledger else none := by
  obtain ⟨htake, hdrop⟩ := takeWhile_format ledger
  unfold parseGoalBoardLedger
  rw [htake, hdrop]
  dsimp only
  rw [readCommented_format, readClose_code, readDigits_digitsOf]
  cases isGeneration (digitsOf ledger.generation) with
  | true | false => rfl

theorem parse_of_allowed {hash : Text} {ledger : GoalBoardLedger}
    (h : allowedBoardMetadata hash (formatGoalBoardLedger ledger)) :
    parseGoalBoardLedger (formatGoalBoardLedger ledger) = some ledger := by
  unfold allowedBoardMetadata at h
  rw [Bool.and_eq_true, parse_format] at h
  rw [parse_format]
  split at h
  · next hgeneration => rw [if_pos hgeneration]
  · cases h.2

theorem length_marker {hash : Text} (h : isGoalBoardHash hash) : (goalBoardMarker hash).length = 23 := by
  unfold isGoalBoardHash at h
  rw [Bool.and_eq_true] at h
  unfold goalBoardMarker
  rw [length_append, length_append, of_decide_eq_true h.1]
  rfl

theorem marker_prefix_comment {hash : Text} (h : isGoalBoardHash hash) (transition : Transition)
    (resultPath : Text) :
    goalBoardMarker hash <+: goalBoardCommentText transition resultPath hash := by
  unfold goalBoardCommentText
  rw [append_assoc, append_assoc, append_assoc, take_append, length_marker h,
    take_of_length_le (by rw [length_marker h]; decide)]
  exact prefix_append _ _

theorem hash_eq_of_marker {hash other text : Text} (hhash : isGoalBoardHash hash)
    (hother : isGoalBoardHash other)
    (hmarker : goalBoardMarker hash <+: text) (hmarker' : goalBoardMarker other <+: text) : hash = other := by
  have hshorter := prefix_of_prefix_length_le hmarker hmarker' (by rw [length_marker hhash, length_marker hother])
  have heq := hshorter.eq_of_length (by rw [length_marker hhash, length_marker hother])
  unfold goalBoardMarker at heq
  exact append_cancel_left (append_cancel_right heq)

end ArdurBot.GoalBoard
