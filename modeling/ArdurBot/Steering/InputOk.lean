import ArdurBot.Steering.Input
import Mathlib.Tactic.Linarith

/-!
# Waiting messages fit the turn

`fitLoop_spec` follows the room through the loop. `removeCopies_spec` labels what is removed with
the message it is the copy of: nothing else is removed, and every copy is when the copies can be
found in the order of the messages.
-/

namespace ArdurBot.Steering

open List Utf16
open Option
open Learning (joinLines indexOf length_joinLines_cons)

variable {ι : Type*} {text : Text} {maxChars characters images : ℤ} {item : AgentSteeringMessage ι}

/-- The marker shows; or the whole message stays but for line breaks between a quote and the reply
to it. -/
def Cut (text shortened : Text) : Prop :=
  steeringShortened <:+: shortened ∨
    ∃ quote breaks reply, text = quote ++ breaks ++ reply ∧ (∀ u ∈ breaks, u = newline) ∧
      shortened = quote ++ [newline, newline] ++ reply

theorem shows_marker (kept : Text) : steeringShortened <:+: kept ++ newline :: steeringShortened :=
  ⟨kept ++ [newline], [], by simp⟩

theorem endCut_eq (text : Text) (maxChars : ℤ) :
    endCut text maxChars = text ∨ steeringShortened <:+: endCut text maxChars := by
  unfold endCut
  split
  · exact .inl rfl
  · exact .inr (shows_marker _)

theorem length_endCut (text : Text) (h : steeringShortened.length + 1 ≤ maxChars) :
    (endCut text maxChars).length ≤ maxChars := by
  unfold endCut
  split
  · assumption
  · simp only [length_append, length_take, length_cons]
    omega

theorem cut_endCut (h : ¬ (text.length : ℤ) ≤ maxChars) : Cut text (endCut text maxChars) := by
  unfold endCut
  rw [if_neg h]
  exact .inl (shows_marker _)

theorem shortenQuoted_spec (text : Text) (maxChars : ℤ) :
    shortenQuotedSteeringText text maxChars = text ∨ Cut text (shortenQuotedSteeringText text maxChars) := by
  unfold shortenQuotedSteeringText
  dsimp only
  split
  · exact .inl rfl
  · next hlong =>
    right
    split
    · exact cut_endCut hlong
    · next kind head _ =>
      split
      · exact cut_endCut hlong
      · next closeAt _ =>
        generalize hend : closeAt + ([newline, unit '<', unit '/'] ++ kind ++ [unit '>']).length = stop
        split
        · exact cut_endCut hlong
        · split
          · exact .inl (shows_marker _)
          · generalize (max 0 maxChars - ((text.drop stop).dropWhile (· = newline)).length - 2 : ℤ) = room
            obtain hwhole | hmarker := endCut_eq (text.take stop) room
            · right
              refine ⟨text.take stop, (text.drop stop).takeWhile (· = newline),
                (text.drop stop).dropWhile (· = newline), ?_, ?_, ?_⟩
              · rw [append_assoc, takeWhile_append_dropWhile, take_append_drop]
              · intro u hu
                simpa using mem_takeWhile_imp hu
              · rw [hwhole]
            · left
              rw [append_assoc]
              exact hmarker.trans (infix_append_left)

theorem length_shortenQuoted (h : steeringShortened.length + 1 ≤ maxChars) :
    (shortenQuotedSteeringText text maxChars).length ≤ maxChars := by
  have hlimit : max 0 maxChars = maxChars := by omega
  unfold shortenQuotedSteeringText
  rw [hlimit]
  dsimp only
  split
  · assumption
  · split
    · exact length_endCut text h
    · next kind head _ =>
      split
      · exact length_endCut text h
      · next closeAt _ =>
        generalize closeAt + ([newline, unit '<', unit '/'] ++ kind ++ [unit '>']).length = stop
        split
        · exact length_endCut text h
        · split
          · simp only [length_append, length_take, length_cons]
            omega
          · next hroom =>
            have hquote := length_endCut (text.take stop) (not_lt.mp hroom)
            simp only [length_append, length_cons, length_nil] at hquote ⊢
            omega

theorem noteBlock_eq (item : AgentSteeringMessage ι) (images : ℤ) :
    noteBlock item images = [] ∨ noteBlock item images = [newline, newline] ++ attachmentUnavailableNote := by
  unfold noteBlock
  split
  · exact .inr rfl
  · exact .inl rfl

theorem keptFirst_spec (item : AgentSteeringMessage ι) (characters images : ℤ) :
    ∃ shortened, (shortened = item.text ∨ Cut item.text shortened) ∧
      ((keptFirst item characters images).text = shortened ∨
        (keptFirst item characters images).text =
          shortened ++ ([newline, newline] ++ attachmentUnavailableNote)) := by
  unfold keptFirst
  dsimp only
  have happend (shortened : Text) : shortened ++ noteBlock item images = shortened ∨
      shortened ++ noteBlock item images = shortened ++ ([newline, newline] ++ attachmentUnavailableNote) := by
    obtain hnote | hnote := noteBlock_eq item images
    · exact .inl (by rw [hnote, append_nil])
    · exact .inr (by rw [hnote])
  split
  · split
    · exact ⟨_, shortenQuoted_spec item.text _, happend _⟩
    · exact ⟨_, .inl rfl, happend _⟩
  · exact ⟨_, .inl rfl, happend _⟩

theorem length_keptFirst
    (h : steeringShortened.length + 1 + ([newline, newline] ++ attachmentUnavailableNote).length ≤ characters) :
    (keptFirst item characters images).text.length ≤ characters := by
  unfold keptFirst
  dsimp only
  have hlength : (noteBlock item images).length ≤ ([newline, newline] ++ attachmentUnavailableNote).length := by
    obtain hnote | hnote := noteBlock_eq item images
    · rw [hnote]
      exact Nat.zero_le _
    · rw [hnote]
  split
  · next hlong =>
    rw [length_append] at hlong
    rw [if_pos (by omega)]
    have hshort : (shortenQuotedSteeringText item.text (characters - (noteBlock item images).length)).length ≤
        characters - (noteBlock item images).length :=
      length_shortenQuoted (by omega)
    rw [length_append]
    omega
  · omega

theorem imageCount_keptFirst : (imageCount (keptFirst item characters images) : ℤ) ≤ max 0 images := by
  unfold imageCount keptFirst
  cases item.images with
  | none => simp
  | some files =>
    simp only [map_some, getD_some, length_take]
    omega

/-- The characters that the messages add to those before them. -/
def spent (first : Bool) : List (AgentSteeringMessage ι) → ℕ
  | [] => 0
  | item :: steering => item.text.length + (if first then 0 else 1) + spent false steering

def imageTotal (steering : List (AgentSteeringMessage ι)) : ℕ := (steering.map imageCount).sum

theorem length_joinLines (steering : List (AgentSteeringMessage ι)) :
    (joinLines (steering.map (·.text))).length = spent true steering := by
  cases steering with
  | nil => rfl
  | cons item steering =>
    have hrest : ∀ rest :
        List (AgentSteeringMessage ι), ((rest.map (·.text)).map fun line => line.length + 1).sum =
        spent false rest := by
      intro rest
      induction rest with
      | nil => rfl
      | cons next rest ih =>
        rw [map_cons, map_cons, sum_cons, ih]
        simp [spent]
    rw [map_cons, length_joinLines_cons, hrest]
    simp [spent]

theorem fitLoop_spec (keepFirst : Bool) (included steering : List (AgentSteeringMessage ι))
    (characters images : ℤ) :
    (∃ taken rest, steering = taken ++ rest ∧
      fitLoop keepFirst included characters images steering = included ++ taken ∧
      spent (included = []) taken ≤ max 0 characters ∧ imageTotal taken ≤ max 0 images) ∨
    ∃ item rest, steering = item :: rest ∧ keepFirst ∧ included = [] ∧
      ¬ (item.text.length ≤ characters ∧ imageCount item ≤ images) ∧
      fitLoop keepFirst included characters images steering = [keptFirst item characters images] := by
  induction steering generalizing included characters images with
  | nil => exact .inl ⟨[], [], rfl, (append_nil _).symm, by simp [spent], by simp [imageTotal]⟩
  | cons item steering ih =>
    unfold fitLoop
    by_cases hfits : (item.text.length + (if included = [] then 0 else 1) : ℤ) ≤ characters ∧
      (imageCount item : ℤ) ≤ images
    · rw [if_pos (by rw [Bool.and_eq_true, decide_eq_true_eq, decide_eq_true_eq]; exact hfits)]
      rcases ih (included ++ [item]) (characters - (item.text.length + if included = [] then 0
        else 1)) (images - imageCount item) with
        ⟨taken, rest, hsteering, hfit, hspent, htotal⟩ | ⟨_, _, _, _, hnil, _⟩
      · left
        refine ⟨item :: taken,
          rest, by rw [hsteering, cons_append], by rw [hfit, append_assoc, singleton_append], ?_,
          ?_⟩
        · have hne : decide (included ++ [item] = []) = false := by simp
          rw [hne] at hspent
          simp only [spent, decide_eq_true_eq]
          push_cast
          omega
        · simp only [imageTotal, map_cons, sum_cons] at htotal ⊢
          push_cast at htotal ⊢
          omega
      · simp at hnil
    · rw [if_neg (by rw [Bool.and_eq_true, decide_eq_true_eq, decide_eq_true_eq]; exact hfits)]
      split
      · next hkeep =>
        simp only [Bool.and_eq_true, decide_eq_true_eq] at hkeep
        right
        refine ⟨item, steering, rfl, hkeep.1, hkeep.2, ?_, rfl⟩
        simpa [hkeep.2] using hfits
      · exact .inl ⟨[], item :: steering, rfl, (append_nil _).symm, by simp [spent], by simp [imageTotal]⟩

/-- A history in which each copy has the message it is taken for. -/
abbrev Labelled (ι : Type*) := List (HistoryMessage × Option (AgentSteeringMessage ι))

namespace Labelled

section

variable (labelled : Labelled ι)

def history : List HistoryMessage := labelled.map (·.1)

def copied : List (AgentSteeringMessage ι) := labelled.filterMap (·.2)

def rest : List HistoryMessage := (labelled.filter (·.2.isNone)).map (·.1)

def Ok : Prop := ∀ message waiting, (message, some waiting) ∈ labelled → isCopy message waiting

end

def others (messages : List HistoryMessage) : Labelled ι :=
  messages.map fun message => (message, none)

variable {messages : List HistoryMessage} {labelled : Labelled ι}

@[simp] theorem history_others : (others messages : Labelled ι).history = messages := by
  simp [history, others, Function.comp_def]

@[simp] theorem copied_others : (others messages : Labelled ι).copied = [] := by
  simp [copied, others]

@[simp] theorem rest_others : (others messages : Labelled ι).rest = messages := by
  induction messages with
  | nil => rfl
  | cons message messages ih => simpa [rest, others] using ih

theorem ok_others : (others messages : Labelled ι).Ok := by
  simp [Ok, others]

theorem Ok.concat {copy : HistoryMessage} {waiting : AgentSteeringMessage ι} (h : labelled.Ok)
    (hcopy : isCopy copy waiting) :
    Ok (labelled ++ (copy, some waiting) :: others messages) := by
  intro message other hmem
  obtain hmem | hmem := mem_append.mp hmem
  · exact h message other hmem
  · obtain heq | hmem := mem_cons.mp hmem
    · obtain ⟨rfl, hother⟩ := Prod.mk.inj heq
      rw [some.inj hother]
      exact hcopy
    · exact ok_others message other hmem

end Labelled

section

variable (history : List HistoryMessage) (steering : List (AgentSteeringMessage ι))
include history

/-- The history holds one copy of each message, in some order. -/
def Holds : Prop :=
  ∃ labelled : Labelled ι, labelled.Ok ∧ labelled.history = history ∧ labelled.copied.Perm steering

/-- The history holds one copy of each message, in the order of the messages. -/
def HoldsInOrder : Prop :=
  ∃ labelled : Labelled ι, labelled.Ok ∧ labelled.history = history ∧ labelled.copied = steering

/-- What is left when one copy of each message is taken out and nothing else. -/
def Removes (result : List HistoryMessage) : Prop :=
  ∃ labelled : Labelled ι, labelled.Ok ∧ labelled.history = history ∧
    labelled.copied.Perm steering ∧ result = labelled.rest

end

variable {steering : List (AgentSteeringMessage ι)} {waiting : AgentSteeringMessage ι}
  {history older newer front back copies : List HistoryMessage} {message copy : HistoryMessage}

theorem Removes.length_eq {result : List HistoryMessage} (h : Removes history steering result) :
    result.length + steering.length = history.length := by
  obtain ⟨labelled, -, rfl, hperm, rfl⟩ := h
  rw [← hperm.length_eq]
  clear hperm
  induction labelled with
  | nil => rfl
  | cons entry labelled ih =>
    obtain ⟨message, label⟩ := entry
    simp only [Labelled.rest, Labelled.copied, Labelled.history, length_map] at ih ⊢
    cases label with
    | none =>
      simp only [filter_cons, isNone_none, if_true, length_cons, filterMap_cons] at ih ⊢
      omega
    | some waiting =>
      simp only [filter_cons, isNone_some, Bool.false_eq_true, if_false, length_cons, filterMap_cons] at ih ⊢
      omega

theorem HoldsInOrder.exists_copies (h : HoldsInOrder history steering) :
    ∃ copies, List.Sublist copies history ∧ List.Forall₂ (isCopy · ·) copies steering := by
  obtain ⟨labelled, hok, rfl, rfl⟩ := h
  induction labelled with
  | nil => exact ⟨[], List.Sublist.refl _, List.Forall₂.nil⟩
  | cons entry labelled ih =>
    obtain ⟨message, label⟩ := entry
    obtain ⟨copies, hsub, hcopies⟩ := ih fun message waiting hmem => hok message waiting (mem_cons_of_mem _ hmem)
    cases label with
    | none => exact ⟨copies, hsub.cons _, hcopies⟩
    | some waiting => exact ⟨message :: copies, hsub.cons_cons _, hcopies.cons (hok message waiting mem_cons_self)⟩

theorem sublist_after (h : List.Sublist (message :: copies) (front ++ copy :: back))
    (hmessage : message ∉ front) :
    copies.Sublist back := by
  induction front with
  | nil => exact h.of_cons_cons
  | cons other front ih =>
    rw [mem_cons, not_or] at hmessage
    cases h with
    | cons _ h => exact ih h hmessage.2
    | cons_cons _ h => exact absurd rfl hmessage.1

theorem copies_before (hsub : copies.Sublist (older ++ copy :: newer))
    (hcopies : List.Forall₂ (isCopy · ·) copies (steering ++ [waiting]))
    (hnewer : ∀ message ∈ newer, isCopy message waiting = false) :
    ∃ copies, List.Sublist copies older ∧ List.Forall₂ (isCopy · ·) copies steering := by
  have hreverse := forall₂_reverse_iff.mpr hcopies
  rw [reverse_append, reverse_singleton, singleton_append, forall₂_cons_right_iff] at hreverse
  obtain ⟨last, earlier, hlast, hearlier, hcopies'⟩ := hreverse
  have hsub' := reverse_sublist.mpr hsub
  rw [hcopies', reverse_append, reverse_cons, append_assoc, singleton_append] at hsub'
  have hnotMem : last ∉ newer.reverse := by
    intro hmem
    have hother := hnewer last (mem_reverse.mp hmem)
    rw [hother] at hlast
    cases hlast
  refine ⟨earlier.reverse, ?_, ?_⟩
  · rw [← reverse_sublist, reverse_reverse]
    exact sublist_after hsub' hnotMem
  · rw [← forall₂_reverse_iff, reverse_reverse]
    exact hearlier

theorem lastCopy_spec (waiting : AgentSteeringMessage ι) (head tail : List HistoryMessage) :
    (lastCopy (head ++ tail) waiting head.length = none ∧ ∀ message ∈ head, isCopy message waiting = false) ∨
    ∃ older : List HistoryMessage, ∃ copy newer, head = older ++ copy :: newer ∧
      lastCopy (head ++ tail) waiting head.length = some older.length ∧
      isCopy copy waiting ∧ ∀ message ∈ newer, isCopy message waiting = false := by
  induction head using reverseRecOn generalizing tail with
  | nil => exact .inl ⟨rfl, by simp⟩
  | append_singleton head message ih =>
    have hget : (head ++ [message] ++ tail)[head.length]? = some message := by simp
    rw [length_append, length_singleton]
    unfold lastCopy
    rw [hget, any_some]
    cases hcopy : isCopy message waiting with
    | true => exact .inr ⟨head, message, [], rfl, rfl, hcopy, by simp⟩
    | false =>
      rw [append_assoc, singleton_append, if_neg Bool.false_ne_true]
      obtain ⟨hnone, hhead⟩ | ⟨older, copy, newer, rfl, hfound, hold, hnewer⟩ := ih (message :: tail)
      · refine .inl ⟨hnone, ?_⟩
        intro other hother
        obtain hother | hother := mem_append.mp hother
        · exact hhead other hother
        · rw [mem_singleton.mp hother, hcopy]
      · refine .inr ⟨older, copy, newer ++ [message], by simp, hfound, hold, ?_⟩
        intro other hother
        obtain hother | hother := mem_append.mp hother
        · exact hnewer other hother
        · rw [mem_singleton.mp hother, hcopy]

theorem removeCopies_spec (steering : List (AgentSteeringMessage ι)) (head tail : List HistoryMessage) :
    ∃ labelled : Labelled ι, labelled.Ok ∧ labelled.history = head ∧ labelled.copied.Sublist steering ∧
      removeCopies (head ++ tail) head.length steering.reverse = labelled.rest ++ tail ∧
      ((∃ copies, List.Sublist copies head ∧ List.Forall₂ (isCopy · ·) copies steering) →
        labelled.copied = steering) := by
  induction steering using reverseRecOn generalizing head tail with
  | nil =>
    refine ⟨Labelled.others head, Labelled.ok_others, by simp, by simp, by simp [removeCopies], by simp⟩
  | append_singleton steering waiting ih =>
    rw [reverse_append, reverse_singleton, singleton_append]
    unfold removeCopies
    obtain ⟨hnone, hhead⟩ | ⟨older, copy, newer, rfl, hfound, hcopy, hnewer⟩ := lastCopy_spec waiting head tail
    · obtain ⟨labelled, hok, hhistory, hcopied, hremoved, -⟩ := ih head tail
      rw [hnone]
      refine ⟨labelled, hok, hhistory, hcopied.trans (sublist_append_left _ _), hremoved, ?_⟩
      rintro ⟨copies, hsub, hcopies⟩
      have hreverse := forall₂_reverse_iff.mpr hcopies
      rw [reverse_append, reverse_singleton, singleton_append, forall₂_cons_right_iff] at hreverse
      obtain ⟨last, earlier, hlast, -, hcopies'⟩ := hreverse
      have hmem : last ∈ head := hsub.mem (mem_reverse.mp (by rw [hcopies']; exact mem_cons_self))
      rw [hhead last hmem] at hlast
      cases hlast
    · obtain ⟨labelled, hok, hhistory, hcopied, hremoved, horder⟩ := ih older (newer ++ tail)
      have herase : (older ++ copy :: newer ++ tail).eraseIdx older.length = older ++ (newer ++ tail) := by
        rw [append_assoc, cons_append, eraseIdx_append_of_length_le le_rfl, Nat.sub_self, eraseIdx_zero, tail_cons]
      have hcopiedAll :
          Labelled.copied (labelled ++ (copy, some waiting) :: Labelled.others newer) =
          labelled.copied ++ [waiting] := by
        have hnewer' : (Labelled.others newer : Labelled ι).copied = [] := Labelled.copied_others
        unfold Labelled.copied at hnewer' ⊢
        simp only [filterMap_append, filterMap_cons, hnewer']
      rw [hfound]
      dsimp only
      rw [herase, hremoved]
      refine ⟨labelled ++ (copy, some waiting) :: Labelled.others newer, hok.concat hcopy, ?_, ?_, ?_, ?_⟩
      · have hnewer' : (Labelled.others newer : Labelled ι).history = newer := Labelled.history_others
        unfold Labelled.history at hhistory hnewer' ⊢
        rw [map_append, map_cons, hhistory, hnewer']
      · rw [hcopiedAll]
        exact hcopied.append_right _
      · have hnewer' : (Labelled.others newer : Labelled ι).rest = newer := Labelled.rest_others
        unfold Labelled.rest at hnewer' ⊢
        rw [filter_append, map_append, filter_cons_of_neg (by simp), hnewer', append_assoc]
      · rintro ⟨copies, hsub, hcopies⟩
        rw [hcopiedAll, horder (copies_before hsub hcopies hnewer)]

theorem withoutSteering_spec (history : List HistoryMessage) (steering : List (AgentSteeringMessage ι)) :
    ∃ labelled : Labelled ι, labelled.Ok ∧ labelled.history = history ∧ labelled.copied.Sublist steering ∧
      withoutSteeringMessages history steering = labelled.rest ∧
        (HoldsInOrder history steering → labelled.copied = steering) := by
  obtain ⟨labelled, hok, hhistory, hcopied, hremoved, horder⟩ := removeCopies_spec steering history []
  rw [append_nil, append_nil] at hremoved
  refine ⟨labelled, hok, hhistory, hcopied, ?_, fun h => horder h.exists_copies⟩
  rw [← hremoved]
  unfold withoutSteeringMessages
  split
  · next hnone => simp [hnone, removeCopies]
  · rfl

/-- The room holds the header, the marker and the note, with what separates them. -/
def Room.HoldsNotes (room : Room) : Prop :=
  (headerBlock.length : ℤ) +
    (steeringShortened.length + 1 + ([newline, newline] ++ attachmentUnavailableNote).length) ≤
    room.characters

/-- Waiting messages are carried whole, oldest first, but for a first one that is cut to fit; those
carried leave the transcript, if it holds their copies in their order. -/
theorem waiting_messages_fit (steering : List (AgentSteeringMessage ι)) (room : Room) (keepFirst : Bool) (prompt : Text)
    (history : List HistoryMessage) :
    let fitted := fitInitialSteering steering room keepFirst
    fitted.deferred = steering.drop fitted.included.length ∧
    (fitted.included = steering.take fitted.included.length ∨
      ∃ first rest text images, steering = first :: rest ∧ keepFirst = true ∧
        ¬ (headerBlock.length + first.text.length ≤ room.characters ∧ imageCount first ≤ room.images) ∧
        fitted.included = [{ first with text, images }] ∧
          images = first.images.map (·.take (max 0 room.images).toNat) ∧
        ∃ shortened, (shortened = first.text ∨ Cut first.text shortened) ∧
          (text = shortened ∨ text = shortened ++ ([newline, newline] ++ attachmentUnavailableNote))) ∧
    (room.HoldsNotes → (promptWithInitialSteering prompt fitted.included).length ≤ prompt.length + room.characters) ∧
    imageTotal fitted.included ≤ max 0 room.images ∧
    ∃ labelled : Labelled ι, labelled.Ok ∧ labelled.history = history ∧ labelled.copied.Sublist steering ∧
      withoutSteeringMessages history steering = labelled.rest ∧
        (HoldsInOrder history steering → labelled.copied = steering) := by
  intro fitted
  have hgrows (included : List (AgentSteeringMessage ι)) : (promptWithInitialSteering prompt included).length ≤
      prompt.length + (headerBlock.length + spent true included) := by
    unfold promptWithInitialSteering
    split
    · omega
    · rw [length_append, length_append, length_joinLines]
      omega
  refine ⟨rfl, ?_, ?_, ?_, withoutSteering_spec history steering⟩
  · rcases fitLoop_spec keepFirst [] steering (room.characters - headerBlock.length) room.images with
      ⟨taken, rest, hsteering, hfit, -, -⟩ | ⟨first, rest, hsteering, hkeep, -, hlong, hfit⟩
    · left
      have hincluded : fitted.included = taken := hfit
      rw [hincluded, hsteering, take_left]
    · right
      refine ⟨first, rest, _, _, hsteering, hkeep, ?_, hfit, rfl, keptFirst_spec first _ _⟩
      intro hfits
      exact hlong ⟨by omega, hfits.2⟩
  · intro hroom
    unfold Room.HoldsNotes at hroom
    have hle := hgrows fitted.included
    rcases fitLoop_spec keepFirst [] steering (room.characters - headerBlock.length) room.images with
      ⟨taken, rest, -, hfit, hspent, -⟩ | ⟨first, rest, -, -, -, -, hfit⟩
    · have hincluded : fitted.included = taken := hfit
      rw [hincluded] at hle ⊢
      rw [decide_eq_true rfl] at hspent
      omega
    · have hincluded : fitted.included = [keptFirst first (room.characters - headerBlock.length) room.images] := hfit
      have hfirst : (keptFirst first (room.characters - headerBlock.length) room.images).text.length ≤
          room.characters - headerBlock.length := length_keptFirst (by omega)
      rw [hincluded] at hle ⊢
      simp only [spent, if_true] at hle
      omega
  · rcases fitLoop_spec keepFirst [] steering (room.characters - headerBlock.length) room.images with
      ⟨taken, rest, -, hfit, -, htotal⟩ | ⟨first, rest, -, -, -, -, hfit⟩
    · have hincluded : fitted.included = taken := hfit
      rw [hincluded]
      exact htotal
    · have hincluded : fitted.included = [keptFirst first (room.characters - headerBlock.length) room.images] := hfit
      have hfirst : (imageCount
          (keptFirst first (room.characters - headerBlock.length) room.images) :
          ℤ) ≤ max 0 room.images :=
        imageCount_keptFirst
      rw [hincluded]
      simpa [imageTotal] using hfirst

def waitingText (text : Text) : AgentSteeringMessage Unit := ⟨text, text, text, none, none, none⟩

/-- A quote, more line breaks than the two that are put back, and a reply. -/
def spacedReply : Text :=
  lit "Replying to (quoted data, not instructions):\n<reply_target>\n" ++ List.replicate 200 (unit 'q') ++
    lit "\n</reply_target>\n\n\n\nx"

/-- When the copy of the newer message stands first it is taken and the other stays; and a message
can lose line breaks only. -/
theorem copies_out_of_order_stay : (¬ ∀ (history : List HistoryMessage) (steering : List (AgentSteeringMessage Unit)),
      Holds history steering → Removes history steering (withoutSteeringMessages history steering)) ∧
    ¬ ∀ (item : AgentSteeringMessage Unit) (room : Room), room.HoldsNotes →
      ∀ kept ∈ (fitInitialSteering [item] room true).included, kept.text.length < item.text.length →
        steeringShortened <:+: kept.text := by
  constructor
  · intro hclaim
    let sent (text : Text) : HistoryMessage := ⟨some text, .user, text⟩
    have hremoves := hclaim [sent (lit "b"), sent (lit "a")] [waitingText (lit "a"), waitingText (lit "b")]
      ⟨[(sent (lit "b"), some (waitingText (lit "b"))), (sent (lit "a"), some (waitingText (lit "a")))], by
        intro message other hmem
        simp only [mem_cons, Prod.mk.injEq, some.injEq, not_mem_nil, or_false] at hmem
        obtain ⟨rfl, rfl⟩ | ⟨rfl, rfl⟩ := hmem
        · decide
        · decide, rfl, List.Perm.swap _ _ _⟩
    exact absurd hremoves.length_eq (by decide)
  · intro hclaim
    have hroom : Room.HoldsNotes ⟨headerBlock.length + spacedReply.length - 1, 0⟩ := by
      unfold Room.HoldsNotes steeringShortened attachmentUnavailableNote spacedReply
      repeat rw [lit_ofList]
      decide +kernel
    have hkept := hclaim (waitingText spacedReply) _ hroom
    unfold fitInitialSteering fitLoop keptFirst shortenQuotedSteeringText at hkept
    rw [show steeringShortened = _ from lit_ofList _] at hkept
    exact absurd hkept (by decide +kernel)

end ArdurBot.Steering
