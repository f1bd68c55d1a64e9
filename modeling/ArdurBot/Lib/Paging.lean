import ArdurBot.Lib.Sorted
import Mathlib.Data.List.Lex
import Mathlib.Data.List.Perm.Subperm

/-!
# Pages of a list

Items are listed in the order of a key, a page at a time: a page has the items after its cursor, as
many as its limit says, and the key of the last of them as the cursor of the next page, if there is
one. Following the cursors lists each item once.
-/

namespace ArdurBot.Paging

open List Option Sorted

variable {α κ : Type*} [LinearOrder κ] {key : α → κ}

structure Page (α κ : Type*) where
  items : List α
  nextCursor : Option κ

/-- The first page of items that come in order, with those of them that are shown. -/
def firstPage (key : α → κ) (shown : α → Bool) (limit : ℕ) (sorted : List α) : Page α κ where
  items := (sorted.take limit).filter shown
  nextCursor := if limit < sorted.length then (sorted[limit - 1]?).map key else none

def isAfter (key : α → κ) (cursor : Option κ) (item : α) : Bool :=
  cursor.all fun cursor => cursor < key item

def page (key : α → κ) (shown : α → Bool) (limit : ℕ) (items : List α) (cursor : Option κ) : Page α κ :=
  firstPage key shown limit (sortByKey key (items.filter (isAfter key cursor)))

/-- The items of a page and of all that follow it. Nothing if there are more pages than that. -/
def follow (next : Option κ → Page α κ) : ℕ → Option κ → Option (List α)
  | 0, _ => none
  | fuel + 1, cursor =>
    match (next cursor).nextCursor with
    | none => some (next cursor).items
    | some after => (follow next fuel (some after)).map ((next cursor).items ++ ·)

abbrev Ordered (key : α → κ) (items : List α) : Prop := items.Pairwise fun a b => key a < key b

variable {items pre rest : List α} {cursor : Option κ} {item : α}

theorem ordered_sortByKey (h : (items.map key).Nodup) : Ordered key (sortByKey key items) := by
  have hperm : ((sortByKey key items).map key).Perm (items.map key) := (sortByKey_perm key items).map key
  have hnodup : (sortByKey key items).Pairwise fun a b => key a ≠ key b :=
    pairwise_map.mp (hperm.nodup_iff.mpr h)
  exact (sortedByKey_sortByKey key items).imp₂ (fun _ _ => lt_of_le_of_ne) hnodup

theorem Ordered.ext {a b : List α} (ha : Ordered key a) (hb : Ordered key b)
    (h : ∀ item, item ∈ a ↔ item ∈ b) : a = b := by
  have : Std.Antisymm fun a b => key a < key b := ⟨fun _ _ hab hba => absurd hab (lt_asymm hba)⟩
  have : Std.Irrefl fun a b => key a < key b := ⟨fun a => lt_irrefl (key a)⟩
  exact List.Pairwise.eq_of_mem_iff ha hb h

omit [LinearOrder κ] in
theorem nodup_filter (h : (items.map key).Nodup) (p : α → Bool) :
    ((items.filter p).map key).Nodup := h.sublist (filter_sublist.map key)

theorem sortByKey_filter (h : (items.map key).Nodup) (p : α → Bool) :
    sortByKey key (items.filter p) = (sortByKey key items).filter p := by
  apply Ordered.ext (ordered_sortByKey (nodup_filter h p)) ((ordered_sortByKey h).sublist filter_sublist)
  intro item
  rw [mem_sortByKey, mem_filter, mem_filter, mem_sortByKey]

theorem filter_isAfter (h : Ordered key (pre ++ rest)) {limit : ℕ} (hlimit : 0 < limit)
    (hmore : limit ≤ rest.length) :
    (pre ++ rest).filter (isAfter key ((rest[limit - 1]?).map key)) = rest.drop limit := by
  have hbound : limit - 1 < rest.length := by omega
  rw [getElem?_eq_getElem hbound, map_some]
  have hsplit : rest = rest.take (limit - 1) ++ rest[limit - 1] :: rest.drop limit := by
    have hdrop := drop_eq_getElem_cons hbound
    rw [show limit - 1 + 1 = limit by omega] at hdrop
    rw [← hdrop, take_append_drop]
  generalize hlast : rest[limit - 1] = last at *
  generalize rest.drop limit = left at *
  rw [hsplit, ← append_assoc] at h ⊢
  rw [Ordered, pairwise_append, pairwise_cons] at h
  obtain ⟨-, ⟨hleft, -⟩, hbefore⟩ := h
  rw [filter_append, filter_cons]
  have hnone : (pre ++ rest.take (limit - 1)).filter (isAfter key (some (key last))) = [] := by
    rw [filter_eq_nil_iff]
    intro item hitem hafter
    have hlt := hbefore item hitem last mem_cons_self
    exact lt_asymm hlt (of_decide_eq_true hafter)
  have hall : left.filter (isAfter key (some (key last))) = left := by
    rw [filter_eq_self]
    intro item hitem
    exact decide_eq_true (hleft item hitem)
  have hself : isAfter key (some (key last)) last = false := decide_eq_false (lt_irrefl _)
  rw [hnone, hall, hself]
  rfl

/-- A page is the last one, or what comes after it starts at its cursor. -/
theorem page_cases (h : (items.map key).Nodup) (shown : α → Bool) {limit : ℕ} (hlimit : 0 < limit)
    (hsplit : sortByKey key items = pre ++ rest)
    (hcursor : (pre ++ rest).filter (isAfter key cursor) = rest) :
    page key shown limit items cursor = ⟨rest.filter shown, none⟩ ∨
      limit < rest.length ∧ ∃ after,
        page key shown limit items cursor = ⟨(rest.take limit).filter shown, some after⟩ ∧
        sortByKey key items = (pre ++ rest.take limit) ++ rest.drop limit ∧
        ((pre ++ rest.take limit) ++ rest.drop limit).filter (isAfter key (some after)) = rest.drop limit := by
  have hpage : page key shown limit items cursor = firstPage key shown limit rest := by
    unfold page
    rw [sortByKey_filter h, hsplit, hcursor]
  rw [hpage]
  unfold firstPage
  by_cases hmore : limit < rest.length
  · have hbound : limit - 1 < rest.length := by omega
    have hafter := filter_isAfter (hsplit ▸ ordered_sortByKey h) hlimit hmore.le
    rw [getElem?_eq_getElem hbound, map_some] at hafter ⊢
    rw [if_pos hmore, append_assoc, take_append_drop]
    exact .inr ⟨hmore, _, rfl, hsplit, hafter⟩
  · rw [if_neg hmore, take_of_length_le (by omega)]
    exact .inl rfl

theorem follow_rest {items : List α} (h : (items.map key).Nodup) (shown : α → Bool) {limit : ℕ}
    (hlimit : 0 < limit) (fuel : ℕ) {pre rest : List α} (hsplit : sortByKey key items = pre ++ rest)
    {cursor : Option κ}
    (hcursor : (pre ++ rest).filter (isAfter key cursor) = rest) (hfuel : rest.length < fuel) :
    follow (page key shown limit items) fuel cursor = some (rest.filter shown) := by
  induction fuel generalizing pre rest cursor with
  | zero => exact absurd hfuel (Nat.not_lt_zero _)
  | succ fuel ih =>
    unfold follow
    obtain hpage | ⟨hmore, after, hpage, hsplit', hafter⟩ := page_cases h shown hlimit hsplit hcursor
    · rw [hpage]
    · rw [hpage]
      dsimp only
      rw [ih hsplit' hafter (by rw [length_drop]; omega), map_some, ← filter_append, take_append_drop]

theorem follow_first (h : (items.map key).Nodup) (shown : α → Bool) {limit : ℕ} (hlimit : 0 < limit) :
    follow (page key shown limit items) (items.length + 1) none = some ((sortByKey key items).filter shown) := by
  apply @follow_rest _ _ _ _ items h shown limit hlimit _ [] (sortByKey key items) rfl
  · rw [nil_append, filter_eq_self]
    exact fun _ _ => rfl
  · unfold sortByKey
    rw [length_insertionSort]
    omega

omit [LinearOrder κ] in
theorem follow_congr {next next' : Option κ → Page α κ}
    (hnext : ∀ from' cursor, (next' from').nextCursor = some cursor →
    next (some cursor) = next' (some cursor)) (fuel : ℕ) (hcursor : next cursor = next' cursor) :
    follow next fuel cursor = follow next' fuel cursor := by
  induction fuel generalizing cursor with
  | zero => rfl
  | succ fuel ih =>
    unfold follow
    rw [hcursor]
    cases hafter : (next' cursor).nextCursor with
    | none => rfl
    | some after =>
      dsimp only
      rw [ih (hnext cursor after hafter)]

theorem nextCursor_mem {shown : α → Bool} {limit : ℕ} {after : κ}
    (h : (page key shown limit items cursor).nextCursor = some after) : ∃ item ∈ items, key item = after := by
  unfold page firstPage at h
  split at h
  · rw [map_eq_some_iff] at h
    obtain ⟨item, hitem, hkey⟩ := h
    have hmem := mem_sortByKey.mp (mem_of_getElem? hitem)
    exact ⟨item, (mem_filter.mp hmem).1, hkey⟩
  · cases h

/-! ### Pages of two lists

Each list is read page by page until there are more items of it than fit into one page of both.
-/

/-- The kept items of the pages from a cursor on, until they are more than `limit`. -/
def gather (next : Option κ → Page α κ) (kept : α → Bool) (limit : ℕ) :
    ℕ → List α → Option κ → Option (List α)
  | 0, _, _ => none
  | fuel + 1, items, cursor =>
    let items := items ++ (next cursor).items.filter kept
    match (next cursor).nextCursor with
    | none => some items
    | some after => if items.length ≤ limit then gather next kept limit fuel items (some after) else some items

def mergedPage (key : α → κ) (limit : ℕ) (a b : List α) : Page α κ :=
  let all := sortByKey key (a ++ b)
  { items := all.take limit
    nextCursor := if limit < all.length then (all.take limit).getLast?.map key else none }

/-- The whole of a list, or more than `limit` items from its start. -/
def IsEnough (limit : ℕ) (part whole : List α) : Prop :=
  part <+: whole ∧ (limit < part.length ∨ part = whole)

theorem gather_rest (h : (items.map key).Nodup) (shown kept : α → Bool) {limit : ℕ}
    (hlimit : 0 < limit) (wanted fuel : ℕ) (gathered : List α)
    (hsplit : sortByKey key items = pre ++ rest)
    (hcursor : (pre ++ rest).filter (isAfter key cursor) = rest) (hfuel : rest.length < fuel) :
    ∃ part, gather (page key shown limit items) kept wanted fuel gathered cursor = some part ∧
      IsEnough wanted part (gathered ++ (rest.filter shown).filter kept) := by
  induction fuel generalizing pre rest gathered cursor with
  | zero => exact absurd hfuel (Nat.not_lt_zero _)
  | succ fuel ih =>
    unfold gather
    obtain hpage | ⟨hmore, after, hpage, hsplit', hafter⟩ := page_cases h shown hlimit hsplit hcursor
    · rw [hpage]
      exact ⟨_, rfl, prefix_rfl, .inr rfl⟩
    · rw [hpage]
      dsimp only
      have hwhole : gathered ++ (rest.filter shown).filter kept =
          (gathered ++ ((rest.take limit).filter shown).filter kept) ++
            ((rest.drop limit).filter shown).filter kept := by
        rw [append_assoc, ← filter_append, ← filter_append, take_append_drop]
      split
      · rw [hwhole]
        exact ih _ hsplit' hafter (by rw [length_drop]; omega)
      · next hmany =>
        refine ⟨_, rfl, ?_, .inl (by omega)⟩
        rw [hwhole]
        exact prefix_append _ _

theorem take_filter {p : α → Bool} {limit : ℕ}
    (h : ∀ pre item post, items = pre ++ item :: post → p item = false → limit ≤ (pre.filter p).length) :
    (items.filter p).take limit = items.take limit := by
  induction items generalizing limit with
  | nil => rfl
  | cons first items ih =>
    cases hfirst : p first with
    | false =>
      have hzero := h [] first items rfl hfirst
      rw [filter_nil, length_nil] at hzero
      rw [Nat.le_zero.mp hzero, take_zero, take_zero]
    | true =>
      rw [filter_cons_of_pos hfirst]
      cases limit with
      | zero => rfl
      | succ limit =>
        rw [take_succ_cons, take_succ_cons]
        congr 1
        apply ih
        intro pre item post hitems hdropped
        have hlater := h (first :: pre) item post (by rw [hitems]; rfl) hdropped
        rw [filter_cons_of_pos hfirst, length_cons] at hlater
        omega

theorem isAfter_some {cursor : κ} : isAfter key (some cursor) item ↔ cursor < key item :=
  decide_eq_true_iff

theorem Ordered.nodup_map (h : Ordered key items) : (items.map key).Nodup :=
  pairwise_map.mpr (h.imp ne_of_lt)

theorem Ordered.split (h : Ordered key items) (cursor : Option κ) :
    items = items.filter (fun item => !isAfter key cursor item) ++ items.filter (isAfter key cursor) := by
  induction items with
  | nil => rfl
  | cons first items ih =>
    obtain ⟨hfirst, hrest⟩ := pairwise_cons.mp h
    cases hafter : isAfter key cursor first with
    | true =>
      have hall : ∀ item ∈ items, isAfter key cursor item := by
        intro item hitem
        cases cursor with
        | none => rfl
        | some cursor => exact decide_eq_true (lt_trans (of_decide_eq_true hafter) (hfirst item hitem))
      have hnone : (first :: items).filter (fun item => !isAfter key cursor item) = [] := by
        rw [filter_eq_nil_iff]
        intro item hitem hnot
        obtain rfl | hitem := mem_cons.mp hitem
        · rw [hafter] at hnot
          cases hnot
        · rw [hall item hitem] at hnot
          cases hnot
      rw [hnone, nil_append, filter_cons_of_pos hafter, filter_eq_self.mpr hall]
    | false =>
      have hnot : (!isAfter key cursor first) = true := by rw [hafter]; rfl
      rw [filter_cons, if_pos hnot, filter_cons, hafter, if_neg Bool.false_ne_true, cons_append, ← ih hrest]

theorem Ordered.mem_before {post : List α} {other : α} (h : Ordered key (pre ++ item :: post))
    (hother : other ∈ pre ++ item :: post) (hlt : key other < key item) : other ∈ pre := by
  rw [Ordered, pairwise_append, pairwise_cons] at h
  obtain hpre | hrest := mem_append.mp hother
  · exact hpre
  obtain rfl | hpost := mem_cons.mp hrest
  · exact absurd hlt (lt_irrefl _)
  · exact absurd hlt (lt_asymm (h.2.1.1 other hpost))

theorem IsEnough.before {limit : ℕ} {part whole : List α} (h : IsEnough limit part whole)
    (hordered : Ordered key whole) (hitem : item ∈ whole) (hnot : item ∉ part) :
    limit < part.length ∧ ∀ other ∈ part, key other < key item := by
  obtain ⟨⟨rest, rfl⟩, hmany⟩ := h
  have hrest : item ∈ rest := (mem_append.mp hitem).resolve_left hnot
  rw [Ordered, pairwise_append] at hordered
  refine ⟨?_, fun other hother => hordered.2.2 other hother item hrest⟩
  obtain hmany | hall := hmany
  · exact hmany
  · rw [← hall] at hitem
    exact absurd hitem hnot

section

variable {limit : ℕ} {a a' b b' : List α}

theorem mergedPage_eq (ha : IsEnough limit a a') (hb : IsEnough limit b b') (ha' : Ordered key a')
    (hb' : Ordered key b')
    (h : ((a' ++ b').map key).Nodup) : mergedPage key limit a b = mergedPage key limit a' b' := by
  classical
  have hsub : ∀ item ∈ a ++ b, item ∈ a' ++ b' := by
    intro item hitem
    obtain hitem | hitem := mem_append.mp hitem
    · exact mem_append_left _ (ha.1.subset hitem)
    · exact mem_append_right _ (hb.1.subset hitem)
  have hnodup : ((a ++ b).map key).Nodup := h.sublist ((ha.1.sublist.append hb.1.sublist).map key)
  have hsame : sortByKey key (a ++ b) = (sortByKey key (a' ++ b')).filter (· ∈ a ++ b) := by
    apply Ordered.ext (ordered_sortByKey hnodup) ((ordered_sortByKey h).sublist filter_sublist)
    intro item
    rw [mem_sortByKey, mem_filter, mem_sortByKey, decide_eq_true_eq]
    exact ⟨fun hitem => ⟨hsub item hitem, hitem⟩, And.right⟩
  -- A list of which an item is left out has more than `limit` items before it.
  have hmissed : ∀ item ∈ a' ++ b', item ∉ a ++ b →
      ∃ part, part ⊆ a ++ b ∧ part.Nodup ∧ limit < part.length ∧ ∀ other ∈ part, key other < key item := by
    intro item hitem hnot
    have hitems : (a ++ b).Nodup := List.Nodup.of_map key hnodup
    rw [mem_append, not_or] at hnot
    obtain hitem | hitem := mem_append.mp hitem
    · exact ⟨a, subset_append_left a b, (nodup_append.mp hitems).1, ha.before ha' hitem hnot.1⟩
    · exact ⟨b, subset_append_right a b, (nodup_append.mp hitems).2.1, hb.before hb' hitem hnot.2⟩
  have htake : (sortByKey key (a ++ b)).take limit = (sortByKey key (a' ++ b')).take limit := by
    rw [hsame]
    apply take_filter
    intro pre item post hall hdropped
    have hitem : item ∈ a' ++ b' := by
      rw [← @mem_sortByKey _ _ _ key, hall]
      exact mem_append_right _ mem_cons_self
    obtain ⟨part, hpart, hpartNodup, hmany, hbefore⟩ := hmissed item hitem (of_decide_eq_false hdropped)
    have hsubset : part ⊆ pre.filter (· ∈ a ++ b) := by
      intro other hother
      have hmem : other ∈ pre ++ item :: post := by
        rw [← hall, mem_sortByKey]
        exact hsub other (hpart hother)
      refine mem_filter.mpr ⟨?_, decide_eq_true (hpart hother)⟩
      exact Ordered.mem_before (hall ▸ ordered_sortByKey h) hmem (hbefore other hother)
    have hlength := (subperm_of_subset hpartNodup hsubset).length_le
    omega
  have hlength : limit < (a ++ b).length ↔ limit < (a' ++ b').length := by
    constructor
    · intro hmore
      have hle := (ha.1.sublist.append hb.1.sublist).length_le
      omega
    · intro hmore
      rw [length_append]
      obtain hmany | rfl := ha.2
      · omega
      obtain hmany | rfl := hb.2
      · omega
      · rwa [length_append] at hmore
  unfold mergedPage
  dsimp only
  rw [htake, length_sortByKey, length_sortByKey]
  simp only [hlength]

theorem mergedPage_eq_page {items : List α} (hlimit : 0 < limit) (hmem : ∀ item, item ∈ items ↔ item ∈ a ++ b)
    (h : (items.map key).Nodup) (hab : ((a ++ b).map key).Nodup) :
    mergedPage key limit a b = firstPage key (fun _ => true) limit (sortByKey key items) := by
  have hsame : sortByKey key (a ++ b) = sortByKey key items := by
    apply Ordered.ext (ordered_sortByKey hab) (ordered_sortByKey h)
    intro item
    rw [mem_sortByKey, mem_sortByKey, hmem]
  unfold mergedPage firstPage
  dsimp only
  rw [hsame]
  have hall : ((sortByKey key items).take limit).filter (fun _ => true) = (sortByKey key items).take limit := by
    rw [filter_eq_self]
    exact fun _ _ => rfl
  rw [hall]
  by_cases hmore : limit < (sortByKey key items).length
  · rw [if_pos hmore, if_pos hmore, getLast?_eq_getElem?, length_take, Nat.min_eq_left (by omega),
      getElem?_take_of_lt (by omega)]
  · rw [if_neg hmore, if_neg hmore]

end

theorem ordered_follow {next : Option κ → Page α κ}
    (hlast : ∀ cursor after, (next cursor).nextCursor = some after →
    ∀ item ∈ (next cursor).items, key item ≤ after) (hafter : ∀ cursor, ∀ item ∈ (next cursor).items,
    isAfter key cursor item) (hordered : ∀ cursor, Ordered key (next cursor).items) (hgrows : ∀ cursor after,
    (next cursor).nextCursor = some after → ∀ before ∈ cursor, before ≤ after) (fuel : ℕ) {cursor : Option κ}
    {items : List α} (h : follow next fuel cursor = some items) :
    Ordered key items ∧ ∀ item ∈ items, isAfter key cursor item := by
  induction fuel generalizing cursor items with
  | zero => cases h
  | succ fuel ih =>
    unfold follow at h
    cases hnext : (next cursor).nextCursor with
    | none =>
      rw [hnext] at h
      rw [← some.inj h]
      exact ⟨hordered cursor, hafter cursor⟩
    | some after =>
      rw [hnext] at h
      obtain ⟨rest, hrest, rfl⟩ := map_eq_some_iff.mp h
      obtain ⟨hrestOrdered, hrestAfter⟩ := ih hrest
      constructor
      · refine pairwise_append.mpr ⟨hordered cursor, hrestOrdered, ?_⟩
        intro item hitem other hother
        exact lt_of_le_of_lt (hlast cursor after hnext item hitem) (of_decide_eq_true (hrestAfter other hother))
      · intro item hitem
        obtain hfirst | hlater := mem_append.mp hitem
        · exact hafter cursor item hfirst
        cases cursor with
        | none => rfl
        | some before =>
          have hlt : after < key item := of_decide_eq_true (hrestAfter item hlater)
          exact decide_eq_true (lt_of_le_of_lt (hgrows _ after hnext before rfl) hlt)

end ArdurBot.Paging
