import ArdurBot.Lib.Json.Print
import ArdurBot.Lib.Utf8

/-!
# JSON in front of bytes

The text of an array or an object says where it ends, so it is told apart from the bytes that stand
behind it.
-/

namespace ArdurBot.Json

open Utf16

def JsValue.toBytes (v : JsValue) : Bytes := utf8 v.toJson

/-- The value is read back whatever stands behind its text. -/
def JsValue.Delimited (v : JsValue) : Prop :=
  ∀ fuel rest, 2 * v.toJson.length ≤ fuel → parseValue fuel (v.toJson ++ rest) = some (v, rest)

theorem delimited_arr {items : List JsValue} (h : (JsValue.arr items).Plain) :
    (JsValue.arr items).Delimited :=
  fun fuel rest hfuel => parseValue_arr (allItems_iff.mp h) (readsBack_items quotes_escapeText h)
    fuel rest hfuel

theorem delimited_obj {fields : Fields} (h : (JsValue.obj fields).Plain) : (JsValue.obj fields).Delimited :=
  fun fuel rest hfuel =>
    parseValue_obj quotes_escapeText h.1 (readsBack_fields quotes_escapeText h.2) fuel rest hfuel

variable {v w : JsValue} {a b : Bytes}

theorem eq_of_begins (hv : v.Delimited) (hw : w.Delimited) (h : v.toJson <+: w.toJson) : v = w := by
  have hlength := Nat.mul_le_mul_left 2 h.length_le
  have hread := hw _ [] le_rfl
  obtain ⟨rest, hrest⟩ := h
  have hread' := hv _ rest hlength
  rw [List.append_nil] at hread
  rw [hrest, hread] at hread'
  exact (Prod.mk.inj (Option.some.inj hread')).1.symm

theorem toBytes_append_inj (hv : v.Delimited) (hw : w.Delimited)
    (h : v.toBytes ++ a = w.toBytes ++ b) : v = w ∧ a = b := by
  have hsame : v = w := by
    obtain hbefore | hbefore :=
      (prefix_of_encoded h).imp (prefix_of_toChars (wellFormed_toJson v) (wellFormed_toJson w))
      (prefix_of_toChars (wellFormed_toJson w) (wellFormed_toJson v))
    · exact eq_of_begins hv hw hbefore
    · exact (eq_of_begins hw hv hbefore).symm
  subst hsame
  exact ⟨rfl, List.append_cancel_left h⟩

theorem toBytes_ne_nil (h : v.toJson ≠ []) : v.toBytes ≠ [] := by
  intro hnil
  have hchars : toChars v.toJson = [] := by
    by_contra hne
    obtain ⟨c, cs, hcs⟩ := List.exists_cons_of_ne_nil hne
    rw [JsValue.toBytes, utf8, hcs, List.flatMap_cons] at hnil
    exact String.utf8EncodeChar_ne_nil (List.append_eq_nil_iff.mp hnil).1
  apply h
  rw [← ofChars_toChars (wellFormed_toJson v), hchars]
  rfl

end ArdurBot.Json
