import Ebabf.Py.Json
import Ebabf.Py.Utf8

/-!
# The strings in a JSON value

With `ensure_ascii=False` a dump holds the strings of its value as they are, so it can be encoded
exactly when each of them can.
-/

namespace Py.Json

mutual

/-- Every string in a value, the keys of its objects among them. -/
def texts : Json → List Str
  | .str s => [s]
  | .arr items => textsItems items
  | .obj members => textsMembers members
  | _ => []

def textsItems : List Json → List Str
  | [] => []
  | x :: xs => texts x ++ textsItems xs

def textsMembers : List (Str × Json) → List Str
  | [] => []
  | (k, v) :: ms => k :: (texts v ++ textsMembers ms)

end

theorem encodes_escapeChar (c : CodePoint) : Encodes (escapeChar c) ↔ c.toChar?.isSome := by
  have hascii : c.val < 0xD800 → c.toChar?.isSome := isSome_toChar?
  unfold escapeChar
  split_ifs with h₁ h₂ h₃ h₄ h₅ h₆ h₇ h₈
  · rw [h₁]
    simp [encodes_cons, ch]
  · rw [h₂]
    simp [encodes_cons, ch]
  · rw [h₃]
    simp [encodes_cons, ch]
  · rw [h₄]
    simp [encodes_cons, ch]
  · rw [h₅]
    simp [encodes_cons, ch]
  · simp [encodes_cons, ch, hascii (by omega)]
  · simp [encodes_cons, ch, hascii (by omega)]
  · simp [encodes_cons, ch, hexDigit, hascii (by omega)]
  · simp [encodes_cons]

@[simp] theorem encodes_quote (s : Str) : Encodes (quote s) ↔ Encodes s := by
  have hbody : Encodes (s.flatMap escapeChar) ↔ Encodes s := by
    induction s with
    | nil => simp
    | cons c s ih => rw [List.flatMap_cons, encodes_append, encodes_escapeChar, ih, encodes_cons]
  rw [quote, List.cons_append, encodes_cons, encodes_append, hbody]
  simp [encodes_cons, ch]

@[simp] theorem encodes_intText (n : ℤ) : Encodes (intText n) := by
  unfold intText
  split_ifs
  · exact encodes_cons.mpr ⟨isSome_toChar?_ofChar '-', encodes_decimal _⟩
  · exact encodes_decimal _

@[simp] theorem encodes_floatText (x : Float) : Encodes (floatText x) := by
  unfold floatText
  split_ifs
  · exact encodes_str _
  · exact encodes_str _
  · exact encodes_str _
  · intro c hc
    have hrepr : IsReprChar c := reprText_floatRepr x c hc
    unfold IsReprChar at hrepr
    exact isSome_toChar? (by omega)

@[simp] theorem encodes_lineBreak (indent : Option ℕ) (level : ℕ) :
    Encodes (lineBreak indent level) := by
  cases indent with
  | none => exact encodes_nil
  | some width => exact encodes_cons.mpr ⟨isSome_toChar?_ofChar '\n', encodes_replicate _ ' '⟩

@[simp] theorem encodes_itemSeparator (indent : Option ℕ) (level : ℕ) :
    Encodes (itemSeparator indent level) := by
  cases indent with
  | none => exact encodes_str _
  | some width => exact encodes_cons.mpr ⟨isSome_toChar?_ofChar ',', encodes_lineBreak _ _⟩

mutual

theorem encodes_dumpsAt (indent : Option ℕ) (level : ℕ) :
    ∀ v : Json, Encodes (dumpsAt indent level v) ↔ ∀ t ∈ v.texts, Encodes t
  | .null => by simp [dumpsAt, texts]
  | .bool true => by simp [dumpsAt, texts]
  | .bool false => by simp [dumpsAt, texts]
  | .int n => by simp [dumpsAt, texts]
  | .float x => by simp [dumpsAt, texts]
  | .str s => by simp [dumpsAt, texts]
  | .arr [] => by simp [dumpsAt, texts, textsItems]
  | .arr (x :: xs) => by
    have hx := encodes_dumpsAt indent (level + 1) x
    have hxs := encodes_dumpsItems indent (level + 1) xs
    simp [dumpsAt, texts, textsItems, encodes_cons, hx, hxs, ch, or_imp, forall_and]
  | .obj [] => by simp [dumpsAt, texts, textsMembers, encodes_cons, ch]
  | .obj ((k, v) :: ms) => by
    have hv := encodes_dumpsAt indent (level + 1) v
    have hms := encodes_dumpsMembers indent (level + 1) ms
    simp [dumpsAt, texts, textsMembers, encodes_cons, hv, hms, ch, or_imp, forall_and]

theorem encodes_dumpsItems (indent : Option ℕ) (level : ℕ) :
    ∀ xs : List Json, Encodes (dumpsItems indent level xs) ↔ ∀ t ∈ textsItems xs, Encodes t
  | [] => by simp [dumpsItems, textsItems]
  | x :: xs => by
    have hx := encodes_dumpsAt indent level x
    have hxs := encodes_dumpsItems indent level xs
    simp [dumpsItems, textsItems, hx, hxs, or_imp, forall_and]

theorem encodes_dumpsMembers (indent : Option ℕ) (level : ℕ) :
    ∀ ms : List (Str × Json),
      Encodes (dumpsMembers indent level ms) ↔ ∀ t ∈ textsMembers ms, Encodes t
  | [] => by simp [dumpsMembers, textsMembers]
  | (k, v) :: ms => by
    have hv := encodes_dumpsAt indent level v
    have hms := encodes_dumpsMembers indent level ms
    simp [dumpsMembers, textsMembers, hv, hms, or_imp, forall_and]

end

/-- A dump can be encoded exactly when every string of its value can. -/
theorem encodes_dumps (indent : Option ℕ) (v : Json) :
    Encodes (dumps indent v) ↔ ∀ t ∈ v.texts, Encodes t := encodes_dumpsAt indent 0 v

end Py.Json
