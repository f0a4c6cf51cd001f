import Ebabf.Py.Text

/-!
# UTF-8 and text files

Encoding fails on lone surrogates and decoding on malformed bytes. A file read in text mode also
has its line endings translated.
-/

namespace Py

/-- `s.encode("utf-8")`; nothing for a text with a surrogate in it. -/
def encodeUtf8 (s : Str) : Option ByteArray :=
  (s.mapM CodePoint.toChar?).map fun cs => (String.ofList cs).toUTF8

/-- `b.decode("utf-8")`. -/
def decodeUtf8 (b : ByteArray) : Option Str :=
  b.utf8Decode?.map fun cs => cs.toList.map CodePoint.ofChar

def carriageReturn : CodePoint := CodePoint.ofChar '\r'

def lineFeed : CodePoint := CodePoint.ofChar '\n'

/-- Universal newlines: `\r\n` and a lone `\r` both read as `\n`. -/
def universalNewlines : Str → Str
  | [] => []
  | c :: rest =>
    if c = carriageReturn then
      if rest.head? = some lineFeed then universalNewlines rest
      else lineFeed :: universalNewlines rest
    else c :: universalNewlines rest

/-- `path.read_text(encoding="utf-8")` of the file's bytes. -/
def readText (b : ByteArray) : Option Str := (decodeUtf8 b).map universalNewlines

theorem map_ofChar_of_mapM_toChar? {s : Str} {cs : List Char}
    (h : s.mapM CodePoint.toChar? = some cs) : cs.map CodePoint.ofChar = s := by
  induction s generalizing cs with
  | nil =>
    cases h
    rfl
  | cons c s ih =>
    simp only [List.mapM_cons, Option.pure_def, Option.bind_eq_bind, Option.bind_eq_some_iff] at h
    obtain ⟨d, hd, ds, hds, hcs⟩ := h
    cases hcs
    rw [List.map_cons, CodePoint.ofChar_of_toChar? hd, ih hds]

theorem mapM_toChar?_isNone (s : Str) :
    (s.mapM CodePoint.toChar?).isNone = s.any fun c => c.toChar?.isNone := by
  induction s with
  | nil => rfl
  | cons c s ih =>
    rw [List.mapM_cons, List.any_cons, ← ih]
    cases c.toChar? with
    | none => rfl
    | some d => cases s.mapM CodePoint.toChar? <;> rfl

/-- Encoding fails on surrogates and on nothing else. -/
theorem encodeUtf8_isNone (s : Str) :
    (encodeUtf8 s).isNone = s.any fun c => c.toChar?.isNone := by
  rw [encodeUtf8, Option.isNone_map, mapM_toChar?_isNone]

/-- A text without surrogates. -/
def Encodes (s : Str) : Prop := ∀ c ∈ s, c.toChar?.isSome

instance (s : Str) : Decidable (Encodes s) := List.decidableBAll _ s

theorem encodeUtf8_isNone_iff {s : Str} : (encodeUtf8 s).isNone = false ↔ Encodes s := by
  rw [encodeUtf8_isNone, List.any_eq_false]
  unfold Encodes
  simp [Option.isSome_iff_ne_none]

@[simp] theorem encodes_nil : Encodes [] := List.forall_mem_nil _

@[simp] theorem encodes_append {s t : Str} : Encodes (s ++ t) ↔ Encodes s ∧ Encodes t :=
  List.forall_mem_append

theorem encodes_cons {c : CodePoint} {s : Str} :
    Encodes (c :: s) ↔ c.toChar?.isSome ∧ Encodes s := List.forall_mem_cons

theorem isSome_toChar? {c : CodePoint} (h : c.val < 0xD800) : c.toChar?.isSome := by
  rw [CodePoint.toChar?, dif_pos (Or.inl h)]
  rfl

@[simp] theorem isSome_toChar?_ofChar (c : Char) : (CodePoint.ofChar c).toChar?.isSome := by
  rw [CodePoint.toChar?_ofChar]
  rfl

@[simp] theorem encodes_map_ofChar (cs : List Char) : Encodes (cs.map CodePoint.ofChar) := by
  intro c hc
  obtain ⟨d, -, rfl⟩ := List.mem_map.mp hc
  exact isSome_toChar?_ofChar d

@[simp] theorem encodes_str (s : String) : Encodes (str s) := encodes_map_ofChar _

@[simp] theorem encodes_decimal (n : ℕ) : Encodes (decimal n) := encodes_map_ofChar _

@[simp] theorem encodes_replicate (n : ℕ) (c : Char) :
    Encodes (List.replicate n (CodePoint.ofChar c)) := by
  intro d hd
  rw [List.eq_of_mem_replicate hd]
  exact isSome_toChar?_ofChar c

@[simp] theorem encodes_zeroPadded (width n : ℕ) : Encodes (zeroPadded width n) :=
  encodes_append.mpr ⟨encodes_replicate _ '0', encodes_decimal n⟩

theorem decodeUtf8_encodeUtf8 {s : Str} {b : ByteArray} (h : encodeUtf8 s = some b) :
    decodeUtf8 b = some s := by
  obtain ⟨cs, hcs, rfl⟩ := Option.map_eq_some_iff.mp h
  rw [decodeUtf8, String.toUTF8, String.toByteArray_ofList, List.utf8Decode?_utf8Encode,
    Option.map_some, List.toList_toArray, map_ofChar_of_mapM_toChar? hcs]

theorem universalNewlines_eq_self {s : Str} (h : carriageReturn ∉ s) : universalNewlines s = s := by
  induction s with
  | nil => rfl
  | cons c s ih =>
    rw [List.mem_cons, not_or] at h
    rw [universalNewlines, if_neg (Ne.symm h.1), ih h.2]

/-- A text without carriage returns is read back as it was written. -/
theorem readText_encodeUtf8 {s : Str} {b : ByteArray} (h : encodeUtf8 s = some b)
    (hcr : carriageReturn ∉ s) : readText b = some s := by
  rw [readText, decodeUtf8_encodeUtf8 h, Option.map_some, universalNewlines_eq_self hcr]

end Py
