import Ebabf.Py.Json
import Ebabf.Py.Statistics

/-!
# Lines and numerals

`str.splitlines`, and `int` of a text and of what `json.loads` returns. Whitespace and digits of
every script count in a numeral.
-/

namespace Py

/-- Where `splitlines` breaks a line. -/
def isLineBreak (c : CodePoint) : Bool :=
  (0x0A ≤ c.val && c.val ≤ 0x0D) || (0x1C ≤ c.val && c.val ≤ 0x1E) || c.val == 0x85 ||
    c.val == 0x2028 || c.val == 0x2029

/-- The lines of a text, of which the first has already begun with `line`. After a carriage return
a line feed belongs to the same break. -/
def linesFrom (afterReturn : Bool) (line : Str) : Str → List Str
  | [] => if line = [] then [] else [line]
  | c :: s =>
    if afterReturn && c.val == 0x0A then linesFrom false line s
    else if isLineBreak c then line :: linesFrom (c.val == 0x0D) [] s
    else linesFrom false (line ++ [c]) s

/-- `s.splitlines()` -/
def splitlines (s : Str) : List Str := linesFrom false [] s

theorem linesFrom_append_newline {afterReturn : Bool} {line : Str}
    (h : afterReturn = true → line = []) (s t : Str) :
    linesFrom afterReturn line (s ++ str "\n" ++ t) =
      linesFrom afterReturn line (s ++ str "\n") ++ splitlines t := by
  induction s generalizing afterReturn line with
  | nil =>
    cases afterReturn with
    | false => rfl
    | true =>
      rw [h rfl]
      rfl
  | cons c s ih =>
    rw [List.cons_append, List.cons_append, linesFrom, linesFrom]
    split_ifs
    · exact ih fun hfalse => nomatch hfalse
    · rw [ih fun _ => rfl, List.cons_append]
    · exact ih fun hfalse => nomatch hfalse

theorem splitlines_append_newline (s t : Str) :
    splitlines (s ++ str "\n" ++ t) = splitlines (s ++ str "\n") ++ splitlines t :=
  linesFrom_append_newline (fun _ => rfl) s t

theorem splitlines_cons_newline {line : Str} (h : ∀ c ∈ line, isLineBreak c = false) (t : Str) :
    splitlines (line ++ str "\n" ++ t) = line :: splitlines t := by
  have hfrom : ∀ begun : Str, linesFrom false begun (line ++ str "\n" ++ t) =
      (begun ++ line) :: splitlines t := by
    induction line with
    | nil =>
      intro begun
      rw [List.append_nil]
      rfl
    | cons c line ih =>
      intro begun
      obtain ⟨hc, hline⟩ := List.forall_mem_cons.mp h
      rw [List.cons_append, List.cons_append, linesFrom, hc, if_neg (by simp),
        if_neg Bool.false_ne_true, ih hline, List.append_assoc]
      rfl
  exact hfrom []

theorem exists_line_of_begun {line : Str} (hline : line ≠ []) (afterReturn : Bool) (t : Str) :
    ∃ line' ∈ linesFrom afterReturn line t, line <+: line' := by
  induction t generalizing afterReturn line with
  | nil =>
    rw [linesFrom, if_neg hline]
    exact ⟨line, List.mem_singleton_self line, List.prefix_rfl⟩
  | cons c t ih =>
    rw [linesFrom]
    split_ifs
    · exact ih hline false
    · exact ⟨line, List.mem_cons_self, List.prefix_rfl⟩
    · have hgrown : line ++ [c] ≠ [] := List.append_ne_nil_of_left_ne_nil hline [c]
      obtain ⟨line', hmem, hbegins⟩ := ih hgrown false
      exact ⟨line', hmem, (List.prefix_append line [c]).trans hbegins⟩

theorem exists_line_append_right {s : Str} (t : Str) {line : Str} (h : line ∈ splitlines s) :
    ∃ line' ∈ splitlines (s ++ t), line <+: line' := by
  have hfrom : ∀ (afterReturn : Bool) (begun : Str), line ∈ linesFrom afterReturn begun s →
      ∃ line' ∈ linesFrom afterReturn begun (s ++ t), line <+: line' := by
    clear h
    induction s with
    | nil =>
      intro afterReturn begun h
      rw [linesFrom] at h
      split_ifs at h with hbegun
      · exact absurd h List.not_mem_nil
      · rw [List.mem_singleton.mp h]
        exact exists_line_of_begun hbegun afterReturn t
    | cons c s ih =>
      intro afterReturn begun h
      rw [List.cons_append, linesFrom]
      rw [linesFrom] at h
      split_ifs at h ⊢
      · exact ih _ _ h
      · rcases List.mem_cons.mp h with rfl | h
        · exact ⟨line, List.mem_cons_self, List.prefix_rfl⟩
        · obtain ⟨line', hmem, hbegins⟩ := ih _ _ h
          exact ⟨line', List.mem_cons_of_mem _ hmem, hbegins⟩
      · exact ih _ _ h
  exact hfrom false [] h

/-- A line that is not empty ends a line when the text goes on from another one. A line feed after
a carriage return ends none, but the line it would end is empty. -/
theorem exists_line_of_ends {t line : Str} (hline : line ≠ []) (before : Str) :
    ∀ (begun : Str) (afterReturn : Bool), (afterReturn = true → begun = []) →
      line ∈ linesFrom false begun t →
      ∃ line' ∈ linesFrom afterReturn (before ++ begun) t, line <:+ line' := by
  induction t with
  | nil =>
    intro begun afterReturn _ h
    rw [linesFrom] at h
    split_ifs at h with hbegun
    · exact absurd h List.not_mem_nil
    · rw [linesFrom, if_neg (by simp [hbegun]), List.mem_singleton.mp h]
      exact ⟨_, List.mem_singleton_self _, List.suffix_append before begun⟩
  | cons c t ih =>
    intro begun afterReturn hreturn h
    rw [linesFrom, if_neg (by simp)] at h
    rw [linesFrom]
    by_cases hskip : (afterReturn && c.val == 0x0A) = true
    · obtain ⟨hafter, hfeed⟩ := Bool.and_eq_true_iff.mp hskip
      have hbreak : isLineBreak c = true := by
        unfold isLineBreak
        rw [of_decide_eq_true hfeed]
        rfl
      have hnot : (c.val == 0x0D) = false := by
        rw [of_decide_eq_true hfeed]
        rfl
      rw [if_pos hbreak, hnot, hreturn hafter] at h
      rw [if_pos hskip, hreturn hafter]
      rcases List.mem_cons.mp h with rfl | h
      · exact absurd rfl hline
      · exact ih [] false (fun hfalse => nomatch hfalse) h
    · rw [if_neg hskip]
      split_ifs at h ⊢
      · rcases List.mem_cons.mp h with rfl | h
        · exact ⟨_, List.mem_cons_self, List.suffix_append before line⟩
        · exact ⟨line, List.mem_cons_of_mem _ h, List.suffix_rfl⟩
      · obtain ⟨line', hmem, hends⟩ := ih (begun ++ [c]) false (fun hfalse => nomatch hfalse) h
        rw [← List.append_assoc] at hmem
        exact ⟨line', hmem, hends⟩

theorem exists_line_append_left (s : Str) {t line : Str} (hline : line ≠ [])
    (h : line ∈ splitlines t) : ∃ line' ∈ splitlines (s ++ t), line <:+ line' := by
  have hfrom : ∀ (afterReturn : Bool) (begun : Str),
      ∃ line' ∈ linesFrom afterReturn begun (s ++ t), line <:+ line' := by
    induction s with
    | nil =>
      intro afterReturn begun
      have hends := exists_line_of_ends hline begun [] afterReturn (fun _ => rfl) h
      rw [List.append_nil] at hends
      exact hends
    | cons c s ih =>
      intro afterReturn begun
      rw [List.cons_append, linesFrom]
      split_ifs
      · exact ih _ _
      · obtain ⟨line', hmem, hends⟩ := ih (c.val == 0x0D) []
        exact ⟨line', List.mem_cons_of_mem _ hmem, hends⟩
      · exact ih _ _
  exact hfrom false []

theorem exists_line_containing {s t part : Str} (hpart : part ≠ [])
    (h : ∃ line, (line ∈ splitlines s ∨ line ∈ splitlines t) ∧ part <:+: line) :
    ∃ line ∈ splitlines (s ++ t), part <:+: line := by
  obtain ⟨line, hmem | hmem, hwithin⟩ := h
  · obtain ⟨line', hmem', hbegins⟩ := exists_line_append_right t hmem
    exact ⟨line', hmem', hwithin.trans hbegins.isInfix⟩
  · obtain ⟨line', hmem', hends⟩ := exists_line_append_left s (hwithin.ne_nil hpart) hmem
    exact ⟨line', hmem', hwithin.trans hends.isInfix⟩

theorem infix_dropWhile {p : CodePoint → Bool} {part s : Str} (h : part <:+: s)
    (hfirst : ∀ c ∈ part.head?, p c = false) : part <:+: s.dropWhile p := by
  induction s with
  | nil => exact h
  | cons c s ih =>
    rw [List.dropWhile_cons]
    split_ifs with hc
    · rcases List.infix_cons_iff.mp h with hbegins | hwithin
      · cases part with
        | nil => exact List.nil_infix
        | cons first part =>
          obtain ⟨rfl, -⟩ := List.cons_prefix_cons.mp hbegins
          rw [hfirst first rfl] at hc
          cases hc
      · exact ih hwithin
    · exact h

theorem infix_strip {part s : Str} (h : part <:+: s)
    (hfirst : ∀ c ∈ part.head?, c.isSpace = false)
    (hlast : ∀ c ∈ part.getLast?, c.isSpace = false) : part <:+: strip s := by
  have hdropped := infix_dropWhile h hfirst
  have hreversed : part.reverse <:+: (s.dropWhile CodePoint.isSpace).reverse :=
    List.reverse_infix.mpr hdropped
  have hends := infix_dropWhile (p := CodePoint.isSpace) hreversed (by
    rw [List.head?_reverse]
    exact hlast)
  unfold strip
  rw [← List.reverse_infix, List.reverse_reverse]
  exact hends

/-- The text has the line, between two line feeds or where it begins or ends. -/
def HasLine (line text : Str) : Prop :=
  str "\n" ++ line ++ str "\n" <:+: str "\n" ++ text ++ str "\n"

def terminated (lines : List Str) : Str := lines.flatMap fun line => line ++ str "\n"

theorem join_terminated {lines : List Str} (h : lines ≠ []) :
    join (str "\n") lines ++ str "\n" = terminated lines := by
  induction lines with
  | nil => exact absurd rfl h
  | cons line lines ih =>
    cases lines with
    | nil => exact (List.append_nil _).symm
    | cons next lines =>
      have hrest := ih (List.cons_ne_nil next lines)
      rw [join, List.append_assoc, hrest]
      · rfl
      · exact List.cons_ne_nil next lines

theorem exists_feed (lines : List Str) :
    ∃ before, str "\n" ++ terminated lines = before ++ str "\n" := by
  induction lines using List.reverseRecOn with
  | nil => exact ⟨[], rfl⟩
  | append_singleton lines line ih =>
    refine ⟨str "\n" ++ terminated lines ++ line, ?_⟩
    rw [terminated, List.flatMap_append, List.flatMap_singleton, ← terminated, List.append_assoc,
      List.append_assoc]

theorem hasLine_join {line : Str} {lines : List Str} (h : line ∈ lines) :
    HasLine line (join (str "\n") lines) := by
  have hjoined := join_terminated (List.ne_nil_of_mem h)
  obtain ⟨first, last, rfl⟩ := List.append_of_mem h
  obtain ⟨before, hbefore⟩ := exists_feed first
  refine ⟨before, terminated last, ?_⟩
  calc before ++ (str "\n" ++ line ++ str "\n") ++ terminated last
      = (before ++ str "\n") ++ (line ++ str "\n" ++ terminated last) := by
        simp only [List.append_assoc]
    _ = str "\n" ++ terminated first ++ (line ++ str "\n" ++ terminated last) := by rw [hbefore]
    _ = str "\n" ++ terminated (first ++ line :: last) := by
        simp only [terminated, List.flatMap_append, List.flatMap_cons, List.append_assoc]
    _ = str "\n" ++ join (str "\n") (first ++ line :: last) ++ str "\n" := by
        rw [← hjoined, List.append_assoc]

/-- The code points with the decimal value 0, each followed by those with the values 1 to 9, as of
Unicode 14. -/
def DIGIT_ZEROS : List ℕ :=
  [0x30, 0x660, 0x6F0, 0x7C0, 0x966, 0x9E6, 0xA66, 0xAE6, 0xB66, 0xBE6, 0xC66, 0xCE6, 0xD66,
   0xDE6, 0xE50, 0xED0, 0xF20, 0x1040, 0x1090, 0x17E0, 0x1810, 0x1946, 0x19D0, 0x1A80, 0x1A90,
   0x1B50, 0x1BB0, 0x1C40, 0x1C50, 0xA620, 0xA8D0, 0xA900, 0xA9D0, 0xA9F0, 0xAA50, 0xABF0,
   0xFF10, 0x104A0, 0x10D30, 0x11066, 0x110F0, 0x11136, 0x111D0, 0x112F0, 0x11450, 0x114D0,
   0x11650, 0x116C0, 0x11730, 0x118E0, 0x11950, 0x11C50, 0x11D50, 0x11DA0, 0x16A60, 0x16AC0,
   0x16B50, 0x1D7CE, 0x1D7D8, 0x1D7E2, 0x1D7EC, 0x1D7F6, 0x1E140, 0x1E2F0, 0x1E950, 0x1FBF0]

/-- `unicodedata.decimal(c)` -/
def decimalValue (c : CodePoint) : Option ℕ :=
  (DIGIT_ZEROS.find? fun first => first ≤ c.val && c.val < first + 10).map fun first => c.val - first

/-- A code point as `int` reads it: whitespace as a space, digits as ASCII digits. -/
def asciiNumeral (c : CodePoint) : CodePoint :=
  if c.val < 127 then c
  else if c.isSpace then CodePoint.ofChar ' '
  else
    match decimalValue c with
    | some value => Json.ch (Nat.digitChar value)
    | none => CodePoint.ofChar '?'

/-- `Py_ISSPACE` -/
def isAsciiSpace (c : CodePoint) : Bool := (0x09 ≤ c.val && c.val ≤ 0x0D) || c.val == 0x20

def underscore : CodePoint := CodePoint.ofChar '_'

/-- Every underscore stands between two digits. -/
def wellGrouped (afterDigit : Bool) : Str → Bool
  | [] => afterDigit
  | c :: s => if c = underscore then afterDigit && wellGrouped false s else wellGrouped true s

/-- `int(s)`, nothing where it raises `ValueError`. -/
def intOfText (s : Str) : Option ℤ :=
  let body := (s.map asciiNumeral).dropWhile isAsciiSpace
  let sign := Json.scanSign body
  let numeral := sign.2.takeWhile fun c => Json.isDigit c || c == underscore
  let rest := sign.2.dropWhile fun c => Json.isDigit c || c == underscore
  let digits := numeral.filter Json.isDigit
  if wellGrouped false numeral && decide (digits.length ≤ Json.maxStrDigits) &&
      rest.all isAsciiSpace then
    some (if sign.1 then -(Json.digitsValue digits : ℤ) else Json.digitsValue digits)
  else none

example : intOfText (str " +1_000 ") = some 1000 := by decide +kernel

example : intOfText (str "1__0") = none := by decide +kernel

/-- `int(value)` -/
def intOf : Json → Except Exc ℤ
  | .bool b => .ok (if b then 1 else 0)
  | .int n => .ok n
  | .float x =>
    match exactRatio x with
    | some q => .ok (q.num.tdiv q.den)
    | none =>
      if x.isNaN then .error (valueError (str "cannot convert float NaN to integer"))
      else .error ⟨overflowError, str "cannot convert float infinity to integer"⟩
  | .str s =>
    match intOfText s with
    | some n => .ok n
    | none => .error
        (valueError (str "invalid literal for int() with base 10: '" ++ s ++ str "'"))
  | value => .error ⟨.typeError,
      str "int() argument must be a string, a bytes-like object or a real number, not '" ++
        value.typeName ++ str "'"⟩

end Py
