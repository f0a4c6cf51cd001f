import Mathlib.Data.List.Forall2
import Mathlib.Data.List.Lex
import Mathlib.Order.Fin.Basic
import Mathlib.Tactic

/-!
# Python text and exceptions

A Python `str` is a sequence of code points, lone surrogates included: JSON escapes and
undecodable bytes both produce them, so Lean's `String` would be too small a type. Comparison
is lexicographic by code point, which is also the order of SQLite's BINARY collation on UTF-8.
-/

namespace Py

/-- A Unicode code point, surrogates included. -/
abbrev CodePoint := Fin 0x110000

abbrev Str := List CodePoint

instance : LawfulBEq Str := inferInstance

namespace CodePoint

def ofChar (c : Char) : CodePoint := ⟨c.toNat, by
  have h := c.valid
  simp only [UInt32.isValidChar, Nat.isValidChar] at h
  show c.val.toNat < 0x110000
  omega⟩

/-- The scalar value a code point stands for; surrogates have none. -/
def toChar? (c : CodePoint) : Option Char :=
  if h : c.val.isValidChar then some (Char.ofNatAux c.val h) else none

theorem toChar?_ofChar (c : Char) : (ofChar c).toChar? = some c := by
  have h : (ofChar c).val.isValidChar := c.valid
  rw [toChar?, dif_pos h]
  rfl

theorem ofChar_of_toChar? {c : CodePoint} {d : Char} (h : c.toChar? = some d) :
    ofChar d = c := by
  by_cases hv : c.val.isValidChar
  · rw [toChar?, dif_pos hv] at h
    cases h
    rfl
  · rw [toChar?, dif_neg hv] at h
    cases h

/-- `str.isspace` on one code point. -/
def isSpace (c : CodePoint) : Bool :=
  (0x09 ≤ c.val && c.val ≤ 0x0D) || (0x1C ≤ c.val && c.val ≤ 0x20) || c.val == 0x85 ||
    c.val == 0xA0 || c.val == 0x1680 || (0x2000 ≤ c.val && c.val ≤ 0x200A) ||
    c.val == 0x2028 || c.val == 0x2029 || c.val == 0x202F || c.val == 0x205F || c.val == 0x3000

end CodePoint

/-- The Python string a literal denotes. -/
def str (s : String) : Str := s.toList.map CodePoint.ofChar

/-- `str.strip()`. -/
def strip (s : Str) : Str :=
  ((s.dropWhile CodePoint.isSpace).reverse.dropWhile CodePoint.isSpace).reverse

/-- `str(n)` of a natural number. -/
def decimal (n : ℕ) : Str := (Nat.toDigits 10 n).map CodePoint.ofChar

/-- `f"{n:0{width}d}"`. -/
def zeroPadded (width n : ℕ) : Str :=
  List.replicate (width - (decimal n).length) (CodePoint.ofChar '0') ++ decimal n

/-- `f"{n:,}"` of a natural number. -/
def grouped (n : ℕ) : Str :=
  if n < 1000 then decimal n else grouped (n / 1000) ++ str "," ++ zeroPadded 3 (n % 1000)

/-- `oct(n)`. -/
def oct (n : ℕ) : Str := str "0o" ++ (Nat.toDigits 8 n).map CodePoint.ofChar

/-- `sep.join(parts)`. -/
def join (sep : Str) : List Str → Str
  | [] => []
  | [s] => s
  | s :: rest => s ++ sep ++ join sep rest

/-- The built-in exception classes the model raises, and any other by its name. -/
inductive ExcType
  | valueError
  | typeError
  | attributeError
  | recursionError
  | unicodeEncodeError
  | other (name : Str)
deriving DecidableEq

/-- `type(exc).__name__`. -/
def ExcType.name : ExcType → Str
  | .valueError => str "ValueError"
  | .typeError => str "TypeError"
  | .attributeError => str "AttributeError"
  | .recursionError => str "RecursionError"
  | .unicodeEncodeError => str "UnicodeEncodeError"
  | .other name => name

/-- A raised `Exception` with its class and its `str()`. -/
structure Exc where
  type : ExcType
  message : Str
deriving DecidableEq

theorem bind_eq_ok {ε α β : Type} {x : Except ε α} {f : α → Except ε β} {b : β} :
    (x >>= f) = .ok b ↔ ∃ a, x = .ok a ∧ f a = .ok b := by
  cases x with
  | error e => simp [bind, Except.bind]
  | ok a => simp [bind, Except.bind]

theorem bind_eq_error {ε α β : Type} {x : Except ε α} {f : α → Except ε β} {e : ε} :
    (x >>= f) = .error e ↔ x = .error e ∨ ∃ a, x = .ok a ∧ f a = .error e := by
  cases x with
  | error e' => simp [bind, Except.bind]
  | ok a => simp [bind, Except.bind]

section

variable {ε α β : Type} {f : α → Except ε β} {l : List α}

theorem exists_of_mapM_error {e : ε} (h : l.mapM f = .error e) : ∃ a ∈ l, f a = .error e := by
  induction l with
  | nil => cases h
  | cons a l ih =>
    rw [List.mapM_cons] at h
    cases ha : f a with
    | error e' =>
      rw [ha] at h
      cases h
      exact ⟨a, List.mem_cons_self, ha⟩
    | ok b =>
      cases hl : l.mapM f with
      | error e' =>
        rw [ha, hl] at h
        cases h
        obtain ⟨a', hmem, ha'⟩ := ih hl
        exact ⟨a', List.mem_cons_of_mem a hmem, ha'⟩
      | ok bs =>
        rw [ha, hl] at h
        cases h

theorem mapM_eq_ok_iff {r : List β} :
    l.mapM f = .ok r ↔ List.Forall₂ (fun a b => f a = .ok b) l r := by
  induction l generalizing r with
  | nil => simp [pure, Except.pure, eq_comm]
  | cons a l ih =>
    rw [List.mapM_cons, List.forall₂_cons_left_iff]
    cases ha : f a with
    | error e => simp [bind, Except.bind]
    | ok b =>
      cases hl : l.mapM f with
      | error e => simp [← ih, hl, bind, Except.bind]
      | ok bs => simp [← ih, hl, bind, Except.bind, pure, Except.pure, eq_comm]

variable {R : α → β → Prop}

theorem exists_forall₂ (h : ∀ a ∈ l, ∃ b, R a b) : ∃ r, List.Forall₂ R l r := by
  induction l with
  | nil => exact ⟨[], .nil⟩
  | cons a l ih =>
    obtain ⟨⟨b, hb⟩, hl⟩ := List.forall_mem_cons.mp h
    obtain ⟨r, hr⟩ := ih hl
    exact ⟨b :: r, .cons hb hr⟩

theorem exists_mem_of_forall₂ {r : List β} {a : α} (h : List.Forall₂ R l r) (ha : a ∈ l) :
    ∃ b ∈ r, R a b := by
  induction h with
  | nil => cases ha
  | @cons a' b l r hab _ ih =>
    rcases List.mem_cons.mp ha with rfl | ha
    · exact ⟨b, List.mem_cons_self, hab⟩
    · obtain ⟨b', hb', hR⟩ := ih ha
      exact ⟨b', List.mem_cons_of_mem b hb', hR⟩

theorem mapM_of_forall₂ {γ : Type} {S : β → γ → Prop} {cs : List γ}
    (h : List.Forall₂ (fun a c => ∃ b, f a = .ok b ∧ S b c) l cs) :
    ∃ bs, l.mapM f = .ok bs ∧ List.Forall₂ S bs cs := by
  induction h with
  | nil => exact ⟨[], rfl, .nil⟩
  | cons hhead _ ih =>
    obtain ⟨b, hb, hS⟩ := hhead
    obtain ⟨bs, hbs, hforall⟩ := ih
    refine ⟨b :: bs, ?_, .cons hS hforall⟩
    rw [List.mapM_cons, hb, hbs]
    rfl

end

def valueError (message : Str) : Exc := ⟨.valueError, message⟩

/-- `f"{type(exc).__name__}: {exc}"`. -/
def Exc.describe (e : Exc) : Str := e.type.name ++ str ": " ++ e.message

end Py
