import Ebabf.Py.Json
import Mathlib.Tactic

/-!
# Decoding what was encoded

`loads` terminates within the fuel it gives itself, and reads back what `dumps` writes, with or
without indentation, for every value whose nesting the interpreter can recurse into.
-/

namespace Py.Json

theorem scanString_length {s : Str} {p : Str × Str} (h : scanString s = some p) :
    p.2.length < s.length := by
  fun_induction scanString s generalizing p <;>
    simp only [Option.map_eq_some_iff, reduceCtorEq, Option.some.injEq] at h
  case case2 => subst h; simp
  all_goals
    rename_i ih
    obtain ⟨q, hq, rfl⟩ := h
    have hlt := ih hq
    simp only [List.length_cons] at hlt ⊢
    omega

theorem skipSpace_length (s : Str) : (skipSpace s).length ≤ s.length :=
  (List.dropWhile_suffix _).length_le

theorem scanInteger_length {s : Str} {p : Str × Str} (h : scanInteger s = some p) :
    p.2.length < s.length := by
  unfold scanInteger at h
  split at h
  · cases h
  · rename_i c rest
    split_ifs at h with hz hd
    · cases h; simp
    · cases h
      simp only [List.dropWhile_cons, hd, ↓reduceIte, List.length_cons]
      exact Nat.lt_succ_of_le (List.dropWhile_suffix _).length_le

theorem scanFraction_length (s : Str) : (scanFraction s).2.length ≤ s.length := by
  unfold scanFraction
  split
  · split_ifs
    · exact (List.dropWhile_suffix _).length_le.trans (by simp)
    · exact le_rfl
  · exact le_rfl

theorem scanSign_length (s : Str) : (scanSign s).2.length ≤ s.length := by
  unfold scanSign
  split
  · exact le_rfl
  · split_ifs <;> simp

theorem scanExponent_length (s : Str) : (scanExponent s).2.length ≤ s.length := by
  unfold scanExponent
  split
  · exact le_rfl
  · rename_i c rest
    dsimp only
    split
    · exact (List.dropWhile_suffix _).length_le.trans ((scanSign_length rest).trans (by simp))
    · exact le_rfl

theorem scanNumber_length {s : Str} {p : Json × Str} (h : scanNumber s = .ok p) :
    p.2.length < s.length := by
  unfold scanNumber at h
  dsimp only at h
  split at h
  · cases h
  · rename_i whole rest hw
    have h₁ := scanInteger_length hw
    have h₂ := scanFraction_length rest
    have h₃ := scanExponent_length (scanFraction rest).2
    have h₄ : (if (s.head? == some (ch '-')) = true then s.drop 1 else s).length ≤ s.length := by
      split_ifs <;> simp
    split_ifs at h <;> cases h <;> simp only at * <;> omega

theorem scanAtom_length {s : Str} {p : Json × Str} (h : scanAtom s = .ok p) :
    p.2.length < s.length := by
  unfold scanAtom at h
  split at h
  · rename_i word value hc
    cases h
    have hp : word.isPrefixOf s = true :=
      @List.find?_some _ (fun c : Str × Json => c.1.isPrefixOf s) _ _ hc
    have hl := (List.isPrefixOf_iff_prefix.mp hp).length_le
    have hpos : 0 < word.length := by
      have hm := List.mem_of_find?_eq_some hc
      simp only [constants, List.mem_cons, Prod.mk.injEq, List.not_mem_nil, or_false] at hm
      rcases hm with h | h | h | h | h | h <;> rw [h.1] <;> decide
    simp only [List.length_drop] at *
    omega
  · exact scanNumber_length h

/-- A parser whose results always leave a shorter text. -/
def Consumes {α : Type} (parser : Str → Except DecodeError (α × Str)) : Prop :=
  ∀ s p, parser s = .ok p → p.2.length < s.length

theorem length_of_skipSpace {s rest : Str} {c : CodePoint} (h : skipSpace s = c :: rest) :
    rest.length < s.length := by
  have hle := skipSpace_length s
  rw [h, List.length_cons] at hle
  omega

theorem map_ok {α β : Type} {r : Except DecodeError α} {f : α → β} {b : β}
    (h : r.map f = .ok b) : ∃ a, r = .ok a ∧ f a = b := by
  cases r with
  | error e => cases h
  | ok a => exact ⟨a, rfl, by cases h; rfl⟩

theorem consumes_parseValue {fuel : ℕ} (hitems : ∀ depth, Consumes (parseItems fuel depth))
    (hmembers : ∀ depth, Consumes (parseMembers fuel depth)) (depth : ℕ) :
    Consumes (parseValue (fuel + 1) depth) := by
  intro s p h
  cases s with
  | nil => simp [parseValue] at h
  | cons c rest =>
    simp only [parseValue] at h
    split_ifs at h with hq ho ha
    · split at h
      · rename_i t r hs
        cases h
        exact (scanString_length hs).trans (by simp)
      · cases h
    · split at h
      · cases h
      · rename_i depth
        split at h
        · cases h
        · rename_i d r hs
          have hr := length_of_skipSpace hs
          split_ifs at h
          · cases h
            exact hr.trans (by simp)
          · obtain ⟨q, hp, rfl⟩ := map_ok h
            have hm := hmembers depth _ _ hp
            simp only [List.length_cons] at hm ⊢
            omega
    · split at h
      · cases h
      · rename_i depth
        split at h
        · cases h
        · rename_i d r hs
          have hr := length_of_skipSpace hs
          split_ifs at h
          · cases h
            exact hr.trans (by simp)
          · obtain ⟨q, hp, rfl⟩ := map_ok h
            have hm := hitems depth _ _ hp
            simp only [List.length_cons] at hm ⊢
            omega
    · exact scanAtom_length h

theorem consumes_parseItems {fuel depth : ℕ} (hvalue : Consumes (parseValue fuel depth))
    (hitems : Consumes (parseItems fuel depth)) : Consumes (parseItems (fuel + 1) depth) := by
  intro s p h
  simp only [parseItems] at h
  split at h
  · cases h
  · rename_i v rest hv
    have hv := hvalue s _ hv
    split at h
    · cases h
    · rename_i c r hs
      have hr := length_of_skipSpace hs
      split_ifs at h
      · cases h
        exact hr.trans hv
      · obtain ⟨q, hp, rfl⟩ := map_ok h
        have hm := hitems _ _ hp
        have hk := skipSpace_length r
        simp only at hv ⊢
        omega

theorem consumes_parseMembers {fuel depth : ℕ} (hvalue : Consumes (parseValue fuel depth))
    (hmembers : Consumes (parseMembers fuel depth)) :
    Consumes (parseMembers (fuel + 1) depth) := by
  intro s p h
  cases s with
  | nil => simp [parseMembers] at h
  | cons c rest =>
    simp only [parseMembers] at h
    split_ifs at h with hq
    split at h
    · cases h
    · rename_i k r hs
      have hs := scanString_length hs
      split at h
      · cases h
      · rename_i d r₁ h₁
        have h₁ := length_of_skipSpace h₁
        split_ifs at h
        split at h
        · cases h
        · rename_i v r₂ h₂
          have h₂ := hvalue _ _ h₂
          have hk := skipSpace_length r₁
          split at h
          · cases h
          · rename_i e r₃ h₃
            have h₃ := length_of_skipSpace h₃
            split_ifs at h
            · cases h
              simp only [List.length_cons] at *
              omega
            · obtain ⟨q, hp, rfl⟩ := map_ok h
              have hm := hmembers _ _ hp
              have hk' := skipSpace_length r₃
              simp only [List.length_cons] at *
              omega

theorem parse_consumes (fuel : ℕ) : ∀ depth, Consumes (parseValue fuel depth) ∧
    Consumes (parseItems fuel depth) ∧ Consumes (parseMembers fuel depth) := by
  induction fuel with
  | zero =>
    intro depth
    refine ⟨?_, ?_, ?_⟩ <;> intro s p h <;> simp [parseValue, parseItems, parseMembers] at h
  | succ fuel ih =>
    intro depth
    obtain ⟨hvalue, hitems, hmembers⟩ := ih depth
    exact ⟨consumes_parseValue (fun depth => (ih depth).2.1) (fun depth => (ih depth).2.2) depth,
      consumes_parseItems hvalue hitems, consumes_parseMembers hvalue hmembers⟩

theorem map_error {α β : Type} {r : Except DecodeError α} {f : α → β} {e : DecodeError}
    (h : r.map f = .error e) : r = .error e := by
  cases r with
  | error e' => cases h; rfl
  | ok a => cases h

theorem scanAtom_ne_outOfFuel (s : Str) : scanAtom s ≠ .error .outOfFuel := by
  unfold scanAtom scanNumber
  split
  · simp
  · dsimp only
    split
    · simp
    · split_ifs <;> simp

/-- A parser that does not run out of fuel on texts it has two units of fuel for each code point
of, and `spare` besides. -/
def Fuelled {α : Type} (spare fuel : ℕ) (parser : Str → Except DecodeError α) : Prop :=
  ∀ s, 2 * s.length + spare ≤ fuel → parser s ≠ .error .outOfFuel

theorem fuelled_parseValue {fuel : ℕ} (hitems : ∀ depth, Fuelled 2 fuel (parseItems fuel depth))
    (hmembers : ∀ depth, Fuelled 2 fuel (parseMembers fuel depth)) (depth : ℕ) :
    Fuelled 1 (fuel + 1) (parseValue (fuel + 1) depth) := by
  intro s hf h
  cases s with
  | nil => simp [parseValue] at h
  | cons c rest =>
    simp only [List.length_cons] at hf
    simp only [parseValue] at h
    split_ifs at h with hq ho ha
    · split at h <;> cases h
    · split at h
      · cases h
      · split at h
        · cases h
        · rename_i depth _ d r hs
          have hr := length_of_skipSpace hs
          split_ifs at h
          exact hmembers depth (d :: r) (by simp only [List.length_cons]; omega) (map_error h)
    · split at h
      · cases h
      · split at h
        · cases h
        · rename_i depth _ d r hs
          have hr := length_of_skipSpace hs
          split_ifs at h
          exact hitems depth (d :: r) (by simp only [List.length_cons]; omega) (map_error h)
    · exact scanAtom_ne_outOfFuel _ h

theorem fuelled_parseItems {fuel depth : ℕ} (hvalue : Fuelled 1 fuel (parseValue fuel depth))
    (hitems : Fuelled 2 fuel (parseItems fuel depth)) :
    Fuelled 2 (fuel + 1) (parseItems (fuel + 1) depth) := by
  intro s hf h
  simp only [parseItems] at h
  split at h
  · rename_i e hv
    cases h
    exact hvalue s (by omega) hv
  · rename_i v rest hv
    have hv := (parse_consumes fuel depth).1 s _ hv
    split at h
    · cases h
    · rename_i c r hs
      have hr := length_of_skipSpace hs
      have hk := skipSpace_length r
      split_ifs at h
      · exact hitems _ (by simp only at hv; omega) (map_error h)
      · cases h

theorem fuelled_parseMembers {fuel depth : ℕ} (hvalue : Fuelled 1 fuel (parseValue fuel depth))
    (hmembers : Fuelled 2 fuel (parseMembers fuel depth)) :
    Fuelled 2 (fuel + 1) (parseMembers (fuel + 1) depth) := by
  intro s hf h
  cases s with
  | nil => simp [parseMembers] at h
  | cons c rest =>
    simp only [List.length_cons] at hf
    simp only [parseMembers] at h
    split_ifs at h with hq
    swap
    · cases h
    split at h
    · cases h
    · rename_i k r hs
      have hs := scanString_length hs
      split at h
      · cases h
      · rename_i d r₁ h₁
        have h₁ := length_of_skipSpace h₁
        have hk := skipSpace_length r₁
        split_ifs at h
        · split at h
          · rename_i e hv
            cases h
            exact hvalue _ (by simp only at hs; omega) hv
          · rename_i v r₂ h₂
            have h₂ := (parse_consumes fuel depth).1 _ _ h₂
            split at h
            · cases h
            · rename_i e r₃ h₃
              have h₃ := length_of_skipSpace h₃
              have hk' := skipSpace_length r₃
              split_ifs at h
              · exact hmembers _ (by simp only at hs h₂; omega) (map_error h)
              · cases h
        · cases h

/-- Two units of fuel for each code point are enough. -/
theorem parse_enough_fuel (fuel : ℕ) : ∀ depth, Fuelled 1 fuel (parseValue fuel depth) ∧
    Fuelled 2 fuel (parseItems fuel depth) ∧ Fuelled 2 fuel (parseMembers fuel depth) := by
  induction fuel with
  | zero =>
    intro depth
    refine ⟨?_, ?_, ?_⟩ <;> intro s h <;> omega
  | succ fuel ih =>
    intro depth
    obtain ⟨hvalue, hitems, hmembers⟩ := ih depth
    exact ⟨fuelled_parseValue (fun depth => (ih depth).2.1) (fun depth => (ih depth).2.2) depth,
      fuelled_parseItems hvalue hitems, fuelled_parseMembers hvalue hmembers⟩

theorem loads_ne_outOfFuel (limit : ℕ) (s : Str) : loads limit s ≠ .error .outOfFuel := by
  unfold loads
  split_ifs
  · simp
  · dsimp only
    split
    · rename_i e h
      intro he
      cases he
      exact (parse_enough_fuel _ limit).1 _ le_rfl h
    · split_ifs <;> simp

theorem hexUnit_control : ∀ n < 32,
    hexUnit (ch '0') (ch '0') (hexDigit (n / 16)) (hexDigit (n % 16)) = some n := by decide

/-- An escape of a control character is one code unit, never half of a surrogate pair. -/
theorem scanString_control {n : ℕ} (hn : n < 32) (s : Str) :
    scanString (ch '\\' :: ch 'u' :: ch '0' :: ch '0' :: hexDigit (n / 16) ::
      hexDigit (n % 16) :: s) =
      (scanString s).map fun p => (unit n :: p.1, p.2) := by
  have hsur : isHighSurrogate n = false := by
    simp only [isHighSurrogate, Bool.and_eq_false_iff, decide_eq_false_iff_not]
    omega
  rw [scanString, if_neg (by decide), if_pos rfl]
  simp only [↓reduceIte, hexUnit_control n hn, hsur, Bool.false_eq_true, false_and, and_false]
  split
  · split <;> rfl
  · rfl

theorem scanString_simple {e d : CodePoint} (hu : e ≠ ch 'u') (he : simpleEscape e = some d)
    (s : Str) : scanString (ch '\\' :: e :: s) = (scanString s).map fun p => (d :: p.1, p.2) := by
  rw [scanString.eq_def]
  simp only [show ch '\\' ≠ ch '"' by decide, ↓reduceIte, hu, he]

theorem scanString_escapeChar (c : CodePoint) (s : Str) :
    scanString (escapeChar c ++ s) = (scanString s).map fun p => (c :: p.1, p.2) := by
  unfold escapeChar
  split_ifs with h₁ h₂ h₃ h₄ h₅ h₆ h₇ h₈
  · subst h₁; exact scanString_simple (by decide) (by decide) s
  · subst h₂; exact scanString_simple (by decide) (by decide) s
  · subst h₃; exact scanString_simple (by decide) (by decide) s
  · subst h₄; exact scanString_simple (by decide) (by decide) s
  · subst h₅; exact scanString_simple (by decide) (by decide) s
  · obtain rfl : c = unit 0x08 := Fin.ext h₆
    exact scanString_simple (by decide) (by decide) s
  · obtain rfl : c = unit 0x0C := Fin.ext h₇
    exact scanString_simple (by decide) (by decide) s
  · have hc : unit c.val = c := Fin.ext (Nat.mod_eq_of_lt c.isLt)
    have h := scanString_control h₈ s
    rw [hc] at h
    exact h
  · simp only [List.cons_append, List.nil_append]
    rw [scanString.eq_def]
    simp [h₁, h₂, h₈]

theorem scanString_quoted (t s : Str) :
    scanString (t.flatMap escapeChar ++ ch '"' :: s) = some (t, s) := by
  induction t with
  | nil =>
    rw [List.flatMap_nil, List.nil_append, scanString.eq_def]
    simp only [↓reduceIte]
  | cons c t ih =>
    rw [List.flatMap_cons, List.append_assoc, scanString_escapeChar, ih]
    rfl

theorem control_notMem_escapeChar {c d : CodePoint} (hc : c.val < 0x20) : c ∉ escapeChar d := by
  have hdigit : ∀ m < 16, 0x20 ≤ (hexDigit m).val := by decide
  have hpair : ∀ e : CodePoint, 0x20 ≤ e.val → c ∉ [ch '\\', e] := by
    intro e he hmem
    rcases List.mem_cons.mp hmem with rfl | hmem
    · exact absurd hc (by decide)
    · rw [List.mem_singleton] at hmem
      subst hmem
      omega
  unfold escapeChar
  split_ifs with _ _ _ _ _ _ _ hlow
  · exact hpair _ (by decide)
  · exact hpair _ (by decide)
  · exact hpair _ (by decide)
  · exact hpair _ (by decide)
  · exact hpair _ (by decide)
  · exact hpair _ (by decide)
  · exact hpair _ (by decide)
  · have h₁ := hdigit (d.val / 16) (by omega)
    have h₂ := hdigit (d.val % 16) (by omega)
    intro hmem
    simp only [List.mem_cons, List.not_mem_nil, or_false] at hmem
    rcases hmem with rfl | rfl | rfl | rfl | rfl | rfl
    · exact absurd hc (by decide)
    · exact absurd hc (by decide)
    · exact absurd hc (by decide)
    · exact absurd hc (by decide)
    · omega
    · omega
  · rw [List.mem_singleton]
    rintro rfl
    exact hlow hc

theorem control_notMem_quote {c : CodePoint} (hc : c.val < 0x20) (s : Str) : c ∉ quote s := by
  have hne : c ≠ ch '"' := by
    rintro rfl
    exact absurd hc (by decide)
  simp only [quote, List.cons_append, List.mem_cons, List.mem_append, List.mem_flatMap,
    List.not_mem_nil, or_false, hne, false_or, not_exists, not_and]
  exact fun d _ => control_notMem_escapeChar hc

theorem ne_ch_of_isDigit {c : CodePoint} (h : isDigit c) {d : Char}
    (hd : isDigit (ch d) = false) : c ≠ ch d := by
  rintro rfl
  simp [hd] at h

theorem isDigit_decimal {n : ℕ} {c : CodePoint} (h : c ∈ decimal n) : isDigit c := by
  obtain ⟨d, hd, rfl⟩ := List.mem_map.mp h
  have hdigit := Nat.isDigit_of_mem_toDigits (by decide) (by decide) hd
  rw [Char.isDigit, Bool.and_eq_true, decide_eq_true_eq, decide_eq_true_eq] at hdigit
  exact Bool.and_eq_true_iff.mpr ⟨decide_eq_true hdigit.1, decide_eq_true hdigit.2⟩

theorem decimal_ne_nil (n : ℕ) : decimal n ≠ [] := by
  simp [decimal, Nat.toDigits_ne_nil]

theorem digitsValue_decimal (n : ℕ) : digitsValue (decimal n) = n := by
  have hdigit : ∀ m < 10, (ch (Nat.digitChar m)).val - 0x30 = m := by decide
  induction n using Nat.strong_induction_on with
  | _ n ih =>
    rcases Nat.lt_or_ge n 10 with hlt | hge
    · simp only [decimal, Nat.toDigits_of_lt_base hlt, digitsValue, List.map_cons, List.map_nil,
        List.foldl_cons, List.foldl_nil, Nat.mul_zero, Nat.zero_add]
      exact hdigit n hlt
    · have hrec := ih (n / 10) (Nat.div_lt_self (by omega) (by decide))
      simp only [decimal, digitsValue] at hrec
      simp only [decimal, Nat.toDigits_of_base_le (by decide) hge, digitsValue, List.map_append,
        List.map_cons, List.map_nil, List.foldl_append, List.foldl_cons, List.foldl_nil, hrec]
      have h := hdigit (n % 10) (Nat.mod_lt _ (by decide))
      simp only [ch] at h
      omega

theorem foldl_digits (ds : Str) (n : ℕ) :
    ds.foldl (fun n c => 10 * n + (c.val - 0x30)) n = n * 10 ^ ds.length + digitsValue ds := by
  induction ds generalizing n with
  | nil => simp [digitsValue]
  | cons d ds ih =>
    have hvalue : digitsValue (d :: ds) =
        ds.foldl (fun n c => 10 * n + (c.val - 0x30)) (10 * 0 + (d.val - 0x30)) := rfl
    rw [hvalue, List.foldl_cons, ih, ih, List.length_cons]
    ring

theorem digitsValue_cons (c : CodePoint) (ds : Str) :
    digitsValue (c :: ds) = (c.val - 0x30) * 10 ^ ds.length + digitsValue ds := by
  have hvalue : digitsValue (c :: ds) =
      ds.foldl (fun n c => 10 * n + (c.val - 0x30)) (10 * 0 + (c.val - 0x30)) := rfl
  rw [hvalue, foldl_digits, Nat.mul_zero, Nat.zero_add]

theorem digitsValue_append (ds es : Str) :
    digitsValue (ds ++ es) = digitsValue ds * 10 ^ es.length + digitsValue es := by
  rw [← foldl_digits]
  exact List.foldl_append

theorem isDigit_zeros {n : ℕ} {c : CodePoint} (h : c ∈ zeros n) : isDigit c := by
  rw [List.eq_of_mem_replicate h]
  decide

theorem digitsValue_zeros (n : ℕ) : digitsValue (zeros n) = 0 := by
  induction n with
  | zero => rfl
  | succ n ih =>
    have hcons : zeros (n + 1) = ch '0' :: zeros n := rfl
    have hzero : (ch '0').val - 0x30 = 0 := by decide
    rw [hcons, digitsValue_cons, ih, hzero, Nat.zero_mul]

theorem isDigit_zeroPadded {width n : ℕ} {c : CodePoint} (h : c ∈ zeroPadded width n) :
    isDigit c = true := by
  rcases List.mem_append.mp h with hzero | hdigit
  · exact isDigit_zeros hzero
  · exact isDigit_decimal hdigit

theorem digitsValue_zeroPadded (width n : ℕ) : digitsValue (zeroPadded width n) = n := by
  have hzeros : zeroPadded width n = zeros (width - (decimal n).length) ++ decimal n := rfl
  rw [hzeros, digitsValue_append, digitsValue_zeros, Nat.zero_mul, Nat.zero_add,
    digitsValue_decimal]

theorem decimal_head {n : ℕ} (hn : 0 < n) : ∀ c ∈ (decimal n).head?, c ≠ ch '0' := by
  have hdigit : ∀ m < 10, 0 < m → ch (Nat.digitChar m) ≠ ch '0' := by decide
  induction n using Nat.strong_induction_on with
  | _ n ih =>
    intro c hc
    rcases Nat.lt_or_ge n 10 with hlt | hge
    · simp only [decimal, Nat.toDigits_of_lt_base hlt, List.map_cons, List.map_nil, List.head?_cons,
        Option.mem_some_iff] at hc
      subst hc
      exact hdigit n hlt hn
    · refine ih (n / 10) (Nat.div_lt_self hn (by decide)) (Nat.div_pos hge (by decide)) c ?_
      have hne := decimal_ne_nil (n / 10)
      have happ : decimal n = decimal (n / 10) ++ [ch (n % 10).digitChar] := by
        rw [decimal, Nat.toDigits_of_base_le (by decide) hge, List.map_append]
        rfl
      rwa [happ, List.head?_append_of_ne_nil _ hne] at hc

/-- What may follow a number without becoming part of it. -/
def Delimits (r : Str) : Prop :=
  ∀ c ∈ r.head?, isDigit c = false ∧ c ≠ ch '.' ∧ c ≠ ch 'e' ∧ c ≠ ch 'E'

theorem takeWhile_digits {ds r : Str} (hds : ∀ c ∈ ds, isDigit c)
    (hr : ∀ c ∈ r.head?, isDigit c = false) :
    (ds ++ r).takeWhile isDigit = ds ∧ (ds ++ r).dropWhile isDigit = r := by
  have hnone : r.takeWhile isDigit = [] ∧ r.dropWhile isDigit = r := by
    cases r with
    | nil => exact ⟨rfl, rfl⟩
    | cons c r => simp [hr c rfl]
  rw [List.takeWhile_append_of_pos hds, List.dropWhile_append_of_pos hds, hnone.1, hnone.2]
  exact ⟨List.append_nil ds, rfl⟩

theorem scanInteger_digits {ds r : Str} (hne : ds ≠ []) (hds : ∀ c ∈ ds, isDigit c)
    (hhead : ∀ c ∈ ds.head?, c ≠ ch '0') (hr : ∀ c ∈ r.head?, isDigit c = false) :
    scanInteger (ds ++ r) = some (ds, r) := by
  have hspan := takeWhile_digits hds hr
  obtain ⟨c, t, rfl⟩ := List.exists_cons_of_ne_nil hne
  have hc : c ≠ ch '0' := hhead c rfl
  have hdigit : isDigit c := hds c List.mem_cons_self
  simp only [List.cons_append] at hspan ⊢
  simp only [scanInteger, if_neg hc, if_pos hdigit, hspan.1, hspan.2]

theorem scanInteger_decimal (n : ℕ) {r : Str} (hr : Delimits r) :
    scanInteger (decimal n ++ r) = some (decimal n, r) := by
  rcases Nat.eq_zero_or_pos n with rfl | hn
  · have hzero : decimal 0 = [ch '0'] := by decide
    simp [hzero, scanInteger]
  · exact scanInteger_digits (decimal_ne_nil n) (fun c => isDigit_decimal) (decimal_head hn)
      fun c hc => (hr c hc).1

theorem scanFraction_delimited {r : Str} (hr : Delimits r) : scanFraction r = ([], r) := by
  unfold scanFraction
  split
  · rename_i c d t
    rw [if_neg fun h => (hr c rfl).2.1 h.1]
  · rfl

theorem scanExponent_delimited {r : Str} (hr : Delimits r) : scanExponent r = (none, r) := by
  unfold scanExponent
  split
  · rfl
  · rename_i c t
    have hc := (hr c rfl).2.2
    simp [hc.1, hc.2]

/-- A digit, or a minus before one. -/
def NumberHead (s : Str) : Prop :=
  ∃ c t, s = c :: t ∧ (isDigit c ∨ c = ch '-' ∧ ∃ d t', t = d :: t' ∧ isDigit d)

theorem numberHead_append {s : Str} (h : NumberHead s) (r : Str) : NumberHead (s ++ r) := by
  obtain ⟨c, t, rfl, hc | ⟨rfl, d, u, rfl, hd⟩⟩ := h
  · exact ⟨c, t ++ r, rfl, .inl hc⟩
  · exact ⟨_, _, rfl, .inr ⟨rfl, d, u ++ r, rfl, hd⟩⟩

theorem intText_head (n : ℤ) : NumberHead (intText n) := by
  obtain ⟨d, t, ht⟩ := List.exists_cons_of_ne_nil (decimal_ne_nil n.natAbs)
  have hd : isDigit d := isDigit_decimal (n := n.natAbs) (by rw [ht]; exact List.mem_cons_self)
  unfold intText
  split_ifs
  · exact ⟨_, _, rfl, .inr ⟨rfl, d, t, ht, hd⟩⟩
  · exact ⟨d, t, ht, .inl hd⟩

theorem constants_words : constants.map Prod.fst = [Py.str "null", Py.str "true", Py.str "false",
    Py.str "NaN", Py.str "Infinity", Py.str "-Infinity"] := rfl

theorem not_isPrefixOf {word t : Str} {a c : CodePoint} (hw : a ∈ word.head?) (hac : a ≠ c) :
    ¬word.isPrefixOf (c :: t) = true := by
  cases word with
  | nil => cases hw
  | cons b u =>
    obtain rfl : b = a := by simpa using hw
    simp [List.isPrefixOf_cons_cons, hac]

theorem constants_find?_number {s : Str} (h : NumberHead s) :
    (constants.find? fun c => c.1.isPrefixOf s) = none := by
  obtain ⟨c, t, rfl, hc⟩ := h
  rw [List.find?_eq_none]
  intro p hp
  have hp := List.mem_map_of_mem (f := Prod.fst) hp
  simp only [constants_words, List.mem_cons, List.not_mem_nil, or_false] at hp
  rcases hc with hc | ⟨rfl, d, u, rfl, hd⟩
  · -- a digit starts no constant
    have hne : ∀ a : Char, isDigit (ch a) = false → ch a ≠ c := fun a ha =>
      (ne_ch_of_isDigit hc ha).symm
    rcases hp with h | h | h | h | h | h <;> rw [h] <;>
      exact not_isPrefixOf rfl (hne _ (by decide))
  · rcases hp with h | h | h | h | h | h
    -- of the constants only `-Infinity` starts with a minus, and a digit cannot follow it there
    case inr.inr.inr.inr.inr =>
      rw [h, show Py.str "-Infinity" = ch '-' :: Py.str "Infinity" by rfl,
        List.isPrefixOf_cons_cons, Bool.and_eq_true]
      exact fun hp => not_isPrefixOf rfl (ne_ch_of_isDigit hd (by decide)).symm hp.2
    all_goals
      rw [h]
      exact not_isPrefixOf rfl (by decide)

theorem scanAtom_number {s : Str} (h : NumberHead s) : scanAtom s = scanNumber s := by
  rw [scanAtom, constants_find?_number h]

theorem scanAtom_intText {n : ℤ} (hn : (decimal n.natAbs).length ≤ maxStrDigits) {r : Str}
    (hr : Delimits r) : scanAtom (intText n ++ r) = .ok (.int n, r) := by
  rw [scanAtom_number (numberHead_append (intText_head n) r), scanNumber]
  dsimp only
  have hhead : ((intText n ++ r).head? == some (ch '-')) = decide (n < 0) := by
    obtain ⟨d, t, ht⟩ := List.exists_cons_of_ne_nil (decimal_ne_nil n.natAbs)
    have hd : isDigit d := isDigit_decimal (n := n.natAbs) (by rw [ht]; exact List.mem_cons_self)
    by_cases hneg : n < 0
    · simp [intText, hneg]
    · simp [intText, hneg, ht, ne_ch_of_isDigit hd (d := '-') (by decide)]
  have hbody : (if decide (n < 0) = true then (intText n ++ r).drop 1 else intText n ++ r) =
      decimal n.natAbs ++ r := by
    by_cases hneg : n < 0 <;> simp [intText, hneg]
  rw [hhead, hbody, scanInteger_decimal _ hr]
  simp only [scanFraction_delimited hr, scanExponent_delimited hr, digitsValue_decimal, and_self,
    ↓reduceIte, if_neg (Nat.not_lt.mpr hn), decide_eq_true_eq]
  congr 3
  split_ifs <;> omega

/-- The decoder finds `x`, unless the model's own bound stops it first. -/
def Yields {α : Type} (outcome : Except DecodeError α) (x : α) : Prop :=
  outcome = .ok x ∨ outcome = .error .outOfFuel

/-- A first character that opens neither a string nor a container and closes none. -/
def isPlainHead (c : CodePoint) : Bool :=
  !isSpace c && c != ch '"' && c != ch '{' && c != ch '}' && c != ch '[' && c != ch ']' &&
    c != unit 0xFEFF

/-- A text the atom scanner reads as `v` whatever delimiter follows. -/
def AtomReads (text : Str) (v : Json) : Prop :=
  (∃ c t, text = c :: t ∧ isPlainHead c) ∧
    ∀ r, Delimits r → scanAtom (text ++ r) = .ok (v, r)

mutual

/-- Values that decode to themselves with `depth` nested containers allowed: integers within
the digit limit, floats whose `repr` reads back, and objects with distinct keys. -/
def Readable : (depth : ℕ) → Json → Prop
  | _, .null => True
  | _, .bool _ => True
  | _, .int n => (decimal n.natAbs).length ≤ maxStrDigits
  | _, .float x => AtomReads (floatText x) (.float x)
  | _, .str _ => True
  | 0, .arr _ => False
  | 0, .obj _ => False
  | depth + 1, .arr items => ReadableItems depth items
  | depth + 1, .obj members => (members.map Prod.fst).Nodup ∧ ReadableMembers depth members

def ReadableItems : (depth : ℕ) → List Json → Prop
  | _, [] => True
  | depth, x :: xs => Readable depth x ∧ ReadableItems depth xs

def ReadableMembers : (depth : ℕ) → List (Str × Json) → Prop
  | _, [] => True
  | depth, (_, v) :: ms => Readable depth v ∧ ReadableMembers depth ms

end

theorem Yields.map {α β : Type} {outcome : Except DecodeError α} {x : α}
    (h : Yields outcome x) (f : α → β) : Yields (outcome.map f) (f x) := by
  rcases h with rfl | rfl
  · exact .inl rfl
  · exact .inr rfl

theorem skipSpace_cons {c : CodePoint} (hc : isSpace c = false) (s : Str) :
    skipSpace (c :: s) = c :: s := by
  simp [skipSpace, hc]

theorem skipSpace_lineBreak (indent : Option ℕ) (level : ℕ) (s : Str) :
    skipSpace (lineBreak indent level ++ s) = skipSpace s := by
  cases indent with
  | none => rfl
  | some width =>
    refine List.dropWhile_append_of_pos fun c hc => ?_
    rcases List.mem_cons.mp hc with rfl | hc
    · decide
    · rw [List.eq_of_mem_replicate hc]
      decide

theorem itemSeparator_eq (indent : Option ℕ) (level : ℕ) :
    ∃ t, itemSeparator indent level = ch ',' :: t ∧ ∀ s, skipSpace (t ++ s) = skipSpace s := by
  cases indent with
  | none => exact ⟨[ch ' '], rfl, fun s => by simp [skipSpace, show isSpace (ch ' ') by decide]⟩
  | some width => exact ⟨_, rfl, skipSpace_lineBreak (some width) level⟩

theorem delimits_cons {c : CodePoint} (hc : isDigit c = false ∧ c ≠ ch '.' ∧ c ≠ ch 'e' ∧ c ≠ ch 'E')
    (s : Str) : Delimits (c :: s) := by
  intro d hd
  obtain rfl : c = d := by simpa using hd
  exact hc

theorem delimits_itemSeparator (indent : Option ℕ) (level : ℕ) (s : Str) :
    Delimits (itemSeparator indent level ++ s) := by
  obtain ⟨t, ht, -⟩ := itemSeparator_eq indent level
  rw [ht]
  exact delimits_cons (by decide) _

theorem delimits_lineBreak (indent : Option ℕ) (level : ℕ) {s : Str} (hs : Delimits s) :
    Delimits (lineBreak indent level ++ s) := by
  cases indent with
  | none => exact hs
  | some width => exact delimits_cons (by decide) _

/-- The decoder reads `v` from the text `dumps` writes for it at any level. -/
def ReadsBack (depth : ℕ) (v : Json) : Prop :=
  ∀ indent level fuel r, Delimits r →
    Yields (parseValue fuel depth (dumpsAt indent level v ++ r)) (v, r)

theorem parseValue_atom {text : Str} {v : Json} (h : AtomReads text v) (fuel depth : ℕ) {r : Str}
    (hr : Delimits r) : Yields (parseValue fuel depth (text ++ r)) (v, r) := by
  obtain ⟨⟨c, t, rfl, hc⟩, hscan⟩ := h
  cases fuel with
  | zero => exact .inr rfl
  | succ fuel =>
    have h := hscan r hr
    simp only [isPlainHead, Bool.and_eq_true, bne_iff_ne, ne_eq] at hc
    left
    simp only [List.cons_append] at h ⊢
    simp only [parseValue, hc, ↓reduceIte, h]

theorem atomReads_constant {word : Str} {v : Json} (hw : (word, v) ∈ constants.take 3) :
    AtomReads word v := by
  simp only [constants, List.take, List.mem_cons, Prod.mk.injEq, List.not_mem_nil, or_false] at hw
  rcases hw with ⟨rfl, rfl⟩ | ⟨rfl, rfl⟩ | ⟨rfl, rfl⟩
  · exact ⟨⟨_, _, rfl, by decide⟩, fun r _ => rfl⟩
  · exact ⟨⟨_, _, rfl, by decide⟩, fun r _ => rfl⟩
  · exact ⟨⟨_, _, rfl, by decide⟩, fun r _ => rfl⟩

theorem isPlainHead_number {s : Str} (h : NumberHead s) : ∃ c t, s = c :: t ∧ isPlainHead c := by
  obtain ⟨c, t, rfl, hc⟩ := h
  refine ⟨c, t, rfl, ?_⟩
  rcases hc with hc | ⟨rfl, -⟩
  · have hspace : isSpace c = false := by
      simp only [isSpace, Bool.or_eq_false_iff, beq_eq_false_iff_ne]
      refine ⟨⟨⟨?_, ?_⟩, ?_⟩, ?_⟩ <;> exact ne_ch_of_isDigit hc (by decide)
    simp only [isPlainHead, hspace, Bool.and_eq_true, bne_iff_ne]
    refine ⟨⟨⟨⟨⟨⟨rfl, ?_⟩, ?_⟩, ?_⟩, ?_⟩, ?_⟩, ?_⟩
    case refine_6 =>
      rintro rfl
      exact absurd hc (by decide)
    all_goals exact ne_ch_of_isDigit hc (by decide)
  · decide

theorem atomReads_int {n : ℤ} (hn : (decimal n.natAbs).length ≤ maxStrDigits) :
    AtomReads (intText n) (.int n) :=
  ⟨isPlainHead_number (intText_head n), fun _ hr => scanAtom_intText hn hr⟩

theorem readsBack_str (depth : ℕ) (t : Str) : ReadsBack depth (.str t) := by
  intro indent level fuel r _
  cases fuel with
  | zero => exact .inr rfl
  | succ fuel =>
    left
    simp only [dumpsAt, quote, List.cons_append, List.append_assoc, List.nil_append, parseValue,
      ↓reduceIte, scanString_quoted]

/-- Text a value or a member can start with: no whitespace, closing bracket or byte order
mark. -/
def Opens (s : Str) : Prop :=
  ∃ c t, s = c :: t ∧ isSpace c = false ∧ c ≠ ch ']' ∧ c ≠ ch '}' ∧ c ≠ unit 0xFEFF

theorem opens_of_atomReads {text : Str} {v : Json} (h : AtomReads text v) : Opens text := by
  obtain ⟨⟨c, t, rfl, hc⟩, -⟩ := h
  simp only [isPlainHead, Bool.and_eq_true, bne_iff_ne, ne_eq, Bool.not_eq_true'] at hc
  exact ⟨c, t, rfl, hc.1.1.1.1.1.1, hc.1.2, hc.1.1.1.2, hc.2⟩

theorem opens_quote (s : Str) : Opens (quote s) :=
  ⟨_, _, rfl, by decide⟩

theorem Opens.append {s : Str} (h : Opens s) (t : Str) : Opens (s ++ t) := by
  obtain ⟨c, u, rfl, hc⟩ := h
  exact ⟨c, u ++ t, rfl, hc⟩

theorem Opens.skipSpace_eq {s : Str} (h : Opens s) : skipSpace s = s := by
  obtain ⟨c, u, rfl, hc⟩ := h
  exact skipSpace_cons hc.1 u

theorem opens_dumpsAt {depth : ℕ} {v : Json} (hv : Readable depth v) (indent : Option ℕ)
    (level : ℕ) : Opens (dumpsAt indent level v) := by
  cases v with
  | null => exact ⟨_, _, rfl, by decide⟩
  | bool b => cases b <;> exact ⟨_, _, rfl, by decide⟩
  | int n => exact opens_of_atomReads (atomReads_int (by simpa [Readable] using hv))
  | float x =>
    rw [Readable] at hv
    rw [dumpsAt]
    exact opens_of_atomReads hv
  | str s => exact opens_quote s
  | arr items =>
    cases items with
    | nil => exact ⟨_, _, rfl, by decide⟩
    | cons x xs =>
      rw [dumpsAt]
      exact ⟨_, _, rfl, by decide⟩
  | obj members =>
    cases members with
    | nil => exact ⟨_, _, rfl, by decide⟩
    | cons m ms =>
      rw [dumpsAt]
      exact ⟨_, _, rfl, by decide⟩

section

variable {fuel depth : ℕ} {s r : Str}

theorem skipSpace_blank (s : Str) : skipSpace (ch ' ' :: s) = skipSpace s := by
  simp [skipSpace, show isSpace (ch ' ') by decide]

theorem skipSpace_itemSeparator (indent : Option ℕ) (level : ℕ) {next : Str} (hopen : Opens next) :
    ∃ t, skipSpace (itemSeparator indent level ++ next) = ch ',' :: t ∧ skipSpace t = next := by
  obtain ⟨sep, hsep, hskip⟩ := itemSeparator_eq indent level
  refine ⟨sep ++ next, ?_, ?_⟩
  · rw [hsep, List.cons_append, skipSpace_cons (by decide)]
  · rw [hskip, hopen.skipSpace_eq]

theorem parseItems_of_error {e : DecodeError} (h : parseValue fuel depth s = .error e) :
    parseItems (fuel + 1) depth s = .error e := by
  rw [parseItems, h]

theorem parseItems_last {x : Json} {indent : Option ℕ} {outer : ℕ}
    (h : parseValue fuel depth s = .ok (x, lineBreak indent outer ++ ch ']' :: r)) :
    parseItems (fuel + 1) depth s = .ok ([x], r) := by
  rw [parseItems, h]
  simp only [skipSpace_lineBreak, skipSpace_cons (c := ch ']') (by decide), ↓reduceIte]

theorem parseItems_next {x : Json} {indent : Option ℕ} {level : ℕ} {next : Str}
    (hopen : Opens next)
    (h : parseValue fuel depth s = .ok (x, itemSeparator indent level ++ next)) :
    parseItems (fuel + 1) depth s =
      (parseItems fuel depth next).map fun p => (x :: p.1, p.2) := by
  obtain ⟨t, ht, hnext⟩ := skipSpace_itemSeparator indent level hopen
  rw [parseItems, h]
  simp only [ht, show ch ',' ≠ ch ']' by decide, ↓reduceIte, hnext]

theorem quote_append (k r : Str) :
    quote k ++ r = ch '"' :: (k.flatMap escapeChar ++ ch '"' :: r) := by
  simp only [quote, List.cons_append, List.append_assoc, List.nil_append]

theorem parseMembers_of_error {e : DecodeError} (k : Str) (hopen : Opens s)
    (h : parseValue fuel depth s = .error e) :
    parseMembers (fuel + 1) depth (quote k ++ (ch ':' :: ch ' ' :: s)) = .error e := by
  rw [quote_append, parseMembers]
  simp only [scanString_quoted, ↓reduceIte, skipSpace_cons (c := ch ':') (by decide),
    skipSpace_blank, hopen.skipSpace_eq, h]

theorem parseMembers_last {v : Json} {indent : Option ℕ} {outer : ℕ} (k : Str) (hopen : Opens s)
    (h : parseValue fuel depth s = .ok (v, lineBreak indent outer ++ ch '}' :: r)) :
    parseMembers (fuel + 1) depth (quote k ++ (ch ':' :: ch ' ' :: s)) = .ok ([(k, v)], r) := by
  rw [quote_append, parseMembers]
  simp only [scanString_quoted, ↓reduceIte, skipSpace_cons (c := ch ':') (by decide),
    skipSpace_blank, hopen.skipSpace_eq, h, skipSpace_lineBreak,
    skipSpace_cons (c := ch '}') (by decide)]

theorem parseMembers_next {v : Json} {indent : Option ℕ} {level : ℕ} {next : Str} (k : Str)
    (hopen : Opens s) (hopen' : Opens next)
    (h : parseValue fuel depth s = .ok (v, itemSeparator indent level ++ next)) :
    parseMembers (fuel + 1) depth (quote k ++ (ch ':' :: ch ' ' :: s)) =
      (parseMembers fuel depth next).map fun p => ((k, v) :: p.1, p.2) := by
  obtain ⟨t, ht, hnext⟩ := skipSpace_itemSeparator indent level hopen'
  rw [quote_append, parseMembers]
  simp only [scanString_quoted, ↓reduceIte, skipSpace_cons (c := ch ':') (by decide),
    skipSpace_blank, hopen.skipSpace_eq, h, ht, show ch ',' ≠ ch '}' by decide, hnext]

theorem parseValue_arr (indent : Option ℕ) (level : ℕ) {x : Json} (xs : List Json)
    (hopen : Opens (dumpsAt indent (level + 1) x)) :
    parseValue (fuel + 1) (depth + 1) (dumpsAt indent level (.arr (x :: xs)) ++ r) =
      (parseItems fuel depth (dumpsAt indent (level + 1) x ++ (dumpsItems indent (level + 1) xs ++
        (lineBreak indent level ++ ch ']' :: r)))).map fun p => (.arr p.1, p.2) := by
  have hopen' := hopen.append
    (dumpsItems indent (level + 1) xs ++ (lineBreak indent level ++ ch ']' :: r))
  obtain ⟨c, t, ht, hc⟩ := hopen'
  simp only [dumpsAt, List.cons_append, List.append_assoc, List.nil_append, parseValue,
    show ch '[' ≠ ch '"' by decide, show ch '[' ≠ ch '{' by decide, ↓reduceIte,
    skipSpace_lineBreak]
  rw [ht]
  simp only [skipSpace_cons hc.1, if_neg hc.2.1]

theorem parseValue_obj (indent : Option ℕ) (level : ℕ) (k : Str) (v : Json)
    (ms : List (Str × Json)) :
    parseValue (fuel + 1) (depth + 1) (dumpsAt indent level (.obj ((k, v) :: ms)) ++ r) =
      (parseMembers fuel depth (quote k ++ (ch ':' :: ch ' ' :: (dumpsAt indent (level + 1) v ++
        (dumpsMembers indent (level + 1) ms ++ (lineBreak indent level ++ ch '}' :: r)))))).map
          fun p => (.obj (dictOf p.1), p.2) := by
  have hcolon : Py.str ": " = [ch ':', ch ' '] := rfl
  have hopen := (opens_quote k).append (ch ':' :: ch ' ' :: (dumpsAt indent (level + 1) v ++
    (dumpsMembers indent (level + 1) ms ++ (lineBreak indent level ++ ch '}' :: r))))
  obtain ⟨c, t, ht, hc⟩ := hopen
  simp only [dumpsAt, hcolon, List.cons_append, List.append_assoc, List.nil_append, parseValue,
    show ch '{' ≠ ch '"' by decide, ↓reduceIte, skipSpace_lineBreak]
  rw [ht]
  simp only [skipSpace_cons hc.1, if_neg hc.2.2.1]

end

theorem dumpsItems_cons (indent : Option ℕ) (level : ℕ) (y : Json) (ys : List Json) (r : Str) :
    dumpsItems indent level (y :: ys) ++ r =
      itemSeparator indent level ++ (dumpsAt indent level y ++ (dumpsItems indent level ys ++ r)) := by
  simp only [dumpsItems, List.append_assoc]

theorem dumpsMembers_cons (indent : Option ℕ) (level : ℕ) (k : Str) (v : Json)
    (ms : List (Str × Json)) (r : Str) : dumpsMembers indent level ((k, v) :: ms) ++ r =
      itemSeparator indent level ++ (quote k ++ (ch ':' :: ch ' ' ::
        (dumpsAt indent level v ++ (dumpsMembers indent level ms ++ r)))) := by
  have hcolon : Py.str ": " = [ch ':', ch ' '] := rfl
  simp only [dumpsMembers, hcolon, List.cons_append, List.append_assoc, List.nil_append]

theorem parseItems_dumpsItems {depth : ℕ} (indent : Option ℕ) (level outer : ℕ) (r : Str) :
    ∀ (xs : List Json) (x : Json), (∀ y ∈ x :: xs, ReadsBack depth y ∧ Readable depth y) →
      ∀ fuel, Yields (parseItems fuel depth (dumpsAt indent level x ++ (dumpsItems indent level xs ++
        (lineBreak indent outer ++ ch ']' :: r)))) (x :: xs, r) := by
  intro xs
  induction xs with
  | nil =>
    intro x hx fuel
    cases fuel with
    | zero => exact .inr rfl
    | succ fuel =>
      have hr : Delimits (lineBreak indent outer ++ ch ']' :: r) :=
        delimits_lineBreak _ _ (delimits_cons (by decide) r)
      rw [dumpsItems, List.nil_append]
      rcases (hx x List.mem_cons_self).1 indent level fuel _ hr with h | h
      · exact .inl (parseItems_last h)
      · exact .inr (parseItems_of_error h)
  | cons y ys ih =>
    intro x hx fuel
    cases fuel with
    | zero => exact .inr rfl
    | succ fuel =>
      have hr := delimits_itemSeparator indent level (dumpsAt indent level y ++
        (dumpsItems indent level ys ++ (lineBreak indent outer ++ ch ']' :: r)))
      have hopen := (opens_dumpsAt (hx y (by simp)).2 indent level).append
        (dumpsItems indent level ys ++ (lineBreak indent outer ++ ch ']' :: r))
      rw [dumpsItems_cons]
      rcases (hx x List.mem_cons_self).1 indent level fuel _ hr with h | h
      · rw [parseItems_next hopen h]
        exact (ih y (fun z hz => hx z (List.mem_cons_of_mem _ hz)) fuel).map _
      · exact .inr (parseItems_of_error h)

theorem parseMembers_dumpsMembers {depth : ℕ} (indent : Option ℕ) (level outer : ℕ) (r : Str) :
    ∀ (ms : List (Str × Json)) (k : Str) (v : Json),
      (∀ m ∈ (k, v) :: ms, ReadsBack depth m.2 ∧ Readable depth m.2) →
      ∀ fuel, Yields (parseMembers fuel depth (quote k ++ (ch ':' :: ch ' ' ::
        (dumpsAt indent level v ++ (dumpsMembers indent level ms ++
          (lineBreak indent outer ++ ch '}' :: r)))))) ((k, v) :: ms, r) := by
  intro ms
  induction ms with
  | nil =>
    intro k v hv fuel
    cases fuel with
    | zero => exact .inr rfl
    | succ fuel =>
      have hr : Delimits (lineBreak indent outer ++ ch '}' :: r) :=
        delimits_lineBreak _ _ (delimits_cons (by decide) r)
      have hv := hv (k, v) List.mem_cons_self
      have hopen := (opens_dumpsAt hv.2 indent level).append (lineBreak indent outer ++ ch '}' :: r)
      rw [dumpsMembers, List.nil_append]
      rcases hv.1 indent level fuel _ hr with h | h
      · exact .inl (parseMembers_last k hopen h)
      · exact .inr (parseMembers_of_error k hopen h)
  | cons m ms ih =>
    obtain ⟨k', v'⟩ := m
    intro k v hm fuel
    cases fuel with
    | zero => exact .inr rfl
    | succ fuel =>
      have hv := hm (k, v) List.mem_cons_self
      rw [dumpsMembers_cons]
      set next := quote k' ++ (ch ':' :: ch ' ' :: (dumpsAt indent level v' ++
        (dumpsMembers indent level ms ++ (lineBreak indent outer ++ ch '}' :: r)))) with hnext
      have hr := delimits_itemSeparator indent level next
      have hopen := (opens_dumpsAt hv.2 indent level).append (itemSeparator indent level ++ next)
      have hopen' : Opens next := (opens_quote k').append _
      rcases hv.1 indent level fuel _ hr with h | h
      · rw [parseMembers_next k hopen hopen' h]
        exact (ih k' v' (fun z hz => hm z (List.mem_cons_of_mem _ hz)) fuel).map _
      · exact .inr (parseMembers_of_error k hopen h)

theorem readsBack_arr {depth : ℕ} {items : List Json}
    (h : ∀ x ∈ items, ReadsBack depth x ∧ Readable depth x) :
    ReadsBack (depth + 1) (.arr items) := by
  intro indent level fuel r _
  cases fuel with
  | zero => exact .inr rfl
  | succ fuel =>
    cases items with
    | nil =>
      left
      rfl
    | cons x xs =>
      have hopen := opens_dumpsAt (h x List.mem_cons_self).2 indent (level + 1)
      rw [parseValue_arr indent level xs hopen]
      exact (parseItems_dumpsItems indent (level + 1) level r xs x h fuel).map fun p =>
        (Json.arr p.1, p.2)

theorem readsBack_obj {depth : ℕ} {members : List (Str × Json)}
    (hnodup : (members.map Prod.fst).Nodup)
    (h : ∀ m ∈ members, ReadsBack depth m.2 ∧ Readable depth m.2) :
    ReadsBack (depth + 1) (.obj members) := by
  intro indent level fuel r _
  cases fuel with
  | zero => exact .inr rfl
  | succ fuel =>
    cases members with
    | nil =>
      left
      rfl
    | cons m ms =>
      obtain ⟨k, v⟩ := m
      have hmap := (parseMembers_dumpsMembers indent (level + 1) level r ms k v h fuel).map
        fun p => (Json.obj (dictOf p.1), p.2)
      rw [dictOf_of_nodup hnodup] at hmap
      rw [parseValue_obj]
      exact hmap

mutual

theorem readsBack_of_readable : ∀ {depth : ℕ} {v : Json}, Readable depth v → ReadsBack depth v
  | depth, .null, _ => fun _ _ fuel _ hr => by
    rw [dumpsAt]
    exact parseValue_atom (atomReads_constant (by simp [constants])) fuel depth hr
  | depth, .bool true, _ => fun _ _ fuel _ hr => by
    rw [dumpsAt]
    exact parseValue_atom (atomReads_constant (by simp [constants])) fuel depth hr
  | depth, .bool false, _ => fun _ _ fuel _ hr => by
    rw [dumpsAt]
    exact parseValue_atom (atomReads_constant (by simp [constants])) fuel depth hr
  | depth, .int n, h => fun _ _ fuel _ hr => by
    rw [Readable] at h
    rw [dumpsAt]
    exact parseValue_atom (atomReads_int h) fuel depth hr
  | depth, .float x, h => fun indent level fuel _ hr => by
    rw [Readable] at h
    rw [dumpsAt]
    exact parseValue_atom h fuel depth hr
  | depth, .str t, _ => readsBack_str depth t
  | 0, .arr _, h => by simp [Readable] at h
  | 0, .obj _, h => by simp [Readable] at h
  | depth + 1, .arr items, h => by
    rw [Readable] at h
    exact readsBack_arr (readsBack_items h)
  | depth + 1, .obj members, h => by
    rw [Readable] at h
    exact readsBack_obj h.1 (readsBack_members h.2)

theorem readsBack_items : ∀ {depth : ℕ} {items : List Json}, ReadableItems depth items →
    ∀ x ∈ items, ReadsBack depth x ∧ Readable depth x
  | _, [], _ => by simp
  | depth, x :: xs, h => by
    rw [ReadableItems] at h
    have hx := readsBack_of_readable h.1
    have hxs := readsBack_items h.2
    exact List.forall_mem_cons.mpr ⟨⟨hx, h.1⟩, hxs⟩

theorem readsBack_members : ∀ {depth : ℕ} {members : List (Str × Json)},
    ReadableMembers depth members → ∀ m ∈ members, ReadsBack depth m.2 ∧ Readable depth m.2
  | _, [], _ => by simp
  | depth, (k, v) :: ms, h => by
    rw [ReadableMembers] at h
    have hv := readsBack_of_readable h.1
    have hms := readsBack_members h.2
    exact List.forall_mem_cons.mpr ⟨⟨hv, h.1⟩, hms⟩

end

theorem head?_of_opens {s : Str} (hopen : Opens s) : s.head? ≠ some (unit 0xFEFF) := by
  obtain ⟨c, t, rfl, hc⟩ := hopen
  rw [List.head?_cons, Ne, Option.some_inj]
  exact hc.2.2.2

theorem loads_of_error {limit : ℕ} {s : Str} {e : DecodeError} (hopen : Opens s)
    (h : parseValue (2 * s.length + 1) limit s = .error e) : loads limit s = .error e := by
  rw [loads, if_neg (head?_of_opens hopen), hopen.skipSpace_eq]
  simp only [h]

theorem loads_of_ok {limit : ℕ} {s : Str} {v : Json} (hopen : Opens s)
    (h : parseValue (2 * s.length + 1) limit s = .ok (v, [])) : loads limit s = .ok v := by
  have hnil : skipSpace [] = [] := rfl
  rw [loads, if_neg (head?_of_opens hopen), hopen.skipSpace_eq]
  simp only [h, hnil, ↓reduceIte]

/-- `json.loads(json.dumps(value, ensure_ascii=False, indent=indent)) == value`. -/
theorem loads_dumps {limit : ℕ} {v : Json} (hv : Readable limit v) (indent : Option ℕ) :
    loads limit (dumps indent v) = .ok v := by
  have hread := readsBack_of_readable hv indent 0 (2 * (dumps indent v).length + 1) []
    (by simp [Delimits])
  rw [List.append_nil, ← dumps] at hread
  have hopen : Opens (dumps indent v) := opens_dumpsAt hv indent 0
  rcases hread with h | h
  · exact loads_of_ok hopen h
  · exact absurd h ((parse_enough_fuel _ limit).1 _ le_rfl)

end Py.Json
