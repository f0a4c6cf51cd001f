import Ebabf.Py.Text
import Mathlib.Algebra.BigOperators.Group.List.Basic

/-!
# Command lines in unit files

A command line is split on whitespace outside quotes; quotes are removed and escapes decoded. What
an escape stands for is a parameter, of which only this is used: an escape reaches over no space.
-/

namespace Systemd

open Py (Str CodePoint str)

def space : CodePoint := CodePoint.ofChar ' '

def dash : CodePoint := CodePoint.ofChar '-'

def backslash : CodePoint := CodePoint.ofChar '\\'

def isWhitespace (c : CodePoint) : Bool :=
  c = space || c = CodePoint.ofChar '\t' || c = CodePoint.ofChar '\n' ||
    c = CodePoint.ofChar '\r'

def isQuote (c : CodePoint) : Bool := c = CodePoint.ofChar '"' || c = CodePoint.ofChar '\''

/-- The escapes: after a backslash, the code point one stands for and how many more it takes up.
Nothing where there is no valid escape. -/
structure Escapes where
  decode : Str → Option (CodePoint × ℕ)
  no_space : ∀ s c n, decode s = some (c, n) → space ∉ s.take n

/-- An opening quote, which the same code point closes. -/
abbrev Quote := { c : CodePoint // isQuote c = true }

/-- Where the splitter is: the quote it is in, the word so far, how much of an escape is left to
pass over, and whether the next code point is taken as it stands. -/
structure Split where
  quote : Option Quote := none
  word : Option Str := none
  skip : ℕ := 0
  literal : Bool := false

namespace Split

def text (st : Split) : Str := st.word.getD []

def push (st : Split) (c : CodePoint) : Split :=
  { st with
    word := some (st.text ++ [c])
    literal := false }

/-- One code point: the word it ends, if it ends one, and where the splitter is then. `rest` is
what follows. -/
def step (esc : Escapes) (st : Split) (c : CodePoint) (rest : Str) : List Str × Split :=
  if st.skip ≠ 0 then ([], { st with skip := st.skip - 1 })
  else if st.literal then ([], st.push c)
  else if c = backslash then
    match esc.decode rest with
    | some (d, n) => ([], { st.push d with skip := n })
    -- an unknown escape stays, with the code point it would have escaped
    | none => ([], { st.push backslash with literal := true })
  else
    match st.quote with
    | some q => if c = q.val then ([], { st with quote := none }) else ([], st.push c)
    | none =>
      if h : isQuote c then ([], { st with quote := some ⟨c, h⟩, word := some st.text })
      else if isWhitespace c then (st.word.toList, { st with word := none })
      else ([], st.push c)

/-- The words from here on; nothing when a quote is left open. -/
def words (esc : Escapes) : Str → Split → Option (List Str)
  | [], st => if st.quote = none then some st.word.toList else none
  | c :: rest, st =>
    (words esc rest (st.step esc c rest).2).map fun ws => (st.step esc c rest).1 ++ ws

/-- The splitter after a prefix of the text: the words ended by then and where it is. -/
def after (esc : Escapes) : Str → Str → Split → List Str × Split
  | [], _, st => ([], st)
  | c :: before, rest, st =>
    let done := st.step esc c (before ++ rest)
    let later := after esc before rest done.2
    (done.1 ++ later.1, later.2)

end Split

/-- The arguments of a command line. -/
def splitWords (esc : Escapes) (s : Str) : Option (List Str) := Split.words esc s {}

namespace Split

variable {esc : Escapes}

theorem words_append (before rest : Str) (st : Split) :
    words esc (before ++ rest) st =
      (words esc rest (after esc before rest st).2).map fun ws =>
        (after esc before rest st).1 ++ ws := by
  induction before generalizing st with
  | nil => simp [after]
  | cons c before ih =>
    rw [List.cons_append, words, ih, Option.map_map]
    simp only [after, Function.comp_def, List.append_assoc]

/-- What reading one code point can do. -/
inductive Reads (esc : Escapes) (st : Split) (c : CodePoint) (rest : Str) :
    List Str × Split → Prop
  | skipped (h : st.skip ≠ 0) : Reads esc st c rest ([], { st with skip := st.skip - 1 })
  | pushed (h : st.skip = 0) : Reads esc st c rest ([], st.push c)
  | escaped (h : st.skip = 0) (hc : c = backslash) {d : CodePoint} {n : ℕ}
      (hdecode : esc.decode rest = some (d, n)) :
      Reads esc st c rest ([], { st.push d with skip := n })
  | kept (h : st.skip = 0) (hc : c = backslash) :
      Reads esc st c rest ([], { st.push backslash with literal := true })
  | closed (h : st.skip = 0) (hc : isQuote c = true) (hquote : st.quote = some ⟨c, hc⟩) :
      Reads esc st c rest ([], { st with quote := none })
  | opened (h : st.skip = 0) (hquote : st.quote = none) (hc : isQuote c = true) :
      Reads esc st c rest ([], { st with quote := some ⟨c, hc⟩, word := some st.text })
  | ended (h : st.skip = 0) (hliteral : st.literal = false) (hquote : st.quote = none)
      (hc : isWhitespace c = true) : Reads esc st c rest (st.word.toList, {})

theorem reads_step (esc : Escapes) (st : Split) (c : CodePoint) (rest : Str) :
    Reads esc st c rest (st.step esc c rest) := by
  unfold step
  by_cases hskip : st.skip = 0
  · rw [if_neg (not_not.mpr hskip)]
    by_cases hliteral : st.literal = true
    · rw [if_pos hliteral]
      exact .pushed hskip
    rw [if_neg hliteral]
    by_cases hback : c = backslash
    · rw [if_pos hback]
      cases hdecode : esc.decode rest with
      | some found => exact .escaped hskip hback hdecode
      | none => exact .kept hskip hback
    rw [if_neg hback]
    cases hquote : st.quote with
    | some q =>
      dsimp only
      split_ifs with hclose
      · subst hclose
        exact .closed hskip q.property hquote
      · exact .pushed hskip
    | none =>
      dsimp only
      split_ifs with hopen hspace
      · exact .opened hskip hquote hopen
      · rw [hskip, Bool.eq_false_iff.mpr hliteral]
        exact .ended hskip (Bool.eq_false_iff.mpr hliteral) hquote hspace
      · exact .pushed hskip
  · rw [if_pos hskip]
    exact .skipped hskip

/-- The escape in progress reaches over no space. -/
def Clear (st : Split) (rest : Str) : Prop := space ∉ rest.take st.skip

theorem clear_of_skip {st : Split} (h : st.skip = 0) (rest : Str) : st.Clear rest := by
  rw [Clear, h]
  exact List.not_mem_nil

theorem clear_step {st : Split} {c : CodePoint} {rest : Str} (h : st.Clear (c :: rest)) :
    (st.step esc c rest).2.Clear rest := by
  have hreads := reads_step esc st c rest
  generalize st.step esc c rest = done at hreads
  cases hreads with
  | skipped hskip =>
    obtain ⟨n, hn⟩ := Nat.exists_eq_succ_of_ne_zero hskip
    rw [Clear, hn, List.take_succ_cons, List.mem_cons, not_or] at h
    rw [Clear, hn]
    exact h.2
  | escaped hskip hc hdecode => exact esc.no_space rest _ _ hdecode
  | pushed hskip | kept hskip hc | closed hskip hc hquote | opened hskip hquote hc =>
    exact clear_of_skip hskip rest
  | ended hskip hliteral hquote hc => exact clear_of_skip rfl rest

theorem clear_after {before rest : Str} {st : Split} (h : st.Clear (before ++ rest)) :
    (after esc before rest st).2.Clear rest := by
  induction before generalizing st with
  | nil => exact h
  | cons c before ih => exact ih (clear_step h)

theorem skip_eq_zero {st : Split} {rest : Str} (h : st.Clear (space :: rest)) : st.skip = 0 := by
  by_contra hskip
  obtain ⟨n, hn⟩ := Nat.exists_eq_succ_of_ne_zero hskip
  rw [Clear, hn, List.take_succ_cons] at h
  exact h List.mem_cons_self

theorem words_append_space (esc : Escapes) (before rest : Str) : ∃ done st, st.skip = 0 ∧
    words esc (before ++ space :: rest) {} =
      (words esc (space :: rest) st).map fun ws => done ++ ws :=
  ⟨_, _, skip_eq_zero (clear_after (clear_of_skip rfl _)), words_append before (space :: rest) {}⟩

/-- Neither whitespace nor a quote nor a backslash. -/
def Plain (c : CodePoint) : Prop :=
  isWhitespace c = false ∧ isQuote c = false ∧ c ≠ backslash

instance (c : CodePoint) : Decidable (Plain c) := inferInstanceAs (Decidable (_ ∧ _))

/-- A text that is a word as it stands. -/
structure PlainWord (s : Str) : Prop where
  ne_nil : s ≠ []
  plain : ∀ c ∈ s, Plain c

instance (s : Str) : Decidable (PlainWord s) :=
  haveI : Decidable (∀ c ∈ s, Plain c) := List.decidableBAll _ s
  decidable_of_iff (s ≠ [] ∧ ∀ c ∈ s, Plain c) ⟨fun h => ⟨h.1, h.2⟩, fun h => ⟨h.1, h.2⟩⟩

theorem words_quoted {q : Quote} {s : Str} (h : ∀ c ∈ s, isQuote c = false ∧ c ≠ backslash)
    (acc rest : Str) :
    words esc (s ++ rest) { quote := some q, word := some acc } =
      words esc rest { quote := some q, word := some (acc ++ s) } := by
  induction s generalizing acc with
  | nil => rw [List.append_nil, List.nil_append]
  | cons c s ih =>
    rw [List.forall_mem_cons] at h
    have hne : c ≠ q.val := fun heq => by
      rw [heq, q.property] at h
      cases h.1.1
    have hstep : step esc { quote := some q, word := some acc } c (s ++ rest) =
        ([], { quote := some q, word := some (acc ++ [c]) }) := by
      simp [step, push, text, h.1.2, hne]
    rw [List.cons_append, words, hstep, ih h.2, List.append_assoc]
    simp

theorem words_plain {s : Str} (h : ∀ c ∈ s, Plain c) (acc rest : Str) :
    words esc (s ++ rest) { word := some acc } = words esc rest { word := some (acc ++ s) } := by
  induction s generalizing acc with
  | nil => rw [List.append_nil, List.nil_append]
  | cons c s ih =>
    rw [List.forall_mem_cons] at h
    obtain ⟨⟨hspace, hquote, hback⟩, hrest⟩ := h
    have hstep : step esc { word := some acc } c (s ++ rest) =
        ([], { word := some (acc ++ [c]) }) := by
      simp [step, push, text, hback, hspace, hquote]
    rw [List.cons_append, words, hstep, ih hrest, List.append_assoc]
    simp

theorem words_begin (esc : Escapes) {t : Str} (h : PlainWord t) (rest : Str) :
    words esc (t ++ rest) {} = words esc rest { word := some t } := by
  obtain ⟨c, s, rfl⟩ := List.exists_cons_of_ne_nil h.ne_nil
  obtain ⟨⟨hspace, hquote, hback⟩, hrest⟩ := List.forall_mem_cons.mp h.plain
  have hstep : step esc {} c (s ++ rest) = ([], { word := some [c] }) := by
    simp [step, push, text, hback, hspace, hquote]
  rw [List.cons_append, words, hstep, words_plain hrest]
  simp

theorem words_space (word : Option Str) (rest : Str) :
    words esc (space :: rest) { word } = (words esc rest {}).map fun ws => word.toList ++ ws := by
  have hback : space ≠ backslash := by decide
  have hquote : isQuote space = false := by decide
  have hspace : isWhitespace space = true := by decide
  rw [words]
  simp [step, hback, hquote, hspace]

theorem words_word {t : Str} (h : PlainWord t) (rest : Str) :
    words esc (t ++ space :: rest) {} = (words esc rest {}).map fun ws => t :: ws := by
  rw [words_begin esc h, words_space]
  rfl

theorem words_end {t : Str} (h : PlainWord t) : words esc t {} = some [t] := by
  have hbegin := words_begin esc h []
  rw [List.append_nil] at hbegin
  rw [hbegin]
  rfl

theorem words_unquoted (esc : Escapes) {st : Split} (hquote : st.quote = none) (hskip : st.skip = 0) {t : Str}
    (h : PlainWord t) (rest : Str) :
    ∃ front, front ≠ [] ∧ words esc (space :: (t ++ space :: rest)) st =
      (words esc rest {}).map fun ws => front ++ ws := by
  by_cases hliteral : st.literal = true
  · -- the space is taken as it stands, and the word goes on
    have hstep : step esc st space (t ++ space :: rest) =
        ([], { word := some (st.text ++ [space]) }) := by
      simp [step, push, hskip, hliteral, hquote]
    refine ⟨[st.text ++ [space] ++ t], List.cons_ne_nil _ _, ?_⟩
    rw [words, hstep, words_plain h.plain, words_space, Option.map_map]
    rfl
  · have hback : space ≠ backslash := by decide
    have hnot : isQuote space = false := by decide
    have hspace : isWhitespace space = true := by decide
    have hstep : step esc st space (t ++ space :: rest) = (st.word.toList, {}) := by
      simp [step, hskip, hliteral, hquote, hback, hnot, hspace]
    refine ⟨st.word.toList ++ [t], List.append_ne_nil_of_right_ne_nil _ (List.cons_ne_nil _ _), ?_⟩
    rw [words, hstep, words_word h, Option.map_map]
    simp [Function.comp_def]

theorem words_quoted_space {st : Split} {q : Quote} (hquote : st.quote = some q)
    (hskip : st.skip = 0) (rest : Str) :
    words esc (space :: rest) st =
      words esc rest { quote := some q, word := some (st.text ++ [space]) } := by
  have hback : space ≠ backslash := by decide
  have hne : space ≠ q.val := fun heq => by
    have hq := q.property
    rw [← heq] at hq
    exact absurd hq (by decide)
  have hstep : step esc st space rest =
      ([], { quote := some q, word := some (st.text ++ [space]) }) := by
    simp [step, push, hskip, hback, hquote, hne]
  rw [words, hstep]
  simp

theorem words_unclosed {q : Quote} {s : Str} {st : Split} (hq : st.quote = some q)
    (h : q.val ∉ s) : words esc s st = none := by
  induction s generalizing st with
  | nil => simp [words, hq]
  | cons c s ih =>
    rw [List.mem_cons, not_or] at h
    rw [words]
    have hreads := reads_step esc st c s
    generalize st.step esc c s = done at hreads
    cases hreads with
    | skipped | pushed | escaped | kept => rw [ih (by exact hq) h.2, Option.map_none]
    | closed hskip hc hquote =>
      rw [hq] at hquote
      cases hquote
      exact absurd rfl h.1
    | opened hskip hquote hc =>
      rw [hq] at hquote
      cases hquote
    | ended hskip hliteral hquote hc =>
      rw [hq] at hquote
      cases hquote

theorem words_of_word {s acc : Str} {st : Split} {ws : List Str} (hacc : st.word = some acc)
    (h : words esc s st = some ws) : ∃ more rest, ws = (acc ++ more) :: rest := by
  induction s generalizing st acc ws with
  | nil =>
    rw [words] at h
    split_ifs at h
    cases h
    exact ⟨[], [], by rw [hacc, List.append_nil]; rfl⟩
  | cons c s ih =>
    rw [words] at h
    obtain ⟨later, hlater, rfl⟩ := Option.map_eq_some_iff.mp h
    have hreads := reads_step esc st c s
    generalize st.step esc c s = done at hreads hlater
    have htext : st.text = acc := by rw [text, hacc]; rfl
    cases hreads with
    | skipped => exact ih (by exact hacc) hlater
    | pushed | escaped | kept =>
      obtain ⟨more, rest, hmore⟩ := ih rfl hlater
      rw [hmore, htext]
      exact ⟨_, rest, by rw [List.append_assoc]; rfl⟩
    | closed => exact ih (by exact hacc) hlater
    | opened =>
      obtain ⟨more, rest, hmore⟩ := ih rfl hlater
      rw [hmore, htext]
      exact ⟨more, rest, rfl⟩
    | ended =>
      rw [hacc]
      exact ⟨[], later, by rw [List.append_nil]; rfl⟩

/-- Code points other than slashes and dots. -/
def solid (c : CodePoint) : Bool := c != CodePoint.ofChar '/' && c != CodePoint.ofChar '.'

def weight (s : Str) : ℕ := s.countP solid

theorem weight_append (s t : Str) : weight (s ++ t) = weight s + weight t := List.countP_append

theorem weight_singleton_le (c : CodePoint) : weight [c] ≤ 1 := List.countP_le_length

theorem weight_cons_of_solid {c : CodePoint} (h : solid c = true) (s : Str) :
    weight (c :: s) = weight s + 1 := List.countP_cons_of_pos h

theorem weight_cons (c : CodePoint) (s : Str) : weight (c :: s) = weight [c] + weight s :=
  weight_append [c] s

theorem solid_of_isQuote {c : CodePoint} (h : isQuote c = true) : solid c = true := by
  rw [isQuote, Bool.or_eq_true, decide_eq_true_eq, decide_eq_true_eq] at h
  rcases h with rfl | rfl
  · decide
  · decide

/-- What has been read weighs as much as the words made of it, and an open quote weighs one
more. -/
theorem weight_words {s : Str} {st : Split} {ws : List Str} (h : words esc s st = some ws) :
    (ws.map weight).sum + (if st.quote.isSome then 1 else 0) ≤ weight st.text + weight s := by
  induction s generalizing st ws with
  | nil =>
    rw [words] at h
    split_ifs at h with hquote
    cases h
    rw [hquote, text]
    cases st.word with
    | none => exact Nat.zero_le _
    | some acc => simp
  | cons c s ih =>
    rw [words] at h
    obtain ⟨later, hlater, rfl⟩ := Option.map_eq_some_iff.mp h
    have hreads := reads_step esc st c s
    generalize st.step esc c s = done at hreads hlater
    have hlater := ih hlater
    cases hreads with
    | skipped =>
      rw [weight_cons]
      exact hlater.trans (by simp only [text]; omega)
    | pushed =>
      have hpush : weight (st.push c).text = weight st.text + weight [c] := weight_append _ _
      rw [hpush] at hlater
      rw [weight_cons, ← Nat.add_assoc]
      exact hlater
    | @escaped hskip hc d n hdecode =>
      have hpush : weight (st.push d).text = weight st.text + weight [d] := weight_append _ _
      have hd := weight_singleton_le d
      rw [hc, weight_cons_of_solid (by decide)]
      exact hlater.trans (hpush ▸ by omega)
    | kept hskip hc =>
      have hpush : weight (st.push backslash).text = weight st.text + weight [backslash] :=
        weight_append _ _
      have hd := weight_singleton_le backslash
      rw [hc, weight_cons_of_solid (by decide)]
      exact hlater.trans (hpush ▸ by omega)
    | closed hskip hc hquote =>
      have hlater : (later.map weight).sum ≤ weight st.text + weight s := hlater
      rw [hquote, weight_cons_of_solid (solid_of_isQuote hc)]
      exact Nat.add_le_add_right hlater 1
    | opened hskip hquote hc =>
      have hlater : (later.map weight).sum + 1 ≤ weight st.text + weight s := hlater
      rw [hquote, weight_cons_of_solid (solid_of_isQuote hc)]
      exact (Nat.le_succ _).trans (hlater.trans (Nat.le_succ _))
    | ended hskip hliteral hquote hc =>
      have hlater : (later.map weight).sum ≤ 0 + weight s := hlater
      have hword : (st.word.toList.map weight).sum = weight st.text := by
        rw [text]
        cases st.word with
        | none => rfl
        | some acc => simp
      rw [hquote, weight_cons, List.map_append, List.sum_append, hword]
      simp only [Option.isSome_none, Bool.false_eq_true, ↓reduceIte]
      omega

/-- How many spaces have a dash after them, where `b` says whether there was a space before. -/
def dashesFrom (b : Bool) : Str → ℕ
  | [] => 0
  | c :: s => (if b = true ∧ c = dash then 1 else 0) + dashesFrom (decide (c = space)) s

def dashes (s : Str) : ℕ := dashesFrom false s

/-- Whether there is a space before what follows. -/
def spaceAfter (b : Bool) (s : Str) : Bool := s.foldl (fun _ c => decide (c = space)) b

theorem dashesFrom_append (b : Bool) (s t : Str) :
    dashesFrom b (s ++ t) = dashesFrom b s + dashesFrom (spaceAfter b s) t := by
  induction s generalizing b with
  | nil => simp [dashesFrom, spaceAfter]
  | cons c s ih =>
    rw [List.cons_append, dashesFrom, dashesFrom, ih, Nat.add_assoc]
    rfl

theorem dashesFrom_mono (s : Str) (b : Bool) : dashes s ≤ dashesFrom b s := by
  cases s with
  | nil => exact le_rfl
  | cons c s =>
    simp only [dashes, dashesFrom, Bool.false_eq_true, false_and, ↓reduceIte]
    omega

theorem dashes_append_le (s t : Str) : dashes s + dashes t ≤ dashes (s ++ t) := by
  show dashes s + dashes t ≤ dashesFrom false (s ++ t)
  rw [dashesFrom_append]
  exact Nat.add_le_add_left (dashesFrom_mono t _) _

theorem dashesFrom_eq_zero {s : Str} (h : dash ∉ s) (b : Bool) : dashesFrom b s = 0 := by
  induction s generalizing b with
  | nil => rfl
  | cons c s ih =>
    rw [List.mem_cons, not_or] at h
    rw [dashesFrom, ih h.2, if_neg fun hc => h.1 hc.2.symm]

theorem dashes_eq_zero {s : Str} (h : space ∉ s) : dashes s = 0 := by
  unfold dashes
  induction s with
  | nil => rfl
  | cons c s ih =>
    rw [List.mem_cons, not_or] at h
    rw [dashesFrom, decide_eq_false (Ne.symm h.1), ih h.2, if_neg fun hc => nomatch hc.1]

theorem dashes_append_cons {c : CodePoint} (hdash : c ≠ dash) (hspace : c ≠ space) (s t : Str) :
    dashes (s ++ c :: t) = dashes s + dashes t := by
  rw [dashes, dashesFrom_append, dashesFrom, if_neg fun h => hdash h.2, decide_eq_false hspace,
    Nat.zero_add]
  rfl

theorem spaceAfter_concat (b : Bool) (s : Str) (c : CodePoint) :
    spaceAfter b (s ++ [c]) = decide (c = space) := by
  rw [spaceAfter, List.foldl_append]
  rfl

theorem dashes_concat (s : Str) (c : CodePoint) : dashes (s ++ [c]) =
    dashes s + (if spaceAfter false s = true ∧ c = dash then 1 else 0) := by
  rw [dashes, dashesFrom_append]
  rfl

theorem words_ne_nil {s acc : Str} {st : Split} (hacc : st.word = some acc) :
    words esc s st ≠ some [] := by
  intro h
  obtain ⟨more, rest, hws⟩ := words_of_word hacc h
  cases hws

theorem dash_notMem_of_words_nil {s : Str} (h : words esc s {} = some []) : dash ∉ s := by
  induction s with
  | nil => exact List.not_mem_nil
  | cons c s ih =>
    rw [words] at h
    obtain ⟨later, hlater, hnil⟩ := Option.map_eq_some_iff.mp h
    have hreads := reads_step esc {} c s
    generalize step esc {} c s = done at hreads hlater hnil
    obtain ⟨-, rfl⟩ := List.append_eq_nil_iff.mp hnil
    cases hreads with
    | skipped hskip => exact absurd rfl hskip
    | pushed | escaped | kept | opened => exact absurd hlater (words_ne_nil rfl)
    | closed hskip hc hquote => cases hquote
    | ended hskip hliteral hquote hc =>
      rw [List.mem_cons, not_or]
      refine ⟨fun hdash => ?_, ih hlater⟩
      rw [← hdash] at hc
      exact absurd hc (by decide)

theorem quote_ne_dash {c : CodePoint} (h : isQuote c = true) : c ≠ dash ∧ c ≠ space := by
  rw [isQuote, Bool.or_eq_true, decide_eq_true_eq, decide_eq_true_eq] at h
  rcases h with rfl | rfl
  · decide
  · decide

theorem dashes_words {s acc w : Str} {st : Split} {b : Bool} (hacc : st.word = some acc)
    (hclear : st.Clear s) (hskip : st.skip ≠ 0 → b = false)
    (hb : b = true → spaceAfter false acc = true) (h : words esc s st = some [w]) :
    dashes acc + dashesFrom b s ≤ dashes w := by
  induction s generalizing st acc b with
  | nil =>
    rw [words, hacc] at h
    split_ifs at h
    cases h
    exact le_rfl
  | cons c s ih =>
    have hnext : (st.step esc c s).2.Clear s := clear_step hclear
    rw [words] at h
    obtain ⟨later, hlater, hw⟩ := Option.map_eq_some_iff.mp h
    have hreads := reads_step esc st c s
    generalize st.step esc c s = done at hreads hlater hnext hw
    have htext : st.text = acc := by rw [text, hacc]; rfl
    have hback : backslash ≠ dash ∧ decide (backslash = space) = false := by decide
    rw [dashesFrom]
    cases hreads with
    | skipped hpending =>
      obtain ⟨n, hn⟩ := Nat.exists_eq_succ_of_ne_zero hpending
      rw [Clear, hn, List.take_succ_cons, List.mem_cons, not_or] at hclear
      rw [hskip hpending, decide_eq_false (Ne.symm hclear.1), if_neg fun h => nomatch h.1]
      have hlater := ih (b := false) (by exact hacc) hnext (fun _ => rfl) nofun
        (hlater.trans (congrArg some hw))
      omega
    | pushed hpending =>
      have hgrow := dashes_concat acc c
      have hword : (st.push c).word = some (acc ++ [c]) := by rw [push, htext]
      have hlater := ih (b := decide (c = space)) hword hnext (fun h => absurd hpending h)
        (fun h => (spaceAfter_concat false acc c).trans h) (hlater.trans (congrArg some hw))
      have hle : (if b = true ∧ c = dash then 1 else 0) ≤
          if spaceAfter false acc = true ∧ c = dash then 1 else 0 := by
        split_ifs with h₁ h₂
        · exact le_rfl
        · exact absurd ⟨hb h₁.1, h₁.2⟩ h₂
        · exact Nat.zero_le _
        · exact le_rfl
      omega
    | @escaped hpending hc d n hdecode =>
      have hgrow := dashes_append_le acc [d]
      rw [hc, hback.2, if_neg fun h => hback.1 h.2]
      have hword : (st.push d).word = some (acc ++ [d]) := by rw [push, htext]
      have hlater := ih (b := false) (by exact hword) hnext
        (fun _ => rfl) nofun (hlater.trans (congrArg some hw))
      omega
    | kept hpending hc =>
      have hgrow := dashes_append_le acc [backslash]
      rw [hc, hback.2, if_neg fun h => hback.1 h.2]
      have hword : (st.push backslash).word = some (acc ++ [backslash]) := by rw [push, htext]
      have hlater := ih (b := false) (by exact hword) hnext
        (fun _ => rfl) nofun (hlater.trans (congrArg some hw))
      omega
    | closed hpending hc hquote =>
      obtain ⟨hdash, hspace⟩ := quote_ne_dash hc
      rw [decide_eq_false hspace, if_neg fun h => hdash h.2, Nat.zero_add]
      exact ih (by exact hacc) hnext (fun _ => rfl) nofun (hlater.trans (congrArg some hw))
    | opened hpending hquote hc =>
      obtain ⟨hdash, hspace⟩ := quote_ne_dash hc
      rw [decide_eq_false hspace, if_neg fun h => hdash h.2, Nat.zero_add]
      exact ih (by rw [htext]) hnext (fun _ => rfl) nofun (hlater.trans (congrArg some hw))
    | ended hpending hliteral hquote hc =>
      rw [hacc] at hw
      obtain ⟨rfl, rfl⟩ : acc = w ∧ later = [] := by
        rw [Option.toList_some, List.singleton_append, List.cons.injEq] at hw
        exact hw
      have hdash : c ≠ dash := fun h => by
        rw [h] at hc
        exact absurd hc (by decide)
      rw [if_neg fun h => hdash h.2, dashesFrom_eq_zero (dash_notMem_of_words_nil hlater)]
      exact le_rfl

theorem last_of_quoted {q : Quote} {acc s last : Str} {ws : List Str}
    (h : words esc s { quote := some q, word := some acc } = some ws)
    (hlast : last ∈ ws.getLast?) : dashes acc + dashes s ≤ dashes last ∨ weight last < weight s := by
  obtain ⟨more, rest, rfl⟩ := words_of_word rfl h
  rcases List.eq_nil_or_concat rest with rfl | ⟨front, w, rfl⟩
  · cases hlast
    exact .inl (dashes_words rfl (clear_of_skip rfl s) (fun h => absurd rfl h) nofun h)
  · rw [List.concat_eq_append, ← List.cons_append, List.getLast?_concat] at hlast
    cases hlast
    have hweight := weight_words h
    simp only [List.concat_eq_append, List.map_cons, List.sum_cons, List.map_append,
      List.sum_append, List.map_nil, List.sum_nil, weight_append, Option.isSome_some, ↓reduceIte,
      text, Option.getD_some] at hweight
    exact .inr (by omega)

end Split
end Systemd
