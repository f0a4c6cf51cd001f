import Ebabf.Storage.Storable

/-!
# The two pseudonym guards

The schema matches a pattern, the database compares a length and a prefix. Both accept every
pseudonym; the pattern accepts a newline after one, and the database anything of the right length.
-/

namespace Ebabf

open Py (Str str CodePoint Encodes)

/-- `USR-` and 32 lower-case hexadecimal digits. -/
def IsPseudonym (s : Str) : Prop :=
  ∃ digits, digits.length = 32 ∧ (∀ d ∈ digits, isLowerHex d = true) ∧ s = str "USR-" ++ digits

/-- A pseudonym with a newline after it. -/
def PseudonymAndNewline (s : Str) : Prop := ∃ pseudonym, IsPseudonym pseudonym ∧
  s = pseudonym ++ str "\n"

/-- `USR-` and 32 characters, whatever they are, and then the end of the text as SQLite counts
characters: nothing, or a NUL. -/
def HasPseudonymLength (s : Str) : Prop :=
  ∃ body rest, body.length = 32 ∧ (∀ c ∈ body, c.val ≠ 0) ∧ (∀ c ∈ rest.head?, c.val = 0) ∧
    s = str "USR-" ++ body ++ rest

theorem length_prefix : (str "USR-").length = 4 := rfl

theorem IsPseudonym.length_eq {s : Str} (h : IsPseudonym s) : s.length = 36 := by
  obtain ⟨digits, hlength, -, rfl⟩ := h
  rw [List.length_append, length_prefix, hlength]

/-- Both guards look at a text in these pieces. -/
theorem pieces (s : Str) : s.take 4 ++ (s.drop 4).take 32 ++ s.drop 36 = s := by
  calc s.take 4 ++ (s.drop 4).take 32 ++ s.drop 36
      = s.take 4 ++ ((s.drop 4).take 32 ++ (s.drop 4).drop 32) := by
        rw [List.drop_drop, List.append_assoc]
    _ = s := by rw [List.take_append_drop, List.take_append_drop]

theorem pieces_append {start body : Str} (hstart : start.length = 4) (hbody : body.length = 32)
    (rest : Str) : (start ++ body ++ rest).take 4 = start ∧
      ((start ++ body ++ rest).drop 4).take 32 = body ∧
      (start ++ body ++ rest).drop 36 = rest := by
  have hdrop : (start ++ (body ++ rest)).drop 4 = body ++ rest := List.drop_left' hstart
  rw [List.append_assoc]
  refine ⟨List.take_left' hstart, ?_, ?_⟩
  · rw [hdrop]
    exact List.take_left' hbody
  · rw [show 36 = 4 + 32 from rfl, ← List.drop_drop, hdrop]
    exact List.drop_left' hbody

theorem matches_append {digits rest : Str} (hlength : digits.length = 32)
    (hhex : ∀ d ∈ digits, isLowerHex d = true) (hrest : rest = [] ∨ rest = str "\n") :
    pseudonymPatternMatches (str "USR-" ++ digits ++ rest) = true := by
  obtain ⟨hstart, hdigits, hend⟩ := pieces_append length_prefix hlength rest
  unfold pseudonymPatternMatches
  rw [hstart, hdigits, hend]
  simp only [Bool.and_eq_true, Bool.or_eq_true, beq_iff_eq, List.all_eq_true, true_and]
  exact ⟨⟨hlength, hhex⟩, hrest⟩

theorem pseudonymPatternMatches_iff {s : Str} :
    pseudonymPatternMatches s = true ↔ IsPseudonym s ∨ PseudonymAndNewline s := by
  constructor
  · intro h
    unfold pseudonymPatternMatches at h
    simp only [Bool.and_eq_true, Bool.or_eq_true, beq_iff_eq, List.all_eq_true] at h
    obtain ⟨⟨⟨hstart, hlength⟩, hhex⟩, hend⟩ := h
    have hpseudonym : IsPseudonym (str "USR-" ++ (s.drop 4).take 32) := ⟨_, hlength, hhex, rfl⟩
    have hs := pieces s
    rw [hstart] at hs
    rcases hend with hend | hend
    · rw [hend, List.append_nil] at hs
      exact .inl (hs ▸ hpseudonym)
    · rw [hend] at hs
      exact .inr ⟨_, hpseudonym, hs.symm⟩
  · rintro (⟨digits, hlength, hhex, rfl⟩ | ⟨-, ⟨digits, hlength, hhex, rfl⟩, rfl⟩)
    · rw [← List.append_nil (str "USR-" ++ digits)]
      exact matches_append hlength hhex (.inl rfl)
    · exact matches_append hlength hhex (.inr rfl)

/-- A text of which SQLite counts `n` characters: the rest of it is nothing, or starts at a NUL. -/
theorem sqlLength_eq_iff {s : Str} {n : ℕ} : EventRow.sqlLength s = n ↔
    (s.take n).length = n ∧ (∀ c ∈ s.take n, c.val ≠ 0) ∧ ∀ c ∈ (s.drop n).head?, c.val = 0 := by
  unfold EventRow.sqlLength
  constructor
  · intro h
    have hs := List.takeWhile_append_dropWhile (p := fun c : CodePoint => c.val != 0) (l := s)
    have htake : s.take n = s.takeWhile fun c => c.val != 0 := by
      conv_lhs => rw [← hs]
      exact List.take_left' h
    have hdrop : s.drop n = s.dropWhile fun c => c.val != 0 := by
      conv_lhs => rw [← hs]
      exact List.drop_left' h
    rw [htake, hdrop]
    refine ⟨h, fun c hc => ?_, fun c hc => ?_⟩
    · exact bne_iff_ne.mp (List.mem_takeWhile_imp (p := fun c : CodePoint => c.val != 0) hc)
    · have hhead := List.head?_dropWhile_not (fun c : CodePoint => c.val != 0) s
      rw [Option.mem_def.mp hc] at hhead
      simpa using hhead
  · rintro ⟨hlength, htake, hdrop⟩
    have hrest : (s.drop n).takeWhile (fun c => c.val != 0) = [] := by
      cases hs : s.drop n with
      | nil => rfl
      | cons c rest =>
        have hnul : c.val = 0 := hdrop c (by rw [hs]; rfl)
        rw [List.takeWhile_cons_of_neg (by simp [hnul])]
    rw [← List.take_append_drop n s,
      List.takeWhile_append_of_pos fun c hc => bne_iff_ne.mpr (htake c hc), hrest,
      List.append_nil, hlength]

theorem nul_notMem_prefix {c : CodePoint} (h : c ∈ str "USR-") : c.val ≠ 0 := by
  obtain ⟨d, hd, rfl⟩ := List.mem_map.mp h
  have hall : ∀ d ∈ "USR-".toList, d.toNat ≠ 0 := by simp
  exact hall d hd

/-- The constraint asks for the length and the prefix, and for nothing else. -/
theorem pseudonymCheck_iff {row : EventRow} :
    row.pseudonymCheck = true ↔ HasPseudonymLength row.subjectPseudonym := by
  generalize hs : row.subjectPseudonym = s
  rw [EventRow.pseudonymCheck, hs, Bool.and_eq_true, beq_iff_eq, beq_iff_eq, sqlLength_eq_iff]
  constructor
  · rintro ⟨⟨hlength, htake, hdrop⟩, hstart⟩
    have hwhole : s.take 36 = str "USR-" ++ (s.drop 4).take 32 := by
      rw [← hstart, show 36 = 4 + 32 from rfl, List.take_add]
    rw [hwhole] at hlength htake
    rw [List.length_append, length_prefix] at hlength
    refine ⟨(s.drop 4).take 32, s.drop 36, by omega,
      fun c hc => htake c (List.mem_append_right _ hc), hdrop, ?_⟩
    rw [← hstart, pieces]
  · rintro ⟨body, rest, hlength, hbody, hrest, rfl⟩
    obtain ⟨hstart, -, hend⟩ := pieces_append length_prefix hlength rest
    have hwhole : (str "USR-" ++ body ++ rest).take 36 = str "USR-" ++ body :=
      List.take_left' (by rw [List.length_append, length_prefix, hlength])
    rw [hwhole, hend, hstart, List.length_append, length_prefix, hlength]
    refine ⟨⟨rfl, fun c hc => ?_, hrest⟩, rfl⟩
    rcases List.mem_append.mp hc with hc | hc
    · exact nul_notMem_prefix hc
    · exact hbody c hc

/-- The constraint accepts a text that is bound, as one with a lone surrogate never is. -/
def EventRow.GuardAccepts (row : EventRow) : Prop :=
  Encodes row.subjectPseudonym ∧ row.pseudonymCheck = true

/-- Both guards accept the text if it is a pseudonym, and only then. -/
structure EventRow.GuardsAgree (row : EventRow) : Prop where
  pattern_iff_check : pseudonymPatternMatches row.subjectPseudonym = true ↔ row.GuardAccepts
  pattern_iff : pseudonymPatternMatches row.subjectPseudonym = true ↔
    IsPseudonym row.subjectPseudonym
  check_iff : row.GuardAccepts ↔ IsPseudonym row.subjectPseudonym

/-- A text that encodes, of the right prefix and length, and no pseudonym. -/
def Lookalike (s : Str) : Prop := Encodes s ∧ HasPseudonymLength s ∧ ¬IsPseudonym s

theorem guardAccepts_of_isPseudonym {row : EventRow} (h : IsPseudonym row.subjectPseudonym) :
    row.GuardAccepts := by
  have hmatch := pseudonymPatternMatches_iff.mpr (.inl h)
  exact ⟨encodes_pseudonym hmatch, pseudonymCheck_of_matches hmatch h.length_eq⟩

theorem guardAccepts_iff {row : EventRow} : row.GuardAccepts ↔
    IsPseudonym row.subjectPseudonym ∨ Lookalike row.subjectPseudonym := by
  constructor
  · rintro ⟨hencodes, hcheck⟩
    by_cases h : IsPseudonym row.subjectPseudonym
    · exact .inl h
    · exact .inr ⟨hencodes, pseudonymCheck_iff.mp hcheck, h⟩
  · rintro (h | ⟨hencodes, hlength, -⟩)
    · exact guardAccepts_of_isPseudonym h
    · exact ⟨hencodes, pseudonymCheck_iff.mpr hlength⟩

theorem PseudonymAndNewline.not_isPseudonym {s : Str} (h : PseudonymAndNewline s) :
    ¬IsPseudonym s := by
  obtain ⟨pseudonym, hpseudonym, rfl⟩ := h
  intro hs
  have hlength := hs.length_eq
  rw [List.length_append, hpseudonym.length_eq] at hlength
  exact absurd hlength (by decide)

/-- The guards agree on every text but a pseudonym with a newline after it, which only the pattern
accepts, and a text of the right prefix and length that is none, which only the database does. -/
theorem guardsAgree_iff (row : EventRow) : row.GuardsAgree ↔
    ¬PseudonymAndNewline row.subjectPseudonym ∧ ¬Lookalike row.subjectPseudonym := by
  constructor
  · intro h
    constructor
    · intro hnewline
      exact hnewline.not_isPseudonym
        (h.pattern_iff.mp (pseudonymPatternMatches_iff.mpr (.inr hnewline)))
    · intro hlookalike
      exact hlookalike.2.2 (h.check_iff.mp (guardAccepts_iff.mpr (.inr hlookalike)))
  · rintro ⟨hnewline, hlookalike⟩
    have hpattern : pseudonymPatternMatches row.subjectPseudonym = true ↔
        IsPseudonym row.subjectPseudonym := by
      rw [pseudonymPatternMatches_iff, or_iff_left hnewline]
    have hcheck : row.GuardAccepts ↔ IsPseudonym row.subjectPseudonym := by
      rw [guardAccepts_iff, or_iff_left hlookalike]
    exact ⟨hpattern.trans hcheck.symm, hpattern, hcheck⟩

/-- A row that differs from a stored one in its pseudonym. -/
def rowOf (pseudonym : Str) : EventRow :=
  { EventStore.storedRow [] with subjectPseudonym := pseudonym }

def lookalikeText : Str := str "USR-alice.liddell@example.com-000001"

def newlineText : Str := str "USR-0123456789abcdef0123456789abcdef\n"

/-- The database takes an address after the prefix, and the schema a newline after a pseudonym. -/
theorem not_guardsAgree :
    ¬(rowOf lookalikeText).GuardsAgree ∧ ¬(rowOf newlineText).GuardsAgree := by
  constructor
  · intro h
    have haccepts : (rowOf lookalikeText).GuardAccepts := ⟨Py.encodes_str _, by decide⟩
    have hmatch : pseudonymPatternMatches lookalikeText = true :=
      h.pattern_iff_check.mpr haccepts
    exact absurd hmatch (by decide)
  · intro h
    have hmatch : pseudonymPatternMatches newlineText = true := by decide
    have hcheck := (h.pattern_iff_check.mp hmatch).2
    exact absurd hcheck (by decide)

end Ebabf
