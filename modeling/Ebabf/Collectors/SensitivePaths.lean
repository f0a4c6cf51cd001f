import Ebabf.Collectors.FileMonitor
import Ebabf.Py.Path

/-!
# Paths under a marker

A path lies under a marker by its components. The classification compares texts: between slashes
that says the same, but the text of a marker may also begin or end a longer component, and a path
may be written with components that are dropped.
-/

namespace Ebabf

open Py (Str CodePoint str slash pathParts)

section FirstMatch

variable {α β : Type} {p q : α → Bool} {rules : List α}

/-- Each match of `p` has a match of `q` at or before it. -/
def Preceded (p q : α → Bool) (rules : List α) : Prop :=
  ∀ i a, rules[i]? = some a → p a → ∃ b ∈ rules.take (i + 1), q b

theorem preceded_cons_of_match {a : α} (hq : q a) : Preceded p q (a :: rules) := by
  intro i b _ _
  exact ⟨a, by simp, hq⟩

theorem preceded_cons_of_miss {a : α} (hp : ¬ p a) (hq : ¬ q a) :
    Preceded p q (a :: rules) ↔ Preceded p q rules := by
  constructor
  · intro h i b hb hpb
    obtain ⟨c, hc, hqc⟩ := h (i + 1) b hb hpb
    rw [List.take_succ_cons, List.mem_cons] at hc
    rcases hc with rfl | hc
    · exact absurd hqc hq
    · exact ⟨c, hc, hqc⟩
  · intro h i b hb hpb
    cases i with
    | zero =>
      obtain rfl : a = b := by simpa using hb
      exact absurd hpb hp
    | succ i =>
      obtain ⟨c, hc, hqc⟩ := h i b hb hpb
      exact ⟨c, by simp [hc], hqc⟩

theorem not_preceded_cons {a : α} (hp : p a) (hq : ¬ q a) : ¬ Preceded p q (a :: rules) := by
  intro h
  obtain ⟨b, hb, hqb⟩ := h 0 a rfl hp
  simp_all

/-- Two searches find the same entry if and only if neither has a match ahead of the other's. -/
theorem find?_eq_find?_iff (rules : List α) :
    rules.find? p = rules.find? q ↔ Preceded p q rules ∧ Preceded q p rules := by
  induction rules with
  | nil => simp [Preceded]
  | cons a rules ih =>
    have hother : ∀ {r : α → Bool}, ¬ r a → rules.find? r ≠ some a := by
      intro r hr hfound
      exact hr (List.find?_some hfound)
    by_cases hp : p a <;> by_cases hq : q a
    · simp [hp, hq, preceded_cons_of_match]
    · have hne := hother hq
      simp [hp, hq, not_preceded_cons, Ne.symm hne]
    · have hne := hother hp
      simp [hp, hq, not_preceded_cons, hne]
    · simp [hp, hq, preceded_cons_of_miss, ih]

theorem map_find?_eq_iff (f : α → β) (hnames : (rules.map f).Nodup) :
    (rules.find? p).map f = (rules.find? q).map f ↔ rules.find? p = rules.find? q := by
  cases hp : rules.find? p with
  | none => cases rules.find? q <;> simp
  | some a =>
    cases hq : rules.find? q with
    | none => simp
    | some b =>
      have hinj : f a = f b → a = b := List.inj_on_of_nodup_map hnames
        (List.mem_of_find?_eq_some hp) (List.mem_of_find?_eq_some hq)
      simp only [Option.map_some, Option.some.injEq]
      exact ⟨hinj, congrArg f⟩

end FirstMatch

/-- The path is the marker or below it: the components of an absolute marker lead those of the
path, those of a relative one stand together somewhere in it. -/
def LiesUnder (marker path : Str) : Prop :=
  if str "/" <+: marker then pathParts marker <+: pathParts path
  else pathParts marker <:+: pathParts path

instance (marker path : Str) : Decidable (LiesUnder marker path) := by
  unfold LiesUnder
  infer_instance

/-- The first category with a marker that the path lies under. -/
def sensitiveCategory (path : Str) : Option Str :=
  (SENSITIVE_CATEGORIES.find? fun category => category.2.any fun marker =>
    decide (LiesUnder marker path)).map Prod.fst

/-- The text of the marker stands in the path between slashes, an absolute one at its start. -/
def Spelt (marker path : Str) : Prop :=
  ∃ before after, (after = [] ∨ str "/" <+: after) ∧
    if str "/" <+: marker then path = marker ++ after
    else path = before ++ slash :: (marker ++ after)

/-- A component merely begins with the text of a relative marker. -/
def MerelyBegins (marker path : Str) : Prop :=
  ¬ str "/" <+: marker ∧
    ∃ before c after, c ≠ slash ∧ path = before ++ slash :: (marker ++ c :: after)

/-- The path merely ends with the text of a relative marker. -/
def MerelyEnds (marker path : Str) : Prop :=
  ¬ str "/" <+: marker ∧ ∃ before c, c ≠ slash ∧ path = before ++ c :: marker

/-- The path lies under the marker by components between which others are dropped. -/
def Respelt (marker path : Str) : Prop := LiesUnder marker path ∧ ¬ Spelt marker path

theorem Spelt.liesUnder {marker path : Str} (h : Spelt marker path) : LiesUnder marker path := by
  obtain ⟨before, after, hafter, hpath⟩ := h
  have hleads := Py.pathParts_prefix (s := marker) hafter
  unfold LiesUnder
  split_ifs at hpath ⊢
  · rw [hpath]
    exact hleads
  · rw [hpath, Py.pathParts_append_slash]
    exact hleads.isInfix.trans (List.suffix_append _ _).isInfix

/-- What the text tests see: the marker between slashes, or at one end of a component. -/
theorem fallsUnder_iff {path marker : Str} (habs : str "/" <+: path) :
    fallsUnder path marker ↔
      Spelt marker path ∨ MerelyBegins marker path ∨ MerelyEnds marker path := by
  unfold fallsUnder Spelt MerelyBegins MerelyEnds
  split_ifs with hmarker
  · simp only [Bool.or_eq_true, beq_iff_eq, decide_eq_true_eq, hmarker, not_true, false_and,
      or_false]
    constructor
    · rintro (rfl | ⟨rest, rfl⟩)
      · exact ⟨[], [], .inl rfl, by simp⟩
      · exact ⟨[], str "/" ++ rest, .inr ⟨rest, rfl⟩, by simp⟩
    · rintro ⟨before, after, rfl | ⟨rest, rfl⟩, rfl⟩
      · simp
      · exact .inr ⟨rest, by simp⟩
  · simp only [Bool.or_eq_true, decide_eq_true_eq, hmarker, not_false_eq_true, true_and]
    constructor
    · rintro (⟨before, after, hpath⟩ | ⟨before, hpath⟩)
      · have hpath : path = before ++ slash :: (marker ++ after) := by
          rw [← hpath]
          simp [str, slash]
        cases after with
        | nil => exact .inl ⟨before, [], .inl rfl, hpath⟩
        | cons c after =>
          by_cases hc : c = slash
          · exact .inl ⟨before, c :: after, .inr ⟨after, by rw [hc]; rfl⟩, hpath⟩
          · exact .inr (.inl ⟨before, c, after, hc, hpath⟩)
      · rcases List.eq_nil_or_concat before with rfl | ⟨before, c, rfl⟩
        · rw [← hpath] at habs
          exact absurd habs hmarker
        · have hpath : path = before ++ c :: marker := by simp [← hpath]
          by_cases hc : c = slash
          · exact .inl ⟨before, [], .inl rfl, by simpa [hc] using hpath⟩
          · exact .inr (.inr ⟨before, c, hc, hpath⟩)
    · rintro (⟨before, after, -, rfl⟩ | ⟨before, c, after, -, rfl⟩ | ⟨before, c, -, rfl⟩)
      · exact .inl ⟨before, after, by simp [str, slash]⟩
      · exact .inl ⟨before, c :: after, by simp [str, slash]⟩
      · exact .inr ⟨before ++ [c], by simp⟩

/-- The path lies under a marker of one of the categories. -/
def LiesUnderSome (categories : List (Str × List Str)) (path : Str) : Prop :=
  ∃ category ∈ categories, ∃ marker ∈ category.2, LiesUnder marker path

/-- The text of a marker of one of the categories is in the path. -/
def ReadsSome (categories : List (Str × List Str)) (path : Str) : Prop :=
  ∃ category ∈ categories, ∃ marker ∈ category.2,
    Spelt marker path ∨ MerelyBegins marker path ∨ MerelyEnds marker path

/-- Where a component merely begins or ends with a marker, the path lies under a marker of that
category or an earlier one; where components between those of a marker are dropped, the text of a
marker of that category or an earlier one is in the path. -/
def ReadRightly (path : Str) : Prop :=
  ∀ i category, SENSITIVE_CATEGORIES[i]? = some category → ∀ marker ∈ category.2,
    (MerelyBegins marker path ∨ MerelyEnds marker path →
      LiesUnderSome (SENSITIVE_CATEGORIES.take (i + 1)) path) ∧
    (Respelt marker path → ReadsSome (SENSITIVE_CATEGORIES.take (i + 1)) path)

theorem mem_take_of_getElem? {α : Type} {l : List α} {i : ℕ} {a : α} (h : l[i]? = some a) :
    a ∈ l.take (i + 1) := by
  apply List.mem_of_getElem? (i := i)
  rw [List.getElem?_take_of_lt (Nat.lt_succ_self i), h]

/-- The classification goes by components if and only if the texts of the markers do not mislead
it. -/
theorem classifySensitive_eq_iff {path : Str} (habs : str "/" <+: path) :
    classifySensitive path = sensitiveCategory path ↔ ReadRightly path := by
  have hnames : (SENSITIVE_CATEGORIES.map Prod.fst).Nodup := by decide
  rw [classifySensitive, sensitiveCategory, map_find?_eq_iff Prod.fst hnames, find?_eq_find?_iff]
  simp only [Preceded, List.any_eq_true, fallsUnder_iff habs, decide_eq_true_eq]
  constructor
  · rintro ⟨htext, hlies⟩ i category hi marker hmarker
    exact ⟨fun hends => htext i category hi ⟨marker, hmarker, .inr hends⟩,
      fun hrespelt => hlies i category hi ⟨marker, hmarker, hrespelt.1⟩⟩
  · intro h
    constructor
    · rintro i category hi ⟨marker, hmarker, hspelt | hends⟩
      · exact ⟨category, mem_take_of_getElem? hi, marker, hmarker, hspelt.liesUnder⟩
      · exact (h i category hi marker hmarker).1 hends
    · rintro i category hi ⟨marker, hmarker, hlies⟩
      by_cases hspelt : Spelt marker path
      · exact ⟨category, mem_take_of_getElem? hi, marker, hmarker, .inl hspelt⟩
      · exact (h i category hi marker hmarker).2 ⟨hlies, hspelt⟩

theorem classifySensitive_eq_iff_key :
    classifySensitive (str "/home/alice/.ssh/authorized_keys") =
        sensitiveCategory (str "/home/alice/.ssh/authorized_keys") ↔
      ReadRightly (str "/home/alice/.ssh/authorized_keys") :=
  classifySensitive_eq_iff ⟨str "home/alice/.ssh/authorized_keys", rfl⟩

/-- A file whose name ends with a marker is classified though it lies under none. -/
theorem notes_misread : ¬ ∀ path : Str, str "/" <+: path →
    classifySensitive path = sensitiveCategory path := by
  intro h
  have hnotes := h (str "/home/alice/notes.profile") (by decide)
  revert hnotes
  decide

/-- The path is written with a single slash before each of its components. -/
def Plain (path : Str) : Prop := path = str "/" ++ Py.join (str "/") (pathParts path)

/-- The components of a path, each after a slash. -/
def slashed (parts : List Str) : Str := parts.flatMap fun part => slash :: part

theorem slashed_append (before after : List Str) :
    slashed (before ++ after) = slashed before ++ slashed after := List.flatMap_append

theorem slashed_eq_nil_or (parts : List Str) : slashed parts = [] ∨ str "/" <+: slashed parts := by
  cases parts with
  | nil => exact .inl rfl
  | cons part parts => exact .inr ⟨part ++ slashed parts, rfl⟩

theorem slash_join {parts : List Str} (h : parts ≠ []) :
    str "/" ++ Py.join (str "/") parts = slashed parts := by
  cases parts with
  | nil => exact absurd rfl h
  | cons part parts =>
    rw [Py.join_cons]
    rfl

theorem marker_slashed {category : Str × List Str} (hcategory : category ∈ SENSITIVE_CATEGORIES)
    {marker : Str} (hmarker : marker ∈ category.2) :
    pathParts marker ≠ [] ∧
      (if str "/" <+: marker then marker else slash :: marker) = slashed (pathParts marker) := by
  have hall : ∀ category ∈ SENSITIVE_CATEGORIES, ∀ marker ∈ category.2, pathParts marker ≠ [] ∧
      (if str "/" <+: marker then marker else slash :: marker) = slashed (pathParts marker) := by
    decide
  exact hall category hcategory marker hmarker

theorem Plain.spelt {category : Str × List Str} (hcategory : category ∈ SENSITIVE_CATEGORIES)
    {marker path : Str} (hmarker : marker ∈ category.2) (hpath : Plain path)
    (hlies : LiesUnder marker path) : Spelt marker path := by
  obtain ⟨hparts, htext⟩ := marker_slashed hcategory hmarker
  unfold LiesUnder at hlies
  unfold Spelt
  have hwritten : pathParts path ≠ [] → path = slashed (pathParts path) := by
    intro hne
    rw [← slash_join hne]
    exact hpath
  split_ifs at htext hlies ⊢
  · obtain ⟨after, hafter⟩ := hlies
    have hne : pathParts path ≠ [] := by simp [← hafter, hparts]
    refine ⟨[], slashed after, slashed_eq_nil_or after, ?_⟩
    rw [hwritten hne, ← hafter, slashed_append, ← htext]
  · obtain ⟨before, after, hafter⟩ := hlies
    have hne : pathParts path ≠ [] := by simp [← hafter, hparts]
    refine ⟨slashed before, slashed after, slashed_eq_nil_or after, ?_⟩
    rw [hwritten hne, ← hafter, slashed_append, slashed_append, ← htext]
    simp

/-- A path that is written plainly is misread only through the ends of its components. -/
theorem classifySensitive_eq_iff_of_plain {path : Str} (habs : str "/" <+: path)
    (hpath : Plain path) :
    classifySensitive path = sensitiveCategory path ↔
      ∀ i category, SENSITIVE_CATEGORIES[i]? = some category → ∀ marker ∈ category.2,
        MerelyBegins marker path ∨ MerelyEnds marker path →
          LiesUnderSome (SENSITIVE_CATEGORIES.take (i + 1)) path := by
  rw [classifySensitive_eq_iff habs]
  constructor
  · intro h i category hi marker hmarker
    exact (h i category hi marker hmarker).1
  · intro h i category hi marker hmarker
    refine ⟨h i category hi marker hmarker, fun hrespelt => ?_⟩
    exact absurd (hpath.spelt (List.mem_of_getElem? hi) hmarker hrespelt.1) hrespelt.2

end Ebabf
