import Mathlib.Data.List.Infix
import Mathlib.Tactic

/-!
# Backtracking search

Regular expressions as a backtracking matcher runs them: what a match may leave of the text is a
list, in the order in which the matcher tries the matches. A pattern has one group, which every
match goes through, and a search finds the first match of the first suffix that has one.

A matcher that has stopped within a text is not affected by what is appended to it. Where that
holds of every suffix, a search of a longer text is the search of the first part and then of the
second.
-/

/-- An expression; `many` and `lazy` are `p*` and `p*?`, of an `alt` the first is tried first. -/
inductive Regex (α : Type)
  | empty
  | item (p : α → Bool)
  | seq (r t : Regex α)
  | alt (r t : Regex α)
  | many (p : α → Bool)
  | lazy (p : α → Bool)

namespace Regex

variable {α : Type}

/-- What runs of `p` leave of a text, the shortest run first. -/
def runs (p : α → Bool) : List α → List (List α)
  | [] => [[]]
  | c :: s => (c :: s) :: if p c then runs p s else []

/-- What the matches at the start of a text leave of it, in the order in which they are tried. -/
def rests : Regex α → List α → List (List α)
  | .empty, s => [s]
  | .item _, [] => []
  | .item p, c :: s => if p c then [s] else []
  | .seq r t, s => (r.rests s).flatMap t.rests
  | .alt r t, s => r.rests s ++ t.rests s
  | .many p, s => (runs p s).reverse
  | .lazy p, s => runs p s

/-- `p+` -/
def plus (p : α → Bool) : Regex α := .seq (.item p) (.many p)

/-- `(?:r)?` -/
def opt (r : Regex α) : Regex α := .alt r .empty

def lit [DecidableEq α] : List α → Regex α
  | [] => .empty
  | c :: l => .seq (.item fun d => decide (d = c)) (lit l)

section

variable (p : α → Bool) (r t : Regex α) (c : α) (s : List α)

theorem runs_nil : runs p [] = [[]] := rfl

theorem runs_cons : runs p (c :: s) = (c :: s) :: if p c then runs p s else [] := rfl

theorem rests_empty : (empty : Regex α).rests s = [s] := rfl

theorem rests_item_nil : (item p).rests [] = [] := rfl

theorem rests_item_cons : (item p).rests (c :: s) = if p c then [s] else [] := rfl

theorem rests_seq : (seq r t).rests s = (r.rests s).flatMap t.rests := rfl

theorem rests_alt : (alt r t).rests s = r.rests s ++ t.rests s := rfl

theorem rests_many : (many p).rests s = (runs p s).reverse := rfl

theorem rests_lazy : (lazy p).rests s = runs p s := rfl

theorem lit_cons [DecidableEq α] (l : List α) :
    lit (c :: l) = .seq (.item fun d => decide (d = c)) (lit l) := rfl

end

/-- An expression with one group. -/
structure Pattern (α : Type) where
  before : Regex α
  group : Regex α
  after : Regex α

namespace Pattern

/-- What the group holds in each match at the start of a text. -/
def captures (P : Pattern α) (s : List α) : List (List α) :=
  (P.before.rests s).flatMap fun t =>
    (P.group.rests t).flatMap fun u =>
      (P.after.rests u).map fun _ => t.take (t.length - u.length)

def here (P : Pattern α) (s : List α) : Option (List α) := (P.captures s).head?

/-- What the group holds in the first match. -/
def search (P : Pattern α) (s : List α) : Option (List α) := s.tails.findSome? P.here

/-- What the group holds in the first match of `x ++ s` that starts within `x`. -/
def searchIn (P : Pattern α) : (x s : List α) → Option (List α)
  | [], _ => none
  | c :: x, s => (P.here (c :: x ++ s)).or (P.searchIn x s)

end Pattern

theorem suffix_of_mem_runs {p : α → Bool} {x y : List α} (h : y ∈ runs p x) : y <:+ x := by
  induction x with
  | nil =>
    rw [runs_nil, List.mem_singleton] at h
    rw [h]
  | cons c x ih =>
    rw [runs_cons, List.mem_cons] at h
    rcases h with rfl | h
    · exact List.suffix_refl _
    · split_ifs at h
      · exact (ih h).trans (List.suffix_cons c x)
      · cases h

theorem suffix_of_mem_rests (r : Regex α) : ∀ {x y : List α}, y ∈ r.rests x → y <:+ x := by
  induction r with
  | empty =>
    intro x y h
    rw [rests_empty, List.mem_singleton] at h
    rw [h]
  | item p =>
    intro x y h
    cases x with
    | nil => cases h
    | cons c x =>
      rw [rests_item_cons] at h
      split_ifs at h
      · rw [List.mem_singleton] at h
        rw [h]
        exact List.suffix_cons c x
      · cases h
  | seq r t ihr iht =>
    intro x y h
    rw [rests_seq, List.mem_flatMap] at h
    obtain ⟨z, hz, hy⟩ := h
    exact (iht hy).trans (ihr hz)
  | alt r t ihr iht =>
    intro x y h
    rw [rests_alt, List.mem_append] at h
    rcases h with h | h
    · exact ihr h
    · exact iht h
  | many p =>
    intro x y h
    rw [rests_many, List.mem_reverse] at h
    exact suffix_of_mem_runs h
  | lazy p =>
    intro x y h
    exact suffix_of_mem_runs h

theorem suffix_of_run {p : α → Bool} {c : α} {d x y : List α} (hc : p c = false)
    (hd : c :: d <:+ x) (h : y ∈ runs p x) : c :: d <:+ y := by
  induction x with
  | nil =>
    rw [runs_nil, List.mem_singleton] at h
    rw [h]
    exact hd
  | cons b x ih =>
    rw [runs_cons, List.mem_cons] at h
    rcases h with rfl | h
    · exact hd
    · split_ifs at h with hb
      · rcases List.suffix_cons_iff.mp hd with heq | hx
        · obtain ⟨rfl, -⟩ := List.cons.inj heq
          rw [hc] at hb
          cases hb
        · exact ih hx h
      · cases h

theorem runs_of_all {p : α → Bool} {x : List α} (h : ∀ c ∈ x, p c = true) : runs p x = x.tails := by
  induction x with
  | nil => rfl
  | cons c x ih =>
    have hx : ∀ d ∈ x, p d = true := fun d hd => h d (List.mem_cons_of_mem c hd)
    rw [runs_cons, if_pos (h c List.mem_cons_self), ih hx, List.tails]

theorem head?_rests_many {p : α → Bool} {w s : List α} (hw : ∀ c ∈ w, p c = true)
    (hs : ∀ c ∈ s.head?, p c = false) : ((many p).rests (w ++ s)).head? = some s := by
  rw [rests_many, List.head?_reverse]
  induction w with
  | nil =>
    cases s with
    | nil => rfl
    | cons c s =>
      rw [List.nil_append, runs_cons, hs c rfl]
      rfl
  | cons c w ih =>
    have hrest := ih fun d hd => hw d (List.mem_cons_of_mem c hd)
    rw [List.cons_append, runs_cons, if_pos (hw c List.mem_cons_self)]
    cases hruns : runs p (w ++ s) with
    | nil =>
      rw [hruns] at hrest
      cases hrest
    | cons y ys =>
      rw [hruns] at hrest
      rw [List.getLast?_cons_cons]
      exact hrest

theorem head?_rests_seq {r t : Regex α} {s u v : List α} (hr : (r.rests s).head? = some u)
    (ht : (t.rests u).head? = some v) : ((seq r t).rests s).head? = some v := by
  rw [rests_seq]
  cases hrests : r.rests s with
  | nil =>
    rw [hrests] at hr
    cases hr
  | cons y ys =>
    rw [hrests] at hr
    cases hr
    rw [List.flatMap_cons, List.head?_append, ht]
    rfl

theorem head?_rests_plus {p : α → Bool} {w s : List α} (hne : w ≠ []) (hw : ∀ c ∈ w, p c = true)
    (hs : ∀ c ∈ s.head?, p c = false) : ((plus p).rests (w ++ s)).head? = some s := by
  cases w with
  | nil => exact absurd rfl hne
  | cons c w =>
    have hitem : ((item p).rests (c :: w ++ s)).head? = some (w ++ s) := by
      rw [List.cons_append, rests_item_cons, if_pos (hw c List.mem_cons_self)]
      rfl
    exact head?_rests_seq hitem
      (head?_rests_many (fun d hd => hw d (List.mem_cons_of_mem c hd)) hs)

theorem rests_lit [DecidableEq α] (l s : List α) :
    (lit l).rests s = if l <+: s then [s.drop l.length] else [] := by
  induction l generalizing s with
  | nil => simp [lit, rests_empty]
  | cons c l ih =>
    cases s with
    | nil => simp [lit_cons, rests_seq, rests_item_nil]
    | cons d s =>
      rw [lit_cons, rests_seq, rests_item_cons]
      by_cases hd : d = c
      · subst hd
        simp [ih, List.cons_prefix_cons]
      · have hne : ¬ c = d := fun heq => hd heq.symm
        simp [hd, hne, List.cons_prefix_cons]

/-- What is appended to `x` does not affect how the expression matches at its start. -/
def Settled (r : Regex α) (x : List α) : Prop :=
  ∀ s, r.rests (x ++ s) = (r.rests x).map (· ++ s)

theorem settled_empty (x : List α) : (empty : Regex α).Settled x := fun _ => rfl

theorem settled_item {p : α → Bool} {x : List α} (h : x ≠ []) : (item p).Settled x := by
  intro s
  cases x with
  | nil => exact absurd rfl h
  | cons c x =>
    rw [List.cons_append, rests_item_cons, rests_item_cons]
    split_ifs <;> rfl

theorem Settled.seq {r t : Regex α} {x : List α} (hr : r.Settled x)
    (ht : ∀ y ∈ r.rests x, t.Settled y) : (seq r t).Settled x := by
  intro s
  rw [rests_seq, rests_seq, hr s, List.flatMap_map, List.map_flatMap]
  exact List.flatMap_congr fun y hy => ht y hy s

theorem Settled.alt {r t : Regex α} {x : List α} (hr : r.Settled x) (ht : t.Settled x) :
    (alt r t).Settled x := by
  intro s
  rw [rests_alt, rests_alt, hr s, ht s, List.map_append]

theorem runs_append {p : α → Bool} {x : List α} (h : ∃ c ∈ x, p c = false) (s : List α) :
    runs p (x ++ s) = (runs p x).map (· ++ s) := by
  induction x with
  | nil =>
    obtain ⟨c, hc, -⟩ := h
    cases hc
  | cons b x ih =>
    rw [List.cons_append, runs_cons, runs_cons, List.map_cons, List.cons_append]
    congr 1
    split_ifs with hb
    · apply ih
      obtain ⟨c, hmem, hc⟩ := h
      rcases List.mem_cons.mp hmem with rfl | hx
      · rw [hb] at hc
        cases hc
      · exact ⟨c, hx, hc⟩
    · rfl

theorem settled_many {p : α → Bool} {x : List α} (h : ∃ c ∈ x, p c = false) :
    (many p).Settled x := by
  intro s
  rw [rests_many, rests_many, runs_append h, List.map_reverse]

theorem settled_plus {p : α → Bool} {c : α} {x d : List α} (hc : p c = false)
    (hd : c :: d <:+ x) : (plus p).Settled x := by
  have hne : x ≠ [] := by
    rintro rfl
    cases List.suffix_nil.mp hd
  apply (settled_item hne).seq
  intro y hy
  apply settled_many
  refine ⟨c, ?_, hc⟩
  cases x with
  | nil => exact absurd rfl hne
  | cons b x =>
    rw [rests_item_cons] at hy
    split_ifs at hy with hb
    · rw [List.mem_singleton] at hy
      rcases List.suffix_cons_iff.mp hd with heq | hx
      · obtain ⟨rfl, -⟩ := List.cons.inj heq
        rw [hc] at hb
        cases hb
      · rw [hy]
        exact hx.subset List.mem_cons_self
    · cases hy

theorem suffix_of_plus {p : α → Bool} {c : α} {d x y : List α} (hc : p c = false)
    (hd : c :: d <:+ x) (h : y ∈ (plus p).rests x) : c :: d <:+ y := by
  rw [plus, rests_seq, List.mem_flatMap] at h
  obtain ⟨z, hz, hy⟩ := h
  rw [rests_many, List.mem_reverse] at hy
  cases x with
  | nil => cases hz
  | cons b x =>
    rw [rests_item_cons] at hz
    split_ifs at hz with hb
    · rw [List.mem_singleton] at hz
      subst hz
      rcases List.suffix_cons_iff.mp hd with heq | hx
      · obtain ⟨rfl, -⟩ := List.cons.inj heq
        rw [hc] at hb
        cases hb
      · exact suffix_of_run hc hx hy
    · cases hz

section

variable [DecidableEq α]

theorem settled_lit {l x : List α} (h : x <+: l → x = l) : (lit l).Settled x := by
  intro s
  rw [rests_lit, rests_lit]
  by_cases hx : l <+: x
  · rw [if_pos hx, if_pos (hx.trans (List.prefix_append x s)), List.map_singleton,
      List.drop_append_of_le_length hx.length_le]
  · have hxs : ¬ l <+: x ++ s := by
      intro hl
      rcases List.prefix_or_prefix_of_prefix hl (List.prefix_append x s) with hlx | hxl
      · exact hx hlx
      · exact hx (h hxl ▸ List.prefix_refl _)
    rw [if_neg hx, if_neg hxs, List.map_nil]

theorem settled_lit_of_notMem {l x : List α} {c : α} (hx : c ∈ x) (hl : c ∉ l) :
    (lit l).Settled x :=
  settled_lit fun h => absurd (h.subset hx) hl

theorem mem_rests_lit {l x y : List α} : y ∈ (lit l).rests x ↔ l ++ y = x := by
  rw [rests_lit]
  constructor
  · intro h
    split_ifs at h with hl
    · rw [List.mem_singleton] at h
      rw [h]
      exact List.prefix_iff_eq_append.mp hl
    · cases h
  · rintro rfl
    rw [if_pos (List.prefix_append l y), List.drop_left]
    exact List.mem_singleton_self y

end

theorem suffix_of_lit [DecidableEq α] {l x y d : List α} {c : α} (hc : c ∉ l) (hd : c :: d <:+ x)
    (h : y ∈ (lit l).rests x) : c :: d <:+ y := by
  rw [mem_rests_lit] at h
  subst h
  rcases List.suffix_or_suffix_of_suffix hd (List.suffix_append l y) with hy | ⟨t, ht⟩
  · exact hy
  · cases t with
    | nil => exact ht ▸ List.suffix_refl _
    | cons b t =>
      -- the end of the literal would begin with that item
      obtain ⟨w, hw⟩ := hd
      rw [← ht, ← List.append_assoc] at hw
      have hl : w ++ b :: t = l := List.append_cancel_right hw
      have hb : b = c := (List.cons.inj ht).1
      apply absurd _ hc
      rw [← hl, ← hb]
      exact List.mem_append_right w List.mem_cons_self

/-- A literal whose first item does not come again in it ends before the next such item. -/
theorem suffix_of_lit_cons [DecidableEq α] {c : α} {l d y z : List α} (hc : c ∉ l) (hne : y ≠ [])
    (h : z ∈ (lit (c :: l)).rests (y ++ c :: d)) : c :: d <:+ z := by
  rw [mem_rests_lit] at h
  cases y with
  | nil => exact absurd rfl hne
  | cons b y =>
    have htail : l ++ z = y ++ c :: d := (List.cons.inj h).2
    rcases List.append_eq_append_iff.mp htail with ⟨w, -, hw⟩ | ⟨w, hl, hw⟩
    · exact hw ▸ List.suffix_append w _
    · cases w with
      | nil => exact hw ▸ List.suffix_refl _
      | cons e w =>
        have he : c = e := (List.cons.inj hw).1
        apply absurd _ hc
        rw [hl, he]
        exact List.mem_append_right y List.mem_cons_self

namespace Pattern

variable {P : Pattern α}

theorem here_of_heads {s t u v : List α} (hbefore : (P.before.rests s).head? = some t)
    (hgroup : (P.group.rests t).head? = some u) (hafter : (P.after.rests u).head? = some v) :
    P.here s = some (t.take (t.length - u.length)) := by
  rw [here, captures]
  cases hb : P.before.rests s with
  | nil =>
    rw [hb] at hbefore
    cases hbefore
  | cons y ys =>
    rw [hb] at hbefore
    cases hbefore
    cases hg : P.group.rests t with
    | nil =>
      rw [hg] at hgroup
      cases hgroup
    | cons z zs =>
      rw [hg] at hgroup
      cases hgroup
      rw [List.flatMap_cons, hg, List.flatMap_cons, List.head?_append, List.head?_append,
        List.head?_map, hafter]
      rfl

theorem here_eq_none {s : List α} (h : P.before.rests s = []) : P.here s = none := by
  rw [here, captures, h]
  rfl

/-- The three parts of a pattern have stopped, each where the one before it has left off. -/
structure Settled (P : Pattern α) (x : List α) : Prop where
  before : P.before.Settled x
  group : ∀ y ∈ P.before.rests x, P.group.Settled y
  after : ∀ y ∈ P.before.rests x, ∀ z ∈ P.group.rests y, P.after.Settled z

theorem Settled.here {x : List α} (h : P.Settled x) (s : List α) : P.here (x ++ s) = P.here x := by
  have hcaptures : P.captures (x ++ s) = P.captures x := by
    rw [captures, captures, h.before s, List.flatMap_map]
    apply List.flatMap_congr
    intro y hy
    rw [h.group y hy s, List.flatMap_map]
    apply List.flatMap_congr
    intro z hz
    have htaken : (y ++ s).take ((y ++ s).length - (z ++ s).length) =
        y.take (y.length - z.length) := by
      rw [List.length_append, List.length_append, Nat.add_sub_add_right,
        List.take_append_of_le_length (Nat.sub_le _ _)]
    rw [h.after y hy z hz s, List.map_map, htaken]
    rfl
  rw [Pattern.here, hcaptures]
  rfl

/-- A literal and a lazy run that may go on to the end leave a search for what comes after them. -/
theorem here_lit_lazy [DecidableEq α] {l s : List α} {p : α → Bool} {r : Regex α}
    (hP : P.before = .seq (.lit l) (.seq (.lazy p) r)) (hs : ∀ c ∈ s, p c = true) :
    P.here (l ++ s) = search { P with before := r } s := by
  have hbefore : P.before.rests (l ++ s) = s.tails.flatMap r.rests := by
    rw [hP, rests_seq, rests_lit, if_pos (List.prefix_append l s), List.drop_left, List.flatMap_singleton,
      rests_seq, rests_lazy, runs_of_all hs]
  rw [here, captures, hbefore, List.flatMap_assoc, List.head?_flatMap]
  rfl

theorem search_cons (c : α) (s : List α) :
    P.search (c :: s) = (P.here (c :: s)).or (P.search s) := by
  rw [search, List.tails, List.findSome?_cons]
  cases P.here (c :: s) <;> rfl

theorem search_append (x s : List α) : P.search (x ++ s) = (P.searchIn x s).or (P.search s) := by
  induction x with
  | nil => rfl
  | cons c x ih =>
    rw [List.cons_append, search_cons, searchIn, ih, Option.or_assoc]
    rfl

theorem searchIn_congr {x s t : List α}
    (h : ∀ y, y ≠ [] → y <:+ x → P.here (y ++ s) = P.here (y ++ t)) :
    P.searchIn x s = P.searchIn x t := by
  induction x with
  | nil => rfl
  | cons c x ih =>
    have hx : P.searchIn x s = P.searchIn x t :=
      ih fun y hne hy => h y hne (hy.trans (List.suffix_cons c x))
    rw [searchIn, searchIn, hx, h (c :: x) (List.cons_ne_nil c x) (List.suffix_refl _)]

theorem searchIn_eq_none {x s : List α} :
    P.searchIn x s = none ↔ ∀ y, y ≠ [] → y <:+ x → P.here (y ++ s) = none := by
  induction x with
  | nil =>
    constructor
    · intro h y hne hy
      exact absurd (List.suffix_nil.mp hy) hne
    · exact fun h => rfl
  | cons c x ih =>
    rw [searchIn, Option.or_eq_none_iff, ih]
    constructor
    · rintro ⟨hc, hx⟩ y hne hy
      rcases List.suffix_cons_iff.mp hy with rfl | hy
      · exact hc
      · exact hx y hne hy
    · intro h
      exact ⟨h (c :: x) (List.cons_ne_nil c x) (List.suffix_refl _),
        fun y hne hy => h y hne (hy.trans (List.suffix_cons c x))⟩

/-- A pattern that begins with a literal does not begin to match in a text without the literal, if
no end of the literal is a beginning of what follows. -/
theorem searchIn_eq_none_of_lit {l x m s : List α} (hlit : ∀ t, ¬ l <+: t → P.here t = none)
    (hx : ¬ l <:+: x) (hlen : l.length ≤ m.length)
    (hm : ∀ t ∈ l.tails, t ≠ [] → t ≠ l → ¬ t <+: m) : P.searchIn x (m ++ s) = none := by
  rw [searchIn_eq_none]
  intro y hne hy
  apply hlit
  intro hl
  rcases List.prefix_or_prefix_of_prefix hl (List.prefix_append y (m ++ s)) with hly | ⟨t, rfl⟩
  · exact hx (hly.isInfix.trans hy.isInfix)
  · have htm : t <+: m ++ s := (List.prefix_append_right_inj y).mp hl
    have hlength : t.length ≤ m.length := by
      rw [List.length_append] at hlen
      omega
    by_cases ht : t = []
    · apply hx
      rw [ht, List.append_nil]
      exact hy.isInfix
    · apply hm t ((List.mem_tails t _).mpr (List.suffix_append y t)) ht
      · intro heq
        exact hne (List.append_left_eq_self.mp heq.symm)
      · exact List.prefix_of_prefix_length_le htm (List.prefix_append m s) hlength

/-- Where nothing appended matters, the search of the longer text comes after that of the shorter. -/
theorem search_append_of_unaffected {x : List α} (hempty : P.here [] = none)
    (h : ∀ y, y ≠ [] → y <:+ x → ∀ s, P.here (y ++ s) = P.here y) (s : List α) :
    P.search (x ++ s) = (P.search x).or (P.search s) := by
  have hnil : P.search [] = none := by
    rw [search, List.tails, List.findSome?_cons, hempty]
    rfl
  have hx : P.searchIn x s = P.search x := by
    have hsearch := P.search_append x []
    rw [hnil, Option.or_none, List.append_nil] at hsearch
    rw [hsearch]
    apply searchIn_congr
    intro y hne hy
    rw [h y hne hy s, List.append_nil]
  rw [search_append, hx]

theorem search_eq_none {s : List α} : P.search s = none ↔ ∀ y, y <:+ s → P.here y = none := by
  rw [search, List.findSome?_eq_none_iff]
  constructor
  · exact fun h y hy => h y ((List.mem_tails y s).mpr hy)
  · exact fun h y hy => h y ((List.mem_tails y s).mp hy)

theorem ne_nil_of_search {p : α → Bool} (hgroup : P.group = plus p) {s g : List α}
    (h : P.search s = some g) : g ≠ [] := by
  rw [search, List.findSome?_eq_some_iff] at h
  obtain ⟨-, y, -, -, hhere, -⟩ := h
  have hmem : g ∈ P.captures y := List.mem_of_mem_head? hhere
  rw [captures, List.mem_flatMap] at hmem
  obtain ⟨t, -, hmem⟩ := hmem
  obtain ⟨u, hu, hmem⟩ := List.mem_flatMap.mp hmem
  obtain ⟨v, -, rfl⟩ := List.mem_map.mp hmem
  rw [hgroup, plus, rests_seq, List.mem_flatMap] at hu
  obtain ⟨z, hz, hu⟩ := hu
  cases t with
  | nil => cases hz
  | cons c t =>
    rw [rests_item_cons] at hz
    split_ifs at hz
    · rw [List.mem_singleton] at hz
      have hle : u.length ≤ t.length := (hz ▸ suffix_of_mem_rests _ hu).length_le
      intro hnil
      have hlength := congrArg List.length hnil
      rw [List.length_take, List.length_cons, List.length_nil] at hlength
      omega
    · cases hz

theorem search_of_here {s g : List α} (h : P.here s = some g) : P.search s = some g := by
  cases s with
  | nil =>
    rw [search, List.tails, List.findSome?_cons, h]
  | cons c s =>
    rw [search_cons, h]
    rfl

end Pattern
end Regex
