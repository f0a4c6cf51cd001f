import Ebabf.Py.JsonFloats

/-!
# Nesting

What `dumps` writes is read back exactly when the interpreter recurses as deep as the value is
nested; otherwise the decoder stops at the recursion limit.
-/

namespace Py.Json

mutual

/-- The values Python builds from finite numbers: floats are finite, dictionaries have each key
once. -/
def WellFormed : Json → Prop
  | .float x => x.isFinite = true
  | .arr items => WellFormedItems items
  | .obj members => (members.map Prod.fst).Nodup ∧ WellFormedMembers members
  | .null | .bool _ | .int _ | .str _ => True

def WellFormedItems : List Json → Prop
  | [] => True
  | x :: xs => WellFormed x ∧ WellFormedItems xs

def WellFormedMembers : List (Str × Json) → Prop
  | [] => True
  | (_, v) :: ms => WellFormed v ∧ WellFormedMembers ms

end

mutual

/-- How many containers are nested at most. -/
def depth : Json → ℕ
  | .arr items => depthItems items + 1
  | .obj members => depthMembers members + 1
  | .null | .bool _ | .int _ | .float _ | .str _ => 0

def depthItems : List Json → ℕ
  | [] => 0
  | x :: xs => max (depth x) (depthItems xs)

def depthMembers : List (Str × Json) → ℕ
  | [] => 0
  | (_, v) :: ms => max (depth v) (depthMembers ms)

end

theorem depthItems_le {limit : ℕ} {items : List Json} :
    depthItems items ≤ limit ↔ ∀ x ∈ items, depth x ≤ limit := by
  induction items with
  | nil => simp [depthItems]
  | cons x xs ih => rw [depthItems, max_le_iff, ih, List.forall_mem_cons]

theorem depthMembers_le {limit : ℕ} {members : List (Str × Json)} :
    depthMembers members ≤ limit ↔ ∀ m ∈ members, depth m.2 ≤ limit := by
  induction members with
  | nil => simp [depthMembers]
  | cons m ms ih =>
    obtain ⟨k, v⟩ := m
    rw [depthMembers, max_le_iff, ih, List.forall_mem_cons]

theorem wellFormedItems_iff {items : List Json} :
    WellFormedItems items ↔ ∀ x ∈ items, WellFormed x := by
  induction items with
  | nil => simp [WellFormedItems]
  | cons x xs ih => rw [WellFormedItems, ih, List.forall_mem_cons]

theorem wellFormedMembers_iff {members : List (Str × Json)} :
    WellFormedMembers members ↔ ∀ m ∈ members, WellFormed m.2 := by
  induction members with
  | nil => simp [WellFormedMembers]
  | cons m ms ih =>
    obtain ⟨k, v⟩ := m
    rw [WellFormedMembers, ih, List.forall_mem_cons]

theorem printableItems_iff {items : List Json} :
    printableItems items = true ↔ ∀ x ∈ items, printable x = true := by
  induction items with
  | nil => simp [printableItems]
  | cons x xs ih => rw [printableItems, Bool.and_eq_true, ih, List.forall_mem_cons]

theorem printableMembers_iff {members : List (Str × Json)} :
    printableMembers members = true ↔ ∀ m ∈ members, printable m.2 = true := by
  induction members with
  | nil => simp [printableMembers]
  | cons m ms ih =>
    obtain ⟨k, v⟩ := m
    rw [printableMembers, Bool.and_eq_true, ih, List.forall_mem_cons]

mutual

/-- A value that is not nested deeper than the limit is read back. -/
theorem readable_of_depth : ∀ {limit : ℕ} {v : Json}, WellFormed v → printable v = true →
    depth v ≤ limit → Readable limit v
  | _, .null, _, _, _ => by simp [Readable]
  | _, .bool _, _, _, _ => by simp [Readable]
  | _, .str _, _, _, _ => by simp [Readable]
  | _, .int n, _, hprint, _ => by
    rw [printable, decide_eq_true_eq] at hprint
    rw [Readable]
    exact hprint
  | _, .float x, hwell, _, _ => by
    rw [WellFormed] at hwell
    rw [Readable]
    exact atomReads_float hwell
  | 0, .arr items, _, _, hdepth => by
    rw [depth] at hdepth
    omega
  | 0, .obj members, _, _, hdepth => by
    rw [depth] at hdepth
    omega
  | limit + 1, .arr items, hwell, hprint, hdepth => by
    rw [WellFormed] at hwell
    rw [printable] at hprint
    rw [depth] at hdepth
    rw [Readable]
    exact readableItems_of_depth hwell hprint (Nat.le_of_succ_le_succ hdepth)
  | limit + 1, .obj members, hwell, hprint, hdepth => by
    rw [WellFormed] at hwell
    rw [printable] at hprint
    rw [depth] at hdepth
    rw [Readable]
    exact ⟨hwell.1, readableMembers_of_depth hwell.2 hprint (Nat.le_of_succ_le_succ hdepth)⟩

theorem readableItems_of_depth : ∀ {limit : ℕ} {items : List Json}, WellFormedItems items →
    printableItems items = true → depthItems items ≤ limit → ReadableItems limit items
  | _, [], _, _, _ => by simp [ReadableItems]
  | _, x :: xs, hwell, hprint, hdepth => by
    rw [WellFormedItems] at hwell
    rw [printableItems, Bool.and_eq_true] at hprint
    rw [depthItems, max_le_iff] at hdepth
    rw [ReadableItems]
    exact ⟨readable_of_depth hwell.1 hprint.1 hdepth.1,
      readableItems_of_depth hwell.2 hprint.2 hdepth.2⟩

theorem readableMembers_of_depth : ∀ {limit : ℕ} {members : List (Str × Json)},
    WellFormedMembers members → printableMembers members = true → depthMembers members ≤ limit →
      ReadableMembers limit members
  | _, [], _, _, _ => by simp [ReadableMembers]
  | _, (_, v) :: ms, hwell, hprint, hdepth => by
    rw [WellFormedMembers] at hwell
    rw [printableMembers, Bool.and_eq_true] at hprint
    rw [depthMembers, max_le_iff] at hdepth
    rw [ReadableMembers]
    exact ⟨readable_of_depth hwell.1 hprint.1 hdepth.1,
      readableMembers_of_depth hwell.2 hprint.2 hdepth.2⟩

end

theorem opens_of_wellFormed {v : Json} (hwell : WellFormed v) (hprint : printable v = true)
    (indent : Option ℕ) (level : ℕ) : Opens (dumpsAt indent level v) :=
  opens_dumpsAt (readable_of_depth hwell hprint le_rfl) indent level

/-- The decoder gives up at the recursion limit, unless the model's own bound stops it first. -/
def Overflows {α : Type} (outcome : Except DecodeError α) : Prop :=
  outcome = .error .recursion ∨ outcome = .error .outOfFuel

/-- The decoder cannot recurse into what `dumps` writes for `v` at any level. -/
def TooDeep (limit : ℕ) (v : Json) : Prop :=
  ∀ indent level fuel r, Delimits r →
    Overflows (parseValue fuel limit (dumpsAt indent level v ++ r))

theorem Overflows.map {α β : Type} {outcome : Except DecodeError α} (h : Overflows outcome)
    (f : α → β) : Overflows (outcome.map f) := by
  rcases h with rfl | rfl
  · exact .inl rfl
  · exact .inr rfl

/-- A value the decoder reads back, or one it cannot recurse into, and which opens as values do. -/
structure Decided (limit : ℕ) (v : Json) : Prop where
  opens : ∀ indent level, Opens (dumpsAt indent level v)
  outcome : ReadsBack limit v ∨ TooDeep limit v

theorem parseItems_tooDeep {limit : ℕ} (indent : Option ℕ) (level outer : ℕ) (r : Str) :
    ∀ (xs : List Json) (x : Json), (∀ y ∈ x :: xs, Decided limit y) →
      (∃ y ∈ x :: xs, TooDeep limit y) →
      ∀ fuel, Overflows (parseItems fuel limit (dumpsAt indent level x ++
        (dumpsItems indent level xs ++ (lineBreak indent outer ++ ch ']' :: r)))) := by
  intro xs
  induction xs with
  | nil =>
    intro x _ hdeep fuel
    obtain ⟨y, hy, hdeep⟩ := hdeep
    rw [List.mem_singleton.mp hy] at hdeep
    cases fuel with
    | zero => exact .inr rfl
    | succ fuel =>
      have hr : Delimits (lineBreak indent outer ++ ch ']' :: r) :=
        delimits_lineBreak _ _ (delimits_cons (by decide) r)
      rw [dumpsItems, List.nil_append]
      exact (hdeep indent level fuel _ hr).imp parseItems_of_error parseItems_of_error
  | cons y ys ih =>
    intro x hx hdeep fuel
    cases fuel with
    | zero => exact .inr rfl
    | succ fuel =>
      have hr := delimits_itemSeparator indent level (dumpsAt indent level y ++
        (dumpsItems indent level ys ++ (lineBreak indent outer ++ ch ']' :: r)))
      rw [dumpsItems_cons]
      by_cases hfirst : TooDeep limit x
      · exact (hfirst indent level fuel _ hr).imp parseItems_of_error parseItems_of_error
      · have hrest : ∃ z ∈ y :: ys, TooDeep limit z := by
          obtain ⟨z, hz, hz'⟩ := hdeep
          rcases List.mem_cons.mp hz with rfl | hz
          · exact absurd hz' hfirst
          · exact ⟨z, hz, hz'⟩
        have hopen := ((hx y (by simp)).opens indent level).append
          (dumpsItems indent level ys ++ (lineBreak indent outer ++ ch ']' :: r))
        rcases ((hx x List.mem_cons_self).outcome.resolve_right hfirst) indent level fuel _ hr
          with h | h
        · rw [parseItems_next hopen h]
          exact (ih y (fun z hz => hx z (List.mem_cons_of_mem _ hz)) hrest fuel).map _
        · exact .inr (parseItems_of_error h)

theorem parseMembers_tooDeep {limit : ℕ} (indent : Option ℕ) (level outer : ℕ) (r : Str) :
    ∀ (ms : List (Str × Json)) (k : Str) (v : Json),
      (∀ m ∈ (k, v) :: ms, Decided limit m.2) → (∃ m ∈ (k, v) :: ms, TooDeep limit m.2) →
      ∀ fuel, Overflows (parseMembers fuel limit (quote k ++ (ch ':' :: ch ' ' ::
        (dumpsAt indent level v ++ (dumpsMembers indent level ms ++
          (lineBreak indent outer ++ ch '}' :: r)))))) := by
  intro ms
  induction ms with
  | nil =>
    intro k v hv hdeep fuel
    obtain ⟨m, hm, hdeep⟩ := hdeep
    rw [List.mem_singleton.mp hm] at hdeep
    cases fuel with
    | zero => exact .inr rfl
    | succ fuel =>
      have hr : Delimits (lineBreak indent outer ++ ch '}' :: r) :=
        delimits_lineBreak _ _ (delimits_cons (by decide) r)
      have hopen := ((hv (k, v) List.mem_cons_self).opens indent level).append
        (lineBreak indent outer ++ ch '}' :: r)
      rw [dumpsMembers, List.nil_append]
      exact (hdeep indent level fuel _ hr).imp (parseMembers_of_error k hopen)
        (parseMembers_of_error k hopen)
  | cons m ms ih =>
    obtain ⟨k', v'⟩ := m
    intro k v hm hdeep fuel
    cases fuel with
    | zero => exact .inr rfl
    | succ fuel =>
      have hv := hm (k, v) List.mem_cons_self
      rw [dumpsMembers_cons]
      set next := quote k' ++ (ch ':' :: ch ' ' :: (dumpsAt indent level v' ++
        (dumpsMembers indent level ms ++ (lineBreak indent outer ++ ch '}' :: r)))) with hnext
      have hr := delimits_itemSeparator indent level next
      have hopen := (hv.opens indent level).append (itemSeparator indent level ++ next)
      have hopen' : Opens next := (opens_quote k').append _
      by_cases hfirst : TooDeep limit v
      · exact (hfirst indent level fuel _ hr).imp (parseMembers_of_error k hopen)
          (parseMembers_of_error k hopen)
      · have hlater : ∃ m ∈ (k', v') :: ms, TooDeep limit m.2 := by
          obtain ⟨n, hn, hn'⟩ := hdeep
          rcases List.mem_cons.mp hn with rfl | hn
          · exact absurd hn' hfirst
          · exact ⟨n, hn, hn'⟩
        rcases (hv.outcome.resolve_right hfirst) indent level fuel _ hr with h | h
        · rw [parseMembers_next k hopen hopen' h]
          exact (ih k' v' (fun z hz => hm z (List.mem_cons_of_mem _ hz)) hlater fuel).map _
        · exact .inr (parseMembers_of_error k hopen h)

theorem tooDeep_zero {v : Json} (hv : 0 < depth v) : TooDeep 0 v := by
  intro indent level fuel r _
  cases fuel with
  | zero => exact .inr rfl
  | succ fuel =>
    left
    cases v with
    | arr items =>
      cases items with
      | nil => rfl
      | cons x xs =>
        simp only [dumpsAt, List.cons_append, parseValue, show ch '[' ≠ ch '"' by decide,
          show ch '[' ≠ ch '{' by decide, ↓reduceIte]
    | obj members =>
      cases members with
      | nil => rfl
      | cons m ms =>
        simp only [dumpsAt, List.cons_append, parseValue, show ch '{' ≠ ch '"' by decide,
          ↓reduceIte]
    | null | bool _ | int _ | float _ | str _ =>
      rw [depth] at hv
      exact absurd hv (lt_irrefl 0)

theorem tooDeep_arr {limit : ℕ} {items : List Json} (h : ∀ x ∈ items, Decided limit x)
    (hdeep : ∃ x ∈ items, TooDeep limit x) : TooDeep (limit + 1) (.arr items) := by
  intro indent level fuel r _
  cases fuel with
  | zero => exact .inr rfl
  | succ fuel =>
    cases items with
    | nil =>
      obtain ⟨x, hx, -⟩ := hdeep
      cases hx
    | cons x xs =>
      have hopen := (h x List.mem_cons_self).opens indent (level + 1)
      rw [parseValue_arr indent level xs hopen]
      exact (parseItems_tooDeep indent (level + 1) level r xs x h hdeep fuel).map _

theorem tooDeep_obj {limit : ℕ} {members : List (Str × Json)}
    (h : ∀ m ∈ members, Decided limit m.2) (hdeep : ∃ m ∈ members, TooDeep limit m.2) :
    TooDeep (limit + 1) (.obj members) := by
  intro indent level fuel r _
  cases fuel with
  | zero => exact .inr rfl
  | succ fuel =>
    cases members with
    | nil =>
      obtain ⟨m, hm, -⟩ := hdeep
      cases hm
    | cons m ms =>
      obtain ⟨k, v⟩ := m
      rw [parseValue_obj]
      exact (parseMembers_tooDeep indent (level + 1) level r ms k v h hdeep fuel).map _

theorem decided_of_tooDeep {limit : ℕ} {v : Json} (hwell : WellFormed v)
    (hprint : printable v = true) (h : limit < depth v → TooDeep limit v) : Decided limit v where
  opens := opens_of_wellFormed hwell hprint
  outcome := by
    rcases Nat.lt_or_ge limit (depth v) with hlt | hge
    · exact .inr (h hlt)
    · exact .inl (readsBack_of_readable (readable_of_depth hwell hprint hge))

mutual

/-- A value that is nested deeper than the limit is not read. -/
theorem tooDeep_of_depth : ∀ {limit : ℕ} {v : Json}, WellFormed v → printable v = true →
    limit < depth v → TooDeep limit v
  | _, .null, _, _, hdepth => by
    rw [depth] at hdepth
    exact absurd hdepth (Nat.not_lt_zero _)
  | _, .bool _, _, _, hdepth => by
    rw [depth] at hdepth
    exact absurd hdepth (Nat.not_lt_zero _)
  | _, .int _, _, _, hdepth => by
    rw [depth] at hdepth
    exact absurd hdepth (Nat.not_lt_zero _)
  | _, .float _, _, _, hdepth => by
    rw [depth] at hdepth
    exact absurd hdepth (Nat.not_lt_zero _)
  | _, .str _, _, _, hdepth => by
    rw [depth] at hdepth
    exact absurd hdepth (Nat.not_lt_zero _)
  | 0, .arr _, _, _, hdepth => tooDeep_zero hdepth
  | 0, .obj _, _, _, hdepth => tooDeep_zero hdepth
  | limit + 1, .arr items, hwell, hprint, hdepth => by
    rw [WellFormed] at hwell
    rw [printable] at hprint
    rw [depth] at hdepth
    have hitems : ∀ x ∈ items, limit < depth x → TooDeep limit x := tooDeep_items hwell hprint
    apply tooDeep_arr
    · intro x hx
      exact decided_of_tooDeep (wellFormedItems_iff.mp hwell x hx)
        (printableItems_iff.mp hprint x hx) (hitems x hx)
    · have hlong : ¬depthItems items ≤ limit := by omega
      simp only [depthItems_le, not_forall, not_le, exists_prop] at hlong
      obtain ⟨x, hx, hdeep⟩ := hlong
      exact ⟨x, hx, hitems x hx hdeep⟩
  | limit + 1, .obj members, hwell, hprint, hdepth => by
    rw [WellFormed] at hwell
    rw [printable] at hprint
    rw [depth] at hdepth
    have hmembers : ∀ m ∈ members, limit < depth m.2 → TooDeep limit m.2 :=
      tooDeep_members hwell.2 hprint
    apply tooDeep_obj
    · intro m hm
      exact decided_of_tooDeep (wellFormedMembers_iff.mp hwell.2 m hm)
        (printableMembers_iff.mp hprint m hm) (hmembers m hm)
    · have hlong : ¬depthMembers members ≤ limit := by omega
      simp only [depthMembers_le, not_forall, not_le, exists_prop] at hlong
      obtain ⟨m, hm, hdeep⟩ := hlong
      exact ⟨m, hm, hmembers m hm hdeep⟩

theorem tooDeep_items : ∀ {limit : ℕ} {items : List Json}, WellFormedItems items →
    printableItems items = true → ∀ x ∈ items, limit < depth x → TooDeep limit x
  | _, [], _, _ => by simp
  | limit, x :: xs, hwell, hprint => by
    rw [WellFormedItems] at hwell
    rw [printableItems, Bool.and_eq_true] at hprint
    have hx : limit < depth x → TooDeep limit x := tooDeep_of_depth hwell.1 hprint.1
    have hxs : ∀ y ∈ xs, limit < depth y → TooDeep limit y := tooDeep_items hwell.2 hprint.2
    exact List.forall_mem_cons.mpr ⟨hx, hxs⟩

theorem tooDeep_members : ∀ {limit : ℕ} {members : List (Str × Json)},
    WellFormedMembers members → printableMembers members = true →
      ∀ m ∈ members, limit < depth m.2 → TooDeep limit m.2
  | _, [], _, _ => by simp
  | limit, (k, v) :: ms, hwell, hprint => by
    rw [WellFormedMembers] at hwell
    rw [printableMembers, Bool.and_eq_true] at hprint
    have hv : limit < depth v → TooDeep limit v := tooDeep_of_depth hwell.1 hprint.1
    have hms : ∀ m ∈ ms, limit < depth m.2 → TooDeep limit m.2 :=
      tooDeep_members hwell.2 hprint.2
    exact List.forall_mem_cons.mpr ⟨hv, hms⟩

end

/-- What was written is read back if it is not nested too deep, and else runs into the recursion
limit. -/
theorem loads_dumps_of_wellFormed {v : Json} (hwell : WellFormed v) (hprint : printable v = true)
    (limit : ℕ) (indent : Option ℕ) : loads limit (dumps indent v) =
      if depth v ≤ limit then .ok v else .error .recursion := by
  split_ifs with hdepth
  · exact loads_dumps (readable_of_depth hwell hprint hdepth) indent
  · have hdeep := tooDeep_of_depth hwell hprint (Nat.not_le.mp hdepth) indent 0
      (2 * (dumps indent v).length + 1) [] (by simp [Delimits])
    rw [List.append_nil, ← dumps] at hdeep
    have hopen : Opens (dumps indent v) := opens_of_wellFormed hwell hprint indent 0
    rcases hdeep with h | h
    · exact loads_of_error hopen h
    · exact absurd h ((parse_enough_fuel _ limit).1 _ le_rfl)

end Py.Json
