import Ebabf.Py.Text
import Ebabf.Regex

/-!
# Lines of an authentication log

`parse_auth_line` takes a user name out of a line by three patterns for failed logins, of which the
first that matches counts, and one for `sudo`. All four are searched for in the whole line.
-/

namespace Ebabf

open Py (Str str CodePoint)

inductive AuthKind
  | failedAuth
  | sudo
deriving DecidableEq

structure AuthEvent where
  kind : AuthKind
  username : Str
  timestamp : Float

/-- `\S` -/
def nonSpace (c : CodePoint) : Bool := !c.isSpace

/-- `.` -/
def anyButNewline (c : CodePoint) : Bool := decide (c ≠ CodePoint.ofChar '\n')

/-- `Failed password for (?:invalid user )?(?P<user>\S+)` -/
def FAILED_PASSWORD : Regex.Pattern CodePoint where
  before := .seq (.lit (str "Failed password for ")) (.opt (.lit (str "invalid user ")))
  group := .plus nonSpace
  after := .empty

/-- `authentication failure;.*?user=(?P<user>\S+)` -/
def AUTHENTICATION_FAILURE : Regex.Pattern CodePoint where
  before := .seq (.lit (str "authentication failure;"))
    (.seq (.lazy anyButNewline) (.lit (str "user=")))
  group := .plus nonSpace
  after := .empty

/-- `Invalid user (?P<user>\S+)` -/
def INVALID_USER : Regex.Pattern CodePoint where
  before := .lit (str "Invalid user ")
  group := .plus nonSpace
  after := .empty

def FAILED_PATTERNS : List (Regex.Pattern CodePoint) :=
  [FAILED_PASSWORD, AUTHENTICATION_FAILURE, INVALID_USER]

/-- `sudo:\s+(?P<user>\S+)\s*:` -/
def SUDO_PATTERN : Regex.Pattern CodePoint where
  before := .seq (.lit (str "sudo:")) (.plus CodePoint.isSpace)
  group := .plus nonSpace
  after := .seq (.many CodePoint.isSpace) (.lit (str ":"))

/-- The user of the first pattern for failed logins that matches. -/
def failedUser (line : Str) : Option Str := FAILED_PATTERNS.findSome? fun P => P.search line

def sudoUser (line : Str) : Option Str := SUDO_PATTERN.search line

/-- `parse_auth_line` -/
def parseAuthLine (line : Str) (moment : Float) : List AuthEvent :=
  (match failedUser line with
    | none => []
    | some user => [⟨.failedAuth, user, moment⟩]) ++
  match sudoUser line with
    | none => []
    | some user => [⟨.sudo, user, moment⟩]

example : failedUser (str "sshd: Failed password for invalid user admin from ::1") =
    some (str "admin") := by
  decide +kernel

example : failedUser (str "sshd: authentication failure; rhost=::1  user=alice") =
    some (str "alice") := by
  decide +kernel

example : sudoUser (str "sudo:  alice : TTY=pts/0 ; COMMAND=/bin/ls") = some (str "alice") := by
  decide +kernel

def usersOf (kind : AuthKind) (events : List AuthEvent) : List Str :=
  (events.filter fun event => event.kind = kind).map AuthEvent.username

theorem failed_parseAuthLine (line : Str) (moment : Float) :
    usersOf .failedAuth (parseAuthLine line moment) = (failedUser line).toList := by
  unfold parseAuthLine
  cases failedUser line <;> cases sudoUser line <;> rfl

theorem sudo_parseAuthLine (line : Str) (moment : Float) :
    usersOf .sudo (parseAuthLine line moment) = (sudoUser line).toList := by
  unfold parseAuthLine
  cases failedUser line <;> cases sudoUser line <;> rfl

theorem toList_inj {α : Type} {a b : Option α} : a.toList = b.toList ↔ a = b := by
  cases a <;> cases b <;> simp

theorem parseAuthLine_eq_iff {line line' : Str} {moment : Float} :
    parseAuthLine line moment = parseAuthLine line' moment ↔
      failedUser line = failedUser line' ∧ sudoUser line = sudoUser line' := by
  constructor
  · intro h
    have hfailed := congrArg (usersOf .failedAuth) h
    have hsudo := congrArg (usersOf .sudo) h
    rw [failed_parseAuthLine, failed_parseAuthLine, toList_inj] at hfailed
    rw [sudo_parseAuthLine, sudo_parseAuthLine, toList_inj] at hsudo
    exact ⟨hfailed, hsudo⟩
  · rintro ⟨hfailed, hsudo⟩
    unfold parseAuthLine
    rw [hfailed, hsudo]

theorem here_failedPassword_of_not_prefix {s : Str} (h : ¬ str "Failed password for " <+: s) :
    FAILED_PASSWORD.here s = none := by
  apply Regex.Pattern.here_eq_none
  rw [FAILED_PASSWORD, Regex.rests_seq, Regex.rests_lit, if_neg h, List.flatMap_nil]

theorem here_authenticationFailure_of_not_prefix {s : Str}
    (h : ¬ str "authentication failure;" <+: s) : AUTHENTICATION_FAILURE.here s = none := by
  apply Regex.Pattern.here_eq_none
  rw [AUTHENTICATION_FAILURE, Regex.rests_seq, Regex.rests_lit, if_neg h, List.flatMap_nil]

theorem failedUser_of_failedPassword {line user : Str}
    (h : FAILED_PASSWORD.search line = some user) : failedUser line = some user := by
  rw [failedUser, FAILED_PATTERNS, List.findSome?_cons, h]

/-- An event of a line is of the user that its failure or its `sudo` record names. -/
theorem mem_parseAuthLine {line : Str} {moment : Float} {event : AuthEvent}
    (h : event ∈ parseAuthLine line moment) :
    failedUser line = some event.username ∨ sudoUser line = some event.username := by
  rw [parseAuthLine, List.mem_append] at h
  rcases h with h | h
  · split at h
    · cases h
    · rename_i user huser
      rw [List.mem_singleton.mp h]
      exact .inl huser
  · split at h
    · cases h
    · rename_i user huser
      rw [List.mem_singleton.mp h]
      exact .inr huser

theorem username_ne_nil {line : Str} {moment : Float} {event : AuthEvent}
    (h : event ∈ parseAuthLine line moment) : event.username ≠ [] := by
  have hfailed : ∀ {user}, failedUser line = some user → user ≠ [] := by
    intro user huser
    rw [failedUser, List.findSome?_eq_some_iff] at huser
    obtain ⟨before, P, after, hpatterns, hsearch, -⟩ := huser
    have hmem : P ∈ FAILED_PATTERNS := hpatterns ▸ List.mem_append_right _ List.mem_cons_self
    simp only [FAILED_PATTERNS, List.mem_cons, List.not_mem_nil, or_false] at hmem
    rcases hmem with rfl | rfl | rfl
    · exact Regex.Pattern.ne_nil_of_search rfl hsearch
    · exact Regex.Pattern.ne_nil_of_search rfl hsearch
    · exact Regex.Pattern.ne_nil_of_search rfl hsearch
  have hsudo : ∀ {user}, sudoUser line = some user → user ≠ [] :=
    fun huser => Regex.Pattern.ne_nil_of_search rfl huser
  exact (mem_parseAuthLine h).elim hfailed hsudo

/-- A `sudo` line from its tag up to the command text. -/
def sudoTag (u : Str) : Str := str "sudo: " ++ u ++ str " : "

/-- The line up to the command text. -/
def sudoRecord (p u : Str) : Str := p ++ sudoTag u

theorem settled_failedPassword {x : Str} (h : str ": " <:+ x) : FAILED_PASSWORD.Settled x := by
  have hcolon : ∀ {y : Str}, str ": " <:+ y → CodePoint.ofChar ':' ∈ y :=
    fun hy => hy.subset List.mem_cons_self
  have hlit : ∀ y ∈ (Regex.lit (str "Failed password for ")).rests x, str ": " <:+ y :=
    fun y hy => Regex.suffix_of_lit (by decide +kernel) h hy
  have hbefore : ∀ y ∈ FAILED_PASSWORD.before.rests x, str ": " <:+ y := by
    intro y hy
    rw [FAILED_PASSWORD, Regex.rests_seq, List.mem_flatMap] at hy
    obtain ⟨z, hz, hy⟩ := hy
    rw [Regex.opt, Regex.rests_alt, List.mem_append] at hy
    rcases hy with hy | hy
    · exact Regex.suffix_of_lit (by decide +kernel) (hlit z hz) hy
    · rw [Regex.rests_empty, List.mem_singleton] at hy
      rw [hy]
      exact hlit z hz
  refine ⟨?_, ?_, fun y hy z hz => Regex.settled_empty z⟩
  · apply (Regex.settled_lit_of_notMem (hcolon h) (by decide +kernel)).seq
    intro y hy
    exact (Regex.settled_lit_of_notMem (hcolon (hlit y hy)) (by decide +kernel)).alt
      (Regex.settled_empty y)
  · intro y hy
    have hspace : str " " <:+ y :=
      (show str " " <:+ str ": " from ⟨str ":", rfl⟩).trans (hbefore y hy)
    exact Regex.settled_plus (by decide) hspace

theorem here_failedPassword_space (s : Str) : FAILED_PASSWORD.here (str " " ++ s) = none := by
  apply here_failedPassword_of_not_prefix
  rw [show str "Failed password for " = CodePoint.ofChar 'F' :: str "ailed password for " from rfl,
    show str " " ++ s = CodePoint.ofChar ' ' :: s from rfl, List.cons_prefix_cons]
  rintro ⟨heq, -⟩
  exact absurd heq (by decide)

/-- What the command text holds counts if the line up to it holds no failed password. -/
theorem search_failedPassword_sudoRecord (p u s : Str) :
    FAILED_PASSWORD.search (sudoRecord p u ++ s) =
      (FAILED_PASSWORD.search (sudoRecord p u)).or (FAILED_PASSWORD.search s) := by
  have hend : str ": " <:+ sudoRecord p u := ⟨p ++ (str "sudo: " ++ u ++ str " "), by
    simp only [sudoRecord, sudoTag, List.append_assoc]
    rfl⟩
  apply Regex.Pattern.search_append_of_unaffected rfl
  intro y hne hy t
  rcases List.suffix_or_suffix_of_suffix hend hy with hcolon | hshort
  · exact (settled_failedPassword hcolon).here t
  · -- only a space is left of the line
    rcases List.suffix_cons_iff.mp hshort with rfl | hspace
    · exact (settled_failedPassword (List.suffix_refl _)).here t
    · rcases List.suffix_cons_iff.mp hspace with rfl | hnil
      · exact (here_failedPassword_space t).trans (here_failedPassword_space []).symm
      · exact absurd (List.suffix_nil.mp hnil) hne

/-- The `sudo` pattern does not read past the colon before the command text, from wherever it
begins before the tag. -/
theorem here_sudo_sudoTag (u : Str) {y : Str} (hne : y ≠ []) (s : Str) :
    SUDO_PATTERN.here (y ++ (sudoTag u ++ s)) = SUDO_PATTERN.here (y ++ sudoTag u) := by
  have hcolon : ∀ {z : Str}, str " : " <:+ z → ∃ c ∈ z, c.isSpace = false :=
    fun hz => ⟨CodePoint.ofChar ':', hz.subset (List.mem_cons_of_mem _ List.mem_cons_self), by decide⟩
  have hspace : ∀ {z : Str}, str ": " <:+ z → CodePoint.ofChar ' ' ∈ z :=
    fun hz => hz.subset (List.mem_cons_of_mem _ List.mem_cons_self)
  have hlit : ∀ z ∈ (Regex.lit (str "sudo:")).rests (y ++ sudoTag u), sudoTag u <:+ z :=
    fun z hz => Regex.suffix_of_lit_cons (by decide) hne hz
  have hbefore : ∀ z ∈ SUDO_PATTERN.before.rests (y ++ sudoTag u), str " : " <:+ z := by
    intro z hz
    rw [SUDO_PATTERN, Regex.rests_seq, List.mem_flatMap] at hz
    obtain ⟨t, ht, hz⟩ := hz
    have htag : sudoTag u <:+ z := Regex.suffix_of_plus (by decide) (hlit t ht) hz
    exact (List.suffix_append _ _).trans htag
  have hgroup : ∀ z ∈ SUDO_PATTERN.before.rests (y ++ sudoTag u),
      ∀ t ∈ SUDO_PATTERN.group.rests z, str " : " <:+ t :=
    fun z hz t ht => Regex.suffix_of_plus (by decide) (hbefore z hz) ht
  rw [← List.append_assoc]
  apply Regex.Pattern.Settled.here
  refine ⟨?_, ?_, ?_⟩
  · have htag : CodePoint.ofChar ' ' ∈ y ++ sudoTag u :=
      List.mem_append_right y (List.mem_append_right _ List.mem_cons_self)
    apply (Regex.settled_lit_of_notMem htag (by decide)).seq
    intro z hz
    exact Regex.settled_plus (by decide) (hlit z hz)
  · intro z hz
    exact Regex.settled_plus (by decide) (hbefore z hz)
  · intro z hz t ht
    apply (Regex.settled_many (hcolon (hgroup z hz t ht))).seq
    intro w hw
    rw [Regex.rests_many, List.mem_reverse] at hw
    have hend : str ": " <:+ w :=
      Regex.suffix_of_run (by decide) ((List.suffix_cons _ _).trans (hgroup z hz t ht)) hw
    exact Regex.settled_lit_of_notMem (hspace hend) (by decide)

theorem here_sudoTag {u : Str} (hne : u ≠ []) (hu : ∀ c ∈ u, nonSpace c = true) (s : Str) :
    SUDO_PATTERN.here (sudoTag u ++ s) = some u := by
  have htext : sudoTag u ++ s = str "sudo:" ++ (str " " ++ (u ++ (str " " ++ (str ":" ++ (str " " ++ s))))) := by
    simp only [sudoTag, List.append_assoc]
    rfl
  have hlit : ∀ l t : Str, ((Regex.lit l).rests (l ++ t)).head? = some t := by
    intro l t
    rw [Regex.rests_lit, if_pos (List.prefix_append l t), List.drop_left]
    rfl
  have hspace : ∀ c ∈ str " ", c.isSpace = true := by
    intro c hc
    rw [List.mem_singleton.mp hc]
    decide
  have hword : ∀ c ∈ (u ++ (str " " ++ (str ":" ++ (str " " ++ s)))).head?, c.isSpace = false := by
    intro c hc
    cases u with
    | nil => exact absurd rfl hne
    | cons b u =>
      have hb : b = c := Option.some.inj hc
      have hmem : nonSpace c = true := hu c (hb ▸ List.mem_cons_self)
      simpa [nonSpace] using hmem
  have hbefore : (SUDO_PATTERN.before.rests (sudoTag u ++ s)).head? =
      some (u ++ (str " " ++ (str ":" ++ (str " " ++ s)))) := by
    rw [htext]
    exact Regex.head?_rests_seq (hlit _ _)
      (Regex.head?_rests_plus (List.cons_ne_nil _ _) hspace hword)
  have hgroup : (SUDO_PATTERN.group.rests (u ++ (str " " ++ (str ":" ++ (str " " ++ s))))).head? =
      some (str " " ++ (str ":" ++ (str " " ++ s))) :=
    Regex.head?_rests_plus hne hu (by intro c hc; cases hc; rfl)
  have hafter : (SUDO_PATTERN.after.rests (str " " ++ (str ":" ++ (str " " ++ s)))).head? =
      some (str " " ++ s) :=
    Regex.head?_rests_seq (Regex.head?_rests_many hspace (by intro c hc; cases hc; rfl))
      (hlit _ _)
  rw [Regex.Pattern.here_of_heads hbefore hgroup hafter, List.length_append, Nat.add_sub_cancel_right,
    List.take_left]

/-- What the command text holds changes the failed login unless the line already has one. -/
theorem failedUser_sudoRecord_iff (p u : Str) :
    (∀ s₁ s₂, failedUser (sudoRecord p u ++ s₁) = failedUser (sudoRecord p u ++ s₂)) ↔
      FAILED_PASSWORD.search (sudoRecord p u) ≠ none := by
  constructor
  · intro h hnone
    have huser : ∀ {s user : Str}, FAILED_PASSWORD.search s = some user →
        failedUser (sudoRecord p u ++ s) = some user := by
      intro s user hs
      apply failedUser_of_failedPassword
      rw [search_failedPassword_sudoRecord, hnone, hs]
      rfl
    have ha : failedUser (sudoRecord p u ++ str "Failed password for a") = some (str "a") :=
      huser (by decide +kernel)
    have hb : failedUser (sudoRecord p u ++ str "Failed password for b") = some (str "b") :=
      huser (by decide +kernel)
    rw [h _ (str "Failed password for b"), hb] at ha
    exact absurd ha (by decide)
  · intro h s₁ s₂
    cases hsearch : FAILED_PASSWORD.search (sudoRecord p u) with
    | none => exact absurd hsearch h
    | some user =>
      have huser : ∀ s, failedUser (sudoRecord p u ++ s) = some user := by
        intro s
        apply failedUser_of_failedPassword
        rw [search_failedPassword_sudoRecord, hsearch]
        rfl
      rw [huser, huser]

theorem searchIn_sudoTag (p u s : Str) :
    SUDO_PATTERN.searchIn p (sudoTag u ++ s) = SUDO_PATTERN.searchIn p (sudoTag u) :=
  Regex.Pattern.searchIn_congr fun _ hne _ => here_sudo_sudoTag u hne s

/-- The command text does not change the `sudo` record, unless there is no user before it. -/
theorem sudoUser_sudoRecord_iff {p u : Str} (hu : ∀ c ∈ u, nonSpace c = true) :
    (∀ s₁ s₂, sudoUser (sudoRecord p u ++ s₁) = sudoUser (sudoRecord p u ++ s₂)) ↔
      SUDO_PATTERN.search (sudoRecord p u) ≠ none := by
  have hsearch : ∀ s, sudoUser (sudoRecord p u ++ s) =
      (SUDO_PATTERN.searchIn p (sudoTag u)).or (SUDO_PATTERN.search (sudoTag u ++ s)) := by
    intro s
    rw [sudoUser, sudoRecord, List.append_assoc, Regex.Pattern.search_append, searchIn_sudoTag]
  have hrecord : SUDO_PATTERN.search (sudoRecord p u) =
      (SUDO_PATTERN.searchIn p (sudoTag u)).or (SUDO_PATTERN.search (sudoTag u)) :=
    Regex.Pattern.search_append p (sudoTag u)
  rw [hrecord]
  cases hp : SUDO_PATTERN.searchIn p (sudoTag u) with
  | some user =>
    constructor
    · exact fun h => Option.some_ne_none _
    · intro h s₁ s₂
      rw [hsearch, hsearch, hp, Option.some_or, Option.some_or]
  | none =>
    by_cases hne : u = []
    · -- a colon that the command text begins with would end an empty token
      subst hne
      constructor
      · intro h
        have hcolon := h (str ":") []
        rw [hsearch, hsearch, hp] at hcolon
        exact absurd hcolon (by decide +kernel)
      · intro h
        exact absurd (show SUDO_PATTERN.search (sudoTag []) = none by decide +kernel) h
    · have htag : ∀ s, SUDO_PATTERN.search (sudoTag u ++ s) = some u :=
        fun s => Regex.Pattern.search_of_here (here_sudoTag hne hu s)
      constructor
      · intro h
        rw [← List.append_nil (sudoTag u), htag]
        exact Option.some_ne_none u
      · intro h s₁ s₂
        rw [hsearch, hsearch, htag, htag]

/-- What is told of a line does not depend on its command text if and only if both searches
already succeed in the line up to that text. -/
theorem command_ignored_iff {p u : Str} (hu : ∀ c ∈ u, nonSpace c = true) :
    (∀ s₁ s₂ moment, parseAuthLine (sudoRecord p u ++ s₁) moment =
      parseAuthLine (sudoRecord p u ++ s₂) moment) ↔
    FAILED_PASSWORD.search (sudoRecord p u) ≠ none ∧
      SUDO_PATTERN.search (sudoRecord p u) ≠ none := by
  rw [← failedUser_sudoRecord_iff, ← sudoUser_sudoRecord_iff hu]
  constructor
  · intro h
    have hboth := fun s₁ s₂ => parseAuthLine_eq_iff.mp (h s₁ s₂ 0)
    exact ⟨fun s₁ s₂ => (hboth s₁ s₂).1, fun s₁ s₂ => (hboth s₁ s₂).2⟩
  · rintro ⟨hfailed, hsudo⟩ s₁ s₂ moment
    exact parseAuthLine_eq_iff.mpr ⟨hfailed s₁ s₂, hsudo s₁ s₂⟩

theorem search_sudoRecord {p u : Str} (hne : u ≠ []) (hu : ∀ c ∈ u, nonSpace c = true) :
    SUDO_PATTERN.search (sudoRecord p u) ≠ none := by
  have htag := Regex.Pattern.search_of_here (here_sudoTag hne hu [])
  rw [List.append_nil] at htag
  rw [sudoRecord, Regex.Pattern.search_append, htag]
  cases SUDO_PATTERN.searchIn p (sudoTag u) <;> exact Option.some_ne_none _

/-- A line whose tag no failed login comes before. -/
theorem command_ignored_iff_bob :
    (∀ c ∈ str "bob", nonSpace c = true) ∧
      ((∀ s₁ s₂ moment, parseAuthLine (sudoRecord [] (str "bob") ++ s₁) moment =
        parseAuthLine (sudoRecord [] (str "bob") ++ s₂) moment) ↔
      FAILED_PASSWORD.search (sudoRecord [] (str "bob")) ≠ none ∧
        SUDO_PATTERN.search (sudoRecord [] (str "bob")) ≠ none) := by
  have hu : ∀ c ∈ str "bob", nonSpace c = true := List.all_eq_true.mp (by decide)
  exact ⟨hu, command_ignored_iff hu⟩

/-- A command that quotes a failed login is told as one. -/
theorem not_command_ignored :
    ¬ ∀ p u s₁ s₂ : Str, ∀ moment, (∀ c ∈ u, nonSpace c = true ∧ c ≠ CodePoint.ofChar ':') →
      u ≠ [] → parseAuthLine (p ++ str "sudo: " ++ u ++ str " : " ++ s₁) moment =
        parseAuthLine (p ++ str "sudo: " ++ u ++ str " : " ++ s₂) moment := by
  intro h
  have hu : ∀ c ∈ str "bob", nonSpace c = true ∧ c ≠ CodePoint.ofChar ':' := by
    intro c hc
    have hall : (str "bob").all (fun c => nonSpace c && decide (c ≠ CodePoint.ofChar ':')) = true := by
      decide
    simpa using List.all_eq_true.mp hall c hc
  have hsame := h [] (str "bob") (str "COMMAND=/bin/ls")
    (str "COMMAND=/bin/echo Failed password for root") 0 hu (by decide)
  exact absurd (parseAuthLine_eq_iff.mp hsame).1 (by decide +kernel)

end Ebabf
