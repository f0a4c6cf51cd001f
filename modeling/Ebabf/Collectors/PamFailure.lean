import Ebabf.Collectors.AuthLog
import Mathlib.Data.List.Chain

/-!
# The record of a failed PAM authentication

The pattern for such records looks for `user=` wherever it comes first, and that need not be the
last field: `ruser=` ends in it too, and a value may contain it.
-/

namespace Ebabf

open Py (Str str CodePoint)

/-- The values of the record's fields, all without whitespace. -/
structure PamFailure where
  logname : Str
  uid : Str
  euid : Str
  tty : Str
  ruser : Str
  rhost : Str
  user : Str
  named : user ≠ []
  words : ∀ value ∈ [logname, uid, euid, tty, ruser, rhost, user], ∀ c ∈ value, nonSpace c = true

/-- What follows the first `user=` in a word that more of the word follows. -/
def namedIn (word : Str) : Option Str :=
  word.tails.findSome? fun t =>
    if str "user=" <+: t ∧ t ≠ str "user=" then some (t.drop (str "user=").length) else none

namespace PamFailure

/-- The fields before the user's. -/
def fields (f : PamFailure) : List Str :=
  [str "logname=" ++ f.logname, str "uid=" ++ f.uid, str "euid=" ++ f.euid, str "tty=" ++ f.tty,
    str "ruser=" ++ f.ruser, str "rhost=" ++ f.rhost]

def text (f : PamFailure) : Str :=
  str "authentication failure; logname=" ++ f.logname ++ str " uid=" ++ f.uid ++ str " euid=" ++
    f.euid ++ str " tty=" ++ f.tty ++ str " ruser=" ++ f.ruser ++ str " rhost=" ++ f.rhost ++
    str "  user=" ++ f.user

/-- The part of the record after its phrase. -/
def body (f : PamFailure) : Str :=
  f.fields.flatMap (fun word => str " " ++ word) ++ (str "  user=" ++ f.user)

theorem text_eq (f : PamFailure) : f.text = str "authentication failure;" ++ f.body := by
  have hlogname : str "authentication failure; logname=" =
      str "authentication failure;" ++ (str " " ++ str "logname=") := rfl
  simp only [text, body, fields, hlogname, List.flatMap_cons, List.flatMap_nil, List.append_assoc,
    List.append_nil]
  rfl

theorem nonSpace_fields (f : PamFailure) : ∀ word ∈ f.fields, ∀ c ∈ word, nonSpace c = true := by
  have hfield : ∀ {name value : Str}, name.all nonSpace = true →
      value ∈ [f.logname, f.uid, f.euid, f.tty, f.ruser, f.rhost, f.user] →
      ∀ c ∈ name ++ value, nonSpace c = true := by
    intro name value hname hvalue c hc
    rcases List.mem_append.mp hc with hc | hc
    · exact List.all_eq_true.mp hname c hc
    · exact f.words value hvalue c hc
  simp only [fields, List.forall_mem_cons]
  exact ⟨hfield (by decide) (by simp), hfield (by decide) (by simp), hfield (by decide) (by simp),
    hfield (by decide) (by simp), hfield (by decide) (by simp), hfield (by decide) (by simp),
    List.forall_mem_nil _⟩

end PamFailure

/-- `user=(?P<user>\S+)` -/
def USER_FIELD : Regex.Pattern CodePoint := { AUTHENTICATION_FAILURE with before := .lit (str "user=") }

theorem here_userField {w s : Str} (hne : w ≠ []) (hw : ∀ c ∈ w, nonSpace c = true)
    (hs : ∀ c ∈ s.head?, nonSpace c = false) : USER_FIELD.here (w ++ s) =
      if str "user=" <+: w ∧ w ≠ str "user=" then some (w.drop (str "user=").length) else none := by
  by_cases hprefix : str "user=" <+: w
  · obtain ⟨v, rfl⟩ := hprefix
    have hbefore : USER_FIELD.before.rests (str "user=" ++ v ++ s) = [v ++ s] := by
      rw [List.append_assoc, USER_FIELD, Regex.rests_lit, if_pos (List.prefix_append _ _),
        List.drop_left]
    by_cases hv : v = []
    · -- the key alone
      rw [if_neg (by simp [hv])]
      have hgroup : USER_FIELD.group.rests (v ++ s) = [] := by
        rw [hv, List.nil_append]
        cases s with
        | nil => rfl
        | cons c s =>
          rw [USER_FIELD, AUTHENTICATION_FAILURE, Regex.plus, Regex.rests_seq, Regex.rests_item_cons, hs c rfl]
          rfl
      rw [Regex.Pattern.here, Regex.Pattern.captures, hbefore, List.flatMap_singleton, hgroup]
      rfl
    · have hgroup : (USER_FIELD.group.rests (v ++ s)).head? = some s :=
        Regex.head?_rests_plus hv (fun c hc => hw c (List.mem_append_right _ hc)) hs
      rw [if_pos ⟨List.prefix_append _ v, by simpa using hv⟩, List.drop_left,
        Regex.Pattern.here_of_heads (by rw [hbefore]; rfl) hgroup (show _ = some s from rfl),
        List.length_append, Nat.add_sub_cancel_right, List.take_left]
  · rw [if_neg fun h => hprefix h.1]
    apply Regex.Pattern.here_eq_none
    rw [USER_FIELD, Regex.rests_lit, if_neg]
    intro h
    rcases List.prefix_or_prefix_of_prefix h (List.prefix_append w s) with hkey | ⟨t, ht⟩
    · exact hprefix hkey
    · -- the key would go on after the word, but has no space in it
      rw [← ht, List.prefix_append_right_inj] at h
      cases t with
      | nil => exact hprefix (by rw [← ht, List.append_nil])
      | cons c t =>
        cases s with
        | nil => exact absurd (List.prefix_nil.mp h) (List.cons_ne_nil c t)
        | cons d s =>
          have hd : nonSpace c = false := (List.cons_prefix_cons.mp h).1 ▸ hs d rfl
          have hkey : nonSpace c = true :=
            List.all_eq_true.mp (show (str "user=").all nonSpace = true by decide) c
              (ht ▸ List.mem_append_right w List.mem_cons_self)
          rw [hd] at hkey
          cases hkey

theorem namedIn_cons (c : CodePoint) (w : Str) : namedIn (c :: w) =
    (if str "user=" <+: c :: w ∧ c :: w ≠ str "user=" then
      some ((c :: w).drop (str "user=").length) else none).or (namedIn w) := by
  rw [namedIn, List.tails, List.findSome?_cons, namedIn]
  split_ifs <;> rfl

theorem search_word {w s : Str} (hw : ∀ c ∈ w, nonSpace c = true)
    (hs : ∀ c ∈ s.head?, nonSpace c = false) :
    USER_FIELD.search (w ++ s) = (namedIn w).or (USER_FIELD.search s) := by
  induction w with
  | nil => rfl
  | cons c w ih =>
    have hhere := here_userField (List.cons_ne_nil c w) hw hs
    rw [List.cons_append] at hhere ⊢
    rw [Regex.Pattern.search_cons, hhere, ih fun d hd => hw d (List.mem_cons_of_mem c hd),
      namedIn_cons, Option.or_assoc]

theorem search_space (s : Str) : USER_FIELD.search (str " " ++ s) = USER_FIELD.search s := by
  have hhere : USER_FIELD.here (CodePoint.ofChar ' ' :: s) = none := by
    apply Regex.Pattern.here_eq_none
    rw [USER_FIELD, Regex.rests_lit, if_neg]
    rw [show str "user=" = CodePoint.ofChar 'u' :: str "ser=" from rfl, List.cons_prefix_cons]
    rintro ⟨heq, -⟩
    exact absurd heq (by decide)
  rw [show str " " ++ s = CodePoint.ofChar ' ' :: s from rfl, Regex.Pattern.search_cons, hhere]
  rfl

theorem search_words {words : List Str} (hwords : ∀ word ∈ words, ∀ c ∈ word, nonSpace c = true)
    (s : Str) : USER_FIELD.search (words.flatMap (fun word => str " " ++ word) ++ (str " " ++ s)) =
      (words.findSome? namedIn).or (USER_FIELD.search s) := by
  induction words with
  | nil => exact search_space s
  | cons word words ih =>
    obtain ⟨hword, hrest⟩ := List.forall_mem_cons.mp hwords
    have hspace : ∀ c ∈ (words.flatMap (fun word => str " " ++ word) ++ (str " " ++ s)).head?,
        nonSpace c = false := by
      intro c hc
      have hc' : c = CodePoint.ofChar ' ' := by
        cases words with
        | nil => exact (Option.some.inj hc).symm
        | cons word words => exact (Option.some.inj hc).symm
      rw [hc']
      decide
    rw [List.flatMap_cons, List.append_assoc, List.append_assoc, search_space,
      search_word hword hspace, ih hrest, List.findSome?_cons]
    cases namedIn word <;> rfl

/-- No `p` comes after a space. -/
def NoSpaceP (s : Str) : Prop :=
  s.IsChain fun c d => ¬ (c = CodePoint.ofChar ' ' ∧ d = CodePoint.ofChar 'p')

theorem noSpaceP_word {w : Str} (hw : ∀ c ∈ w, nonSpace c = true) : NoSpaceP w := by
  induction w with
  | nil => exact List.isChain_nil
  | cons c w ih =>
    refine List.isChain_cons.mpr ⟨?_, ih fun d hd => hw d (List.mem_cons_of_mem c hd)⟩
    rintro d - ⟨rfl, -⟩
    exact absurd (hw _ List.mem_cons_self) (by decide)

theorem NoSpaceP.append_space {w s : Str} (hw : NoSpaceP w) (hs : NoSpaceP (str " " ++ s)) :
    NoSpaceP (w ++ (str " " ++ s)) := by
  apply List.IsChain.append hw hs
  rintro c - d hd ⟨-, rfl⟩
  exact absurd (Option.some.inj hd) (by decide)

theorem NoSpaceP.space_append {s : Str} (hs : NoSpaceP s)
    (hhead : s.head? ≠ some (CodePoint.ofChar 'p')) : NoSpaceP (str " " ++ s) := by
  refine List.isChain_cons.mpr ⟨?_, hs⟩
  rintro d hd ⟨-, rfl⟩
  exact hhead hd

theorem noSpaceP_words {words : List Str} {s : Str}
    (hwords : ∀ word ∈ words, (∀ c ∈ word, nonSpace c = true) ∧ word ≠ [] ∧
      word.head? ≠ some (CodePoint.ofChar 'p')) (hs : NoSpaceP (str " " ++ s)) :
    NoSpaceP (words.flatMap (fun word => str " " ++ word) ++ (str " " ++ s)) := by
  induction words with
  | nil => exact hs
  | cons word words ih =>
    obtain ⟨⟨hword, hne, hhead⟩, hrest⟩ := List.forall_mem_cons.mp hwords
    have hafter : NoSpaceP (word ++ (words.flatMap (fun word => str " " ++ word) ++ (str " " ++ s))) := by
      cases words with
      | nil => exact (noSpaceP_word hword).append_space hs
      | cons next words =>
        have hih := ih hrest
        rw [List.flatMap_cons, List.append_assoc, List.append_assoc] at hih ⊢
        exact (noSpaceP_word hword).append_space hih
    rw [List.flatMap_cons, List.append_assoc, List.append_assoc]
    apply hafter.space_append
    rw [List.head?_append_of_ne_nil _ hne]
    exact hhead

namespace PamFailure

variable (f : PamFailure)

theorem nonSpace_user : ∀ c ∈ str "user=" ++ f.user, nonSpace c = true := by
  intro c hc
  rcases List.mem_append.mp hc with hc | hc
  · exact List.all_eq_true.mp (show (str "user=").all nonSpace = true by decide) c hc
  · exact f.words f.user (by simp) c hc

theorem body_eq : f.body = f.fields.flatMap (fun word => str " " ++ word) ++
    (str " " ++ (str " " ++ (str "user=" ++ f.user))) := rfl

theorem noSpaceP_text : NoSpaceP f.text := by
  have huser : NoSpaceP (str " " ++ (str " " ++ (str "user=" ++ f.user))) := by
    have hword : NoSpaceP (str " " ++ (str "user=" ++ f.user)) :=
      (noSpaceP_word f.nonSpace_user).space_append (show some (CodePoint.ofChar 'u') ≠ _ by decide)
    exact hword.space_append (show some (CodePoint.ofChar ' ') ≠ _ by decide)
  have hhead : ∀ word ∈ f.fields, word ≠ [] ∧ word.head? ≠ some (CodePoint.ofChar 'p') := by
    simp only [fields, List.forall_mem_cons]
    exact ⟨⟨List.cons_ne_nil _ _, show some (CodePoint.ofChar 'l') ≠ _ by decide⟩,
      ⟨List.cons_ne_nil _ _, show some (CodePoint.ofChar 'u') ≠ _ by decide⟩,
      ⟨List.cons_ne_nil _ _, show some (CodePoint.ofChar 'e') ≠ _ by decide⟩,
      ⟨List.cons_ne_nil _ _, show some (CodePoint.ofChar 't') ≠ _ by decide⟩,
      ⟨List.cons_ne_nil _ _, show some (CodePoint.ofChar 'r') ≠ _ by decide⟩,
      ⟨List.cons_ne_nil _ _, show some (CodePoint.ofChar 'r') ≠ _ by decide⟩,
      List.forall_mem_nil _⟩
  have hbody : NoSpaceP f.body :=
    noSpaceP_words (fun word hword => ⟨f.nonSpace_fields word hword, hhead word hword⟩) huser
  have hphrase : NoSpaceP (str "authentication failure;") := by
    unfold NoSpaceP
    decide +kernel
  rw [text_eq]
  exact hphrase.append_space hbody

/-- The first name that follows `user=` anywhere in the record. -/
def charged : Str := (f.fields.findSome? namedIn).getD f.user

theorem search_body : USER_FIELD.search f.body = some f.charged := by
  have huser : USER_FIELD.search (str "user=" ++ f.user) = some f.user := by
    have hhere := here_userField (s := []) (List.append_ne_nil_of_right_ne_nil _ f.named)
      f.nonSpace_user (fun c hc => nomatch hc)
    rw [List.append_nil, if_pos ⟨List.prefix_append _ _, by simpa using f.named⟩,
      List.drop_left] at hhere
    exact Regex.Pattern.search_of_here hhere
  rw [body_eq, search_words f.nonSpace_fields, search_space, huser, charged]
  cases f.fields.findSome? namedIn <;> rfl

theorem anyButNewline_body : ∀ c ∈ f.body, anyButNewline c = true := by
  have hnewline : ∀ {c}, c = CodePoint.ofChar ' ' ∨ nonSpace c = true → anyButNewline c = true := by
    rintro c (rfl | hc)
    · decide
    · unfold anyButNewline
      rw [decide_eq_true_iff]
      rintro rfl
      exact absurd hc (by decide)
  intro c hc
  apply hnewline
  rw [body_eq, List.mem_append, List.mem_flatMap] at hc
  rcases hc with ⟨word, hword, hc⟩ | hc
  · rcases List.mem_append.mp hc with hc | hc
    · exact .inl (List.mem_singleton.mp hc)
    · exact .inr (f.nonSpace_fields word hword c hc)
  · rcases List.mem_append.mp hc with hc | hc
    · exact .inl (List.mem_singleton.mp hc)
    · rcases List.mem_append.mp hc with hc | hc
      · exact .inl (List.mem_singleton.mp hc)
      · exact .inr (f.nonSpace_user c hc)

/-- Nothing before the record decides, and in the record the first `user=` does. -/
theorem failedUser_text {p : Str} (hpassword : ¬ str "Failed password for " <:+: p)
    (hfailure : ¬ str "authentication failure;" <:+: p) :
    failedUser (p ++ f.text) = some f.charged := by
  have hrecord : FAILED_PASSWORD.search f.text = none := by
    rw [Regex.Pattern.search_eq_none]
    intro y hy
    apply here_failedPassword_of_not_prefix
    intro h
    have hchain : NoSpaceP (str "Failed password for ") :=
      List.IsChain.infix f.noSpaceP_text (h.isInfix.trans hy.isInfix)
    unfold NoSpaceP at hchain
    revert hchain
    decide +kernel
  have hpasswordBefore : FAILED_PASSWORD.searchIn p f.text = none := by
    rw [text_eq]
    exact Regex.Pattern.searchIn_eq_none_of_lit (fun t => here_failedPassword_of_not_prefix)
      hpassword (by decide) (by decide +kernel)
  have hfailureBefore : AUTHENTICATION_FAILURE.searchIn p f.text = none := by
    rw [text_eq]
    exact Regex.Pattern.searchIn_eq_none_of_lit
      (fun t => here_authenticationFailure_of_not_prefix) hfailure (by decide) (by decide +kernel)
  have hfound : AUTHENTICATION_FAILURE.search f.text = some f.charged := by
    apply Regex.Pattern.search_of_here
    rw [text_eq, Regex.Pattern.here_lit_lazy rfl f.anyButNewline_body]
    exact f.search_body
  rw [failedUser, FAILED_PATTERNS, List.findSome?_cons, List.findSome?_cons,
    Regex.Pattern.search_append, Regex.Pattern.search_append, hpasswordBefore, hrecord,
    hfailureBefore, hfound]
  rfl

/-- The account that was attacked is charged, and nobody else, if and only if the first name
after a `user=` that any field before the last has is the account's. -/
theorem charges_user_iff {p : Str} (hpassword : ¬ str "Failed password for " <:+: p)
    (hfailure : ¬ str "authentication failure;" <:+: p) (moment : Float) :
    usersOf .failedAuth (parseAuthLine (p ++ f.text) moment) = [f.user] ↔
      ∀ name, f.fields.findSome? namedIn = some name → name = f.user := by
  rw [failed_parseAuthLine, f.failedUser_text hpassword hfailure, charged]
  cases f.fields.findSome? namedIn with
  | none => simp
  | some name => simp

/-- A remote login as `user`, by `ruser` if the remote host names one. -/
def remoteLogin (ruser user : Str) (named : user ≠ [])
    (words : (ruser ++ user).all nonSpace = true) : PamFailure where
  logname := []
  uid := str "0"
  euid := str "0"
  tty := str "ssh"
  ruser
  rhost := str "10.0.0.5"
  user
  named
  words := by
    have hzero : ∀ c ∈ str "0", nonSpace c = true := List.all_eq_true.mp (by decide)
    have hssh : ∀ c ∈ str "ssh", nonSpace c = true := List.all_eq_true.mp (by decide)
    have hhost : ∀ c ∈ str "10.0.0.5", nonSpace c = true := List.all_eq_true.mp (by decide)
    rw [List.all_append, Bool.and_eq_true, List.all_eq_true, List.all_eq_true] at words
    simp only [List.forall_mem_cons]
    exact ⟨List.forall_mem_nil _, hzero, hzero, hssh, words.1, hhost, words.2,
      List.forall_mem_nil _⟩

/-- A record that names no remote user. -/
theorem charges_user_iff_alice :
    let alice := remoteLogin [] (str "alice") (by decide) (by decide)
    usersOf .failedAuth (parseAuthLine (str "sshd: " ++ alice.text) 0) = [alice.user] ↔
      ∀ name, alice.fields.findSome? namedIn = some name → name = alice.user :=
  charges_user_iff _ (by decide +kernel) (by decide +kernel) 0

/-- A record that names a remote user charges that one. -/
theorem not_charges_user :
    ¬ ∀ (f : PamFailure) (p : Str) (moment : Float),
      (∀ phrase ∈ [str "Failed password for ", str "authentication failure;", str "Invalid user ",
        str "sudo:"], ¬ phrase <:+: p) →
      usersOf .failedAuth (parseAuthLine (p ++ f.text) moment) = [f.user] := by
  intro h
  have hroot := h (remoteLogin (str "bob") (str "root") (by decide) (by decide)) [] 0
    (by decide +kernel)
  rw [failed_parseAuthLine] at hroot
  revert hroot
  decide +kernel

end PamFailure
end Ebabf
