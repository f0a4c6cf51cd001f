import Ebabf.Py.Text
import Mathlib.Data.Nat.Bitwise

/-!
# File status

The part of `lstat` that ownership checks look at, and the errors system calls fail with.
-/

namespace Posix

open Py (Str)

inductive FileKind
  | regular
  | directory
  /-- a symbolic link, and whether following it leads to a directory -/
  | symlink (toDirectory : Bool)
  | special
deriving DecidableEq

/-- `os.lstat`: the kind of file, its owner and `stat.S_IMODE` of its mode. -/
structure Stat where
  kind : FileKind
  uid : ℕ
  mode : ℕ
deriving DecidableEq

/-- An `OSError`, with its `str()`. -/
inductive OsError
  | fileNotFound (message : Str)
  | other (message : Str)
deriving DecidableEq

def OsError.message : OsError → Str
  | .fileNotFound message => message
  | .other message => message

/-- The permission bits of everybody but the owner. -/
def BEYOND_OWNER : ℕ := 0o077

/-- Owned by `uid`, with nothing granted to anybody else. -/
def Stat.PrivateTo (info : Stat) (uid : ℕ) : Prop :=
  info.uid = uid ∧ info.mode &&& BEYOND_OWNER = 0

instance (info : Stat) (uid : ℕ) : Decidable (info.PrivateTo uid) :=
  inferInstanceAs (Decidable (_ ∧ _))

theorem land_beyondOwner {mode : ℕ} (h : mode &&& BEYOND_OWNER = 0) (allowed : ℕ) :
    mode &&& allowed &&& BEYOND_OWNER = 0 := by
  rw [Nat.and_assoc, Nat.and_comm allowed, ← Nat.and_assoc, h, Nat.zero_and]

end Posix
