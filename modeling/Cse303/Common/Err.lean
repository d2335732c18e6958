/-
  File:      Cse303/Common/Err.lean
  Subject:   ERRNO AND THE PRINTED ERRORS (err.h, err.cc).

  `errno` keeps its two values the code compares against apart from all others. What a function
  prints is kept beside its result, as the pieces handed to `cout`: the texts of the source,
  `strerror e` for libc's message about `e` (the text itself is not under our control), and
  `inetNtop addr` for the dotted form of an IPv4 address.
-/
import Mathlib.Tactic.Common

namespace Cse303

/-- The values of `errno`: the code asks for `EINTR` and `EINVAL` by name. -/
inductive Errno where
  | eintr
  | einval
  | other (code : Nat)
  deriving DecidableEq, Repr

/-- One operand of `cout <<`. -/
inductive Piece where
  | text (s : String)
  | strerror (e : Errno)
  | inetNtop (addr : Nat)
  deriving DecidableEq, Repr

/-- `msg_from_errno`: libc's text for an error number. -/
def msgFromErrno (e : Errno) : Piece := .strerror e

/-- A returned value, with what the call printed. -/
structure Ret (α : Type) where
  val : α
  cout : List Piece
  deriving DecidableEq, Repr

/-- A plain `return`. -/
def Ret.quiet {α : Type} (val : α) : Ret α := ⟨val, []⟩

/-- `err`: print the messages and a line end, and return the value given. -/
def err {α : Type} (val : α) (msgs : List Piece) : Ret α := ⟨val, msgs ++ [.text "\n"]⟩

@[simp] theorem err_val {α : Type} (val : α) (msgs : List Piece) : (err val msgs).val = val := rfl

@[simp] theorem quiet_val {α : Type} (val : α) : (Ret.quiet val).val = val := rfl

end Cse303
