/-
  File:      Cse303/Lib/Stdio.lean
  Subject:   BUFFERED OUTPUT: what a stream took, and how much of it is in the file.

  An output stream takes elements into a buffer and passes them on to its file, in order, when it
  likes, and the rest when it is closed. A write is a list of moves: each takes some elements more
  and then drains the buffer by some; a write whose moves take less than it asked for is short.

  * `taken` -- the file followed by the buffer: a drain does not change it, a write appends to it;
  * `write_spec` -- what a write of any moves leaves;
  * `file_drain_front`, `file_drain_eq` -- so the file always is a front part of what was taken,
    and all of it once the last drain got the whole buffer out.
-/
import Mathlib.Data.List.Infix
import Mathlib.Data.List.Range
import Mathlib.Tactic.Common

namespace Stdio

variable {α : Type}

/-! ## 1. The stream -/

/-- An output stream: the file behind it, and what it holds back. -/
structure OStream (α : Type) where
  file : List α
  held : List α
  deriving DecidableEq, Repr

namespace OStream

/-- A stream on a new or truncated file. -/
def empty : OStream α := ⟨[], []⟩

/-- Everything the stream took. -/
def taken (s : OStream α) : List α := s.file ++ s.held

/-- Elements go into the buffer, -/
def put (s : OStream α) (xs : List α) : OStream α := { s with held := s.held ++ xs }

/-- and `n` of them, if there are so many, on to the file. -/
def drain (s : OStream α) (n : Nat) : OStream α := ⟨s.file ++ s.held.take n, s.held.drop n⟩

@[simp] theorem taken_empty : (empty : OStream α).taken = [] := rfl

@[simp] theorem taken_put (s : OStream α) (xs : List α) : (s.put xs).taken = s.taken ++ xs := by
  simp [taken, put]

@[simp] theorem taken_drain (s : OStream α) (n : Nat) : (s.drain n).taken = s.taken := by
  simp [taken, drain]

/-- The file is a front part of what was taken, -/
theorem file_front (s : OStream α) : s.file <+: s.taken := List.prefix_append ..

/-- also after a drain that did not get everything out, -/
theorem file_drain_front (s : OStream α) (n : Nat) : (s.drain n).file <+: s.taken :=
  s.taken_drain n ▸ (s.drain n).file_front

/-- and all of it exactly if the drain did. -/
theorem file_drain_eq {s : OStream α} {n : Nat} :
    (s.drain n).file = s.taken ↔ s.held.length ≤ n := by
  constructor
  · intro h
    have hlen := congrArg List.length h
    simp only [drain, taken, List.length_append, List.length_take] at hlen
    omega
  · intro h
    simp only [drain, taken, List.take_of_length_le h]

end OStream

/-! ## 2. A write -/

/-- One move of a write: `take` elements into the buffer, then `drain` of the buffer to the file. -/
structure Move where
  take : Nat
  drain : Nat
  deriving DecidableEq, Repr

/-- A write of the `count` elements of `src`, of which `done` were taken already: the stream behind
    it, and the number taken. -/
def OStream.write (src : Nat → α) (count : Nat) : OStream α → Nat → List Move → OStream α × Nat
  | s, done, [] => (s, done)
  | s, done, m :: ms =>
      let k := min m.take (count - done)
      write src count ((s.put ((List.range' done k).map src)).drain m.drain) (done + k) ms

/-- What the moves take, if they are asked for so many. -/
def total : List Move → Nat
  | [] => 0
  | m :: ms => m.take + total ms

/-- What is held back behind a write, of `held` before it. -/
def heldAfter (count : Nat) : Nat → Nat → List Move → Nat
  | held, _, [] => held
  | held, done, m :: ms =>
      let k := min m.take (count - done)
      heldAfter count (held + k - m.drain) (done + k) ms

/-- How many elements a write takes. -/
theorem write_count (src : Nat → α) {count : Nat} (s : OStream α) {done : Nat} (h : done ≤ count)
    (ms : List Move) : (s.write src count done ms).2 = min (done + total ms) count := by
  induction ms generalizing s done with
  | nil =>
      show done = min (done + 0) count
      omega
  | cons m ms ih =>
      have hle : done + min m.take (count - done) ≤ count := by omega
      show (OStream.write src count _ _ ms).2 = min (done + (m.take + total ms)) count
      rw [ih _ hle]
      omega

/-- How many are held back behind it. -/
theorem write_held (src : Nat → α) (count : Nat) (s : OStream α) (done : Nat) (ms : List Move) :
    (s.write src count done ms).1.held.length = heldAfter count s.held.length done ms := by
  induction ms generalizing s done with
  | nil => rfl
  | cons m ms ih =>
      show (OStream.write src count _ _ ms).1.held.length = heldAfter count _ _ ms
      rw [ih]
      simp [OStream.drain, OStream.put]

/-- **What a write does**, in whatever moves: the stream took the first elements of `src` behind
    those it had taken before. -/
theorem write_spec (src : Nat → α) (count : Nat) (s : OStream α) (done : Nat) (ms : List Move) :
    ∃ n, (s.write src count done ms).2 = done + n ∧
      (s.write src count done ms).1.taken = s.taken ++ (List.range' done n).map src := by
  induction ms generalizing s done with
  | nil => exact ⟨0, rfl, (List.append_nil _).symm⟩
  | cons m ms ih =>
      obtain ⟨n, hcount, htaken⟩ :=
        ih ((s.put ((List.range' done (min m.take (count - done))).map src)).drain m.drain)
          (done + min m.take (count - done))
      refine ⟨min m.take (count - done) + n, ?_, ?_⟩
      · rw [← Nat.add_assoc]
        exact hcount
      · refine htaken.trans ?_
        rw [OStream.taken_drain, OStream.taken_put, List.append_assoc, ← List.map_append,
          List.range'_append_1]

end Stdio
