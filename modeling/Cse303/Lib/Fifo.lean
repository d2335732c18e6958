/-
  File:      Cse303/Lib/Fifo.lean
  Subject:   A WRITER AND A READER ON A RELIABLE CHANNEL, in terms of lists alone.

  What the writer still has to write, what is under way and what the reader has: three lists. A
  step moves a front piece of one to the back of the next, of any size, or ends the writing. Nothing
  is said about how writer and reader decide on the sizes.

  * `content_step` -- the three lists in their order stay the same list;
  * `got_prefix`, `got_all` -- so the reader has a prefix of the message, and all of it once nothing
    is left to write or under way;
  * `run_length` -- a run takes at most two steps for each element, and one to end the writing.
-/
import Cse303.Lib.Lts
import Mathlib.Data.List.Infix

/-- A channel of elements in order, with its two ends. -/
structure Fifo (α : Type*) where
  /-- not yet written -/
  todo : List α
  /-- written, not yet read -/
  flight : List α
  /-- read -/
  got : List α
  /-- the writer is done -/
  closed : Bool

namespace Fifo

variable {α : Type*}

/-- What can happen on the channel. -/
inductive Act (α : Type*) where
  | push (as : List α)
  | pop (as : List α)
  | close

inductive Step : Fifo α → Act α → Fifo α → Prop where
  | push {as todo flight got : List α} (h : as ≠ []) :
      Step ⟨as ++ todo, flight, got, false⟩ (.push as) ⟨todo, flight ++ as, got, false⟩
  | pop {as todo flight got : List α} {closed : Bool} (h : as ≠ []) :
      Step ⟨todo, as ++ flight, got, closed⟩ (.pop as) ⟨todo, flight, got ++ as, closed⟩
  | close {todo flight got : List α} :
      Step ⟨todo, flight, got, false⟩ .close ⟨todo, flight, got, true⟩

/-- The channel as a transition system. -/
def lts (α : Type*) : Lts (Fifo α) (Act α) := ⟨Step⟩

/-- The channel before anything was written of `msg`. -/
def start (msg : List α) : Fifo α := ⟨msg, [], [], false⟩

/-- Everything, in the order it was to be written. -/
def content (f : Fifo α) : List α := f.got ++ f.flight ++ f.todo

/-- The writer writes the next `n` elements. -/
theorem push_step {f : Fifo α} {n : Nat} (hopen : f.closed = false) (hn : 1 ≤ n)
    (hle : n ≤ f.todo.length) :
    (lts α).step f (.push (f.todo.take n))
      ⟨f.todo.drop n, f.flight ++ f.todo.take n, f.got, false⟩ := by
  obtain ⟨todo, flight, got, closed⟩ := f
  obtain rfl : closed = false := hopen
  have hne : todo.take n ≠ [] := by
    rw [← List.length_pos_iff, List.length_take]
    exact lt_min hn (lt_of_lt_of_le hn hle)
  have hstep : (lts α).step ⟨todo.take n ++ todo.drop n, flight, got, false⟩ (.push (todo.take n))
      ⟨todo.drop n, flight ++ todo.take n, got, false⟩ := .push hne
  rw [List.take_append_drop] at hstep
  exact hstep

/-- The reader reads what comes first of that under way. -/
theorem pop_step {f : Fifo α} {as rest : List α} (h : as ≠ []) (hf : f.flight = as ++ rest) :
    (lts α).step f (.pop as) ⟨f.todo, rest, f.got ++ as, f.closed⟩ := by
  obtain ⟨todo, flight, got, closed⟩ := f
  obtain rfl : flight = as ++ rest := hf
  exact .pop h

/-- The writer ends. -/
theorem close_step {f : Fifo α} (hopen : f.closed = false) :
    (lts α).step f .close ⟨f.todo, f.flight, f.got, true⟩ := by
  obtain ⟨todo, flight, got, closed⟩ := f
  obtain rfl : closed = false := hopen
  exact .close

/-! ## 1. Nothing is lost, doubled or reordered -/

/-- **The content of a channel never changes.** -/
theorem content_step {f f' : Fifo α} {a : Act α} (h : (lts α).step f a f') :
    f'.content = f.content := by
  cases h with
  | push _ => simp only [content, List.append_assoc]
  | pop _ => simp only [content, List.append_assoc]
  | close => rfl

/-- The reader has a front piece of the content. -/
theorem got_prefix (f : Fifo α) : f.got <+: f.content := by
  rw [content, List.append_assoc]
  exact List.prefix_append _ _

/-- With nothing under way and nothing left to write, the reader has it all. -/
theorem got_all {f : Fifo α} (hflight : f.flight = []) (htodo : f.todo = []) :
    f.got = f.content := by
  rw [content, hflight, htodo, List.append_nil, List.append_nil]

/-! ## 2. The length of a run -/

/-- The steps a channel has left. -/
def weight (f : Fifo α) : Nat := 2 * f.todo.length + f.flight.length + (if f.closed then 0 else 1)

theorem weight_step {f f' : Fifo α} {a : Act α} (h : (lts α).step f a f') :
    f'.weight + 1 ≤ f.weight := by
  cases h with
  | push h =>
      have hpos := List.length_pos_iff.mpr h
      simp only [weight, List.length_append]
      omega
  | pop h =>
      have hpos := List.length_pos_iff.mpr h
      simp only [weight, List.length_append]
      omega
  | close => exact le_refl _

/-- **A run has at most two steps for each element, and one more.** -/
theorem run_length {msg : List α} {tr : List (Act α)} {f : Fifo α}
    (h : (lts α).Run (start msg) tr f) : tr.length ≤ 2 * msg.length + 1 := by
  have hidle : tr.countP (fun _ => false) = 0 := congrFun List.countP_false tr
  have hrank : tr.length + f.weight ≤ tr.countP (fun _ => false) + (2 * msg.length + 1) :=
    h.ranked (I := fun _ => True) trivial (fun _ _ _ _ _ => trivial)
      fun _ _ _ _ hs => weight_step hs
  omega

end Fifo
