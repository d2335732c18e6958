/-
  File:      Cse303/Net/Socket.lean
  Subject:   WHAT THE KERNEL MAY ANSWER TO `send` AND `recv`.

  An answer is what was transferred, or a failure with the `errno` it sets; a call that does not
  fail leaves `errno` as it was. The loops of net.cc run against two environments:

  * `sink` -- the far end of `send`, recording the positions of the accepted bytes in order: it
    accepts any number of bytes up to the count, or fails in any way;
  * `socket S` -- the near end of a byte stream `S` read in order from a position: `recv` hands
    out any fragment of what comes next, and zero bytes of a positive count only at the end. A
    stream (`Incoming`) is finite or endless, and has no bound on its length.
-/
import Cse303.Common.Err
import Cse303.Lib.CInt
import Cse303.Lib.CallLoop
import Mathlib.Data.List.Basic
import Mathlib.Data.List.Infix

namespace Cse303

/-- What a `send` or `recv` comes back with. -/
abbrev Answer (α : Type) := Except Errno α

/-- The answer is the recoverable failure. -/
def isEintr {κ α : Type} : κ × Answer α → Bool
  | (_, .error .eintr) => true
  | _ => false

/-- Some call of the trace failed with an error other than `EINTR`. -/
def HardError {κ α : Type} (tr : List (κ × Answer α)) : Prop :=
  ∃ c e, (c, .error e) ∈ tr ∧ e ≠ .eintr

theorem HardError.last {κ α : Type} {tr : List (κ × Answer α)} {c : κ} {e : Errno}
    (he : e ≠ .eintr) : HardError (tr ++ [(c, .error e)]) :=
  ⟨c, e, by simp, he⟩

/-- `errno` after the call: only a failure sets it. -/
def errnoAfter {α : Type} (errno : Errno) : Answer α → Errno
  | .ok _ => errno
  | .error e => e

@[simp] theorem errnoAfter_ok {α : Type} (errno : Errno) (x : α) :
    errnoAfter errno (.ok x : Answer α) = errno := rfl

@[simp] theorem errnoAfter_error {α : Type} (errno e : Errno) :
    errnoAfter errno (.error e : Answer α) = e := rfl

/-! ## 1. `send` -/

/-- `send(sd, bytes + offset, count, 0)`. -/
structure SendCall where
  offset : Nat
  count : Nat
  deriving DecidableEq, Repr

/-- The `ssize_t` that `send` returns. -/
def sentBytes : Answer Nat → Int
  | .ok n => n
  | .error _ => -1

@[simp] theorem sentBytes_ok (n : Nat) : sentBytes (.ok n) = n := rfl

@[simp] theorem sentBytes_error (e : Errno) : sentBytes (.error e) = -1 := rfl

/-- **The far end of `send`**, as the list of the positions accepted so far: any number of bytes
    up to the count (and to what an `ssize_t` holds), or any failure. -/
def sink : Env (List Nat) SendCall (Answer Nat)
  | acc, c, .ok n, acc' =>
      n ≤ c.count ∧ n < 9223372036854775808 ∧ acc' = acc ++ List.range' c.offset n
  | acc, _, .error _, acc' => acc' = acc

theorem sink_ok {acc acc' : List Nat} {c : SendCall} {n : Nat} :
    sink acc c (.ok n) acc' ↔
      n ≤ c.count ∧ n < 9223372036854775808 ∧ acc' = acc ++ List.range' c.offset n := Iff.rfl

theorem sink_error {acc acc' : List Nat} {c : SendCall} {e : Errno} :
    sink acc c (.error e) acc' ↔ acc' = acc := Iff.rfl

/-! ## 2. `recv` -/

/-- `recv(sd, buffer + offset, count, 0)`; the offset may lie before the buffer. -/
structure RecvCall where
  offset : Int
  count : Nat
  deriving DecidableEq, Repr

/-- The `ssize_t` that `recv` returns. -/
def recvdBytes : Answer (List UInt8) → Int
  | .ok bs => bs.length
  | .error _ => -1

@[simp] theorem recvdBytes_ok (bs : List UInt8) : recvdBytes (.ok bs) = bs.length := rfl

@[simp] theorem recvdBytes_error (e : Errno) : recvdBytes (.error e) = -1 := rfl

/-- The bytes a peer sends, one after the other, and where it closes (`none`: it never does). -/
structure Incoming where
  byte : Nat → UInt8
  fin : Option Nat

/-- The `n` bytes from position `p`. -/
def Incoming.slice (S : Incoming) (p n : Nat) : List UInt8 :=
  (List.range n).map fun i => S.byte (p + i)

@[simp] theorem Incoming.length_slice (S : Incoming) (p n : Nat) : (S.slice p n).length = n := by
  simp [slice]

@[simp] theorem Incoming.slice_zero (S : Incoming) (p : Nat) : S.slice p 0 = [] := rfl

/-- Two consecutive slices are one. -/
theorem Incoming.slice_append (S : Incoming) (p m n : Nat) :
    S.slice p m ++ S.slice (p + m) n = S.slice p (m + n) := by
  simp only [slice, List.range_add, List.map_append, List.map_map, List.append_cancel_left_eq]
  refine List.map_congr_left fun i _ => ?_
  simp [Nat.add_assoc]

theorem Incoming.slice_one (S : Incoming) (p : Nat) : S.slice p 1 = [S.byte p] := rfl

/-- The stream is not past its end at `p`. -/
def Incoming.reaches (S : Incoming) (p : Nat) : Prop := ∀ L, S.fin = some L → p ≤ L

theorem Incoming.reaches_mono (S : Incoming) {p q : Nat} (h : S.reaches q) (hpq : p ≤ q) :
    S.reaches p := fun L hL => le_trans hpq (h L hL)

/-- **The near end of a stream**, as the position read so far. -/
def socket (S : Incoming) : Env Nat RecvCall (Answer (List UInt8))
  | p, c, .ok bs, p' =>
      bs = S.slice p bs.length ∧ bs.length ≤ c.count ∧ p' = p + bs.length ∧ S.reaches p' ∧
        (bs = [] → c.count = 0 ∨ S.fin = some p)
  | p, _, .error _, p' => p' = p

theorem socket_ok {S : Incoming} {p p' : Nat} {c : RecvCall} {bs : List UInt8} :
    socket S p c (.ok bs) p' ↔
      bs = S.slice p bs.length ∧ bs.length ≤ c.count ∧ p' = p + bs.length ∧ S.reaches p' ∧
        (bs = [] → c.count = 0 ∨ S.fin = some p) := Iff.rfl

theorem socket_error {S : Incoming} {p p' : Nat} {c : RecvCall} {e : Errno} :
    socket S p c (.error e) p' ↔ p' = p := Iff.rfl

/-- The next byte alone is an answer, where there is one and it was asked for. -/
theorem socket_one {S : Incoming} {p : Nat} {c : RecvCall} (h : S.reaches (p + 1))
    (hc : 0 < c.count) : socket S p c (.ok [S.byte p]) (p + 1) :=
  socket_ok.mpr ⟨(S.slice_one p).symm, hc, rfl, h, fun hnil => absurd hnil (List.cons_ne_nil _ _)⟩

/-- A `recv` on a stream that is not past its end can always be answered with a transfer. -/
theorem socket_live {S : Incoming} {p : Nat} (h : S.reaches p) (c : RecvCall) :
    ∃ bs, socket S p c (.ok bs) (p + bs.length) := by
  by_cases hend : c.count = 0 ∨ S.fin = some p
  · exact ⟨[], socket_ok.mpr ⟨rfl, Nat.zero_le _, rfl, h, fun _ => hend⟩⟩
  · rw [not_or] at hend
    have hmore : S.reaches (p + 1) := fun L hL => by
      have hle := h L hL
      have hne : p ≠ L := fun heq => hend.2 (heq ▸ hL)
      omega
    exact ⟨[S.byte p], socket_one hmore (Nat.pos_of_ne_zero hend.1)⟩

/-- No run reads past the end of the stream. -/
theorem socket_run_reaches {σ ω : Type} {P : CallLoop σ RecvCall (Answer (List UInt8)) ω}
    {S : Incoming} {x y : Control σ ω × Nat} {tr : List (RecvCall × Answer (List UInt8))}
    (h : (P.lts (socket S)).Run x tr y) (hx : S.reaches x.2) : S.reaches y.2 := by
  refine h.invariant (I := fun z => S.reaches z.2) hx fun z a z' hz hs => ?_
  cases hs with
  | @answer s p p' r henv =>
      cases r with
      | ok bs =>
          obtain ⟨-, -, -, hreach, -⟩ := socket_ok.mp henv
          exact hreach
      | error e =>
          obtain rfl := socket_error.mp henv
          exact hz

/-! ## 3. What `recv` stores -/

/-- The vector with `bs` written over its bytes from `k`. -/
def patch (v : List UInt8) (k : Nat) (bs : List UInt8) : List UInt8 :=
  v.take k ++ bs ++ v.drop (k + bs.length)

/-- The memory of a vector after `recv` stored bytes at an offset of it; `none` if a byte falls
    outside. -/
def store (v : List UInt8) (offset : Int) (bs : List UInt8) : Option (List UInt8) :=
  if bs = [] then some v
  else if 0 ≤ offset ∧ offset + bs.length ≤ v.length then some (patch v offset.toNat bs)
  else none

/-- What `recv` leaves in the memory it was pointed at: a failure stores nothing. -/
def recvStore (v : List UInt8) (offset : Int) : Answer (List UInt8) → Option (List UInt8)
  | .ok bs => store v offset bs
  | .error _ => some v

@[simp] theorem patch_nil (v : List UInt8) (k : Nat) : patch v k [] = v := by
  simp [patch]

@[simp] theorem store_nil (v : List UInt8) (offset : Int) : store v offset [] = some v := rfl

theorem length_patch {v bs : List UInt8} {k : Nat} (h : k + bs.length ≤ v.length) :
    (patch v k bs).length = v.length := by
  simp only [patch, List.length_append, List.length_take, List.length_drop]
  omega

/-- Two patches one behind the other are one. -/
theorem patch_patch {v as bs : List UInt8} {k : Nat} (h : k + as.length ≤ v.length) :
    patch (patch v k as) (k + as.length) bs = patch v k (as ++ bs) := by
  have hlen : (v.take k ++ as).length = k + as.length := by
    rw [List.length_append, List.length_take]
    omega
  have htake : (v.take k ++ as ++ v.drop (k + as.length)).take (k + as.length) = v.take k ++ as :=
    List.take_left' hlen
  have hdrop : (v.take k ++ as ++ v.drop (k + as.length)).drop (k + as.length + bs.length) =
      v.drop (k + (as ++ bs).length) := by
    rw [← List.drop_drop, List.drop_left' hlen, List.drop_drop, List.length_append, Nat.add_assoc]
  unfold patch
  rw [htake, hdrop]
  simp only [List.append_assoc]

/-- The patched bytes. -/
theorem patch_read {v bs : List UInt8} {k : Nat} (h : k + bs.length ≤ v.length) :
    ((patch v k bs).drop k).take bs.length = bs := by
  have hlen : (v.take k).length = k := by
    rw [List.length_take]
    omega
  have hdrop : (patch v k bs).drop k = bs ++ v.drop (k + bs.length) := by
    rw [patch, List.append_assoc]
    exact List.drop_left' hlen
  rw [hdrop, List.take_left]

/-- A store inside the vector. -/
theorem store_inside {v bs : List UInt8} {k : Nat} (h : k + bs.length ≤ v.length) :
    store v k bs = some (patch v k bs) := by
  unfold store
  split
  · rename_i h0
    rw [h0, patch_nil]
  · rw [if_pos ⟨Int.natCast_nonneg k, by omega⟩]
    rfl

/-- A store before the vector. -/
theorem store_before {v bs : List UInt8} {offset : Int} (hb : bs ≠ []) (h : offset < 0) :
    store v offset bs = none := by
  unfold store
  rw [if_neg hb, if_neg]
  omega

end Cse303
