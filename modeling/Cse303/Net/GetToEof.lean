/-
  File:      Cse303/Net/GetToEof.lean
  Subject:   `reliable_get_to_eof` (net.cc): THE DOUBLING BUFFER AND ITS 32-BIT COUNTER.

  The function fills a vector that starts at 16 bytes and is doubled each time it is full, counting
  in the `int recd` what the vector counts in `size_t`; the fullness test compares `recd` with the
  size cut down to an `int`.

  * `EofGood`, `EofGood.resume_bytes` -- the invariant between two calls, for what was received so
    far, and the step that keeps it until 2^31 bytes are in;
  * `EofOver` -- the one state behind that: `recd` has wrapped to -2^31, the next byte is written
    before the buffer (`EofOver.resume_bytes`) and an end of stream throws (`EofOver.resume_zero`);
  * `eofInv_run`, `eof_at_call` -- so every run on a stream is in one of the two, and what it returns
    is the stream up to its end, or nothing after an error;
  * **`getToEof_counters_iff`** -- the counter and the requested count are right at a `recv` exactly
    while fewer than 2^31 bytes came, and every conversion on the way kept its value exactly while
    no more than 2^30 did.
-/
import Cse303.Net.Socket
import Mathlib.Tactic.Ring

namespace Cse303

open CInt

/-! ## 1. The code -/

/-- The locals of `reliable_get_to_eof` at its `recv`. -/
structure RecvState where
  res : List UInt8
  recd : Int
  errno : Errno
  deriving DecidableEq, Repr

/-- `int remain = res.size() - recd;`: a difference of `size_t`s, stored in an `int`. -/
def RecvState.remain (s : RecvState) : Int := toInt (toSize (s.res.length - s.recd))

/-- `vector::resize`, which throws past `max_size()`. -/
def resize (v : List UInt8) (n : Nat) : Option (List UInt8) :=
  if n ≤ 9223372036854775807 then some (v.take n ++ List.replicate (n - v.length) 0) else none

/-- Bytes received: advance the counter, double the buffer when it is full. -/
def RecvState.advance (s : RecvState) (justgot : Int) : Control RecvState (Ret (List UInt8)) :=
  let recd := toInt (s.recd + justgot)
  if recd = toInt s.res.length then
    match resize s.res (toSize (2 * s.res.length)) with
    | some res => .call { s with res := res, recd := recd }
    | none => .threw
  else .call { s with recd := recd }

/-- `res.resize(recd); return res;` -/
def RecvState.finish (s : RecvState) : Control RecvState (Ret (List UInt8)) :=
  match resize s.res (toSize s.recd) with
  | some res => .ret (.quiet res)
  | none => .threw

/-- `reliable_get_to_eof`, from one `recv` to the next. -/
def reliableGetToEof : CallLoop RecvState RecvCall (Answer (List UInt8)) (Ret (List UInt8)) where
  call s := ⟨s.recd, toSize s.remain⟩
  resume s r :=
    match recvStore s.res s.recd r with
    | none => .wild
    | some res =>
      let justgot := toInt (recvdBytes r)
      let s' : RecvState := ⟨res, s.recd, errnoAfter s.errno r⟩
      if justgot = 0 then s'.finish
      else if justgot < 0 then
        if s'.errno ≠ .eintr then
          .ret (err [] [.text "Error in recv(): ", msgFromErrno s'.errno])
        else .call s'
      else s'.advance justgot

/-- The locals on entry: a buffer of 16 zero bytes. -/
def reliableGetToEofStart (errno : Errno) : Control RecvState (Ret (List UInt8)) :=
  .call ⟨List.replicate 16 0, 0, errno⟩

/-! ## 2. The invariant, and the state behind 2^31 bytes -/

/-- **The invariant at a `recv`**, when `got` is what was received so far. -/
structure EofGood (got : List UInt8) (s : RecvState) : Prop where
  recd : s.recd = got.length
  room : got.length < s.res.length
  doubled : ∃ k ≤ 27, s.res.length = 16 * 2 ^ k
  tight : s.res.length = 16 ∨ s.res.length ≤ 2 * got.length
  content : s.res.take got.length = got

/-- The state after the counter has wrapped. -/
structure EofOver (got : List UInt8) (s : RecvState) : Prop where
  length : got.length = 2147483648
  recd : s.recd = -2147483648

theorem eofGood_start (errno : Errno) : EofGood [] ⟨List.replicate 16 0, 0, errno⟩ :=
  ⟨rfl, by simp, ⟨0, by omega, by simp⟩, Or.inl (by simp), rfl⟩

section Good

variable {got : List UInt8} {s : RecvState} (h : EofGood got s)
include h

theorem EofGood.size_le : s.res.length ≤ 2147483648 := by
  obtain ⟨k, hk, hsize⟩ := h.doubled
  have hpow : (2 : Nat) ^ k ≤ 2 ^ 27 := Nat.pow_le_pow_right (by omega) hk
  omega

/-- A buffer shorter than 2^31 can be doubled once more. -/
theorem EofGood.double (hlt : s.res.length < 2147483648) :
    s.res.length ≤ 1073741824 ∧ ∃ k ≤ 27, 2 * s.res.length = 16 * 2 ^ k := by
  obtain ⟨k, hk, hsize⟩ := h.doubled
  have hk27 : k ≠ 27 := by
    rintro rfl
    omega
  have hpow : (2 : Nat) ^ k ≤ 2 ^ 26 := Nat.pow_le_pow_right (by omega) (by omega)
  exact ⟨by omega, k + 1, by omega, by rw [hsize, pow_succ]; ring⟩

theorem EofGood.lt : got.length < 2147483648 :=
  lt_of_lt_of_le h.room h.size_le

/-- `remain` is the room left. -/
theorem EofGood.remain_eq : s.remain = s.res.length - got.length := by
  have hsize := h.size_le
  have hroom := h.room
  have htight := h.tight
  have h64 : (toSize (s.res.length - got.length) : Int) = s.res.length - got.length :=
    toSize_of_range (by omega) (by omega)
  rw [RecvState.remain, h.recd, h64, toInt_of_range (by omega) (by omega)]

/-- The count asked for is the room left. -/
theorem EofGood.count_eq : (reliableGetToEof.call s).count + got.length = s.res.length := by
  have hsize := h.size_le
  have hroom := h.room
  have h64 : (toSize s.remain : Int) = s.remain := by
    rw [h.remain_eq]
    exact toSize_of_range (by omega) (by omega)
  have hrem := h.remain_eq
  show toSize s.remain + got.length = s.res.length
  omega

end Good

/-! ## 3. One answer -/

/-- A failure. -/
theorem resume_recv_error (s : RecvState) (e : Errno) :
    reliableGetToEof.resume s (.error e) =
      if e ≠ .eintr then .ret (err [] [.text "Error in recv(): ", msgFromErrno e])
      else .call { s with errno := e } := by
  simp only [reliableGetToEof, recvStore, recvdBytes, toInt_neg_one, errnoAfter_error]
  rfl

/-- Zero bytes, without an `errno` test. -/
theorem resume_recv_zero (s : RecvState) :
    reliableGetToEof.resume s (.ok []) = s.finish := by
  simp [reliableGetToEof, recvStore, recvdBytes]

/-- A resize that shortens. -/
theorem resize_take {v : List UInt8} {n : Nat} (hn : n ≤ 2147483648) (h : n ≤ v.length) :
    resize v n = some (v.take n) := by
  rw [resize, if_pos (by omega), Nat.sub_eq_zero_of_le h]
  simp

/-- **The end of the stream returns what was received.** -/
theorem EofGood.resume_zero {got : List UInt8} {s : RecvState} (h : EofGood got s) :
    reliableGetToEof.resume s (.ok []) = .ret (.quiet got) := by
  have hlt := h.lt
  have hsize : toSize s.recd = got.length := by
    rw [h.recd]
    exact toSize_natCast (by omega)
  rw [resume_recv_zero, RecvState.finish, hsize, resize_take (by omega) (le_of_lt h.room),
    h.content]

/-- Bytes received into the buffer: what the loop goes on with. -/
theorem EofGood.resume_eq {got bs : List UInt8} {s : RecvState} (h : EofGood got s) (hb : bs ≠ [])
    (hcount : bs.length ≤ (reliableGetToEof.call s).count) :
    reliableGetToEof.resume s (.ok bs) =
      RecvState.advance ⟨patch s.res got.length bs, s.recd, s.errno⟩ bs.length := by
  have hsize := h.size_le
  have htight := h.tight
  have hfit := h.count_eq
  have hpos : 0 < bs.length := List.length_pos_iff.mpr hb
  have hjust : toInt (bs.length : Int) = bs.length := toInt_of_range (by omega) (by omega)
  have hst : store s.res s.recd bs = some (patch s.res got.length bs) := by
    rw [h.recd]
    exact store_inside (by omega)
  have hne : ¬ ((bs.length : Int) = 0) := by omega
  have hnneg : ¬ ((bs.length : Int) < 0) := by omega
  simp only [reliableGetToEof, recvStore, hst, recvdBytes, hjust, if_neg hne, if_neg hnneg,
    errnoAfter_ok]

/-- The buffer after bytes were stored at the counter: as long as before, and it begins with all
    that was received. -/
theorem EofGood.stored {got bs : List UInt8} {s : RecvState} (h : EofGood got s)
    (hfit : got.length + bs.length ≤ s.res.length) :
    (patch s.res got.length bs).length = s.res.length ∧
      (patch s.res got.length bs).take (got ++ bs).length = got ++ bs := by
  refine ⟨length_patch hfit, ?_⟩
  rw [patch, h.content, List.take_left]

/-- A resize that lengthens. -/
theorem resize_double {v : List UInt8} (h : v.length ≤ 2147483648) :
    resize v (toSize (2 * v.length)) = some (v ++ List.replicate v.length 0) := by
  have h2 : toSize (2 * (v.length : Int)) = 2 * v.length := toSize_natCast (n := 2 * v.length) (by omega)
  rw [h2, resize, if_pos (by omega), List.take_of_length_le (by omega),
    show 2 * v.length - v.length = v.length by omega]

section Advance

variable {got : List UInt8} {s : RecvState} {n : Nat} (hrecd : s.recd + n = got.length)
  (hcontent : s.res.take got.length = got)
include hrecd hcontent

/-- Room is left: the counter moves on. -/
theorem advance_room (hroom : got.length < s.res.length) (hsize : s.res.length ≤ 2147483648)
    (hdoubled : ∃ k ≤ 27, s.res.length = 16 * 2 ^ k)
    (htight : s.res.length = 16 ∨ s.res.length ≤ 2 * got.length) :
    s.advance n = .call { s with recd := got.length } ∧
      EofGood got { s with recd := got.length } := by
  have hsum : toInt (s.recd + n) = got.length := by
    rw [hrecd]
    exact toInt_of_range (by omega) (by omega)
  have hnot : ¬ (got.length : Int) = toInt s.res.length := by
    unfold toInt
    omega
  refine ⟨?_, rfl, hroom, hdoubled, htight, hcontent⟩
  simp only [RecvState.advance, hsum, if_neg hnot]

/-- The buffer is full: it is doubled. -/
theorem advance_full (hfull : got.length = s.res.length) (hpos : 0 < got.length)
    (hsize : s.res.length < 2147483648) (hdoubled : ∃ k ≤ 27, 2 * s.res.length = 16 * 2 ^ k) :
    ∃ res, s.advance n = .call ⟨res, got.length, s.errno⟩ ∧
      EofGood got ⟨res, got.length, s.errno⟩ := by
  have hsum : toInt (s.recd + n) = got.length := by
    rw [hrecd]
    exact toInt_of_range (by omega) (by omega)
  have htest : (got.length : Int) = toInt s.res.length := by
    rw [← hfull]
    exact (toInt_of_range (by omega) (by omega)).symm
  have hlen : (s.res ++ List.replicate s.res.length 0).length = 2 * s.res.length := by
    rw [List.length_append, List.length_replicate]
    omega
  refine ⟨s.res ++ List.replicate s.res.length 0, ?_, rfl, ?_, ?_, Or.inr ?_, ?_⟩
  · simp only [RecvState.advance, hsum, if_pos htest, resize_double (le_of_lt hsize)]
  · show got.length < (s.res ++ List.replicate s.res.length 0).length
    omega
  · rw [hlen]
    exact hdoubled
  · show (s.res ++ List.replicate s.res.length 0).length ≤ 2 * got.length
    omega
  · rw [List.take_append_of_le_length (by omega), hcontent]

omit hcontent in
/-- The buffer is full at 2^31 bytes: the sum no longer fits the `int`, and neither does the size
    it is compared with, so the buffer is doubled around a wrapped counter. -/
theorem advance_over (hfull : got.length = s.res.length) (hsize : s.res.length = 2147483648) :
    ∃ s', s.advance n = .call s' ∧ s'.errno = s.errno ∧ EofOver got s' := by
  have hsum : toInt (s.recd + n) = -2147483648 := by
    rw [hrecd, hfull, hsize]
    unfold toInt
    omega
  have htest : -2147483648 = toInt s.res.length := by
    rw [hsize]
    unfold toInt
    omega
  refine ⟨⟨s.res ++ List.replicate s.res.length 0, -2147483648, s.errno⟩, ?_, rfl, ?_, rfl⟩
  · simp only [RecvState.advance, hsum, if_pos htest, resize_double (le_of_eq hsize)]
  · omega

end Advance

/-- **The step lemma of `reliable_get_to_eof`**: bytes received lead to the next `recv`, with the
    invariant, or with the counter wrapped when they are the first 2^31. -/
theorem EofGood.resume_bytes {got bs : List UInt8} {s : RecvState} (h : EofGood got s)
    (hb : bs ≠ []) (hcount : bs.length ≤ (reliableGetToEof.call s).count) :
    ∃ s', reliableGetToEof.resume s (.ok bs) = .call s' ∧ s'.errno = s.errno ∧
      (EofGood (got ++ bs) s' ∨ EofOver (got ++ bs) s') := by
  have hsize := h.size_le
  have htight := h.tight
  have hfit := h.count_eq
  have hpos : 0 < bs.length := List.length_pos_iff.mpr hb
  have hgotlen : (got ++ bs).length = got.length + bs.length := List.length_append
  obtain ⟨hvlen, hvtake⟩ := h.stored (show got.length + bs.length ≤ s.res.length by omega)
  rw [h.resume_eq hb hcount]
  generalize patch s.res got.length bs = v at hvlen hvtake
  have hrecd : s.recd + bs.length = (got ++ bs).length := by
    rw [h.recd]
    omega
  rcases Nat.lt_or_ge (got ++ bs).length s.res.length with hlt | hge
  · obtain ⟨hadv, hgood⟩ := advance_room (s := ⟨v, s.recd, s.errno⟩) hrecd hvtake
      (by show _ < v.length; omega) (by show v.length ≤ _; omega) (hvlen ▸ h.doubled)
      (by show v.length = 16 ∨ v.length ≤ _; omega)
    exact ⟨_, hadv, rfl, Or.inl hgood⟩
  · have hfull : (got ++ bs).length = v.length := by omega
    rcases Nat.lt_or_ge s.res.length 2147483648 with hsmall | hbig
    · obtain ⟨res, hadv, hgood⟩ := advance_full (s := ⟨v, s.recd, s.errno⟩) hrecd hvtake hfull
        (by omega) (by show v.length < _; omega) (hvlen ▸ (h.double hsmall).2)
      exact ⟨_, hadv, rfl, Or.inl hgood⟩
    · obtain ⟨s', hadv, herr, hover⟩ := advance_over (s := ⟨v, s.recd, s.errno⟩) hrecd hfull
        (by show v.length = _; omega)
      exact ⟨s', hadv, herr, Or.inr hover⟩

/-- With the counter wrapped, a byte received is written before the buffer. -/
theorem EofOver.resume_bytes {got bs : List UInt8} {s : RecvState} (h : EofOver got s)
    (hb : bs ≠ []) : reliableGetToEof.resume s (.ok bs) = .wild := by
  have hst : store s.res s.recd bs = none := store_before hb (by rw [h.recd]; omega)
  simp only [reliableGetToEof, recvStore, hst]

/-- With the counter wrapped, the end of the stream is answered with an exception. -/
theorem EofOver.resume_zero {got : List UInt8} {s : RecvState} (h : EofOver got s) :
    reliableGetToEof.resume s (.ok []) = .threw := by
  have hsize : (toSize s.recd : Int) = s.recd + 18446744073709551616 :=
    toSize_of_neg (by rw [h.recd]; omega) (by rw [h.recd]; omega)
  have hbig : ¬ toSize s.recd ≤ 9223372036854775807 := by
    have := h.recd
    omega
  rw [resume_recv_zero, RecvState.finish, resize, if_neg hbig]

/-! ## 4. Runs on a stream -/

/-- A trace of `recv`s. -/
abbrev RecvTrace := List (RecvCall × Answer (List UInt8))

/-- `reliable_get_to_eof` reads from stream `S` at position `p`. -/
abbrev EofRun (S : Incoming) (p : Nat) (errno : Errno) :
    RecvTrace → Control RecvState (Ret (List UInt8)) × Nat → Prop :=
  (reliableGetToEof.lts (socket S)).Run (reliableGetToEofStart errno, p)

/-- **The invariant of a run that began at position `p₀`**, `k` bytes into the stream from there. -/
def EofInv (S : Incoming) (p₀ : Nat) (tr : RecvTrace)
    (x : Control RecvState (Ret (List UInt8)) × Nat) : Prop :=
  ∃ k, x.2 = p₀ + k ∧
    match x.1 with
    | .call s => EofGood (S.slice p₀ k) s ∨ EofOver (S.slice p₀ k) s
    | .ret r =>
        (HardError tr ∧ r.val = []) ∨
          (S.fin = some (p₀ + k) ∧ k < 2147483648 ∧ r.val = S.slice p₀ k)
    | .threw => 2147483648 ≤ k
    | .wild => 2147483648 ≤ k

/-- The positions of a run only move forward. -/
theorem recv_forward {S : Incoming} {x y : Control RecvState (Ret (List UInt8)) × Nat}
    {a : RecvCall × Answer (List UInt8)} (hs : (reliableGetToEof.lts (socket S)).step x a y) :
    x.2 ≤ y.2 := by
  cases hs with
  | @answer s p p' r henv =>
      cases r with
      | ok bs =>
          obtain ⟨-, -, rfl, -, -⟩ := socket_ok.mp henv
          exact Nat.le_add_right _ _
      | error e =>
          obtain rfl := socket_error.mp henv
          exact le_refl _

theorem eofInv_step {S : Incoming} {p₀ : Nat} {tr : RecvTrace}
    {x y : Control RecvState (Ret (List UInt8)) × Nat} {a : RecvCall × Answer (List UInt8)}
    (h : EofInv S p₀ tr x) (hs : (reliableGetToEof.lts (socket S)).step x a y) :
    EofInv S p₀ (tr ++ [a]) y := by
  cases hs with
  | @answer s p p' r henv =>
      obtain ⟨k, hp, hinv⟩ := h
      obtain rfl : p = p₀ + k := hp
      have hinv : EofGood (S.slice p₀ k) s ∨ EofOver (S.slice p₀ k) s := hinv
      cases r with
      | error e =>
          obtain rfl := socket_error.mp henv
          refine ⟨k, rfl, ?_⟩
          rw [resume_recv_error]
          by_cases he : e = .eintr
          · simp only [he, ne_eq, not_true, if_false]
            exact hinv.imp (fun g => ⟨g.recd, g.room, g.doubled, g.tight, g.content⟩)
              (fun o => ⟨o.length, o.recd⟩)
          · simp only [ne_eq, he, not_false_eq_true, if_true]
            exact Or.inl ⟨HardError.last he, rfl⟩
      | ok bs =>
          obtain ⟨hbs, hcount, rfl, hreach, hend⟩ := socket_ok.mp henv
          refine ⟨k + bs.length, Nat.add_assoc _ _ _, ?_⟩
          have hmore : S.slice p₀ k ++ bs = S.slice p₀ (k + bs.length) := by
            rw [← S.slice_append, ← hbs]
          rcases eq_or_ne bs [] with rfl | hne
          · rcases hinv with hgood | hover
            · rw [hgood.resume_zero]
              have hlt := hgood.lt
              have hfit := hgood.count_eq
              have hroom := hgood.room
              rw [S.length_slice] at hlt
              have hfin : S.fin = some (p₀ + k) := (hend rfl).resolve_left (by omega)
              exact Or.inr ⟨hfin, hlt, rfl⟩
            · rw [hover.resume_zero]
              have hlen := hover.length
              rw [S.length_slice] at hlen
              show 2147483648 ≤ k + _
              omega
          · rcases hinv with hgood | hover
            · obtain ⟨s', hres, -, hinv'⟩ := hgood.resume_bytes hne hcount
              rw [hres, ← hmore]
              exact hinv'
            · rw [hover.resume_bytes hne]
              have hlen := hover.length
              rw [S.length_slice] at hlen
              show 2147483648 ≤ k + _
              omega

/-- **The run lemma of `reliable_get_to_eof`.** -/
theorem eofInv_run {S : Incoming} {p₀ : Nat} {errno : Errno}
    {tr : RecvTrace} {y : Control RecvState (Ret (List UInt8)) × Nat}
    (h : (reliableGetToEof.lts (socket S)).Run (reliableGetToEofStart errno, p₀) tr y) :
    EofInv S p₀ tr y :=
  h.traceInvariant ⟨0, rfl, Or.inl (eofGood_start errno)⟩
    fun _ _ _ _ _ hinv hs => eofInv_step hinv hs

/-- **Where a run is at a `recv`**: below 2^31 bytes in the invariant, and at 2^31 past it. -/
theorem eof_at_call {S : Incoming} {p n : Nat} {errno : Errno} {tr : RecvTrace} {s : RecvState}
    (h : EofRun S p errno tr (.call s, p + n)) :
    n < 2147483648 ∧ EofGood (S.slice p n) s ∨ n = 2147483648 ∧ EofOver (S.slice p n) s := by
  obtain ⟨k, hk, hinv⟩ := eofInv_run h
  obtain rfl : n = k := Nat.add_left_cancel hk
  have hinv : EofGood (S.slice p n) s ∨ EofOver (S.slice p n) s := hinv
  rcases hinv with hgood | hover
  · have hlt := hgood.lt
    rw [S.length_slice] at hlt
    exact Or.inl ⟨hlt, hgood⟩
  · have hlen := hover.length
    rw [S.length_slice] at hlen
    exact Or.inr ⟨hlen, hover⟩

/-- Below 2^31 bytes a run is in the invariant. -/
theorem eofGood_at_call {S : Incoming} {p n : Nat} {errno : Errno} {tr : RecvTrace} {s : RecvState}
    (h : EofRun S p errno tr (.call s, p + n)) (hn : n < 2147483648) :
    EofGood (S.slice p n) s := by
  rcases eof_at_call h with ⟨-, hgood⟩ | ⟨hover, -⟩
  · exact hgood
  · exact absurd hover (Nat.ne_of_lt hn)

/-- A stream that goes on can be read byte by byte, up to the first 2^31. -/
theorem eof_reaches (S : Incoming) (p : Nat) (errno : Errno) : ∀ k ≤ 2147483648,
    S.reaches (p + k) → ∃ tr s, EofRun S p errno tr (.call s, p + k) ∧
      ∀ a ∈ tr, ∃ b, a.2 = .ok [b]
  | 0, _, _ => ⟨[], _, .start, fun _ hmem => absurd hmem List.not_mem_nil⟩
  | k + 1, hk, hreach => by
      obtain ⟨tr, s, hrun, hbytes⟩ :=
        eof_reaches S p errno k (by omega) (S.reaches_mono hreach (by omega))
      have hgood := eofGood_at_call hrun hk
      have hfit := hgood.count_eq
      have hroom := hgood.room
      have hb : [S.byte (p + k)] ≠ [] := List.cons_ne_nil _ _
      have hone : 0 < (reliableGetToEof.call s).count := by omega
      have henv : socket S (p + k) (reliableGetToEof.call s) (.ok [S.byte (p + k)]) (p + (k + 1)) :=
        socket_one hreach hone
      obtain ⟨s', hres, -, -⟩ := hgood.resume_bytes hb hone
      have hstep := CallLoop.Step.answer henv
      rw [hres] at hstep
      refine ⟨_, s', hrun.step hstep, fun a ha => ?_⟩
      rcases List.mem_append.mp ha with ha | ha
      · exact hbytes a ha
      · exact ⟨_, congrArg Prod.snd (List.mem_singleton.mp ha)⟩

/-! ## 5. The counter and the conversions -/

/-- What holds at a `recv` after `n` bytes, when no conversion has gone wrong. -/
structure CountersRight (s : RecvState) (n : Nat) : Prop where
  recd : s.recd = n
  nonneg : 0 ≤ s.recd
  room : s.recd < s.res.length
  remain : s.remain = s.res.length - s.recd
  some : 1 ≤ s.remain
  inside : (reliableGetToEof.call s).offset + (reliableGetToEof.call s).count = s.res.length

/-- **The counter and the count are right exactly below 2^31 bytes.** -/
theorem countersRight_iff {S : Incoming} {errno : Errno} {s : RecvState} {n : Nat} {tr : RecvTrace}
    (h : EofRun S 0 errno tr (.call s, n)) : CountersRight s n ↔ n < 2147483648 := by
  rw [← Nat.zero_add n] at h
  have hlen : (S.slice 0 n).length = n := S.length_slice 0 n
  rcases eof_at_call h with ⟨hlt, hgood⟩ | ⟨hn, hover⟩
  · refine ⟨fun _ => hlt, fun _ => ?_⟩
    have hrem := hgood.remain_eq
    have hroom := hgood.room
    have hcount := hgood.count_eq
    have hrecd := hgood.recd
    refine ⟨by omega, by omega, by omega, by omega, by omega, ?_⟩
    show s.recd + ((reliableGetToEof.call s).count : Int) = s.res.length
    omega
  · refine ⟨fun hc => ?_, fun hlt => absurd hn (Nat.ne_of_lt hlt)⟩
    have hnonneg := hc.nonneg
    have hrecd := hover.recd
    omega

/-- No conversion and no addition of the iteration changes a value: `int remain` at the call, and
    behind a transfer `recd += justgot` and `(int)res.size()`. -/
def KeepsValues : Control RecvState (Ret (List UInt8)) × Nat → RecvCall × Answer (List UInt8) →
    Control RecvState (Ret (List UInt8)) × Nat → Prop
  | (.call s, _), (_, r), _ =>
      s.remain = s.res.length - s.recd ∧
        (0 < toInt (recvdBytes r) →
          toInt (s.recd + toInt (recvdBytes r)) = s.recd + toInt (recvdBytes r) ∧
            toInt s.res.length = s.res.length)
  | _, _, _ => True

/-- A run without a changed value has read at most 2^30 bytes: the transfer that would go on from
    there compares with the size 2^31. -/
theorem le_of_keepsValues {S : Incoming} {errno : Errno}
    {y : Control RecvState (Ret (List UInt8)) × Nat} {tr : RecvTrace}
    (h : ((reliableGetToEof.lts (socket S)).restrict KeepsValues).Run
      (reliableGetToEofStart errno, 0) tr y) : y.2 ≤ 1073741824 := by
  refine h.traceInvariant (I := fun _ x => x.2 ≤ 1073741824) (Nat.zero_le _) ?_
  rintro tr ⟨c, n⟩ ⟨call, r⟩ ⟨c', n'⟩ hrun hn ⟨hstep, hkeep⟩
  obtain ⟨s, rfl, rfl, henv, rfl⟩ := CallLoop.step_call hstep
  cases r with
  | error e =>
      obtain rfl := socket_error.mp henv
      exact hn
  | ok bs =>
      obtain ⟨hbs, hcount, rfl, -, -⟩ := socket_ok.mp henv
      have hlen : (S.slice 0 n).length = n := S.length_slice 0 n
      have hn : n ≤ 1073741824 := hn
      have hgood : EofGood (S.slice 0 n) s :=
        eofGood_at_call ((Nat.zero_add n).symm ▸ hrun.of_restrict) (by omega)
      have hfit := hgood.count_eq
      have hsize := hgood.size_le
      have htight := hgood.tight
      show n + bs.length ≤ 1073741824
      rcases Nat.eq_zero_or_pos bs.length with hz | hpos
      · omega
      · have hbs : toInt (recvdBytes (.ok bs)) = bs.length := by
          rw [recvdBytes_ok]
          exact toInt_of_range (by omega) (by omega)
        have hexact := (hkeep.2 (by rw [hbs]; omega)).2
        have hlt := (toInt_eq_self.mp hexact).2
        have hhalf := (hgood.double (by omega)).1
        omega

/-- Up to 2^30 bytes every step of a run keeps its values. -/
theorem keepsValues_of_le {S : Incoming} {errno : Errno}
    {y : Control RecvState (Ret (List UInt8)) × Nat} {tr : RecvTrace}
    (h : (reliableGetToEof.lts (socket S)).Run (reliableGetToEofStart errno, 0) tr y)
    (hle : y.2 ≤ 1073741824) :
    ((reliableGetToEof.lts (socket S)).restrict KeepsValues).Run
      (reliableGetToEofStart errno, 0) tr y := by
  induction h with
  | start => exact .start
  | @step tr x y a hrun hs ih =>
      refine (ih (le_trans (recv_forward hs) hle)).step ⟨hs, ?_⟩
      obtain ⟨c, n⟩ := x
      obtain ⟨c', n'⟩ := y
      obtain ⟨s, rfl, hcall, henv, rfl⟩ := CallLoop.step_call hs
      obtain ⟨call, r⟩ := a
      have hlen : (S.slice 0 n).length = n := S.length_slice 0 n
      have hle' : n' ≤ 1073741824 := hle
      have hn : n ≤ n' := recv_forward hs
      have hgood : EofGood (S.slice 0 n) s :=
        eofGood_at_call ((Nat.zero_add n).symm ▸ hrun) (by omega)
      have hrecd := hgood.recd
      have hrem := hgood.remain_eq
      refine ⟨by omega, fun hpos => ?_⟩
      cases r with
      | error e =>
          rw [recvdBytes_error, toInt_neg_one] at hpos
          omega
      | ok bs =>
          obtain ⟨hbs, hcount, hn', -, -⟩ := socket_ok.mp henv
          have htight := hgood.tight
          have hsize := hgood.size_le
          have hfit := hgood.count_eq
          have hbs : toInt (recvdBytes (.ok bs)) = bs.length := by
            rw [recvdBytes_ok]
            exact toInt_of_range (by omega) (by omega)
          rw [hbs] at hpos ⊢
          exact ⟨toInt_of_range (by omega) (by omega), toInt_of_range (by omega) (by omega)⟩

/-- **The counter and the conversions of `reliable_get_to_eof`**: at a `recv` after `n` bytes the
    counter and the count are right exactly when `n < 2^31`; and they are, with no value changed by
    any conversion of the run, exactly when `n ≤ 2^30`. -/
theorem getToEof_counters_iff {S : Incoming} {errno : Errno} {s : RecvState} {n : Nat}
    {tr : RecvTrace}
    (h : (reliableGetToEof.lts (socket S)).Run (reliableGetToEofStart errno, 0) tr (.call s, n)) :
    (CountersRight s n ↔ n < 2147483648) ∧
      (CountersRight s n ∧ ((reliableGetToEof.lts (socket S)).restrict KeepsValues).Run
          (reliableGetToEofStart errno, 0) tr (.call s, n) ↔ n ≤ 1073741824) := by
  refine ⟨countersRight_iff h, fun hc => le_of_keepsValues hc.2, fun hle => ?_⟩
  exact ⟨(countersRight_iff h).mpr (by omega), keepsValues_of_le h hle⟩

/-- The statement on a stream of 20 bytes, once they are received. -/
theorem getToEof_counters_first :
    let S : Incoming := ⟨fun i => i.toUInt8, some 20⟩
    ∃ tr s, (reliableGetToEof.lts (socket S)).Run (reliableGetToEofStart (.other 0), 0) tr
        (.call s, 20) ∧
      CountersRight s 20 ∧ ((reliableGetToEof.lts (socket S)).restrict KeepsValues).Run
        (reliableGetToEofStart (.other 0), 0) tr (.call s, 20) := by
  intro S
  have hreach : S.reaches (0 + 20) := by
    intro L hL
    rw [← Option.some.inj hL]
  obtain ⟨tr, s, hrun, -⟩ := eof_reaches S 0 (.other 0) 20 (by omega) hreach
  exact ⟨tr, s, hrun, (getToEof_counters_iff hrun).2.mpr (by omega)⟩

/-- A peer that sends 2^31 zero bytes brings the loop to a `recv` with a wrong counter. -/
theorem getToEof_counter_wraps :
    ¬ ∀ tr s n, (reliableGetToEof.lts (socket ⟨fun _ => 0, some 2147483648⟩)).Run
      (reliableGetToEofStart (.other 0), 0) tr (.call s, n) → CountersRight s n := by
  intro hall
  have hreach : (⟨fun _ => 0, some 2147483648⟩ : Incoming).reaches (0 + 2147483648) := by
    intro L hL
    rw [← Option.some.inj hL]
  obtain ⟨tr, s, hrun, -⟩ := eof_reaches _ 0 (.other 0) 2147483648 (le_refl _) hreach
  rw [Nat.zero_add] at hrun
  exact absurd ((countersRight_iff hrun).mp (hall tr s _ hrun)) (by decide)

/-! ## 6. The buffer -/

/-- **The buffer at a `recv`**, at any point of any run below 2^31 bytes: of the sizes 16, 32, 64,
    and so on it has the first with room for another byte. So never more than twice as much is
    allocated as was received, and 16 bytes. -/
theorem getToEof_buffer {S : Incoming} {errno : Errno} {s : RecvState} {n : Nat} {tr : RecvTrace}
    (h : (reliableGetToEof.lts (socket S)).Run (reliableGetToEofStart errno, 0) tr (.call s, n))
    (hn : n < 2147483648) :
    ∃ k, s.res.length = 16 * 2 ^ k ∧ n < 16 * 2 ^ k ∧ ∀ j < k, 16 * 2 ^ j ≤ n := by
  rw [← Nat.zero_add n] at h
  have hgood := eofGood_at_call h hn
  obtain ⟨k, -, hsize⟩ := hgood.doubled
  have hroom := hgood.room
  have htight := hgood.tight
  rw [S.length_slice] at hroom htight
  refine ⟨k, hsize, hsize ▸ hroom, fun j hj => ?_⟩
  -- the size before the last doubling was full
  have hhalf : 16 * 2 ^ (j + 1) ≤ s.res.length := by
    have hpow : 2 ^ (j + 1) ≤ 2 ^ k := Nat.pow_le_pow_right (by omega) hj
    omega
  have hpos : 0 < 2 ^ j := Nat.two_pow_pos j
  rw [pow_succ] at hhalf
  omega

/-- The statement for a stream of which 16 bytes were received. -/
theorem getToEof_buffer_full :
    let S : Incoming := ⟨fun _ => 7, some 16⟩
    ∃ tr s, (reliableGetToEof.lts (socket S)).Run (reliableGetToEofStart (.other 0), 0) tr
        (.call s, 16) ∧
      ∃ k, s.res.length = 16 * 2 ^ k ∧ 16 < 16 * 2 ^ k ∧ ∀ j < k, 16 * 2 ^ j ≤ 16 := by
  intro S
  have hreach : S.reaches (0 + 16) := by
    intro L hL
    rw [← Option.some.inj hL]
  obtain ⟨tr, s, hrun, -⟩ := eof_reaches S 0 (.other 0) 16 (by omega) hreach
  rw [Nat.zero_add] at hrun
  exact ⟨tr, s, hrun, getToEof_buffer hrun (by omega)⟩

end Cse303
