/-
  File:      Cse303/Net/Send.lean
  Subject:   `reliable_send` AND `send_reliably` (net.cc): WHEN THE WHOLE MESSAGE IS SENT.

  `send_reliably` passes the length of a vector or string, a `size_t`, as the `int len` of
  `reliable_send`, whose loop runs while the `int remain` is not zero and hands it back to `send`
  as a `size_t`.

  * `SendInv`, `sendInv_run` -- for a length below 2^31 the loop's invariant: what was accepted and
    what remains make up the message;
  * `oneByteSends` -- for ANY length, a socket that takes one byte at a time makes the loop return
    true after `length % 2^32` bytes;
  * **`sendReliably_exact_iff`** -- so "true means the whole message, false a proper part of it, and
    no call reads past its end" holds of a message exactly when it is shorter than 2^31 bytes.
-/
import Cse303.Net.Socket
import Mathlib.Data.List.Range

namespace Cse303

open CInt

/-! ## 1. The code -/

/-- The locals of `reliable_send` at its `send`: `next_byte` counts from `bytes`. -/
structure SendState where
  nextByte : Nat
  remain : Int
  errno : Errno
  deriving DecidableEq, Repr

/-- `while (remain)`, and the `return true` behind it. -/
def SendState.loopTest (s : SendState) : Control SendState (Ret Bool) :=
  if s.remain ≠ 0 then .call s else .ret (.quiet true)

/-- `reliable_send`, from one `send` to the next. -/
def reliableSend : CallLoop SendState SendCall (Answer Nat) (Ret Bool) where
  call s := ⟨s.nextByte, toSize s.remain⟩
  resume s r :=
    let sent := toInt (sentBytes r)
    let errno := errnoAfter s.errno r
    if sent ≤ 0 then
      -- only EINTR is taken for recoverable, also after a send of zero bytes
      if errno ≠ .eintr then
        .ret (err false [.text "Error in send(): ", msgFromErrno errno])
      else
        SendState.loopTest { s with errno := errno }
    else
      SendState.loopTest ⟨s.nextByte + sent.toNat, toInt (s.remain - sent), errno⟩

/-- A call of `reliable_send(sd, bytes, len)`, up to its first `send`. -/
def reliableSendStart (len : Int) (errno : Errno) : Control SendState (Ret Bool) :=
  SendState.loopTest ⟨0, len, errno⟩

/-- What `send_reliably` is overloaded for. -/
inductive Msg where
  | vec (msg : List UInt8)
  | str (msg : List UInt8)
  deriving DecidableEq, Repr

/-- The bytes of the message. -/
def Msg.bytes : Msg → List UInt8
  | .vec msg => msg
  | .str msg => msg

/-- The memory behind the pointer that is passed: a string's `c_str()` ends in a NUL. -/
def Msg.memory : Msg → List UInt8
  | .vec msg => msg
  | .str msg => msg ++ [0]

/-- `msg.size()` and `msg.length()`. -/
def Msg.size (m : Msg) : Nat := m.bytes.length

/-- `send_reliably(sd, msg)`: the `size_t` becomes the `int len`. -/
def sendReliably (m : Msg) (errno : Errno) : Control SendState (Ret Bool) :=
  match m with
  | .vec msg => reliableSendStart (toInt msg.length) errno
  | .str msg => reliableSendStart (toInt msg.length) errno

theorem sendReliably_eq (m : Msg) (errno : Errno) :
    sendReliably m errno = reliableSendStart (toInt m.size) errno := by
  cases m <;> rfl

/-! ## 2. One answer -/

theorem loopTest_zero {s : SendState} (h : s.remain = 0) :
    s.loopTest = .ret (.quiet true) := by
  simp [SendState.loopTest, h]

theorem loopTest_pos {s : SendState} (h : s.remain ≠ 0) : s.loopTest = .call s := by
  simp [SendState.loopTest, h]

/-- A transfer of `n` bytes. -/
theorem resume_sent {s : SendState} {n : Nat} (h0 : 0 < n) (hn : n < 2147483648) :
    reliableSend.resume s (.ok n) =
      SendState.loopTest ⟨s.nextByte + n, toInt (s.remain - n), s.errno⟩ := by
  have hs : toInt (n : Int) = n := toInt_of_range (by omega) (by omega)
  have hpos : ¬ ((n : Int) ≤ 0) := by omega
  simp only [reliableSend, sentBytes, hs, if_neg hpos, errnoAfter_ok, Int.toNat_natCast]

/-- A transfer of no bytes is judged by the `errno` left over. -/
theorem resume_sent_zero (s : SendState) :
    reliableSend.resume s (.ok 0) =
      if s.errno ≠ .eintr then
        .ret (err false [.text "Error in send(): ", msgFromErrno s.errno])
      else s.loopTest := by
  have hz : toInt (sentBytes (.ok 0)) ≤ 0 := by simp [sentBytes]
  simp only [reliableSend, if_pos hz, errnoAfter_ok]
  rfl

/-- A failure. -/
theorem resume_send_error (s : SendState) (e : Errno) :
    reliableSend.resume s (.error e) =
      if e ≠ .eintr then .ret (err false [.text "Error in send(): ", msgFromErrno e])
      else SendState.loopTest { s with errno := e } := by
  have hz : toInt (sentBytes (.error e)) ≤ 0 := by simp [sentBytes]
  simp only [reliableSend, if_pos hz, errnoAfter_error]
  rfl

/-- **A transfer while the `int` still is the length**: what was accepted comes off it, and none of
    it lies past it. -/
theorem resume_within {s : SendState} {n : Nat} (h0 : 0 < s.remain) (hlt : s.remain < 2147483648)
    (hn : 0 < n) (hcount : n ≤ (reliableSend.call s).count) :
    (n : Int) ≤ s.remain ∧
      reliableSend.resume s (.ok n) =
        SendState.loopTest ⟨s.nextByte + n, s.remain - n, s.errno⟩ := by
  have h64 : (toSize s.remain : Int) = s.remain := toSize_of_range (by omega) (by omega)
  have hle : n ≤ toSize s.remain := hcount
  have hrem : toInt (s.remain - n) = s.remain - n := toInt_of_range (by omega) (by omega)
  refine ⟨by omega, ?_⟩
  rw [resume_sent hn (by omega), hrem]

/-! ## 3. The invariant below 2^31 -/

/-- **The invariant of the loop** over a message of `size` bytes, with the positions accepted. -/
def SendInv (size : Nat) : Control SendState (Ret Bool) × List Nat → Prop
  | (.call s, acc) => 0 < s.remain ∧ s.nextByte + s.remain = size ∧ acc = List.range s.nextByte
  | (.ret r, acc) =>
      (r.val = true → acc = List.range size) ∧ (r.val = false → ∃ k < size, acc = List.range k)
  | (.threw, _) => False
  | (.wild, _) => False

/-- The loop test keeps the invariant: nothing remaining means everything accepted. -/
theorem sendInv_loopTest {size : Nat} {s : SendState} (h0 : 0 ≤ s.remain)
    (hsum : s.nextByte + s.remain = size) :
    SendInv size (s.loopTest, List.range s.nextByte) := by
  by_cases h : s.remain = 0
  · rw [loopTest_zero h]
    refine ⟨fun _ => ?_, (nomatch ·)⟩
    congr 1
    omega
  · rw [loopTest_pos h]
    exact ⟨by omega, hsum, rfl⟩

/-- A `return false` in the loop leaves a proper part of the message accepted. -/
theorem sendInv_err {size : Nat} {s : SendState} {acc : List Nat} {msgs : List Piece}
    (h : SendInv size (.call s, acc)) : SendInv size (.ret (err false msgs), acc) := by
  obtain ⟨hpos, hsum, hacc⟩ := h
  exact ⟨(nomatch ·), fun _ => ⟨s.nextByte, by omega, hacc⟩⟩

theorem range_extend (k n : Nat) : List.range k ++ List.range' k n = List.range (k + n) := by
  rw [List.range_eq_range', List.range_eq_range', ← List.range'_append_1, Nat.zero_add]

/-- **The step lemma of `reliable_send`.** -/
theorem sendInv_step {size : Nat} (hsize : size < 2147483648)
    {x y : Control SendState (Ret Bool) × List Nat} {a : SendCall × Answer Nat}
    (h : SendInv size x) (hs : (reliableSend.lts sink).step x a y) : SendInv size y := by
  cases hs with
  | @answer s acc acc' r henv =>
      have hinv := h
      obtain ⟨hpos, hsum, hacc⟩ := h
      cases r with
      | ok n =>
          obtain ⟨hle, -, rfl⟩ := sink_ok.mp henv
          rcases Nat.eq_zero_or_pos n with rfl | hn0
          · rw [resume_sent_zero]
            have hacc' : acc ++ List.range' (reliableSend.call s).offset 0 = acc := by simp
            rw [hacc']
            split
            · exact sendInv_err hinv
            · rw [loopTest_pos (by omega)]
              exact hinv
          · obtain ⟨hn, hres⟩ := resume_within hpos (by omega) hn0 hle
            rw [hres, hacc]
            show SendInv size (_, List.range s.nextByte ++ List.range' s.nextByte n)
            rw [range_extend]
            exact sendInv_loopTest (s := ⟨s.nextByte + n, s.remain - n, s.errno⟩)
              (by show 0 ≤ s.remain - n; omega)
              (by show ((s.nextByte + n : Nat) : Int) + (s.remain - n) = size; omega)
      | error e =>
          obtain rfl := sink_error.mp henv
          rw [resume_send_error]
          split
          · exact sendInv_err hinv
          · rw [loopTest_pos (by show s.remain ≠ 0; omega)]
            exact ⟨hpos, hsum, hacc⟩

/-- **The run lemma of `reliable_send`.** -/
theorem sendInv_run {size : Nat} (hsize : size < 2147483648) {errno : Errno}
    {tr : List (SendCall × Answer Nat)} {y : Control SendState (Ret Bool) × List Nat}
    (h : (reliableSend.lts sink).Run (reliableSendStart size errno, []) tr y) :
    SendInv size y := by
  refine h.invariant (I := SendInv size) ?_ fun _ _ _ => sendInv_step hsize
  exact sendInv_loopTest (s := ⟨0, size, errno⟩) (Int.natCast_nonneg size) (Int.zero_add _)

/-! ## 4. Any length, one byte at a time -/

/-- **A socket that takes single bytes** makes the loop return true as soon as the `int` is back at
    zero, whatever the true length was. -/
theorem oneByteSends (errno : Errno) : ∀ (k p : Nat), k < 4294967296 →
    ∃ tr, (reliableSend.lts sink).Run
      (SendState.loopTest ⟨p, toInt k, errno⟩, List.range p) tr
      (.ret (.quiet true), List.range (p + k))
  | 0, p, _ => by
      have hz : toInt (0 : Nat) = 0 := toInt_zero
      rw [hz, loopTest_zero rfl]
      exact ⟨[], .start⟩
  | k + 1, p, hk => by
      have hne : toInt (k + 1 : Nat) ≠ 0 := toInt_ne_zero (Nat.succ_pos k) hk
      obtain ⟨tr, htr⟩ := oneByteSends errno k (p + 1) (by omega)
      have hstep : (reliableSend.lts sink).step
          (.call ⟨p, toInt (k + 1 : Nat), errno⟩, List.range p)
          (⟨p, toSize (toInt (k + 1 : Nat))⟩, .ok 1)
          (SendState.loopTest ⟨p + 1, toInt k, errno⟩, List.range (p + 1)) := by
        have hrem : toInt (toInt (k + 1 : Nat) - 1) = toInt k := by
          rw [toInt_toInt_sub]
          congr 1
          omega
        have hres := resume_sent (s := ⟨p, toInt (k + 1 : Nat), errno⟩) (n := 1)
          (by omega) (by omega)
        rw [show ((1 : Nat) : Int) = 1 from rfl, hrem] at hres
        rw [← hres]
        exact .answer (sink_ok.mpr ⟨toSize_toInt_pos hne, by omega, (range_extend p 1).symm⟩)
      rw [loopTest_pos hne, show p + (k + 1) = p + 1 + k by omega]
      exact ⟨_, (Lts.Run.single hstep).trans htr⟩

/-! ## 5. The message is sent exactly -/

/-- **What a caller of `send_reliably` is told**, over every sequence of `send` results: true only
    for the whole message, each byte once and in order; false for a proper part of it; and no
    `send` is asked to read past its end. -/
structure SendsExactly (m : Msg) : Prop where
  whole : ∀ errno tr r acc,
    (reliableSend.lts sink).Run (sendReliably m errno, []) tr (.ret r, acc) →
      r.val = true → acc = List.range m.size
  stopped : ∀ errno tr r acc,
    (reliableSend.lts sink).Run (sendReliably m errno, []) tr (.ret r, acc) →
      r.val = false → ∃ k < m.size, acc = List.range k
  inside : ∀ errno tr s acc,
    (reliableSend.lts sink).Run (sendReliably m errno, []) tr (.call s, acc) →
      (reliableSend.call s).offset + (reliableSend.call s).count ≤ m.size

/-- Below 2^31 the message is sent exactly. -/
theorem sendsExactly_of_lt {m : Msg} (h : m.size < 2147483648) : SendsExactly m := by
  have hstart : ∀ errno, sendReliably m errno = reliableSendStart m.size errno := fun errno => by
    rw [sendReliably_eq, toInt_of_range (by omega) (by omega)]
  refine ⟨fun errno tr r acc hrun => ?_, fun errno tr r acc hrun => ?_,
    fun errno tr s acc hrun => ?_⟩
  · rw [hstart] at hrun
    exact (sendInv_run h hrun).1
  · rw [hstart] at hrun
    exact (sendInv_run h hrun).2
  · rw [hstart] at hrun
    obtain ⟨hpos, hsum, -⟩ := sendInv_run h hrun
    have hcount : (toSize s.remain : Int) = s.remain := toSize_of_range (by omega) (by omega)
    show s.nextByte + toSize s.remain ≤ m.size
    omega

/-- From 2^32 bytes on, a true can come back for a part of the message. -/
theorem lt_of_sendsExactly {m : Msg} (h : SendsExactly m) : m.size < 4294967296 := by
  have hlt : m.size % 4294967296 < 4294967296 := Nat.mod_lt _ (by omega)
  have hrem : toInt (m.size % 4294967296 : Nat) = toInt m.size := by
    unfold toInt
    omega
  obtain ⟨tr, htr⟩ := oneByteSends (.other 0) (m.size % 4294967296) 0 hlt
  rw [hrem, Nat.zero_add] at htr
  have hrun : (reliableSend.lts sink).Run (sendReliably m (.other 0), []) tr
      (.ret (.quiet true), List.range (m.size % 4294967296)) := by
    rw [sendReliably_eq]
    exact htr
  have hwhole := h.whole _ _ _ _ hrun rfl
  have hlen := congrArg List.length hwhole
  rw [List.length_range, List.length_range] at hlen
  omega

/-- **`send_reliably` sends exactly the messages shorter than 2^31 bytes.** -/
theorem sendReliably_exact_iff (m : Msg) : SendsExactly m ↔ m.size < 2147483648 := by
  refine ⟨fun h => ?_, sendsExactly_of_lt⟩
  have h32 := lt_of_sendsExactly h
  refine Classical.byContradiction fun hge => ?_
  -- between 2^31 and 2^32 the int is negative and the first send asks for nearly 2^64 bytes
  have hneg : toInt m.size = m.size - 4294967296 := by
    unfold toInt
    omega
  have hne : toInt m.size ≠ 0 := by omega
  have hrun : (reliableSend.lts sink).Run (sendReliably m (.other 0), []) []
      (.call ⟨0, toInt m.size, .other 0⟩, []) := by
    rw [sendReliably_eq, reliableSendStart, loopTest_pos hne]
    exact .start
  have hin := h.inside _ _ _ _ hrun
  have hcount := toSize_of_neg (x := toInt m.size) (by omega) (by omega)
  have hcall : 0 + toSize (toInt m.size) ≤ m.size := hin
  omega

/-- A vector of 2^32 bytes is reported as sent with no byte on the wire. -/
theorem sendReliably_not_exact : ¬ SendsExactly (.vec (List.replicate 4294967296 0)) := by
  intro h
  have hsize : (Msg.vec (List.replicate 4294967296 0)).size = 4294967296 :=
    List.length_replicate
  have hzero : toInt (4294967296 : Nat) = 0 := by
    unfold toInt
    omega
  have hrun : (reliableSend.lts sink).Run
      (sendReliably (.vec (List.replicate 4294967296 0)) (.other 0), []) []
      (.ret (.quiet true), []) := by
    rw [sendReliably_eq, hsize, hzero]
    exact .start
  have hwhole := h.whole _ _ _ _ hrun rfl
  rw [hsize] at hwhole
  have hlen := congrArg List.length hwhole
  rw [List.length_range] at hlen
  exact absurd hlen (by decide)

end Cse303
