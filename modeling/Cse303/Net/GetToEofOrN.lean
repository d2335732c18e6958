/-
  File:      Cse303/Net/GetToEofOrN.lean
  Subject:   `reliable_get_to_eof_or_n` (net.cc): A FIXED BLOCK OFF THE FRONT OF A STREAM.

  The function reads up to `amnt` bytes into a vector from `pos` on, stepping three counters
  (`next_byte`, `remain`, `total`) by what each `recv` brings; a request is read as a block of fixed
  size by this function, followed by a block of variable size.

  * `OrNGood`, `orNInv_run` -- the three counters in step, and the buffer outside the bytes read
    so far as it was;
  * `orN_contract`, `orN_composes` -- what a returned count promises, and two calls in a row against
    one;
  * `eofDelivers_iff` -- `reliable_get_to_eof` reads the rest of a stream exactly when fewer than
    2^31 bytes are left (GetToEof.lean has the counter that ends this);
  * **`getToEofOrN_iff`** -- so the block and the rest split the stream exactly at the block's end,
    if and only if the stream ends less than 2^31 bytes behind the block.
-/
import Cse303.Net.GetToEof

namespace Cse303

open CInt

/-! ## 1. The code -/

/-- The locals of `reliable_get_to_eof_or_n` at its `recv`, with the vector it writes to. -/
structure OrNState where
  vec : List UInt8
  nextByte : Nat
  remain : Int
  total : Int
  errno : Errno
  deriving DecidableEq, Repr

/-- The `int` returned, and the vector as it is left. -/
abbrev OrNResult := Ret Int × List UInt8

/-- `while (remain)`, and the `return total` behind it. -/
def OrNState.loopTest (s : OrNState) : Control OrNState OrNResult :=
  if s.remain ≠ 0 then .call s else .ret (.quiet s.total, s.vec)

/-- `reliable_get_to_eof_or_n`, from one `recv` to the next. -/
def reliableGetToEofOrN : CallLoop OrNState RecvCall (Answer (List UInt8)) OrNResult where
  call s := ⟨s.nextByte, toSize s.remain⟩
  resume s r :=
    match recvStore s.vec s.nextByte r with
    | none => .wild
    | some vec =>
      let rcd := toInt (recvdBytes r)
      let s' : OrNState := { s with vec := vec, errno := errnoAfter s.errno r }
      if rcd ≤ 0 then
        -- the errno test comes first: a zero behind an EINTR is taken for an EINTR
        if s'.errno ≠ .eintr then
          .ret (if rcd = 0 then .quiet s.total
            else err (-1) [.text "Error in recv(): ", msgFromErrno s'.errno], vec)
        else s'.loopTest
      else
        OrNState.loopTest
          { s' with nextByte := s.nextByte + rcd.toNat, remain := toInt (s.remain - rcd),
                    total := toInt (s.total + rcd) }

/-- A call with the iterator at index `pos` of `vec`. -/
def reliableGetToEofOrNStart (vec : List UInt8) (pos : Nat) (amnt : Int) (errno : Errno) :
    Control OrNState OrNResult :=
  OrNState.loopTest ⟨vec, pos, amnt, 0, errno⟩

/-! ## 2. One answer -/

/-- A failure. -/
theorem resume_orN_error (s : OrNState) (e : Errno) :
    reliableGetToEofOrN.resume s (.error e) =
      if e ≠ .eintr then
        .ret (err (-1) [.text "Error in recv(): ", msgFromErrno e], s.vec)
      else OrNState.loopTest { s with errno := e } := by
  simp only [reliableGetToEofOrN, recvStore, recvdBytes_error, toInt_neg_one, errnoAfter_error]
  rfl

/-- Zero bytes are judged by the `errno` left over. -/
theorem resume_orN_zero (s : OrNState) :
    reliableGetToEofOrN.resume s (.ok []) =
      if s.errno ≠ .eintr then .ret (.quiet s.total, s.vec) else s.loopTest := by
  simp [reliableGetToEofOrN, recvStore, recvdBytes_ok]

/-- **The invariant at a `recv`**, when `got` is what this call received so far. -/
structure OrNGood (vec : List UInt8) (pos amnt : Nat) (got : List UInt8) (s : OrNState) : Prop where
  nextByte : s.nextByte = pos + got.length
  remain : s.remain = amnt - got.length
  total : s.total = got.length
  more : got.length < amnt
  vec : s.vec = patch vec pos got

/-- What a loop test leads to, when `got` was received: the next `recv`, or the return of all
    `amnt` bytes. -/
theorem orN_loopTest (vec got : List UInt8) (pos amnt : Nat) (s : OrNState)
    (hnext : s.nextByte = pos + got.length) (hrem : s.remain = amnt - got.length)
    (htotal : s.total = got.length) (hle : got.length ≤ amnt) (hvec : s.vec = patch vec pos got) :
    (s.loopTest = .call s ∧ OrNGood vec pos amnt got s) ∨
      (s.loopTest = .ret (.quiet amnt, patch vec pos got) ∧ got.length = amnt) := by
  by_cases h : s.remain = 0
  · right
    have hall : got.length = amnt := by omega
    refine ⟨?_, hall⟩
    simp only [OrNState.loopTest, h, ne_eq, not_true, if_false, htotal, hvec, hall]
  · left
    refine ⟨?_, hnext, hrem, htotal, by omega, hvec⟩
    simp only [OrNState.loopTest, ne_eq, h, not_false_eq_true, if_true]

section Good

variable {vec got : List UInt8} {pos amnt : Nat} {s : OrNState} (h : OrNGood vec pos amnt got s)
  (hamnt : amnt < 2147483648)
include h hamnt

/-- The count asked for is what is missing. -/
theorem OrNGood.count_eq : (reliableGetToEofOrN.call s).count + got.length = amnt := by
  have hmore := h.more
  have hrem := h.remain
  have h64 : (toSize s.remain : Int) = s.remain := toSize_of_range (by omega) (by omega)
  show toSize s.remain + got.length = amnt
  omega

omit hamnt in
/-- The loop test of a state in the invariant goes on to the `recv`. -/
theorem OrNGood.loopTest_eq : s.loopTest = .call s := by
  have hmore := h.more
  have hrem := h.remain
  have hne : s.remain ≠ 0 := by omega
  simp only [OrNState.loopTest, ne_eq, hne, not_false_eq_true, if_true]

/-- **The step lemma of `reliable_get_to_eof_or_n`.** -/
theorem OrNGood.resume_bytes {bs : List UInt8} (hfit : pos + amnt ≤ vec.length) (hb : bs ≠ [])
    (hcount : bs.length ≤ (reliableGetToEofOrN.call s).count) :
    (∃ s', reliableGetToEofOrN.resume s (.ok bs) = .call s' ∧ s'.errno = s.errno ∧
        OrNGood vec pos amnt (got ++ bs) s') ∨
      (reliableGetToEofOrN.resume s (.ok bs) = .ret (.quiet amnt, patch vec pos (got ++ bs)) ∧
        (got ++ bs).length = amnt) := by
  have hmore := h.more
  have hsum := h.count_eq hamnt
  have hrem := h.remain
  have htotal := h.total
  have hpos : 0 < bs.length := List.length_pos_iff.mpr hb
  have hgotlen : (got ++ bs).length = got.length + bs.length := List.length_append
  have hrcd : toInt (bs.length : Int) = bs.length := toInt_of_range (by omega) (by omega)
  have hnot : ¬ ((bs.length : Int) ≤ 0) := by omega
  have hst : store s.vec s.nextByte bs = some (patch vec pos (got ++ bs)) := by
    rw [h.nextByte, h.vec, store_inside, patch_patch (by omega)]
    rw [length_patch (by omega)]
    omega
  have hres : reliableGetToEofOrN.resume s (.ok bs) = OrNState.loopTest
      ⟨patch vec pos (got ++ bs), s.nextByte + bs.length, s.remain - bs.length,
        s.total + bs.length, s.errno⟩ := by
    have hr : toInt (s.remain - bs.length) = s.remain - bs.length :=
      toInt_of_range (by omega) (by omega)
    have ht : toInt (s.total + bs.length) = s.total + bs.length :=
      toInt_of_range (by omega) (by omega)
    simp only [reliableGetToEofOrN, recvStore, hst, recvdBytes_ok, hrcd, if_neg hnot, hr, ht,
      errnoAfter_ok, Int.toNat_natCast]
  rw [hres]
  have hnext := h.nextByte
  rcases orN_loopTest vec (got ++ bs) pos amnt
      ⟨patch vec pos (got ++ bs), s.nextByte + bs.length, s.remain - bs.length,
        s.total + bs.length, s.errno⟩
      (by show s.nextByte + bs.length = _; omega) (by show s.remain - bs.length = _; omega)
      (by show s.total + bs.length = _; omega) (by omega) rfl with ⟨hcall, hgood⟩ | hret
  · exact Or.inl ⟨_, hcall, rfl, hgood⟩
  · exact Or.inr hret

end Good

/-! ## 3. Runs on a stream -/

/-- The call reads from stream `S` at position `p` into `vec` from `pos`. -/
abbrev OrNRun (S : Incoming) (p : Nat) (vec : List UInt8) (pos amnt : Nat) (errno : Errno) :
    RecvTrace → Control OrNState OrNResult × Nat → Prop :=
  (reliableGetToEofOrN.lts (socket S)).Run (reliableGetToEofOrNStart vec pos amnt errno, p)

/-- **The invariant of a run that began at position `p`**, `k` bytes into the stream from there. -/
def OrNInv (S : Incoming) (p : Nat) (vec : List UInt8) (pos amnt : Nat) (tr : RecvTrace)
    (x : Control OrNState OrNResult × Nat) : Prop :=
  ∃ k ≤ amnt, x.2 = p + k ∧ S.reaches x.2 ∧
    match x.1 with
    | .call s => OrNGood vec pos amnt (S.slice p k) s
    | .ret (r, v) =>
        v = patch vec pos (S.slice p k) ∧
          (r.val = k ∧ (k < amnt → S.fin = some (p + k)) ∨ r.val = -1 ∧ HardError tr)
    | .threw => False
    | .wild => False

section Run

variable {S : Incoming} {p : Nat} {vec : List UInt8} {pos amnt : Nat}
  (hamnt : amnt < 2147483648) (hfit : pos + amnt ≤ vec.length)
include hamnt hfit

theorem orNInv_step {tr : RecvTrace} {x y : Control OrNState OrNResult × Nat}
    {a : RecvCall × Answer (List UInt8)} (h : OrNInv S p vec pos amnt tr x)
    (hs : (reliableGetToEofOrN.lts (socket S)).step x a y) :
    OrNInv S p vec pos amnt (tr ++ [a]) y := by
  cases hs with
  | @answer s q q' r henv =>
      obtain ⟨k, hk, hq, hreach, hgood⟩ := h
      obtain rfl : q = p + k := hq
      have hgood : OrNGood vec pos amnt (S.slice p k) s := hgood
      have hlen : (S.slice p k).length = k := S.length_slice p k
      cases r with
      | error e =>
          obtain rfl := socket_error.mp henv
          refine ⟨k, hk, rfl, hreach, ?_⟩
          rw [resume_orN_error]
          by_cases he : e = .eintr
          · have hgood' : OrNGood vec pos amnt (S.slice p k) { s with errno := e } :=
              ⟨hgood.nextByte, hgood.remain, hgood.total, hgood.more, hgood.vec⟩
            rw [if_neg (not_not_intro he), hgood'.loopTest_eq]
            exact hgood'
          · rw [if_pos he]
            exact ⟨hgood.vec, Or.inr ⟨rfl, HardError.last he⟩⟩
      | ok bs =>
          obtain ⟨hbs, hcount, rfl, hreach', hend⟩ := socket_ok.mp henv
          have hsum := hgood.count_eq hamnt
          have hmore : S.slice p k ++ bs = S.slice p (k + bs.length) := by
            rw [← S.slice_append, ← hbs]
          refine ⟨k + bs.length, by omega, Nat.add_assoc _ _ _, hreach', ?_⟩
          rcases eq_or_ne bs [] with rfl | hne
          · rw [resume_orN_zero]
            by_cases he : s.errno = .eintr
            · rw [if_neg (not_not_intro he), hgood.loopTest_eq]
              exact hgood
            · rw [if_pos he]
              have hless := hgood.more
              have hfin : S.fin = some (p + k) := (hend rfl).resolve_left (by omega)
              exact ⟨hgood.vec, Or.inl ⟨hgood.total.trans (by rw [hlen]; rfl), fun _ => hfin⟩⟩
          · rcases hgood.resume_bytes hamnt hfit hne hcount with ⟨s', hres, -, hgood'⟩ | ⟨hres, hall⟩
            · rw [hres, ← hmore]
              exact hgood'
            · rw [hres, ← hmore]
              have hk' : k + bs.length = amnt := by
                rw [← hall, List.length_append, hlen]
              exact ⟨rfl, Or.inl ⟨by rw [hk']; rfl, fun hlt => absurd hlt (by omega)⟩⟩

/-- **The run lemma of `reliable_get_to_eof_or_n`.** -/
theorem orNInv_run (hreach : S.reaches p) {errno : Errno} {tr : RecvTrace}
    {y : Control OrNState OrNResult × Nat} (h : OrNRun S p vec pos amnt errno tr y) :
    OrNInv S p vec pos amnt tr y := by
  refine h.traceInvariant ⟨0, Nat.zero_le _, rfl, hreach, ?_⟩
    fun _ _ _ _ _ hinv hs => orNInv_step hamnt hfit hinv hs
  rcases orN_loopTest vec [] pos amnt ⟨vec, pos, amnt, 0, errno⟩ rfl (by simp) rfl (Nat.zero_le _)
    (patch_nil vec pos).symm with ⟨hcall, hgood⟩ | ⟨hret, hall⟩
  · rw [reliableGetToEofOrNStart, hcall]
    exact hgood
  · rw [reliableGetToEofOrNStart, hret]
    have h0 : amnt = 0 := hall.symm
    refine ⟨rfl, Or.inl ⟨by rw [h0]; rfl, fun hlt => absurd hlt (by omega)⟩⟩

/-- What a call that returned a count has read: the next bytes of the stream, fewer than asked for
    only at its end. -/
theorem orN_returned (hreach : S.reaches p) {errno : Errno} {tr : RecvTrace} {r : Ret Int}
    {v : List UInt8} {q : Nat} (h : OrNRun S p vec pos amnt errno tr (.ret (r, v), q))
    (hr : 0 ≤ r.val) :
    ∃ n ≤ amnt, r.val = (n : Int) ∧ v = patch vec pos (S.slice p n) ∧ q = p + n ∧ S.reaches q ∧
      (n < amnt → S.fin = some q) := by
  obtain ⟨k, hk, hq, hreach', hv, hval⟩ := orNInv_run hamnt hfit hreach h
  have hq : q = p + k := hq
  rcases hval with ⟨hval, hend⟩ | ⟨hval, -⟩
  · exact ⟨k, hk, hval, hv, hq, hreach', fun hlt => hq ▸ hend hlt⟩
  · omega

end Run

/-- The bytes a call delivered: `n` of them from `pos`. -/
def delivered (v : List UInt8) (pos : Nat) (n : Int) : List UInt8 := (v.drop pos).take n.toNat

/-! ## 4. One call, and two in a row -/

/-- **What a call on a stream promises** its caller, whose vector holds `amnt` bytes from `pos`. -/
structure OrNContract (S : Incoming) (vec : List UInt8) (pos amnt : Nat) : Prop where
  /-- a count: so many bytes of the stream, in order, and nothing else touched -/
  count : ∀ errno tr r v q, OrNRun S 0 vec pos amnt errno tr (.ret (r, v), q) → 0 ≤ r.val →
    ∃ n ≤ amnt, r.val = (n : Int) ∧ v = patch vec pos (S.slice 0 n) ∧ q = n ∧
      (n < amnt → S.fin = some n)
  /-- no count: -1, behind a failure that is no `EINTR`, and nothing outside the block touched -/
  failed : ∀ errno tr r v q, OrNRun S 0 vec pos amnt errno tr (.ret (r, v), q) → r.val < 0 →
    r.val = -1 ∧ HardError tr ∧ ∃ bs, bs.length ≤ amnt ∧ v = patch vec pos bs
  /-- no `recv` stores outside the block, at any time -/
  inside : ∀ errno tr c q, OrNRun S 0 vec pos amnt errno tr (c, q) →
    c ≠ .wild ∧ c ≠ .threw ∧
      ∀ s, c = .call s → pos ≤ s.nextByte ∧
        s.nextByte + (reliableGetToEofOrN.call s).count ≤ pos + amnt

theorem orN_contract (S : Incoming) {vec : List UInt8} {pos amnt : Nat}
    (hamnt : amnt < 2147483648) (hfit : pos + amnt ≤ vec.length) :
    OrNContract S vec pos amnt := by
  have hreach : S.reaches 0 := fun _ _ => Nat.zero_le _
  refine ⟨fun errno tr r v q hrun hr => ?_, fun errno tr r v q hrun hr => ?_,
    fun errno tr c q hrun => ?_⟩
  · obtain ⟨n, hn, hval, hv, hq, -, hend⟩ := orN_returned hamnt hfit hreach hrun hr
    obtain rfl : q = n := by omega
    exact ⟨q, hn, hval, hv, rfl, hend⟩
  · obtain ⟨k, hk, -, -, hv, hval⟩ := orNInv_run hamnt hfit hreach hrun
    rcases hval with ⟨hval, -⟩ | ⟨hval, hhard⟩
    · omega
    · exact ⟨hval, hhard, S.slice 0 k, by rw [S.length_slice]; exact hk, hv⟩
  · obtain ⟨k, hk, -, -, hinv⟩ := orNInv_run hamnt hfit hreach hrun
    refine ⟨?_, ?_, ?_⟩
    · rintro rfl
      exact hinv
    · rintro rfl
      exact hinv
    · rintro s rfl
      have hgood : OrNGood vec pos amnt (S.slice 0 k) s := hinv
      have hnext := hgood.nextByte
      have hsum := hgood.count_eq hamnt
      omega

/-- A call on stream `S` from position `p` that returned a count. -/
structure OrNCall (S : Incoming) (p amnt : Nat) where
  vec : List UInt8
  pos : Nat
  errno : Errno
  tr : RecvTrace
  res : Ret Int
  /-- the vector as it is left -/
  left : List UInt8
  /-- the position after the call -/
  stop : Nat
  fits : pos + amnt ≤ vec.length
  run : OrNRun S p vec pos amnt errno tr (.ret (res, left), stop)
  counted : 0 ≤ res.val

/-- The bytes the call delivered. -/
def OrNCall.bytes {S : Incoming} {p amnt : Nat} (x : OrNCall S p amnt) : List UInt8 :=
  delivered x.left x.pos x.res.val

/-- **Two calls in a row and one call of both amounts** deliver the same bytes, each of them
    having returned a count. -/
def OrNComposes (S : Incoming) (a : Nat) : Prop :=
  ∀ b, a + b < 2147483648 →
    ∀ (x : OrNCall S 0 a) (y : OrNCall S x.stop b) (z : OrNCall S 0 (a + b)),
      z.res.val = x.res.val + y.res.val ∧ z.stop = y.stop ∧ z.bytes = x.bytes ++ y.bytes

/-- A call that returned a count has delivered that slice of the stream. -/
theorem delivered_patch {S : Incoming} {p n : Nat} {vec : List UInt8} {pos : Nat}
    (hfit : pos + n ≤ vec.length) : delivered (patch vec pos (S.slice p n)) pos n = S.slice p n := by
  have hread : ((patch vec pos (S.slice p n)).drop pos).take (S.slice p n).length = S.slice p n :=
    patch_read (by rw [S.length_slice]; exact hfit)
  rwa [S.length_slice] at hread

/-- What a call that returned a count read and delivered. -/
theorem OrNCall.returned {S : Incoming} {p amnt : Nat} (x : OrNCall S p amnt)
    (hamnt : amnt < 2147483648) (hreach : S.reaches p) :
    ∃ n ≤ amnt, x.res.val = (n : Int) ∧ x.stop = p + n ∧ S.reaches x.stop ∧
      (n < amnt → S.fin = some x.stop) ∧ x.bytes = S.slice p n := by
  obtain ⟨n, hn, hval, hleft, hstop, hreach', hend⟩ :=
    orN_returned hamnt x.fits hreach x.run x.counted
  have hfits := x.fits
  refine ⟨n, hn, hval, hstop, hreach', hend, ?_⟩
  rw [OrNCall.bytes, hleft, hval]
  exact delivered_patch (by omega)

theorem orN_composes (S : Incoming) (a : Nat) : OrNComposes S a := by
  intro b hab x y z
  have hreach : S.reaches 0 := fun _ _ => Nat.zero_le _
  obtain ⟨n₁, hn₁, hval₁, hstop₁, hreach₁, hend₁, hbytes₁⟩ := x.returned (by omega) hreach
  obtain ⟨n₂, hn₂, hval₂, hstop₂, hreach₂, hend₂, hbytes₂⟩ := y.returned (by omega) hreach₁
  obtain ⟨n₃, hn₃, hval₃, hstop₃, hreach₃, hend₃, hbytes₃⟩ := z.returned hab hreach
  -- a short count stands at the end of the stream, and no count reaches past it
  have hsum : n₃ = n₁ + n₂ := by
    rcases Nat.lt_trichotomy n₃ (n₁ + n₂) with hlt | heq | hgt
    · have := hreach₂ _ (hend₃ (by omega))
      omega
    · exact heq
    · rcases Nat.lt_or_ge n₁ a with hless | hfull
      · have := hreach₃ _ (hend₁ hless)
        omega
      · have := hreach₃ _ (hend₂ (by omega))
        omega
  refine ⟨by omega, by omega, ?_⟩
  rw [hbytes₁, hbytes₂, hbytes₃, hstop₁, S.slice_append, hsum]

/-! ## 5. The block, and the rest of the stream -/

/-- **`reliable_get_to_eof` delivers the rest of the stream** from `p`. -/
structure EofDelivers (S : Incoming) (p : Nat) : Prop where
  safe : ∀ errno tr c q, EofRun S p errno tr (c, q) → c ≠ .wild ∧ c ≠ .threw
  rest : ∀ errno tr r q, EofRun S p errno tr (.ret r, q) → ¬ HardError tr →
    p ≤ q ∧ S.fin = some q ∧ r.val = S.slice p (q - p)
  /-- so many answers that are no `EINTR` end the loop -/
  ends : ∃ bound, ∀ errno tr y, EofRun S p errno tr y → tr.length ≤ tr.countP isEintr + bound

/-- What is left of a stream of `L` bytes, and one for the loop itself. -/
def eofMeasure (L : Nat) (x : Control RecvState (Ret (List UInt8)) × Nat) : Nat :=
  if x.1.atCall then L - x.2 + 1 else 0

/-- Every answer that is no `EINTR` takes something off the measure. -/
theorem eofMeasure_step {S : Incoming} {L : Nat} (hL : S.fin = some L)
    {x y : Control RecvState (Ret (List UInt8)) × Nat} {a : RecvCall × Answer (List UInt8)}
    (hs : (reliableGetToEof.lts (socket S)).step x a y) :
    eofMeasure L y + (if isEintr a then 0 else 1) ≤ eofMeasure L x := by
  cases hs with
  | @answer s p p' r henv =>
      have hx : eofMeasure L (.call s, p) = L - p + 1 := rfl
      have hpos : ∀ c : Control RecvState (Ret (List UInt8)), eofMeasure L (c, p') ≤ L - p' + 1 :=
        fun c => by
          unfold eofMeasure
          split
          · exact le_refl _
          · exact Nat.zero_le _
      rw [hx]
      cases r with
      | error e =>
          obtain rfl := socket_error.mp henv
          by_cases he : e = .eintr
          · subst he
            exact hpos _
          · rw [resume_recv_error, if_pos he]
            have hret : ∀ r, eofMeasure L (.ret r, p') = 0 := fun _ => rfl
            rw [hret]
            split <;> omega
      | ok bs =>
          obtain ⟨-, -, rfl, hreach, -⟩ := socket_ok.mp henv
          have hle := hreach L hL
          show _ + 1 ≤ _
          rcases eq_or_ne bs [] with rfl | hne
          · have hdone : eofMeasure L (s.finish, p + ([] : List UInt8).length) = 0 := by
              unfold RecvState.finish
              split <;> rfl
            rw [resume_recv_zero, hdone]
            omega
          · have hlen : 0 < bs.length := List.length_pos_iff.mpr hne
            have := hpos (reliableGetToEof.resume s (.ok bs))
            omega

/-- A stream that ends less than 2^31 bytes further is delivered. -/
theorem eofDelivers_of_lt {S : Incoming} {p L : Nat} (hreach : S.reaches p) (hL : S.fin = some L)
    (hlt : L < p + 2147483648) : EofDelivers S p := by
  refine ⟨fun errno tr c q hrun => ?_, fun errno tr r q hrun hsoft => ?_,
    ⟨L - p + 1, fun errno tr y hrun => ?_⟩⟩
  · have hq : q ≤ L := socket_run_reaches hrun hreach L hL
    obtain ⟨k, hk, hinv⟩ := eofInv_run hrun
    have hk : q = p + k := hk
    refine ⟨?_, ?_⟩
    · rintro rfl
      have hover : 2147483648 ≤ k := hinv
      omega
    · rintro rfl
      have hover : 2147483648 ≤ k := hinv
      omega
  · obtain ⟨k, hk, hinv⟩ := eofInv_run hrun
    obtain rfl : q = p + k := hk
    rcases hinv with ⟨hhard, -⟩ | ⟨hfin, -, hval⟩
    · exact absurd hhard hsoft
    · refine ⟨Nat.le_add_right _ _, hfin, ?_⟩
      rw [Nat.add_sub_cancel_left]
      exact hval
  · have hrank : tr.length + eofMeasure L y ≤
        tr.countP isEintr + eofMeasure L (reliableGetToEofStart errno, p) :=
      hrun.ranked (I := fun _ => True) trivial (fun _ _ _ _ _ => trivial)
        fun _ _ _ _ hs => eofMeasure_step hL hs
    exact le_trans (Nat.le_add_right _ _) hrank

/-- A stream that goes on for 2^31 bytes takes the loop out of its buffer, or into an exception. -/
theorem not_eofDelivers {S : Incoming} {p : Nat} (h : S.reaches (p + 2147483648)) :
    ¬ EofDelivers S p := by
  intro hdel
  obtain ⟨tr, s, hrun, -⟩ := eof_reaches S p (.other 0) 2147483648 (le_refl _) h
  have hover := (eof_at_call hrun).resolve_left fun hgood => absurd hgood.1 (lt_irrefl _)
  obtain ⟨bs, henv⟩ := socket_live h (reliableGetToEof.call s)
  have hsafe := hdel.safe _ _ _ _ (hrun.step (.answer henv))
  rcases eq_or_ne bs [] with rfl | hne
  · exact hsafe.2 hover.2.resume_zero
  · exact hsafe.1 (hover.2.resume_bytes hne)

/-- **`reliable_get_to_eof` delivers exactly the rests shorter than 2^31 bytes.** -/
theorem eofDelivers_iff {S : Incoming} {p : Nat} (hreach : S.reaches p) :
    EofDelivers S p ↔ ∃ L, S.fin = some L ∧ L < p + 2147483648 := by
  refine ⟨fun hdel => ?_, fun ⟨L, hL, hlt⟩ => eofDelivers_of_lt hreach hL hlt⟩
  by_contra hnone
  refine not_eofDelivers (fun L hL => ?_) hdel
  by_contra hge
  exact hnone ⟨L, hL, Nat.lt_of_not_le hge⟩

/-- One byte more of a block, off a stream that has it: the next `recv`, or the last byte. -/
theorem orN_one {S : Incoming} {p k : Nat} {vec : List UInt8} {pos amnt : Nat} {s : OrNState}
    (hamnt : amnt < 2147483648) (hfit : pos + amnt ≤ vec.length)
    (hgood : OrNGood vec pos amnt (S.slice p k) s) (hreach : S.reaches (p + (k + 1))) :
    let a := (reliableGetToEofOrN.call s, Except.ok [S.byte (p + k)])
    (∃ s', (reliableGetToEofOrN.lts (socket S)).step (.call s, p + k) a
          (.call s', p + (k + 1)) ∧ OrNGood vec pos amnt (S.slice p (k + 1)) s') ∨
      (∃ v, (reliableGetToEofOrN.lts (socket S)).step (.call s, p + k) a
          (.ret (.quiet amnt, v), p + (k + 1)) ∧ k + 1 = amnt) := by
  intro a
  have hless := hgood.more
  have hsum := hgood.count_eq hamnt
  rw [S.length_slice] at hsum hless
  have hb : [S.byte (p + k)] ≠ [] := List.cons_ne_nil _ _
  have hone : 0 < (reliableGetToEofOrN.call s).count := by omega
  have henv : socket S (p + k) (reliableGetToEofOrN.call s) (.ok [S.byte (p + k)])
      (p + (k + 1)) := socket_one hreach hone
  have hmore : S.slice p k ++ [S.byte (p + k)] = S.slice p (k + 1) := by
    rw [← S.slice_one, S.slice_append]
  have hstep := CallLoop.Step.answer henv
  rcases hgood.resume_bytes hamnt hfit hb hone with ⟨s', hres, -, hgood'⟩ | ⟨hres, hall⟩
  · rw [hres] at hstep
    exact .inl ⟨s', hstep, hmore ▸ hgood'⟩
  · rw [hres] at hstep
    rw [hmore, S.length_slice] at hall
    exact .inr ⟨_, hstep, hall⟩

/-- A block can be read byte by byte, as far as the stream goes. -/
theorem orN_reaches (S : Incoming) (p : Nat) {vec : List UInt8} {pos amnt : Nat}
    (hamnt : amnt < 2147483648) (hfit : pos + amnt ≤ vec.length) (errno : Errno) :
    ∀ k < amnt, S.reaches (p + k) →
      ∃ tr s, OrNRun S p vec pos amnt errno tr (.call s, p + k) ∧
        OrNGood vec pos amnt (S.slice p k) s ∧ ∀ a ∈ tr, ∃ b, a.2 = .ok [b]
  | 0, hk, _ => by
      rcases orN_loopTest vec [] pos amnt ⟨vec, pos, amnt, 0, errno⟩ rfl (by simp) rfl
        (Nat.zero_le _) (patch_nil vec pos).symm with ⟨hcall, hgood⟩ | ⟨-, hall⟩
      · refine ⟨[], _, ?_, hgood, fun _ hmem => absurd hmem List.not_mem_nil⟩
        rw [OrNRun, reliableGetToEofOrNStart, hcall]
        exact .start
      · exact absurd hall (Nat.ne_of_lt hk)
  | k + 1, hk, hreach => by
      obtain ⟨tr, s, hrun, hgood, hbytes⟩ :=
        orN_reaches S p hamnt hfit errno k (by omega) (S.reaches_mono hreach (by omega))
      obtain ⟨s', hstep, hgood'⟩ | ⟨v, -, hall⟩ := orN_one hamnt hfit hgood hreach
      · refine ⟨_, s', hrun.step hstep, hgood', fun a ha => ?_⟩
        rcases List.mem_append.mp ha with ha | ha
        · exact hbytes a ha
        · exact ⟨_, congrArg Prod.snd (List.mem_singleton.mp ha)⟩
      · exact absurd hall (Nat.ne_of_lt hk)

/-- A stream that is long enough can fill the block. -/
theorem orN_full {S : Incoming} {p : Nat} {vec : List UInt8} {pos amnt : Nat}
    (hamnt : amnt < 2147483648) (hfit : pos + amnt ≤ vec.length) (hreach : S.reaches (p + amnt)) :
    ∃ tr r v, OrNRun S p vec pos amnt (.other 0) tr (.ret (r, v), p + amnt) ∧ r.val = amnt := by
  cases amnt with
  | zero => exact ⟨[], _, _, .start, rfl⟩
  | succ k =>
      obtain ⟨tr, s, hrun, hgood, -⟩ := orN_reaches S p hamnt hfit (.other 0) k
        (Nat.lt_succ_self k) (S.reaches_mono hreach (by omega))
      obtain ⟨s', -, hgood'⟩ | ⟨v, hstep, -⟩ := orN_one hamnt hfit hgood hreach
      · have hless := hgood'.more
        rw [S.length_slice] at hless
        omega
      · exact ⟨_, _, _, hrun.step hstep, rfl⟩

/-- **The block and the rest split the stream** at the end of the block. -/
def OrNSplits (S : Incoming) (vec : List UInt8) (pos amnt : Nat) : Prop :=
  ∀ errno tr r v q, OrNRun S 0 vec pos amnt errno tr (.ret (r, v), q) → 0 ≤ r.val →
    r.val = q ∧ delivered v pos r.val = S.slice 0 q ∧ EofDelivers S q

theorem orNSplits_iff {S : Incoming} {vec : List UInt8} {pos amnt : Nat}
    (hamnt : amnt < 2147483648) (hfit : pos + amnt ≤ vec.length) :
    OrNSplits S vec pos amnt ↔ ∃ L, S.fin = some L ∧ L < amnt + 2147483648 := by
  constructor
  · intro hsplit
    by_cases hshort : ∃ L, S.fin = some L ∧ L < amnt
    · obtain ⟨L, hL, hlt⟩ := hshort
      exact ⟨L, hL, by omega⟩
    · have hreach : S.reaches (0 + amnt) := fun L hL => by
        by_contra hge
        exact hshort ⟨L, hL, by omega⟩
      obtain ⟨tr, r, v, hrun, hval⟩ := orN_full hamnt hfit hreach
      have hdel := (hsplit _ _ _ _ _ hrun (by omega)).2.2
      rw [Nat.zero_add] at hdel hreach
      exact (eofDelivers_iff hreach).mp hdel
  · rintro ⟨L, hL, hlt⟩ errno tr r v q hrun hr
    obtain ⟨n, hn, hval, rfl, hq, hreach, hend⟩ :=
      orN_returned hamnt hfit (fun _ _ => Nat.zero_le _) hrun hr
    obtain rfl : q = n := by omega
    refine ⟨hval, ?_, (eofDelivers_iff hreach).mpr ⟨L, hL, ?_⟩⟩
    · rw [hval]
      exact delivered_patch (by omega)
    · -- a count short of the block stands at the end of the stream
      rcases Nat.lt_or_ge q amnt with hless | hfull
      · have hfin := hend hless
        rw [hL] at hfin
        have := Option.some.inj hfin
        omega
      · omega

/-- **`reliable_get_to_eof_or_n` on a stream**: what a call promises holds, and two calls compose,
    whatever the stream; all of it with the rest read by `reliable_get_to_eof` exactly when the
    stream ends less than 2^31 bytes behind the block. -/
theorem getToEofOrN_iff {S : Incoming} {vec : List UInt8} {pos amnt : Nat}
    (hamnt : amnt < 2147483648) (hfit : pos + amnt ≤ vec.length) :
    (OrNContract S vec pos amnt ∧ OrNComposes S amnt) ∧
      (OrNContract S vec pos amnt ∧ OrNComposes S amnt ∧ OrNSplits S vec pos amnt ↔
        ∃ L, S.fin = some L ∧ L < amnt + 2147483648) := by
  have hone := orN_contract S hamnt hfit
  have htwo := orN_composes S amnt
  refine ⟨⟨hone, htwo⟩, fun h => (orNSplits_iff hamnt hfit).mp h.2.2, fun h => ?_⟩
  exact ⟨hone, htwo, (orNSplits_iff hamnt hfit).mpr h⟩

/-- The statement for a block of 256 bytes off a stream of 300. -/
theorem getToEofOrN_block :
    let S : Incoming := ⟨fun i => i.toUInt8, some 300⟩
    let vec := List.replicate 256 (0 : UInt8)
    (OrNContract S vec 0 256 ∧ OrNComposes S 256) ∧
      (OrNContract S vec 0 256 ∧ OrNComposes S 256 ∧ OrNSplits S vec 0 256 ↔
        ∃ L, S.fin = some L ∧ L < 256 + 2147483648) :=
  getToEofOrN_iff (by omega) (by rw [List.length_replicate])

/-- The stream behind an empty block, 2^31 bytes long, is not delivered. -/
theorem getToEofOrN_rest_lost :
    let S : Incoming := ⟨fun _ => 0, some 2147483648⟩
    ¬ (OrNContract S [] 0 0 ∧ OrNComposes S 0 ∧ OrNSplits S [] 0 0) := by
  rintro S ⟨-, -, hsplit⟩
  obtain ⟨L, hL, hlt⟩ := (orNSplits_iff (by omega) (le_refl _)).mp hsplit
  have hfin : 2147483648 = L := Option.some.inj hL
  omega

end Cse303
