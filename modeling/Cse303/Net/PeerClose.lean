/-
  File:      Cse303/Net/PeerClose.lean
  Subject:   THE PEER CLOSES (net.cc): A RESULT OF ZERO, AND THE `errno` IT IS JUDGED BY.

  A `recv` of zero bytes means that the peer has closed, and so, for the code, does a `send` of
  zero. Neither sets `errno`; `reliable_get_to_eof_or_n` and `reliable_send` ask for `EINTR` first
  all the same, and `reliable_get_to_eof` asks for the zero first.

  * `errno_at_call` -- at every call `errno` is what was left over on entry, or the last failure's;
  * `orN_close`, `send_close`, `toEof_close` -- per loop, when the first zero ends it;
  * **`peerClose_iff`** -- the two loops end on the zero exactly when `errno` was not `EINTR` on entry
    and no call before it was interrupted, and go round for ever otherwise; the third always
    ends, up to the 2^31 bytes its counter holds.
-/
import Cse303.Net.GetToEofOrN
import Cse303.Net.Send

namespace Cse303

open CInt

/-! ## 1. Histories -/

/-- Partial transfers and interruptions only: no transfer was the empty one, and no failure another
    than `EINTR`. -/
def History {κ α : Type} (empty : α) (tr : List (κ × Answer α)) : Prop :=
  ∀ a ∈ tr, a.2 ≠ .ok empty ∧ ∀ e, a.2 = .error e → e = .eintr

/-- `errno` was not `EINTR` on entry, and no call was interrupted. -/
def NeverEintr {κ α : Type} (errno : Errno) (tr : List (κ × Answer α)) : Prop :=
  errno ≠ .eintr ∧ ∀ a ∈ tr, a.2 ≠ .error .eintr

/-- **The first empty transfer ends the loop**, with result `w`; and the loop does not go on
    through any number of them. -/
def EndsWith {σ κ ρ ω : Type} (P : CallLoop σ κ ρ ω) (s : σ) (zero : ρ) (w : ω) : Prop :=
  P.resume s zero = .ret w ∧ P.Ends (.call s) zero

/-- After failures that were all interruptions, `errno` is `EINTR` if it ever was. -/
theorem foldl_errnoAfter {κ α : Type} {empty : α} {tr : List (κ × Answer α)} :
    ∀ {errno : Errno}, History empty tr →
      ((tr.map Prod.snd).foldl errnoAfter errno ≠ .eintr ↔ NeverEintr errno tr) := by
  induction tr with
  | nil =>
      intro errno _
      exact ⟨fun h => ⟨h, fun _ hmem => absurd hmem List.not_mem_nil⟩, fun h => h.1⟩
  | cons a tr ih =>
      intro errno hh
      obtain ⟨call, r⟩ := a
      have htail : History empty tr := fun a ha => hh a (List.mem_cons_of_mem _ ha)
      show (tr.map Prod.snd).foldl errnoAfter (errnoAfter errno r) ≠ .eintr ↔ _
      rw [ih htail]
      cases r with
      | ok x =>
          constructor
          · intro h
            refine ⟨h.1, fun a ha => ?_⟩
            rcases List.mem_cons.mp ha with rfl | ha
            · exact fun h' => nomatch h'
            · exact h.2 a ha
          · intro h
            exact ⟨h.1, fun a ha => h.2 a (List.mem_cons_of_mem _ ha)⟩
      | error e =>
          have he : e = .eintr := (hh _ List.mem_cons_self).2 e rfl
          subst he
          constructor
          · intro h
            exact absurd rfl h.1
          · intro h
            exact absurd rfl (h.2 _ List.mem_cons_self)

/-- **`errno` at a call**, for a loop that keeps in `f` what its calls left there. -/
theorem errno_at_call {σ κ α ω ε : Type} {P : CallLoop σ κ (Answer α) ω} {E : Env ε κ (Answer α)}
    {f : σ → Errno} (hf : ∀ s r s', P.resume s r = .call s' → f s' = errnoAfter (f s) r)
    {errno : Errno} {empty : α} {c : Control σ ω} {e₀ e : ε} {tr : List (κ × Answer α)} {s : σ}
    (h0 : ∀ s, c = .call s → f s = errno) (h : (P.lts E).Run (c, e₀) tr (.call s, e))
    (hh : History empty tr) : f s ≠ .eintr ↔ NeverEintr errno tr := by
  rw [P.carried hf h h0 s rfl]
  exact foldl_errnoAfter hh

/-- Where the empty transfer ends the loop unless `errno` is `EINTR`, and changes nothing if it is. -/
theorem endsWith_iff {σ κ ρ ω : Type} {P : CallLoop σ κ ρ ω} {s : σ} {zero : ρ} {w : ω}
    {errno : Errno} (h : P.resume s zero = if errno ≠ .eintr then .ret w else .call s) :
    EndsWith P s zero w ↔ errno ≠ .eintr := by
  have hends := CallLoop.ends_iff h
  constructor
  · intro hend
    exact hends.mp hend.2
  · intro hne
    exact ⟨h.trans (if_pos hne), hends.mpr hne⟩

/-! ## 2. `reliable_get_to_eof_or_n` -/

theorem OrNState.loopTest_call {s s' : OrNState} (h : s.loopTest = .call s') :
    s' = s ∧ s.remain ≠ 0 := by
  unfold OrNState.loopTest at h
  split at h
  · rename_i hne
    cases h
    exact ⟨rfl, hne⟩
  · cases h

/-- Only a failure changes `errno`. -/
theorem orN_errno (s : OrNState) (r : Answer (List UInt8)) (s' : OrNState)
    (h : reliableGetToEofOrN.resume s r = .call s') : s'.errno = errnoAfter s.errno r := by
  simp only [reliableGetToEofOrN] at h
  split at h
  · cases h
  · split at h
    · split at h
      · cases h
      · obtain ⟨rfl, -⟩ := OrNState.loopTest_call h
        rfl
    · obtain ⟨rfl, -⟩ := OrNState.loopTest_call h
      rfl

/-- When the zero ends `reliable_get_to_eof_or_n`. -/
theorem orN_close {S : Incoming} {vec : List UInt8} {pos amnt n : Nat} {errno : Errno}
    {tr : RecvTrace} {s : OrNState} (hamnt : amnt < 2147483648) (hfit : pos + amnt ≤ vec.length)
    (h : OrNRun S 0 vec pos amnt errno tr (.call s, n)) (hh : History [] tr) :
    EndsWith reliableGetToEofOrN s (.ok []) (.quiet n, patch vec pos (S.slice 0 n)) ↔
      NeverEintr errno tr := by
  obtain ⟨k, -, hk, -, hinv⟩ := orNInv_run hamnt hfit (fun _ _ => Nat.zero_le _) h
  obtain rfl : n = k := hk.trans (Nat.zero_add k)
  have hgood : OrNGood vec pos amnt (S.slice 0 n) s := hinv
  have htotal : s.total = n := hgood.total.trans (congrArg Nat.cast (S.length_slice 0 n))
  have hzero := resume_orN_zero s
  rw [hgood.loopTest_eq, htotal, hgood.vec] at hzero
  rw [endsWith_iff hzero]
  refine errno_at_call orN_errno (fun s₀ h₀ => ?_) h hh
  obtain ⟨rfl, -⟩ := OrNState.loopTest_call h₀
  rfl

/-! ## 3. `reliable_send` -/

theorem SendState.loopTest_call {s s' : SendState} (h : s.loopTest = .call s') :
    s' = s ∧ s.remain ≠ 0 := by
  unfold SendState.loopTest at h
  split at h
  · rename_i hne
    cases h
    exact ⟨rfl, hne⟩
  · cases h

/-- Only a failure changes `errno`, and a `send` is made only with something remaining. -/
theorem send_errno (s : SendState) (r : Answer Nat) (s' : SendState)
    (h : reliableSend.resume s r = .call s') :
    s'.errno = errnoAfter s.errno r ∧ s'.remain ≠ 0 := by
  simp only [reliableSend] at h
  split at h
  · split at h
    · cases h
    · obtain ⟨rfl, hne⟩ := SendState.loopTest_call h
      exact ⟨rfl, hne⟩
  · obtain ⟨rfl, hne⟩ := SendState.loopTest_call h
    exact ⟨rfl, hne⟩

/-- When the zero ends `reliable_send`, whatever length it was called with. -/
theorem send_close {len : Int} {errno : Errno} {tr : List (SendCall × Answer Nat)} {s : SendState}
    {acc : List Nat} (h : (reliableSend.lts sink).Run (reliableSendStart len errno, []) tr
      (.call s, acc)) (hh : History 0 tr) :
    (∃ r, r.val = false ∧ EndsWith reliableSend s (.ok 0) r) ↔ NeverEintr errno tr := by
  have hstart : ∀ s₀, reliableSendStart len errno = .call s₀ →
      s₀.errno = errno ∧ s₀.remain ≠ 0 := by
    intro s₀ h₀
    obtain ⟨rfl, hne⟩ := SendState.loopTest_call h₀
    exact ⟨rfl, hne⟩
  have hne : s.remain ≠ 0 :=
    CallLoop.atCalls (fun s r s' hs => (send_errno s r s' hs).2) h (fun s₀ h₀ => (hstart s₀ h₀).2)
      s rfl
  have herrno : s.errno ≠ .eintr ↔ NeverEintr errno tr :=
    errno_at_call (fun s r s' hs => (send_errno s r s' hs).1) (fun s₀ h₀ => (hstart s₀ h₀).1) h hh
  have hzero := resume_sent_zero s
  rw [loopTest_pos hne] at hzero
  rw [← herrno]
  constructor
  · rintro ⟨r, -, hend⟩
    exact (CallLoop.ends_iff hzero).mp hend.2
  · intro he
    exact ⟨_, rfl, (endsWith_iff hzero).mpr he⟩

/-! ## 4. `reliable_get_to_eof`, and all three -/

/-- When the zero ends `reliable_get_to_eof`: `errno` has no part in it. -/
theorem toEof_close {S : Incoming} {n : Nat} {errno : Errno} {tr : RecvTrace} {s : RecvState}
    (h : EofRun S 0 errno tr (.call s, n)) :
    EndsWith reliableGetToEof s (.ok []) (.quiet (S.slice 0 n)) ↔ n < 2147483648 := by
  rw [← Nat.zero_add n] at h
  rcases eof_at_call h with ⟨hlt, hgood⟩ | ⟨hn, hover⟩
  · have hret := hgood.resume_zero
    exact ⟨fun _ => hlt, fun _ => ⟨hret, CallLoop.ends_of_ret hret⟩⟩
  · constructor
    · intro hend
      have hres := hend.1
      rw [hover.resume_zero] at hres
      cases hres
    · intro hlt
      exact absurd hn (Nat.ne_of_lt hlt)

/-- **THE PEER CLOSES**: after any history of partial transfers and interruptions, the first zero
    ends `reliable_get_to_eof_or_n` with the count so far, and `reliable_send` with false, exactly
    when `errno` was never `EINTR`; it ends `reliable_get_to_eof` with the bytes so far exactly
    when they are fewer than 2^31. -/
theorem peerClose_iff (errno : Errno) :
    (∀ S vec pos amnt tr s n, amnt < 2147483648 → pos + amnt ≤ vec.length →
        OrNRun S 0 vec pos amnt errno tr (.call s, n) → History [] tr →
        (EndsWith reliableGetToEofOrN s (.ok []) (.quiet n, patch vec pos (S.slice 0 n)) ↔
          NeverEintr errno tr)) ∧
      (∀ len tr s acc,
        (reliableSend.lts sink).Run (reliableSendStart len errno, []) tr (.call s, acc) →
        History 0 tr →
        ((∃ r, r.val = false ∧ EndsWith reliableSend s (.ok 0) r) ↔ NeverEintr errno tr)) ∧
      ∀ S tr s n, EofRun S 0 errno tr (.call s, n) → History [] tr →
        (EndsWith reliableGetToEof s (.ok []) (.quiet (S.slice 0 n)) ↔ n < 2147483648) := by
  refine ⟨?_, ?_, ?_⟩
  · intro S vec pos amnt tr s n hamnt hfit h hh
    exact orN_close hamnt hfit h hh
  · intro len tr s acc h hh
    exact send_close h hh
  · intro S tr s n h _
    exact toEof_close h

/-- Bytes that came one by one. -/
theorem history_bytes {κ : Type} {tr : List (κ × Answer (List UInt8))}
    (h : ∀ a ∈ tr, ∃ b, a.2 = .ok [b]) {errno : Errno} (he : errno ≠ .eintr) :
    History [] tr ∧ NeverEintr errno tr := by
  refine ⟨fun a ha => ?_, he, fun a ha => ?_⟩
  · obtain ⟨b, hb⟩ := h a ha
    rw [hb]
    exact ⟨fun h' => List.cons_ne_nil b [] (Except.ok.inj h'), fun e h' => by cases h'⟩
  · obtain ⟨b, hb⟩ := h a ha
    rw [hb]
    exact fun h' => by cases h'

/-- One interruption. -/
theorem history_eintr {κ α : Type} (empty : α) (call : κ) :
    History empty [(call, (.error .eintr : Answer α))] := by
  intro a ha
  obtain rfl := List.mem_singleton.mp ha
  refine ⟨?_, ?_⟩
  · intro h
    cases h
  · intro e he
    exact (Except.error.inj he).symm

/-- The three statements behind partial transfers: three bytes of a block of five, one of the two
    bytes of a message, and twenty bytes of a stream. -/
theorem peerClose_first :
    let S : Incoming := ⟨fun _ => 7, some 3⟩
    let S' : Incoming := ⟨fun _ => 7, some 20⟩
    (∃ tr s, OrNRun S 0 (List.replicate 5 0) 0 5 (.other 0) tr (.call s, 3) ∧
        EndsWith reliableGetToEofOrN s (.ok [])
          (.quiet (3 : Nat), patch (List.replicate 5 0) 0 (S.slice 0 3))) ∧
      (∃ tr s, (reliableSend.lts sink).Run (reliableSendStart 2 (.other 0), []) tr (.call s, [0]) ∧
        ∃ r, r.val = false ∧ EndsWith reliableSend s (.ok 0) r) ∧
      ∃ tr s, EofRun S' 0 (.other 0) tr (.call s, 20) ∧
        EndsWith reliableGetToEof s (.ok []) (.quiet (S'.slice 0 20)) := by
  intro S S'
  have hother : Errno.other 0 ≠ .eintr := by decide
  refine ⟨?_, ?_, ?_⟩
  · have hreach : S.reaches (0 + 3) := by
      intro L hL
      rw [← Option.some.inj hL]
    obtain ⟨tr, s, hrun, -, hbytes⟩ :=
      @orN_reaches S 0 (List.replicate 5 0) 0 5 (by decide) (by decide) (.other 0) 3 (by decide)
        hreach
    obtain ⟨hh, hnever⟩ := history_bytes hbytes hother
    exact ⟨tr, s, hrun, ((peerClose_iff _).1 S _ 0 5 tr s 3 (by decide) (by decide) hrun hh).mpr
      hnever⟩
  · have hone : sink [] (reliableSend.call ⟨0, 2, .other 0⟩) (.ok 1) [0] := by
      have hsize : (toSize 2 : Int) = 2 := toSize_of_range (by omega) (by omega)
      have hcount : 1 ≤ toSize 2 := by omega
      exact sink_ok.mpr ⟨hcount, by omega, rfl⟩
    have hstep := CallLoop.Step.answer hone
    have hrest : toInt (2 - (1 : Nat)) = 1 := toInt_of_range (by decide) (by decide)
    rw [resume_sent (by omega) (by omega), hrest, loopTest_pos (by decide)] at hstep
    have hrun : (reliableSend.lts sink).Run (reliableSendStart 2 (.other 0), []) _ _ :=
      .single hstep
    have hh : History 0 [(reliableSend.call ⟨0, 2, .other 0⟩, (.ok 1 : Answer Nat))] := by
      intro a ha
      rw [List.mem_singleton.mp ha]
      exact ⟨by decide, fun e he => by cases he⟩
    refine ⟨_, _, hrun, ((peerClose_iff _).2.1 2 _ _ _ hrun hh).mpr ⟨hother, fun a ha => ?_⟩⟩
    rw [List.mem_singleton.mp ha]
    exact fun he => by cases he
  · have hreach : S'.reaches (0 + 20) := by
      intro L hL
      rw [← Option.some.inj hL]
    obtain ⟨tr, s, hrun, hbytes⟩ := eof_reaches S' 0 (.other 0) 20 (by omega) hreach
    have hh := (history_bytes hbytes hother).1
    exact ⟨tr, s, hrun, ((peerClose_iff _).2.2 S' tr s 20 hrun hh).mpr (by omega)⟩

/-- **One interrupted call, and then the peer has closed**: neither loop ends. -/
theorem peerClose_spins :
    ¬ (∀ S vec pos amnt errno tr s n, amnt < 2147483648 → pos + amnt ≤ vec.length →
        OrNRun S 0 vec pos amnt errno tr (.call s, n) → History [] tr →
        EndsWith reliableGetToEofOrN s (.ok []) (.quiet n, patch vec pos (S.slice 0 n))) ∧
      ¬ ∀ len errno tr s acc,
        (reliableSend.lts sink).Run (reliableSendStart len errno, []) tr (.call s, acc) →
        History 0 tr → ∃ r, r.val = false ∧ EndsWith reliableSend s (.ok 0) r := by
  constructor
  · intro hall
    have hstep := CallLoop.Step.answer (P := reliableGetToEofOrN) (s := ⟨[0], 0, 1, 0, .other 0⟩)
      (socket_error.mpr rfl : socket ⟨fun _ => 7, some 0⟩ 0 _ (.error .eintr) 0)
    rw [resume_orN_error] at hstep
    have hrun : OrNRun ⟨fun _ => 7, some 0⟩ 0 [0] 0 1 (.other 0) _
        (.call ⟨[0], 0, 1, 0, .eintr⟩, 0) := Lts.Run.single hstep
    have hend := (hall _ _ _ _ _ _ _ _ (by decide) (by decide) hrun (history_eintr _ _)).2
    exact CallLoop.not_ends_of_call (resume_orN_zero _) hend
  · intro hall
    have hstep := CallLoop.Step.answer (P := reliableSend) (s := ⟨0, 1, .other 0⟩)
      (sink_error.mpr rfl : sink [] _ (.error .eintr) [])
    rw [resume_send_error] at hstep
    have hrun : (reliableSend.lts sink).Run (reliableSendStart 1 (.other 0), []) _
        (.call ⟨0, 1, .eintr⟩, []) := Lts.Run.single hstep
    obtain ⟨r, -, hend⟩ := hall _ _ _ _ _ hrun (history_eintr _ _)
    exact CallLoop.not_ends_of_call (resume_sent_zero _) hend.2

end Cse303
