/-
  File:      Cse303/Net/Transfer.lean
  Subject:   ONE MESSAGE FROM `send_reliably` TO `reliable_get_to_eof` (net.cc).

  The sender runs `send_reliably` and closes, the receiver runs `reliable_get_to_eof`, and between
  them is a reliable channel in order: a `send` hands over any number of bytes from one to its
  count, a `recv` takes any number from one to its count of those under way, and gets zero of a
  positive count only once the sender has closed and nothing is under way. The two take their steps
  in any order, and either may fail at any time.

  * `Linked`, `link_simulates` -- the two loops and the channel do what a `Fifo` of the message's
    bytes does, and every step that is not an interruption is one of the `Fifo`, or one of the
    last two;
  * `hardRecv_returned` -- a hard `recv` error is the end of the receiver;
  * **`transfer_right`** -- so the whole message arrives if it was sent, a prefix if it was not,
    nothing after a hard `recv` error; and the run comes to an end, the receiver with a result.
-/
import Cse303.Lib.Fifo
import Cse303.Net.GetToEof
import Cse303.Net.Send

namespace Cse303

open CInt

/-! ## 1. Two loops and a channel -/

/-- The channel, as the kernels keep it. -/
structure Pipe where
  inFlight : List UInt8
  closed : Bool
  deriving DecidableEq, Repr

/-- The channel behind `send`: it takes from the memory the call points at. -/
def pipeIn (m : Msg) : Env Pipe SendCall (Answer Nat)
  | p, c, .ok n, p' =>
      1 ≤ n ∧ n ≤ c.count ∧ n < 9223372036854775808 ∧
        p' = { p with inFlight := p.inFlight ++ (m.memory.drop c.offset).take n }
  | p, _, .error _, p' => p' = p

/-- The channel before `recv`. -/
def pipeOut : Env Pipe RecvCall (Answer (List UInt8))
  | p, c, .ok bs, p' =>
      p = { p' with inFlight := bs ++ p'.inFlight } ∧ bs.length ≤ c.count ∧
        (bs = [] → c.count = 0 ∨ p.closed = true ∧ p.inFlight = [])
  | p, _, .error _, p' => p' = p

theorem pipeIn_ok {m : Msg} {p p' : Pipe} {c : SendCall} {n : Nat} :
    pipeIn m p c (.ok n) p' ↔
      1 ≤ n ∧ n ≤ c.count ∧ n < 9223372036854775808 ∧
        p' = { p with inFlight := p.inFlight ++ (m.memory.drop c.offset).take n } := Iff.rfl

theorem pipeOut_ok {p p' : Pipe} {c : RecvCall} {bs : List UInt8} :
    pipeOut p c (.ok bs) p' ↔
      p = { p' with inFlight := bs ++ p'.inFlight } ∧ bs.length ≤ c.count ∧
        (bs = [] → c.count = 0 ∨ p.closed = true ∧ p.inFlight = []) := Iff.rfl

/-- Sender, receiver and channel. -/
structure Link where
  snd : Control SendState (Ret Bool)
  rcv : Control RecvState (Ret (List UInt8))
  pipe : Pipe

/-- What happens on the link. -/
inductive LinkAct where
  | send (r : Answer Nat)
  | close
  | recv (r : Answer (List UInt8))

/-- An interrupted call, on either side. -/
def LinkAct.isEintr : LinkAct → Bool
  | .send (.error .eintr) => true
  | .recv (.error .eintr) => true
  | _ => false

inductive LinkStep (m : Msg) : Link → LinkAct → Link → Prop where
  | send {s : SendState} {rcv : Control RecvState (Ret (List UInt8))} {p p' : Pipe}
      {r : Answer Nat} (h : pipeIn m p (reliableSend.call s) r p') :
      LinkStep m ⟨.call s, rcv, p⟩ (.send r) ⟨reliableSend.resume s r, rcv, p'⟩
  -- the sender closes whatever `send_reliably` returned
  | close {w : Ret Bool} {rcv : Control RecvState (Ret (List UInt8))} {inFlight : List UInt8} :
      LinkStep m ⟨.ret w, rcv, ⟨inFlight, false⟩⟩ .close ⟨.ret w, rcv, ⟨inFlight, true⟩⟩
  | recv {snd : Control SendState (Ret Bool)} {s : RecvState} {p p' : Pipe}
      {r : Answer (List UInt8)} (h : pipeOut p (reliableGetToEof.call s) r p') :
      LinkStep m ⟨snd, .call s, p⟩ (.recv r) ⟨snd, reliableGetToEof.resume s r, p'⟩

/-- The link as a transition system. -/
def link (m : Msg) : Lts Link LinkAct := ⟨LinkStep m⟩

/-- Both sides enter their function, with any `errno` left over. -/
def linkStart (m : Msg) (errno₁ errno₂ : Errno) : Link :=
  ⟨sendReliably m errno₁, reliableGetToEofStart errno₂, ⟨[], false⟩⟩

/-! ## 2. The link is a `Fifo` -/

/-- What the sender stands for: its `remain` counts what is still to be written. -/
def SenderAt (m : Msg) (f : Fifo UInt8) : Control SendState (Ret Bool) → Prop
  | .call s => f.todo ≠ [] ∧ f.closed = false ∧ s.remain = f.todo.length ∧
      m.bytes.drop s.nextByte = f.todo
  | .ret r => r.val = true → f.todo = []
  | .threw => False
  | .wild => False

/-- What the receiver stands for: it has what was read, or has met a hard error. -/
def ReceiverAt (f : Fifo UInt8) : Control RecvState (Ret (List UInt8)) → Prop
  | .call s => EofGood f.got s
  | .ret r => r = .quiet f.got ∧ f.closed = true ∧ f.flight = [] ∨ r.val = [] ∧ r.cout ≠ []
  | .threw => False
  | .wild => False

/-- **The link and the `Fifo` it is.** -/
structure Linked (m : Msg) (x : Link) (f : Fifo UInt8) : Prop where
  flight : f.flight = x.pipe.inFlight
  closed : f.closed = x.pipe.closed
  content : f.content = m.bytes
  sender : SenderAt m f x.snd
  receiver : ReceiverAt f x.rcv

/-- A party that has not returned yet. -/
def waits {σ ω : Type} (c : Control σ ω) : Nat := if c.atCall then 1 else 0

/-- The parties that have not returned yet. -/
def Link.waiting (x : Link) : Nat := waits x.snd + waits x.rcv

theorem waits_le {σ ω : Type} (c : Control σ ω) : waits c ≤ 1 := by
  unfold waits
  split
  · exact le_refl _
  · exact Nat.zero_le _

/-- A string's NUL is behind everything that is sent of it. -/
theorem memory_take {m : Msg} {k n : Nat} (h : n ≤ (m.bytes.drop k).length) :
    (m.memory.drop k).take n = (m.bytes.drop k).take n := by
  cases m with
  | vec msg => rfl
  | str msg =>
      have hk : n ≤ (msg.drop k).length := h
      show ((msg ++ [0]).drop k).take n = (msg.drop k).take n
      rcases Nat.eq_zero_or_pos n with rfl | hn
      · rfl
      · rw [List.length_drop] at hk
        rw [List.drop_append_of_le_length (by omega), List.take_append_of_le_length]
        rw [List.length_drop]
        exact hk

/-- What the sender's loop test leads to when `todo` is left. -/
theorem senderAt_loopTest {m : Msg} {f : Fifo UInt8} {s : SendState} (hopen : f.closed = false)
    (hrem : s.remain = f.todo.length) (hnext : m.bytes.drop s.nextByte = f.todo) :
    SenderAt m f s.loopTest := by
  by_cases h : s.remain = 0
  · rw [loopTest_zero h]
    intro _
    exact List.length_eq_zero_iff.mp (by omega)
  · rw [loopTest_pos h]
    refine ⟨fun hnil => h ?_, hopen, hrem, hnext⟩
    rw [hrem, hnil]
    rfl

/-- While the sender has not closed, the receiver depends on what it has alone. -/
theorem receiverAt_open {f f' : Fifo UInt8} {c : Control RecvState (Ret (List UInt8))}
    (hopen : f.closed = false) (hgot : f'.got = f.got) (h : ReceiverAt f c) : ReceiverAt f' c := by
  cases c with
  | call s =>
      show EofGood f'.got s
      rw [hgot]
      exact h
  | ret r =>
      rcases h with ⟨-, hclosed, -⟩ | hbad
      · rw [hopen] at hclosed
        cases hclosed
      · exact Or.inr hbad
  | threw => exact h
  | wild => exact h

/-- What one step of the link is answered with. -/
def Answered (m : Msg) (x : Link) (f : Fifo UInt8) (a : LinkAct) (x' : Link) : Prop :=
  ∃ tr f', (Fifo.lts UInt8).Run f tr f' ∧ Linked m x' f' ∧
    x'.waiting + (if a.isEintr then 0 else 1) ≤ x.waiting + tr.length

section Simulation

variable {m : Msg} (hm : m.size < 2147483648)
include hm

/-- No part of the message is longer than it. -/
theorem Linked.small {x : Link} {f : Fifo UInt8} (h : Linked m x f) :
    f.todo.length < 2147483648 ∧ f.got.length + f.flight.length < 2147483648 := by
  have hlen := congrArg List.length h.content
  simp only [Fifo.content, List.length_append] at hlen
  have hsize : m.bytes.length < 2147483648 := hm
  omega

/-- A step of the sender. -/
theorem linked_send {s : SendState} {rcv : Control RecvState (Ret (List UInt8))} {p p' : Pipe}
    {r : Answer Nat} {f : Fifo UInt8} (hl : Linked m ⟨.call s, rcv, p⟩ f)
    (h : pipeIn m p (reliableSend.call s) r p') :
    Answered m ⟨.call s, rcv, p⟩ f (.send r) ⟨reliableSend.resume s r, rcv, p'⟩ := by
  obtain ⟨hne, hopen, hrem, hnext⟩ := hl.sender
  have hsmall := (hl.small hm).1
  have hpos : 0 < f.todo.length := List.length_pos_iff.mpr hne
  cases r with
  | error e =>
      obtain rfl : p' = p := h
      by_cases he : e = .eintr
      · subst he
        have hsender : SenderAt m f (reliableSend.resume s (.error .eintr)) := by
          rw [resume_send_error, if_neg (not_not_intro rfl)]
          exact senderAt_loopTest hopen hrem hnext
        refine ⟨[], f, .start, ⟨hl.flight, hl.closed, hl.content, hsender, hl.receiver⟩, ?_⟩
        exact Nat.add_le_add_right (waits_le _) _
      · have hret : reliableSend.resume s (.error e) =
            .ret (err false [.text "Error in send(): ", msgFromErrno e]) := by
          rw [resume_send_error, if_pos he]
        rw [hret]
        refine ⟨[], f, .start, ⟨hl.flight, hl.closed, hl.content, ?_, hl.receiver⟩, ?_⟩
        · intro htrue
          cases htrue
        · show 0 + waits rcv + (if _ then 0 else 1) ≤ 1 + waits rcv + 0
          split <;> omega
  | ok n =>
      obtain ⟨hn1, hncount, -, rfl⟩ := pipeIn_ok.mp h
      obtain ⟨hle, hres⟩ := resume_within (by omega) (by omega) hn1 hncount
      have hn : n ≤ f.todo.length := by omega
      have hrest : s.remain - n = (f.todo.drop n).length := by
        rw [List.length_drop]
        omega
      have hnext' : m.bytes.drop (s.nextByte + n) = f.todo.drop n := by
        rw [← List.drop_drop, hnext]
      have hstep := Fifo.push_step hopen hn1 hn
      refine ⟨_, _, .single hstep, ⟨?_, ?_, ?_, ?_, ?_⟩, ?_⟩
      · show f.flight ++ f.todo.take n = p.inFlight ++ (m.memory.drop s.nextByte).take n
        rw [memory_take (by rw [hnext]; exact hn), hnext, hl.flight]
      · exact hopen.symm.trans hl.closed
      · exact (Fifo.content_step hstep).trans hl.content
      · rw [hres]
        exact senderAt_loopTest rfl hrest hnext'
      · exact receiverAt_open hopen rfl hl.receiver
      · exact Nat.add_le_add_right (Nat.add_le_add_right (waits_le _) _) 1

omit hm in
/-- The sender closes. -/
theorem linked_close {w : Ret Bool} {rcv : Control RecvState (Ret (List UInt8))}
    {inFlight : List UInt8} {f : Fifo UInt8} (hl : Linked m ⟨.ret w, rcv, ⟨inFlight, false⟩⟩ f) :
    Answered m ⟨.ret w, rcv, ⟨inFlight, false⟩⟩ f .close ⟨.ret w, rcv, ⟨inFlight, true⟩⟩ := by
  have hopen : f.closed = false := hl.closed
  have hstep := Fifo.close_step hopen
  refine ⟨_, _, .single hstep, ⟨hl.flight, rfl, ?_, hl.sender, ?_⟩, ?_⟩
  · exact (Fifo.content_step hstep).trans hl.content
  · exact receiverAt_open hopen rfl hl.receiver
  · exact le_refl _

/-- A step of the receiver. -/
theorem linked_recv {snd : Control SendState (Ret Bool)} {s : RecvState} {p p' : Pipe}
    {r : Answer (List UInt8)} {f : Fifo UInt8} (hl : Linked m ⟨snd, .call s, p⟩ f)
    (h : pipeOut p (reliableGetToEof.call s) r p') :
    Answered m ⟨snd, .call s, p⟩ f (.recv r) ⟨snd, reliableGetToEof.resume s r, p'⟩ := by
  have hgood : EofGood f.got s := hl.receiver
  have hroom := hgood.room
  have hfit := hgood.count_eq
  cases r with
  | error e =>
      obtain rfl : p' = p := h
      by_cases he : e = .eintr
      · subst he
        have hres : reliableGetToEof.resume s (.error .eintr) = .call { s with errno := .eintr } := by
          rw [resume_recv_error, if_neg (not_not_intro rfl)]
        rw [hres]
        have hgood' : EofGood f.got { s with errno := .eintr } :=
          ⟨hgood.recd, hgood.room, hgood.doubled, hgood.tight, hgood.content⟩
        exact ⟨[], f, .start, ⟨hl.flight, hl.closed, hl.content, hl.sender, hgood'⟩, le_refl _⟩
      · have hres : reliableGetToEof.resume s (.error e) =
            .ret (err [] [.text "Error in recv(): ", msgFromErrno e]) := by
          rw [resume_recv_error, if_pos he]
        rw [hres]
        refine ⟨[], f, .start, ⟨hl.flight, hl.closed, hl.content, hl.sender, ?_⟩, ?_⟩
        · exact Or.inr ⟨rfl, List.cons_ne_nil _ _⟩
        · show waits snd + 0 + (if _ then 0 else 1) ≤ waits snd + 1 + 0
          split <;> omega
  | ok bs =>
      obtain ⟨hp, hcount, hend⟩ := pipeOut_ok.mp h
      have hflight : f.flight = bs ++ p'.inFlight := by
        rw [hl.flight, hp]
      have hclosed : f.closed = p'.closed := by
        rw [hl.closed, hp]
      by_cases hb : bs = []
      · -- a positive count is answered with zero bytes at the end alone
        subst hb
        obtain ⟨hshut, hdry⟩ := (hend rfl).resolve_left (by omega)
        rw [hgood.resume_zero]
        refine ⟨[], f, .start, ⟨hflight, hclosed, hl.content, hl.sender, Or.inl ⟨rfl, ?_, ?_⟩⟩, ?_⟩
        · exact hl.closed.trans hshut
        · exact hl.flight.trans hdry
        · exact le_refl _
      · have hsmall := (hl.small hm).2
        obtain ⟨s', hres, -, hinv⟩ := hgood.resume_bytes hb hcount
        have hgood' : EofGood (f.got ++ bs) s' := by
          refine hinv.resolve_right fun hover => ?_
          have hlen := hover.length
          rw [hflight, List.length_append] at hsmall
          rw [List.length_append] at hlen
          omega
        have hstep := Fifo.pop_step hb hflight
        rw [hres]
        refine ⟨_, _, .single hstep, ⟨rfl, hclosed, ?_, ?_, hgood'⟩, le_refl _⟩
        · exact (Fifo.content_step hstep).trans hl.content
        · exact hl.sender

/-- **The link does what its `Fifo` does.** -/
theorem link_simulates :
    Lts.RankedSimulates (link m) (Fifo.lts UInt8) (Linked m) LinkAct.isEintr Link.waiting := by
  intro x f a x' hl hs
  cases hs with
  | send h => exact linked_send hm hl h
  | close => exact linked_close hl
  | recv h => exact linked_recv hm hl h

theorem linked_start (errno₁ errno₂ : Errno) :
    Linked m (linkStart m errno₁ errno₂) (Fifo.start m.bytes) := by
  refine ⟨rfl, rfl, List.nil_append _, ?_, eofGood_start errno₂⟩
  show SenderAt m _ (sendReliably m errno₁)
  rw [sendReliably_eq, toInt_of_range (by omega) (by omega)]
  exact senderAt_loopTest (s := ⟨0, m.size, errno₁⟩) rfl rfl rfl

/-- **Every run of the link is one of its `Fifo`**, and no longer but for the interruptions. -/
theorem link_run {errno₁ errno₂ : Errno} {tr : List LinkAct} {y : Link}
    (h : (link m).Run (linkStart m errno₁ errno₂) tr y) :
    ∃ f, Linked m y f ∧ tr.length ≤ tr.countP LinkAct.isEintr + (2 * m.size + 3) := by
  obtain ⟨tr', f, hrun, hl, hlen⟩ := h.simulateRanked (link_simulates hm) (linked_start hm _ _)
  have hbound : tr'.length ≤ 2 * m.size + 1 := Fifo.run_length hrun
  have hsnd := waits_le (linkStart m errno₁ errno₂).snd
  have hrcv := waits_le (linkStart m errno₁ errno₂).rcv
  refine ⟨f, hl, ?_⟩
  unfold Link.waiting at hlen
  omega

end Simulation

/-! ## 3. What both sides see -/

/-- A `recv` failed, and not by an interruption. -/
def HardRecv (tr : List LinkAct) : Prop := ∃ e, .recv (.error e) ∈ tr ∧ e ≠ .eintr

theorem HardRecv.append {tr : List LinkAct} (h : HardRecv tr) (tr' : List LinkAct) :
    HardRecv (tr ++ tr') := by
  obtain ⟨e, hmem, he⟩ := h
  exact ⟨e, List.mem_append_left _ hmem, he⟩

/-- The last call was the one that failed, or it had failed before. -/
theorem HardRecv.last {tr : List LinkAct} {a : LinkAct} (h : HardRecv (tr ++ [a])) :
    HardRecv tr ∨ ∃ e, a = .recv (.error e) ∧ e ≠ .eintr := by
  obtain ⟨e, hmem, he⟩ := h
  rcases List.mem_append.mp hmem with hmem | hmem
  · exact Or.inl ⟨e, hmem, he⟩
  · exact Or.inr ⟨e, (List.mem_singleton.mp hmem).symm, he⟩

/-- **A hard `recv` error ends the receiver**, with nothing. -/
theorem hardRecv_returned {m : Msg} {errno₁ errno₂ : Errno} {tr : List LinkAct} {y : Link}
    (h : (link m).Run (linkStart m errno₁ errno₂) tr y) :
    HardRecv tr → ∃ r, y.rcv = .ret r ∧ r.val = [] := by
  refine h.traceInvariant (I := fun tr x => HardRecv tr → ∃ r, x.rcv = .ret r ∧ r.val = []) ?_ ?_
  · rintro ⟨e, hmem, -⟩
    exact absurd hmem List.not_mem_nil
  · intro tr x a x' _ hinv hs hhard
    rcases hhard.last with hbefore | ⟨e, rfl, he⟩
    · obtain ⟨r, hr, hval⟩ := hinv hbefore
      cases hs with
      | send _ => exact ⟨r, hr, hval⟩
      | close => exact ⟨r, hr, hval⟩
      | recv _ => cases hr
    · cases hs with
      | recv _ =>
          refine ⟨err [] [.text "Error in recv(): ", msgFromErrno e], ?_, rfl⟩
          show reliableGetToEof.resume _ (.error e) = _
          rw [resume_recv_error, if_pos he]

section Outcome

variable {m : Msg} (hm : m.size < 2147483648) {errno₁ errno₂ : Errno} {tr : List LinkAct} {y : Link}
  (h : (link m).Run (linkStart m errno₁ errno₂) tr y)
include hm h

/-- A receiver that printed something has met a hard error. -/
theorem hardRecv_of_cout : ∀ r, y.rcv = .ret r → r.cout ≠ [] → HardRecv tr := by
  refine h.traceInvariant (I := fun tr x => ∀ r, x.rcv = .ret r → r.cout ≠ [] → HardRecv tr) ?_ ?_
  · intro r hr
    cases hr
  · intro tr x a x' hrun hinv hs r hr hcout
    obtain ⟨f, hl, -⟩ := link_run hm hrun
    cases hs with
    | send _ => exact (hinv r hr hcout).append _
    | close => exact (hinv r hr hcout).append _
    | @recv snd s p p' ans henv =>
        have hgood : EofGood f.got s := hl.receiver
        have hr : reliableGetToEof.resume s ans = .ret r := hr
        cases ans with
        | error e =>
            rw [resume_recv_error] at hr
            by_cases he : e = .eintr
            · rw [if_neg (not_not_intro he)] at hr
              cases hr
            · exact ⟨e, List.mem_append_right _ (List.mem_singleton_self _), he⟩
        | ok bs =>
            by_cases hb : bs = []
            · subst hb
              rw [hgood.resume_zero] at hr
              cases hr
              exact absurd rfl hcout
            · obtain ⟨s', hres, -⟩ := hgood.resume_bytes hb (pipeOut_ok.mp henv).2.1
              rw [hres] at hr
              cases hr

/-- The receiver's result without a hard error: all that was read, once everything written was. -/
theorem returned_quiet {r : Ret (List UInt8)} (hr : y.rcv = .ret r) (hsoft : ¬ HardRecv tr) :
    ∃ f, Linked m y f ∧ r.val = f.got ∧ f.closed = true ∧ f.flight = [] := by
  obtain ⟨f, hl, -⟩ := link_run hm h
  have hrecv := hl.receiver
  rw [hr] at hrecv
  rcases hrecv with ⟨rfl, hclosed, hdry⟩ | ⟨-, hcout⟩
  · exact ⟨f, hl, rfl, hclosed, hdry⟩
  · exact absurd (hardRecv_of_cout hm h r hr hcout) hsoft

/-- **Something other than an interruption can happen** until the sender has closed and the
    receiver has returned. -/
theorem link_live :
    y.pipe.closed = true ∧ y.rcv.returned = true ∨
      ∃ a y', (link m).step y a y' ∧ a.isEintr = false := by
  obtain ⟨f, hl, -⟩ := link_run hm h
  obtain ⟨snd, rcv, p⟩ := y
  have hsnd : SenderAt m f snd := hl.sender
  have hrcv : ReceiverAt f rcv := hl.receiver
  cases snd with
  | threw => exact hsnd.elim
  | wild => exact hsnd.elim
  | call s =>
      obtain ⟨hne, -, hrem, -⟩ := hsnd
      have hpos : 0 < f.todo.length := List.length_pos_iff.mpr hne
      have hsmall := (hl.small hm).1
      have hcount : (toSize s.remain : Int) = s.remain := toSize_of_range (by omega) (by omega)
      have hone : 1 ≤ (reliableSend.call s).count := by
        show 1 ≤ toSize s.remain
        omega
      exact Or.inr ⟨_, _, .send (pipeIn_ok.mpr ⟨le_refl 1, hone, by omega, rfl⟩), rfl⟩
  | ret w =>
      obtain ⟨inFlight, closed⟩ := p
      cases closed with
      | false => exact Or.inr ⟨_, _, .close, rfl⟩
      | true =>
          cases rcv with
          | threw => exact hrcv.elim
          | wild => exact hrcv.elim
          | ret r => exact Or.inl ⟨rfl, rfl⟩
          | call s =>
              have hgood : EofGood f.got s := hrcv
              have hroom := hgood.room
              have hfit := hgood.count_eq
              cases inFlight with
              | nil =>
                  have henv : pipeOut ⟨[], true⟩ (reliableGetToEof.call s) (.ok []) ⟨[], true⟩ :=
                    pipeOut_ok.mpr ⟨rfl, Nat.zero_le _, fun _ => Or.inr ⟨rfl, rfl⟩⟩
                  exact Or.inr ⟨_, _, .recv henv, rfl⟩
              | cons b bs =>
                  have hone : 1 ≤ (reliableGetToEof.call s).count := by omega
                  have henv : pipeOut ⟨b :: bs, true⟩ (reliableGetToEof.call s) (.ok [b])
                      ⟨bs, true⟩ :=
                    pipeOut_ok.mpr ⟨rfl, hone, fun hnil => absurd hnil (List.cons_ne_nil _ _)⟩
                  exact Or.inr ⟨_, _, .recv henv, rfl⟩

end Outcome

/-- **What a transfer of `m` comes to**, in every order of the two sides' steps. -/
structure TransferRight (m : Msg) : Prop where
  /-- sent as a whole, and received without a hard error: exactly the message -/
  whole : ∀ errno₁ errno₂ tr y r, (link m).Run (linkStart m errno₁ errno₂) tr y →
    y.rcv = .ret r → ¬ HardRecv tr → ∃ w, y.snd = .ret w ∧ (w.val = true → r.val = m.bytes)
  /-- given up by the sender: a prefix -/
  stopped : ∀ errno₁ errno₂ tr y r w, (link m).Run (linkStart m errno₁ errno₂) tr y →
    y.rcv = .ret r → y.snd = .ret w → w.val = false → r.val <+: m.bytes
  /-- a hard error of `recv`: at once nothing -/
  hard : ∀ errno₁ errno₂ tr y, (link m).Run (linkStart m errno₁ errno₂) tr y →
    HardRecv tr → ∃ r, y.rcv = .ret r ∧ r.val = []
  /-- nobody leaves their memory, and nothing is thrown -/
  safe : ∀ errno₁ errno₂ tr y, (link m).Run (linkStart m errno₁ errno₂) tr y →
    (y.snd ≠ .wild ∧ y.snd ≠ .threw) ∧ y.rcv ≠ .wild ∧ y.rcv ≠ .threw
  /-- with finitely many interruptions a run comes to its end -/
  ends : ∀ errno₁ errno₂ tr y, (link m).Run (linkStart m errno₁ errno₂) tr y →
    tr.length ≤ tr.countP LinkAct.isEintr + (2 * m.size + 3)
  /-- which is reached with the sender closed and the receiver returned, not before -/
  live : ∀ errno₁ errno₂ tr y, (link m).Run (linkStart m errno₁ errno₂) tr y →
    y.pipe.closed = true ∧ y.rcv.returned = true ∨
      ∃ a y', (link m).step y a y' ∧ a.isEintr = false

/-- **Every message shorter than 2^31 bytes is transferred right.** -/
theorem transfer_right {m : Msg} (hm : m.size < 2147483648) : TransferRight m := by
  refine ⟨?_, ?_, ?_, ?_, ?_, ?_⟩
  · intro errno₁ errno₂ tr y r h hr hsoft
    obtain ⟨f, hl, hval, hclosed, hdry⟩ := returned_quiet hm h hr hsoft
    have hsnd := hl.sender
    cases hw : y.snd with
    | call s =>
        rw [hw] at hsnd
        exact absurd (hsnd.2.1.symm.trans hclosed) (by decide)
    | ret w =>
        refine ⟨w, rfl, fun htrue => ?_⟩
        rw [hw] at hsnd
        rw [hval, Fifo.got_all hdry (hsnd htrue)]
        exact hl.content
    | threw =>
        rw [hw] at hsnd
        exact hsnd.elim
    | wild =>
        rw [hw] at hsnd
        exact hsnd.elim
  · intro errno₁ errno₂ tr y r w h hr _ _
    obtain ⟨f, hl, -⟩ := link_run hm h
    have hrecv := hl.receiver
    rw [hr] at hrecv
    rcases hrecv with ⟨rfl, -, -⟩ | ⟨hnil, -⟩
    · exact hl.content ▸ f.got_prefix
    · rw [hnil]
      exact List.nil_prefix
  · intro errno₁ errno₂ tr y h hhard
    exact hardRecv_returned h hhard
  · intro errno₁ errno₂ tr y h
    obtain ⟨f, hl, -⟩ := link_run hm h
    have hsnd := hl.sender
    have hrcv := hl.receiver
    refine ⟨⟨?_, ?_⟩, ?_, ?_⟩
    · intro hbad
      rw [hbad] at hsnd
      exact hsnd
    · intro hbad
      rw [hbad] at hsnd
      exact hsnd
    · intro hbad
      rw [hbad] at hrcv
      exact hrcv
    · intro hbad
      rw [hbad] at hrcv
      exact hrcv
  · intro errno₁ errno₂ tr y h
    obtain ⟨-, -, hlen⟩ := link_run hm h
    exact hlen
  · intro errno₁ errno₂ tr y h
    exact link_live hm h

/-- The statement for a string of three letters, that is sent by one `send`, received by one `recv`,
    and followed by the zero of the end. -/
theorem transfer_right_abc :
    let m : Msg := .str [97, 98, 99]
    ∃ tr y r, (link m).Run (linkStart m (.other 0) (.other 0)) tr y ∧
      y.snd = .ret (.quiet true) ∧ y.rcv = .ret r ∧ r.val = [97, 98, 99] := by
  intro m
  have hm : m.size < 2147483648 := by decide
  let s : SendState := ⟨0, 3, .other 0⟩
  have hsend : sendReliably m (.other 0) = .call s := by
    have hsize : toInt (m.size : Nat) = 3 := toInt_of_range (by decide) (by decide)
    rw [sendReliably_eq, hsize]
    exact loopTest_pos (s := s) (by decide)
  have hcount : 3 ≤ (reliableSend.call s).count := by
    have hsize : (toSize 3 : Int) = 3 := toSize_of_range (by omega) (by omega)
    show 3 ≤ toSize 3
    omega
  have hsent : reliableSend.resume s (.ok 3) = .ret (.quiet true) := by
    rw [resume_sent (by omega) (by omega)]
    exact loopTest_zero toInt_zero
  have hgood := eofGood_start (.other 0)
  have hroom : 3 ≤ (reliableGetToEof.call ⟨List.replicate 16 0, 0, .other 0⟩).count := by
    have hfit := hgood.count_eq
    have hlength : (List.replicate 16 (0 : UInt8)).length = 16 := rfl
    simp only [hlength, List.length_nil] at hfit
    omega
  obtain ⟨s', hread, -, hgood' | hover⟩ :=
    hgood.resume_bytes (List.cons_ne_nil 97 [98, 99]) hroom
  · have hfirst : (link m).step (linkStart m (.other 0) (.other 0)) (.send (.ok 3))
        ⟨.ret (.quiet true), reliableGetToEofStart (.other 0), ⟨[97, 98, 99], false⟩⟩ := by
      rw [linkStart, hsend, ← hsent]
      exact .send (pipeIn_ok.mpr ⟨by omega, hcount, by omega, rfl⟩)
    have h₂ := (Lts.Run.single hfirst).step .close
    have htaken : pipeOut ⟨[97, 98, 99], true⟩
        (reliableGetToEof.call ⟨List.replicate 16 0, 0, .other 0⟩) (.ok [97, 98, 99]) ⟨[], true⟩ :=
      pipeOut_ok.mpr ⟨rfl, hroom, fun hnil => absurd hnil (List.cons_ne_nil _ _)⟩
    have h₃ := h₂.step (.recv htaken)
    rw [hread] at h₃
    have hzero : pipeOut ⟨[], true⟩ (reliableGetToEof.call s') (.ok []) ⟨[], true⟩ :=
      pipeOut_ok.mpr ⟨rfl, Nat.zero_le _, fun _ => Or.inr ⟨rfl, rfl⟩⟩
    have h₄ := h₃.step (.recv hzero)
    rw [hgood'.resume_zero] at h₄
    obtain ⟨w, hw, hwhole⟩ := (transfer_right hm).whole _ _ _ _ _ h₄ rfl (by
      intro hhard
      obtain ⟨e, hmem, -⟩ := hhard
      simp at hmem)
    obtain rfl := Control.ret.inj hw
    exact ⟨_, _, _, h₄, rfl, rfl, hwhole rfl⟩
  · exact absurd hover.length (by decide)

end Cse303
