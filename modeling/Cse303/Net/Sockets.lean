/-
  File:      Cse303/Net/Sockets.lean
  Subject:   THE SOCKETS OF A PROCESS WHOSE THREADS RUN `connect_to_server` AND
             `create_server_socket` (net.cc), call by call, in any interleaving.

  Each thread is in one of the two functions, with some of its calls made, or in neither; then it may
  close a socket that the process was given. The kernel never makes a descriptor that is open.

  * `call_step` -- a call made by a thread, in the account of its own and in that of the process;
  * **`sockets_held`** -- at every point the open sockets are those that were returned and not closed
    since, and those that the functions in progress have made, each with one owner.
-/
import Cse303.Lib.Lts
import Cse303.Net.Connect

namespace Cse303

/-! ## 1. The threads -/

/-- Where a thread is: in neither function, or in one whose first `n` calls are made. -/
inductive SocketCall where
  | idle
  | within (r : NetRun) (n : Nat)

/-- What the function in progress has open. -/
def SocketCall.hand : SocketCall → Finset Nat
  | .idle => ∅
  | .within r n => (Use.held ∅ ((r.calls.take n).flatMap NetCall.uses)).getD ∅

/-- The calls of all threads so far, in order; the descriptors that were returned and not closed
    since; and where the threads are. -/
structure Sockets where
  calls : List NetCall
  given : Finset Nat
  thread : Nat → SocketCall

def Sockets.start : Sockets := ⟨[], ∅, fun _ => .idle⟩

/-- The account of the process. -/
def Sockets.held (x : Sockets) : Option (Finset Nat) :=
  Use.held ∅ (x.calls.flatMap NetCall.uses)

/-- Who has which descriptors: the threads' functions in progress, and the process (`none`). -/
def Sockets.own (x : Sockets) : Option Nat → Finset Nat
  | none => x.given
  | some t => (x.thread t).hand

/-- The descriptors that the process has, once it was given a result. -/
def give (given : Finset Nat) (ret : Int) : Finset Nat :=
  if 0 ≤ ret then insert ret.toNat given else given

inductive SocketAct where
  | connect (hostname : String) (port : Int)
  | listen (port : Nat)
  | call (c : NetCall)
  | ret (sd : Int)
  | close (sd : Nat)

/-- The thread `t` goes on. -/
def Sockets.goto (x : Sockets) (t : Nat) (c : SocketCall) : Sockets :=
  { x with thread := Function.update x.thread t c }

inductive SocketStep : Sockets → Nat × SocketAct → Sockets → Prop where
  -- what the calls are going to answer is left open
  | connect {x : Sockets} {t : Nat} {hostname : String} {port : Int} {c : ConnectCalls}
      (h : x.thread t = .idle) :
      SocketStep x (t, .connect hostname port)
        (x.goto t (.within (connectToServer hostname port c) 0))
  | listen {x : Sockets} {t : Nat} {port : Nat} {c : ListenCalls} (h : x.thread t = .idle) :
      SocketStep x (t, .listen port) (x.goto t (.within (createServerSocket port c) 0))
  | call {x : Sockets} {t n : Nat} {r : NetRun} {c : NetCall} (h : x.thread t = .within r n)
      (hc : r.calls[n]? = some c)
      (hfresh : ∀ sd s, c = .socket (.ok sd) → x.held = some s → sd ∉ s) :
      SocketStep x (t, .call c)
        { x.goto t (.within r (n + 1)) with calls := x.calls ++ [c] }
  | ret {x : Sockets} {t : Nat} {r : NetRun} (h : x.thread t = .within r r.calls.length) :
      SocketStep x (t, .ret r.ret.val) { x.goto t .idle with given := give x.given r.ret.val }
  | close {x : Sockets} {t sd : Nat} (h : x.thread t = .idle) (hsd : sd ∈ x.given) :
      SocketStep x (t, .close sd)
        { x with calls := x.calls ++ [.close sd], given := x.given.erase sd }

/-- Clients, servers, and programs that are both. -/
def sockets : Lts Sockets (Nat × SocketAct) := ⟨SocketStep⟩

/-! ## 2. One call -/

/-- A function whose own account ends with what it returns. -/
def NetRun.Closes (r : NetRun) : Prop := Use.held ∅ r.uses = some (give ∅ r.ret.val)

/-- **Both functions do**, whatever fails. -/
theorem MakesOne.closes {made : Answer Nat} {r : NetRun} (h : MakesOne made r) : r.Closes := by
  unfold NetRun.Closes
  cases h with
  | @returned sd hm hret huses =>
      rw [huses, Use.held_opened (Finset.notMem_empty sd), Use.held_nil, hret, give,
        if_pos (by omega)]
      rfl
  | @dropped sd hm hret huses =>
      rw [huses, Use.held_pair (Finset.notMem_empty sd), hret, give, if_neg (by omega)]
  | none hret huses => rw [huses, Use.held_nil, hret, give, if_neg (by omega)]

/-- A call of a function, in the account of its own. -/
theorem hand_next {r : NetRun} (hr : r.Closes) {n : Nat} {c : NetCall}
    (hc : r.calls[n]? = some c) :
    Use.held (SocketCall.within r n).hand c.uses = some (SocketCall.within r (n + 1)).hand := by
  have htake : (r.calls.take (n + 1)).flatMap NetCall.uses =
      (r.calls.take n).flatMap NetCall.uses ++ c.uses := by
    rw [List.take_add_one, hc, List.flatMap_append]
    simp
  have hsplit : r.uses = (r.calls.take (n + 1)).flatMap NetCall.uses ++
      (r.calls.drop (n + 1)).flatMap NetCall.uses := by
    rw [← List.flatMap_append, List.take_append_drop]
    rfl
  unfold NetRun.Closes at hr
  rw [hsplit] at hr
  obtain ⟨o', hnext⟩ := Use.held_front hr
  have hfirst := hnext
  rw [htake] at hfirst
  obtain ⟨o, hnow⟩ := Use.held_front hfirst
  rw [Use.held_append hnow] at hfirst
  rw [SocketCall.hand, SocketCall.hand, hnow, hnext]
  exact hfirst

/-- A function that has made all its calls has open what it returns. -/
theorem hand_last {r : NetRun} (hr : r.Closes) :
    (SocketCall.within r r.calls.length).hand = give ∅ r.ret.val := by
  unfold NetRun.Closes NetRun.uses at hr
  rw [SocketCall.hand, List.take_length, hr]
  rfl

/-- The owners, once a thread has gone on. -/
theorem own_goto (x : Sockets) (t : Nat) (c : SocketCall) :
    (x.goto t c).own = Function.update x.own (some t) c.hand := by
  funext i
  cases i with
  | none => rfl
  | some u =>
      by_cases hu : u = t
      · subst hu
        simp [Sockets.own, Sockets.goto]
      · have hne : some u ≠ some t := fun h => hu (Option.some.inj h)
        simp [Sockets.own, Sockets.goto, hu]

/-! ## 3. All of them -/

/-- **The invariant**: the account goes on, what is open is shared out, and each function in progress
    is one whose account ends with what it returns. -/
structure SocketsInv (x : Sockets) : Prop where
  shared : ∃ s, x.held = some s ∧ Use.Shared s x.own
  closes : ∀ t r n, x.thread t = .within r n → r.Closes

/-- A thread goes on, in or behind a function that closes what it does not return. -/
theorem closes_goto {x : Sockets} (hx : SocketsInv x) {t : Nat} {c : SocketCall}
    (hc : ∀ r n, c = .within r n → r.Closes) :
    ∀ u r n, (x.goto t c).thread u = .within r n → r.Closes := by
  intro u r n hu
  by_cases h : u = t
  · subst h
    exact hc r n ((Function.update_self ..).symm.trans hu)
  · exact hx.closes u r n ((Function.update_of_ne h ..).symm.trans hu)

/-- A function is entered: nothing is open in it yet. -/
theorem enter_step {x : Sockets} (hx : SocketsInv x) {t : Nat} (h : x.thread t = .idle)
    {r : NetRun} (hr : r.Closes) : SocketsInv (x.goto t (.within r 0)) := by
  refine ⟨?_, closes_goto hx fun r' n' h' => ?_⟩
  · obtain ⟨s, hheld, hshared⟩ := hx.shared
    refine ⟨s, hheld, ?_⟩
    have hsame : (SocketCall.within r 0).hand = x.own (some t) := by
      show _ = (x.thread t).hand
      rw [h]
      rfl
    rw [own_goto, hsame, Function.update_eq_self]
    exact hshared
  · cases h'
    exact hr

/-- **A call of a function in progress.** -/
theorem call_step {x : Sockets} (hx : SocketsInv x) {t n : Nat} {r : NetRun} {c : NetCall}
    (h : x.thread t = .within r n) (hc : r.calls[n]? = some c)
    (hfresh : ∀ sd s, c = .socket (.ok sd) → x.held = some s → sd ∉ s) :
    SocketsInv { x.goto t (.within r (n + 1)) with calls := x.calls ++ [c] } := by
  have hr := hx.closes t r n h
  refine ⟨?_, closes_goto hx fun r' n' h' => ?_⟩
  · obtain ⟨s, hheld, hshared⟩ := hx.shared
    have hown : Use.held (x.own (some t)) c.uses = some (SocketCall.within r (n + 1)).hand := by
      have hhand : x.own (some t) = (SocketCall.within r n).hand := congrArg SocketCall.hand h
      rw [hhand]
      exact hand_next hr hc
    have hnext : ∃ s', Use.held s c.uses = some s' ∧
        Use.Shared s' (Function.update x.own (some t) (SocketCall.within r (n + 1)).hand) := by
      have hnone (hu : c.uses = []) : ∃ s', Use.held s c.uses = some s' ∧
          Use.Shared s' (Function.update x.own (some t) (SocketCall.within r (n + 1)).hand) := by
        rw [hu, Use.held_nil] at hown
        rw [hu, ← Option.some.inj hown, Function.update_eq_self]
        exact ⟨s, rfl, hshared⟩
      cases c with
      | socket a =>
          cases a with
          | error e => exact hnone rfl
          | ok sd =>
              refine hshared.use hown fun a ha => ?_
              cases ha
              exact hfresh sd s rfl hheld
      | close sd => exact hshared.use hown fun a ha => by cases ha
      | _ => exact hnone rfl
    obtain ⟨s', hheld', hshared'⟩ := hnext
    refine ⟨s', ?_, ?_⟩
    · show Use.held ∅ ((x.calls ++ [c]).flatMap NetCall.uses) = some s'
      rw [List.flatMap_append, Use.held_append hheld]
      simpa using hheld'
    · have hsame : Sockets.own { x.goto t (.within r (n + 1)) with calls := x.calls ++ [c] } =
          (x.goto t (.within r (n + 1))).own := by
        funext i
        cases i <;> rfl
      rw [hsame, own_goto]
      exact hshared'
  · cases h'
    exact hr

/-- A function returns: what it has open, the process has. -/
theorem ret_step {x : Sockets} (hx : SocketsInv x) {t : Nat} {r : NetRun}
    (h : x.thread t = .within r r.calls.length) :
    SocketsInv { x.goto t .idle with given := give x.given r.ret.val } := by
  have hr := hx.closes t r _ h
  refine ⟨?_, closes_goto hx fun r' n' h' => by cases h'⟩
  obtain ⟨s, hheld, hshared⟩ := hx.shared
  refine ⟨s, hheld, ?_⟩
  have hpass := hshared.pass (i := some t) (j := none) (Option.some_ne_none t)
  have hsame : Sockets.own { x.goto t .idle with given := give x.given r.ret.val } =
      Function.update (Function.update x.own (some t) ∅) none (x.own none ∪ x.own (some t)) := by
    have hhand : x.own (some t) = give ∅ r.ret.val := (congrArg SocketCall.hand h).trans
      (hand_last hr)
    funext i
    cases i with
    | none =>
        rw [Function.update_self, hhand]
        show give x.given r.ret.val = x.given ∪ give ∅ r.ret.val
        unfold give
        split
        · rw [Finset.insert_eq, Finset.insert_eq, Finset.union_empty, Finset.union_comm]
        · rw [Finset.union_empty]
    | some u =>
        rw [Function.update_of_ne (Option.some_ne_none u)]
        exact congrFun (own_goto x t .idle) (some u)
  rw [hsame]
  exact hpass

/-- The process closes a socket that it was given. -/
theorem closed_step {x : Sockets} (hx : SocketsInv x) {sd : Nat} (hsd : sd ∈ x.given) :
    SocketsInv { x with calls := x.calls ++ [.close sd], given := x.given.erase sd } := by
  refine ⟨?_, hx.closes⟩
  obtain ⟨s, hheld, hshared⟩ := hx.shared
  have hmem : sd ∈ x.own none := hsd
  refine ⟨s.erase sd, ?_, ?_⟩
  · show Use.held ∅ ((x.calls ++ [NetCall.close sd]).flatMap NetCall.uses) = _
    rw [List.flatMap_append, Use.held_append hheld]
    exact (Use.held_closed ((hshared.mem sd).mpr ⟨none, hmem⟩) []).trans (Use.held_nil _)
  · have hsame : Sockets.own { x with calls := x.calls ++ [.close sd], given := x.given.erase sd } =
        Function.update x.own none ((x.own none).erase sd) := by
      funext i
      cases i with
      | none => rw [Function.update_self]; rfl
      | some u => rw [Function.update_of_ne (Option.some_ne_none u)]; rfl
    rw [hsame]
    exact hshared.remove hmem

theorem sockets_step {x y : Sockets} {a : Nat × SocketAct} (hx : SocketsInv x)
    (hs : sockets.step x a y) : SocketsInv y := by
  cases hs with
  | connect h => exact enter_step hx h (connectToServer_makes _ _ _).closes
  | listen h => exact enter_step hx h (createServerSocket_makes _ _).closes
  | call h hc hfresh => exact call_step hx h hc hfresh
  | ret h => exact ret_step hx h
  | close _ hsd => exact closed_step hx hsd

theorem shared_start : Use.Shared ∅ Sockets.start.own where
  mem a := by
    refine ⟨fun ha => absurd ha (Finset.notMem_empty a), fun h => ?_⟩
    obtain ⟨i, hi⟩ := h
    cases i <;> cases hi
  one a i j hi _ := by cases i <;> cases hi

/-- **THE SOCKETS OF A PROCESS**, at any point of any run, in the middle of any functions: no call
    closes a descriptor that is not open, or twice; what is open has one owner each, a function in
    progress or the process, that was given it by a return and has not closed it since. So with no
    function in progress the open sockets are exactly those that were returned and not closed:
    no failure of `connect_to_server` or `create_server_socket` leaves one behind. -/
theorem sockets_held {tr : List (Nat × SocketAct)} {x : Sockets}
    (h : sockets.Run .start tr x) :
    (∃ s, x.held = some s ∧ Use.Shared s x.own) ∧
      ((∀ t, x.thread t = .idle) → x.held = some x.given) := by
  have hstart : SocketsInv .start :=
    ⟨⟨∅, rfl, shared_start⟩, fun t r n h => by cases h⟩
  have hinv : SocketsInv x := h.invariant hstart fun _ _ _ hx hs => sockets_step hx hs
  refine ⟨hinv.shared, fun hidle => ?_⟩
  obtain ⟨s, hheld, hshared⟩ := hinv.shared
  rw [hheld]
  refine congrArg some (Finset.ext fun a => ?_)
  rw [hshared.mem]
  constructor
  · rintro ⟨i, hi⟩
    cases i with
    | none => exact hi
    | some t =>
        rw [Sockets.own, hidle t] at hi
        cases hi
  · exact fun ha => ⟨none, ha⟩

theorem fresh_of_held {x : Sockets} {s : Finset Nat} (hx : x.held = some s) {sd : Nat}
    (h : sd ∉ s) :
    ∀ sd' s', NetCall.socket (.ok sd) = .socket (.ok sd') → x.held = some s' → sd' ∉ s' := by
  intro sd' s' hsame hs'
  cases hsame
  rwa [← Option.some.inj (hx.symm.trans hs')]

/-- The statement for a thread that has made its listening socket, while the connection of another
    was refused. -/
theorem sockets_held_refused : ∃ tr x s, sockets.Run .start tr x ∧ x.given = ∅ ∧
    (x.thread 1).hand = {4} ∧ x.held = some s ∧ Use.Shared s x.own := by
  let refused : ConnectCalls := ⟨.ok ⟨127, 0, 0, 1⟩, .ok 3, .error (.other 111), .ok ()⟩
  let served : ListenCalls := ⟨.ok 4, .ok (), .ok (), .ok ()⟩
  have h₁ : sockets.Run .start _ _ :=
    .single (@SocketStep.connect _ 0 "localhost" 9999 refused rfl)
  have h₂ := h₁.step (.call (t := 0) rfl rfl fun sd s h => by cases h)
  have h₃ := h₂.step (.call (t := 0) rfl rfl (fresh_of_held rfl (by decide)))
  have h₄ := h₃.step (@SocketStep.listen _ 1 9999 served rfl)
  have h₅ := h₄.step (.call (t := 1) rfl rfl (fresh_of_held (s := {3}) (by decide) (by decide)))
  have h₆ := h₅.step (.call (t := 0) rfl rfl fun sd s h => by cases h)
  have h₇ := h₆.step (.call (t := 0) rfl rfl fun sd s h => by cases h)
  have hend := h₇.step (.ret (t := 0) rfl)
  obtain ⟨s, hheld, hshared⟩ := (sockets_held hend).1
  exact ⟨_, _, s, hend, by decide, by decide, hheld, hshared⟩

end Cse303
