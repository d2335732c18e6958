/-
  File:      Cse303/Server/Unbound.lean
  Subject:   A SERVER THAT COULD NOT MAKE ITS LISTENING SOCKET (server.cc, net.cc).

  `main` does not look at what `create_server_socket` returned, and goes on to `accept_client` and
  `await_shutdown` with -1. The pool's threads run as they do at any server; the handler's `shutdown`
  of -1 changes nothing. A pool of no threads (`-t 0`) may be done at any time.

  * `unbound_step` -- every step of `accept_client` takes it nearer to its return;
  * **`unbound_returns`** -- so it returns behind at most four of its own steps, has given the pool
    nothing, and `main` waits for a pool that nobody can reach, if that has a thread.
-/
import Cse303.Server.Drain

namespace Cse303

/-- `EBADF`. -/
def ebadf : Errno := .other 9

/-- **The socket is -1**: each `accept` fails with `EBADF`, before the handler's `shutdown` and behind
    it. All other steps are those of any server, with this many threads in its pool. -/
inductive UnboundStep (threads : Int) : Server → Act → Server → Prop where
  | accept {x : Server} (h : x.pc = .atAccept) :
      UnboundStep threads x (.accept (.error ebadf)) { x with pc := .failed ebadf }
  | noThreads {x : Server} (h : threads ≤ 0) :
      UnboundStep threads x .poolEnd { x with poolDone := true }
  | other {x y : Server} {a : Act} (ha : ∀ r, a ≠ .accept r) (hs : ServerStep x a y) :
      UnboundStep threads x a y

/-- The process as a transition system. -/
def unboundServer (threads : Int) : Lts Server Act := ⟨UnboundStep threads⟩

/-- Where the main thread can be. -/
def Pc.unbound (active : Bool) : Pc → Prop
  | .failed e => e = ebadf
  | .einval => False
  | .serving _ _ => False
  | .returned r => r = acceptError ebadf ∨ r = .quiet true ∧ active = false
  | .awaited r => r = acceptError ebadf ∨ r = .quiet true ∧ active = false
  | _ => True

/-- The steps of `accept_client` that are left. -/
def Pc.unboundLeft : Pc → Nat
  | .entry => 4
  | .loopTest => 3
  | .atAccept => 2
  | .failed _ => 1
  | _ => 0

/-- **The invariant of such a server.** -/
structure UnboundAt (threads : Int) (x : Server) : Prop where
  pc : x.pc.unbound x.active
  serviced : x.serviced = []
  accepted : x.accepted = []
  done : x.poolDone = true → 0 < threads → x.active = false
  awaited : ∀ r, x.pc = .awaited r → x.poolDone = true

/-- An inactive pool leaves the main thread where it can be. -/
theorem unbound_inactive {active : Bool} {pc : Pc} (h : pc.unbound active) : pc.unbound false := by
  cases pc with
  | returned r => exact h.imp_right fun h => ⟨h.1, rfl⟩
  | awaited r => exact h.imp_right fun h => ⟨h.1, rfl⟩
  | _ => exact h

section Unbound

variable {threads : Int}

/-- **The step lemma.** -/
theorem unbound_step {x y : Server} {a : Act} (hx : UnboundAt threads x)
    (hs : (unboundServer threads).step x a y) :
    UnboundAt threads y ∧ y.pc.unboundLeft + (if !a.main then 0 else 1) ≤ x.pc.unboundLeft := by
  obtain ⟨hpc, hserviced, haccepted, hdone, hawaited⟩ := hx
  cases hs with
  | accept h =>
      rw [h]
      exact ⟨⟨rfl, hserviced, haccepted, hdone, fun r hr => by cases hr⟩, Nat.le_refl _⟩
  | noThreads h =>
      exact ⟨⟨hpc, hserviced, haccepted, fun _ hpos => absurd h (Int.not_le.mpr hpos),
        fun _ _ => rfl⟩, Nat.le_refl _⟩
  | other ha hs =>
      cases hs with
      | register h =>
          rw [h]
          exact ⟨⟨trivial, hserviced, haccepted, hdone, fun r hr => by cases hr⟩, Nat.le_refl _⟩
      | checkActive h _ =>
          rw [h]
          exact ⟨⟨trivial, hserviced, haccepted, hdone, fun r hr => by cases hr⟩, Nat.le_refl _⟩
      | checkInactive h hinactive =>
          rw [h]
          exact ⟨⟨.inr ⟨rfl, hinactive⟩, hserviced, haccepted, hdone, fun r hr => by cases hr⟩,
            Nat.le_add_left 1 2⟩
      | acceptOk _ _ => exact absurd rfl (ha _)
      | acceptError _ _ => exact absurd rfl (ha _)
      | @errnoOther e h _ =>
          rw [h] at hpc ⊢
          obtain rfl : e = ebadf := hpc
          exact ⟨⟨.inl rfl, hserviced, haccepted, hdone, fun r hr => by cases hr⟩, Nat.le_refl _⟩
      | errnoEinval h =>
          rw [h] at hpc
          cases hpc
      | notSafe h _ =>
          rw [h] at hpc
          cases hpc
      | safe h _ =>
          rw [h] at hpc
          cases hpc
      | service h =>
          rw [h] at hpc
          cases hpc
      | awaitShutdown h hd =>
          rw [h] at hpc ⊢
          exact ⟨⟨hpc, hserviced, haccepted, hdone, fun _ _ => hd⟩, Nat.le_refl _⟩
      | deactivate =>
          exact ⟨⟨unbound_inactive hpc, hserviced, haccepted, fun _ _ => rfl, hawaited⟩,
            Nat.le_refl _⟩
      | handlerStart _ _ => exact ⟨⟨hpc, hserviced, haccepted, hdone, hawaited⟩, Nat.le_refl _⟩
      | handlerFlag _ => exact ⟨⟨hpc, hserviced, haccepted, hdone, hawaited⟩, Nat.le_refl _⟩
      | handlerShutdown _ => exact ⟨⟨hpc, hserviced, haccepted, hdone, hawaited⟩, Nat.le_refl _⟩
      | poolEnd hinactive _ _ =>
          exact ⟨⟨hpc, hserviced, haccepted, fun _ _ => hinactive, fun _ _ => rfl⟩, Nat.le_refl _⟩

/-- The invariant holds at the start. -/
theorem unbound_start : UnboundAt threads .start :=
  ⟨trivial, rfl, rfl, Bool.noConfusion, fun r hr => by cases hr⟩

/-- Before its return, `accept_client` has a step to take. -/
theorem unbound_next {y : Server} (hy : UnboundAt threads y) (hpc : y.pc.result = none) :
    ∃ a z, a.main = true ∧ (unboundServer threads).step y a z := by
  cases h : y.pc with
  | entry => exact ⟨_, _, rfl, .other (fun _ => Act.noConfusion) (.register h)⟩
  | loopTest =>
      cases hactive : y.active with
      | true => exact ⟨_, _, rfl, .other (fun _ => Act.noConfusion) (.checkActive h hactive)⟩
      | false => exact ⟨_, _, rfl, .other (fun _ => Act.noConfusion) (.checkInactive h hactive)⟩
  | atAccept => exact ⟨_, _, rfl, .accept h⟩
  | failed e =>
      have he := hy.pc
      rw [h] at he
      obtain rfl : e = ebadf := he
      exact ⟨_, _, rfl, .other (fun _ => Act.noConfusion) (.errnoOther h (by decide))⟩
  | einval =>
      have hno := hy.pc
      rw [h] at hno
      cases hno
  | serving sd addr =>
      have hno := hy.pc
      rw [h] at hno
      cases hno
  | returned r =>
      rw [h] at hpc
      cases hpc
  | awaited r =>
      rw [h] at hpc
      cases hpc

/-- **A SERVER WITHOUT A LISTENING SOCKET**, that `main` does not tell from one with, in every
    interleaving with the pool's threads, however many there are: `accept_client` accepts no client
    and hands nothing over; it returns behind at most four of its own steps, and is never stuck
    before; what it returns is the error of `accept`, or true if the pool is inactive; and where the
    pool has a thread, `main` gets past `await_shutdown` only with the pool inactive, whatever was
    returned. -/
theorem unbound_returns {tr : List Act} {y : Server}
    (h : (unboundServer threads).Run .start tr y) :
    (y.accepted = [] ∧ y.handed = []) ∧ tr.countP Act.main ≤ 4 ∧
      (y.pc.result = none → ∃ a z, a.main = true ∧ (unboundServer threads).step y a z) ∧
      (∀ r, y.pc.result = some r → r = acceptError ebadf ∨ r = .quiet true ∧ y.active = false) ∧
        ∀ r, y.pc = .awaited r → 0 < threads → y.active = false := by
  have hinv : UnboundAt threads y :=
    h.invariant unbound_start fun _ _ _ hx hs => (unbound_step hx hs).1
  have hrank : tr.length + y.pc.unboundLeft ≤ tr.countP (fun a => !a.main) + 4 :=
    h.ranked (I := UnboundAt threads) (m := fun x => x.pc.unboundLeft) unbound_start
      (fun _ _ _ hx hs => (unbound_step hx hs).1) fun _ _ _ hx hs => (unbound_step hx hs).2
  have hpc := hinv.pc
  refine ⟨⟨hinv.accepted, ?_⟩, ?_, unbound_next hinv, fun r hr => ?_, fun r hr => ?_⟩
  · rw [Server.handed, hinv.serviced, List.nil_append]
    cases hy : y.pc with
    | serving sd addr =>
        rw [hy] at hpc
        cases hpc
    | _ => rfl
  · have hsplit : tr.length = tr.countP Act.main + tr.countP (fun a => !a.main) := by
      simpa using List.length_eq_countP_add_countP Act.main
    omega
  · cases hy : y.pc with
    | returned r' =>
        rw [hy] at hr hpc
        exact Option.some.inj hr ▸ hpc
    | awaited r' =>
        rw [hy] at hr hpc
        exact Option.some.inj hr ▸ hpc
    | _ =>
        rw [hy] at hr
        cases hr
  · exact hinv.done (hinv.awaited r hr)

end Unbound

/-- The statement for a pool of one thread, that is shut down while the main thread waits for it. -/
theorem unbound_returns_error : ∃ tr y, (unboundServer 1).Run .start tr y ∧
    y.pc = .awaited (acceptError ebadf) ∧ y.handed = [] ∧ y.active = false := by
  have h₁ : (unboundServer 1).Run .start _ _ :=
    .single (.other (fun _ => Act.noConfusion) (.register rfl))
  have h₂ := h₁.step (.other (fun _ => Act.noConfusion) (.checkActive rfl rfl))
  have h₃ := h₂.step (.accept rfl)
  have h₄ := h₃.step (.other (fun _ => Act.noConfusion) (.errnoOther rfl (by decide)))
  have h₅ := h₄.step (.other (fun _ => Act.noConfusion) .deactivate)
  have h₆ := h₅.step (.other (fun _ => Act.noConfusion) (.poolEnd rfl rfl rfl))
  have hend := h₆.step (.other (fun _ => Act.noConfusion) (.awaitShutdown rfl rfl))
  obtain ⟨⟨-, hhanded⟩, -, -, -, hactive⟩ := unbound_returns hend
  exact ⟨_, _, hend, rfl, hhanded, hactive _ rfl (by decide)⟩

end Cse303
