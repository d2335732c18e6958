/-
  File:      Cse303/Server/Drain.lean
  Subject:   THE LAST STEPS OF `accept_client` (net.cc): it comes to its return.

  Once the pool is inactive and the handler has shut the listening socket, the loop has at most one
  turn left: an `accept` that fails, and is handed over if the loop was past its test.

  * `drain_step` -- every step of `accept_client` takes it nearer to its return, whatever the pool's
    threads do in between;
  * **`accept_drains`** -- so it returns behind at most five of its own steps, is never stuck
    before, accepts no client and hands over at most one more descriptor, -1.
-/
import Cse303.Server.Shutdown

namespace Cse303

/-- The steps of `accept_client`. -/
def Act.main : Act → Bool
  | .register | .checkActive _ | .accept _ | .readErrno _ | .readFlag _ | .service _ => true
  | _ => false

/-- The pool is inactive, and the handler is through. -/
structure Closed (x : Server) : Prop where
  active : x.active = false
  sockShut : x.sockShut = true
  safeShutdown : x.safeShutdown = true

/-- The steps that are left up to the return. -/
def Pc.left : Pc → Nat
  | .entry => 2
  | .loopTest => 1
  | .atAccept => 5
  | .failed _ => 4
  | .einval => 3
  | .serving _ _ => 2
  | .returned _ => 0
  | .awaited _ => 0

/-- The descriptors that may be handed over yet. -/
def Pc.toHand : Pc → Nat
  | .atAccept | .failed _ | .einval => 1
  | _ => 0

theorem left_le (pc : Pc) : pc.left ≤ 5 := by cases pc <;> simp [Pc.left]

theorem toHand_le (pc : Pc) : pc.toHand ≤ 1 := by cases pc <;> simp [Pc.toHand]

/-- **The step lemma.** -/
theorem drain_step {x y : Server} {a : Act} (hx : Closed x) (hs : server.step x a y) :
    Closed y ∧ y.pc.left + (if !a.main then 0 else 1) ≤ x.pc.left ∧
      a.accepts = [] ∧ a.hands = List.replicate a.hands.length (-1) ∧
        y.pc.toHand + a.hands.length ≤ x.pc.toHand := by
  obtain ⟨hactive, hshut, hflag⟩ := hx
  cases hs with
  | register h | checkInactive h _ | acceptError h _ | errnoEinval h | safe h _ | service h
  | awaitShutdown h _ =>
      rw [h]
      exact ⟨⟨hactive, hshut, hflag⟩, Nat.le_refl _, rfl, rfl, Nat.le_refl _⟩
  | errnoOther h _ =>
      rw [h]
      exact ⟨⟨hactive, hshut, hflag⟩, Nat.le_add_left 1 3, rfl, rfl, Nat.zero_le 1⟩
  | checkActive _ ha =>
      rw [hactive] at ha
      cases ha
  | acceptOk _ ho =>
      rw [hshut] at ho
      cases ho
  | notSafe _ hf =>
      rw [hflag] at hf
      cases hf
  | deactivate => exact ⟨⟨rfl, hshut, hflag⟩, Nat.le_refl _, rfl, rfl, Nat.le_refl _⟩
  | handlerStart _ _ => exact ⟨⟨hactive, hshut, hflag⟩, Nat.le_refl _, rfl, rfl, Nat.le_refl _⟩
  | handlerFlag _ => exact ⟨⟨hactive, hshut, rfl⟩, Nat.le_refl _, rfl, rfl, Nat.le_refl _⟩
  | handlerShutdown _ => exact ⟨⟨hactive, rfl, hflag⟩, Nat.le_refl _, rfl, rfl, Nat.le_refl _⟩
  | poolEnd _ _ _ => exact ⟨⟨hactive, hshut, hflag⟩, Nat.le_refl _, rfl, rfl, Nat.le_refl _⟩

/-- Before its return, `accept_client` has a step to take. -/
theorem drain_next {y : Server} (hy : Closed y) (hpc : y.pc.result = none) :
    ∃ a z, a.main = true ∧ server.step y a z := by
  obtain ⟨hactive, hshut, hflag⟩ := hy
  cases h : y.pc with
  | entry => exact ⟨_, _, rfl, .register h⟩
  | loopTest => exact ⟨_, _, rfl, .checkInactive h hactive⟩
  | atAccept => exact ⟨_, _, rfl, .acceptError h fun _ => rfl⟩
  | failed e =>
      by_cases he : e = .einval
      · subst he
        exact ⟨_, _, rfl, .errnoEinval h⟩
      · exact ⟨_, _, rfl, .errnoOther h he⟩
  | einval => exact ⟨_, _, rfl, .safe h hflag⟩
  | serving connSd addr => exact ⟨_, _, rfl, .service h⟩
  | returned r =>
      rw [h] at hpc
      cases hpc
  | awaited r =>
      rw [h] at hpc
      cases hpc

/-- What is handed over in a stretch of a run. -/
structure Drained (x y : Server) : Prop where
  closed : Closed y
  accepted : y.accepted = x.accepted
  handed : ∃ n, y.handed = x.handed ++ List.replicate n (-1) ∧ y.pc.toHand + n ≤ x.pc.toHand

theorem drained_run {x y : Server} {tr : List Act} (hx : Closed x) (h : server.Run x tr y) :
    Drained x y := by
  refine h.invariant (I := Drained x) ⟨hx, rfl, 0, by simp, Nat.le_refl _⟩ ?_
  intro y a z ⟨hclosed, haccepted, n, hhanded, hle⟩ hs
  obtain ⟨hclosed', -, hnone, hminus, hless⟩ := drain_step hclosed hs
  obtain ⟨hmore, hmoreAccepted⟩ := handed_step hs
  refine ⟨hclosed', ?_, n + a.hands.length, ?_, by omega⟩
  · rw [hmoreAccepted, hnone, List.append_nil, haccepted]
  · rw [hmore, hhanded, hminus, List.append_assoc, List.replicate_append_replicate,
      List.length_replicate]

/-- **`accept_client` RETURNS** once the pool is inactive and its handler has shut the socket: in
    every run from there, with whatever the pool's threads do in between, it takes at most five
    steps, has one to take as long as it has not returned, accepts no client, and hands over -1 at
    most once. -/
theorem accept_drains {tr tr' : List Act} {x y : Server} (h : server.Run .start tr x)
    (hactive : x.active = false) (hshut : x.sockShut = true) (h' : server.Run x tr' y) :
    tr'.countP Act.main ≤ 5 ∧ (y.pc.result = none → ∃ a z, a.main = true ∧ server.step y a z) ∧
      y.accepted = x.accepted ∧ (y.handed = x.handed ∨ y.handed = x.handed ++ [-1]) := by
  have hclosed : Closed x := ⟨hactive, hshut, flag_before_shut h (.inr hshut)⟩
  have hrank : tr'.length + y.pc.left ≤ tr'.countP (fun a => !a.main) + x.pc.left :=
    h'.ranked (I := Closed) (m := fun x => x.pc.left) hclosed
      (fun _ _ _ hx hs => (drain_step hx hs).1) fun _ _ _ hx hs => (drain_step hx hs).2.1
  obtain ⟨hy, haccepted, n, hhanded, hle⟩ := drained_run hclosed h'
  refine ⟨?_, drain_next hy, haccepted, ?_⟩
  · have hleft := left_le x.pc
    have hsplit : tr'.length = tr'.countP Act.main + tr'.countP (fun a => !a.main) := by
      simpa using List.length_eq_countP_add_countP Act.main
    omega
  · have hone := toHand_le x.pc
    have hn : n = 0 ∨ n = 1 := by omega
    rcases hn with rfl | rfl
    · exact .inl (hhanded.trans (List.append_nil _))
    · exact .inr hhanded

/-- The statement for a shutdown that finds `accept_client` at its `accept`: all five steps. -/
theorem accept_drains_five : ∃ tr tr' x y, server.Run .start tr x ∧ server.Run x tr' y ∧
    tr'.length = 5 ∧ y.pc.result = some (.quiet true) ∧ tr'.countP Act.main ≤ 5 ∧
      (y.handed = x.handed ∨ y.handed = x.handed ++ [-1]) := by
  have h₁ : server.Run .start _ _ := .single (.register rfl)
  have h₂ := h₁.step (.checkActive rfl rfl)
  have h₃ := h₂.step .deactivate
  have h₄ := h₃.step (.handlerStart (by decide) rfl)
  have h₅ := h₄.step (.handlerFlag rfl)
  have h := h₅.step (.handlerShutdown rfl)
  have r₁ : server.Run ⟨.atAccept, true, true, false, 0, 0, false, [], [], false,
      [.text "Waiting for a client to connect...\n"]⟩ _ _ := .single (.acceptError rfl fun _ => rfl)
  have r₂ := r₁.step (.errnoEinval rfl)
  have r₃ := r₂.step (.safe rfl rfl)
  have r₄ := r₃.step (.service rfl)
  have r := r₄.step (.checkInactive rfl rfl)
  obtain ⟨hsteps, -, -, hhanded⟩ := accept_drains h rfl rfl r
  exact ⟨_, _, _, _, h, r, rfl, rfl, hsteps, hhanded⟩

end Cse303
