/-
  File:      Cse303/Server/Shutdown.lean
  Subject:   THE END OF `accept_client` (net.cc, server.cc): what its result says, and how long the
             handler it registered may run.

  The handler publishes `safe_shutdown` first and shuts the listening socket second; the loop finds
  the socket shut first and reads the flag second.

  * `flag_before_shut` -- in every state of every run the flag is set before the socket is shut;
  * **`acceptClient_result`** -- so a graceful shutdown is never reported as an error, and true is
    returned only behind a `check_active` that was false;
  * `FrameInv` -- while `accept_client` returns only to a pool that is done, nothing is left that
    could use its frame;
  * **`staleFree_iff`** -- and that is the exact condition: after a return to a pool that is not
    done, the handler can still store to a frame that is gone;
  * **`staleFree_inOrder`** -- what pool and `accept` would have to keep to for that.
-/
import Cse303.Server.Accept

namespace Cse303

/-! ## 1. The result -/

/-- **The flag is published first**: with a run of the handler at its second line, or past it, it
    is set. -/
theorem flag_before_shut {tr : List Act} {y : Server} (h : server.Run .start tr y) :
    0 < y.toShut ∨ y.sockShut = true → y.safeShutdown = true := by
  refine h.invariant
    (I := fun y => 0 < y.toShut ∨ y.sockShut = true → y.safeShutdown = true) ?_ ?_
  · intro h0
    exact absurd h0 (by decide)
  · intro x a y hx hs
    cases hs with
    | handlerFlag _ => exact fun _ => rfl
    | @handlerShutdown n h => exact fun _ => hx (Or.inl (h ▸ Nat.succ_pos n))
    | _ => exact hx

/-- Every failure of `accept` is one of the shutdown socket. -/
def FailsWhenShut (x : Server) (a : Act) (_ : Server) : Prop :=
  ∀ e, a = .accept (.error e) → x.sockShut = true

/-- **The invariant of a run without accept errors of its own**: where the main thread can be, when
    the socket is shut or not. -/
def GracefulAt (sockShut : Bool) : Pc → Prop
  | .failed e => e = .einval ∧ sockShut = true
  | .einval => sockShut = true
  | .returned r => r.val = true
  | .awaited r => r.val = true
  | _ => True

theorem gracefulAt_shut {sockShut : Bool} {pc : Pc} (h : GracefulAt sockShut pc) :
    GracefulAt true pc := by
  cases pc with
  | failed e => exact ⟨h.1, rfl⟩
  | einval => rfl
  | returned r => exact h
  | awaited r => exact h
  | _ => trivial

theorem gracefulAt_step {x y : Server} {a : Act} (hx : GracefulAt x.sockShut x.pc)
    (hflag : 0 < x.toShut ∨ x.sockShut = true → x.safeShutdown = true)
    (hs : server.step x a y) (hshut : FailsWhenShut x a y) : GracefulAt y.sockShut y.pc := by
  cases hs with
  | register _ => trivial
  | checkActive _ _ => trivial
  | checkInactive _ _ => rfl
  | acceptOk _ _ => trivial
  | @acceptError e _ hs =>
      have hx : x.sockShut = true := hshut e rfl
      exact ⟨hs hx, hx⟩
  | errnoOther h he =>
      rw [h] at hx
      exact absurd hx.1 he
  | errnoEinval h =>
      rw [h] at hx
      exact hx.2
  | notSafe h hf =>
      rw [h] at hx
      rw [hflag (Or.inr hx)] at hf
      cases hf
  | safe _ _ => trivial
  | service _ => trivial
  | awaitShutdown h _ =>
      rw [h] at hx
      exact hx
  | handlerShutdown _ => exact gracefulAt_shut hx
  | deactivate => exact hx
  | handlerStart _ _ => exact hx
  | handlerFlag _ => exact hx
  | poolEnd _ _ _ => exact hx

/-- True is returned only by the loop test, and the loop test is `check_active`. -/
theorem true_after_inactive {tr : List Act} {y : Server} (h : server.Run .start tr y) :
    ∀ r, y.pc.result = some r → r.val = true → .checkActive false ∈ tr := by
  refine h.traceInvariant
    (I := fun tr y => ∀ r, y.pc.result = some r → r.val = true → .checkActive false ∈ tr) ?_ ?_
  · intro r hr
    cases hr
  · intro tr x a y _ hx hs r hr htrue
    cases hs with
    | checkInactive _ _ => exact List.mem_append_right _ (List.mem_singleton_self _)
    | errnoOther _ _ =>
        cases hr
        cases htrue
    | notSafe _ _ =>
        cases hr
        cases htrue
    | awaitShutdown h _ => exact List.mem_append_left _ (hx r (by rw [h]; exact hr) htrue)
    | deactivate => exact List.mem_append_left _ (hx r hr htrue)
    | handlerStart _ _ => exact List.mem_append_left _ (hx r hr htrue)
    | handlerFlag _ => exact List.mem_append_left _ (hx r hr htrue)
    | handlerShutdown _ => exact List.mem_append_left _ (hx r hr htrue)
    | poolEnd _ _ _ => exact List.mem_append_left _ (hx r hr htrue)
    | _ => cases hr

/-- **WHAT THE RESULT OF `accept_client` SAYS**, in every interleaving: it is never false where
    `accept` fails only on the shutdown socket, and true only behind an inactive pool. -/
theorem acceptClient_result :
    (∀ tr y r, (server.restrict FailsWhenShut).Run .start tr y → y.pc.result = some r →
        r.val = true) ∧
      ∀ tr y r, server.Run .start tr y → y.pc.result = some r → r.val = true →
        .checkActive false ∈ tr := by
  refine ⟨?_, fun tr y r h hr htrue => true_after_inactive h r hr htrue⟩
  intro tr y r h hr
  have hgraceful : GracefulAt y.sockShut y.pc :=
    h.traceInvariant (I := fun _ y => GracefulAt y.sockShut y.pc)
      (show GracefulAt false .entry from trivial) fun _ _ _ _ hrun hx hs =>
        gracefulAt_step hx (flag_before_shut hrun.of_restrict) hs.1 hs.2
  cases hpc : y.pc with
  | returned r' =>
      rw [hpc] at hr hgraceful
      exact Option.some.inj hr ▸ hgraceful
  | awaited r' =>
      rw [hpc] at hr hgraceful
      exact Option.some.inj hr ▸ hgraceful
  | _ =>
      rw [hpc] at hr
      cases hr

/-- The statement for the shutdown that falls between `check_active` and `accept`. -/
theorem acceptClient_result_graceful : ∃ tr y r,
    (server.restrict FailsWhenShut).Run .start tr y ∧ y.pc.result = some r ∧ r.val = true ∧
      .checkActive false ∈ tr := by
  have h₁ : (server.restrict FailsWhenShut).Run .start _ _ := .single ⟨.register rfl, fun _ => (nomatch ·)⟩
  have h₂ := h₁.step ⟨.checkActive rfl rfl, fun _ => (nomatch ·)⟩
  have h₃ := h₂.step ⟨.handlerStart (by decide) rfl, fun _ => (nomatch ·)⟩
  have h₄ := h₃.step ⟨.handlerFlag rfl, fun _ => (nomatch ·)⟩
  have h₅ := h₄.step ⟨.handlerShutdown rfl, fun _ => (nomatch ·)⟩
  have h₆ := h₅.step ⟨.acceptError rfl fun _ => rfl, fun _ _ => rfl⟩
  have h₇ := h₆.step ⟨.errnoEinval rfl, fun _ => (nomatch ·)⟩
  have h₈ := h₇.step ⟨.safe rfl rfl, fun _ => (nomatch ·)⟩
  have h₉ := h₈.step ⟨.service rfl, fun _ => (nomatch ·)⟩
  have h₁₀ := h₉.step ⟨.deactivate, fun _ => (nomatch ·)⟩
  have hend := h₁₀.step ⟨.checkInactive rfl rfl, fun _ => (nomatch ·)⟩
  have htrue := acceptClient_result.1 _ _ _ hend rfl
  exact ⟨_, _, _, hend, rfl, htrue, acceptClient_result.2 _ _ _ hend.of_restrict rfl htrue⟩

/-! ## 2. The frame -/

/-- `accept_client` returns only to a pool that is done. -/
def ReturnsWhenDone (x : Server) (_ : Act) (y : Server) : Prop :=
  x.gone = false → y.gone = true → x.poolDone = true

instance (x : Server) (a : Act) (y : Server) : Decidable (ReturnsWhenDone x a y) :=
  inferInstanceAs (Decidable (_ → _))

/-- From here on no handler ever uses the frame that is gone. -/
def StaleFree (y : Server) : Prop := ∀ tr z, server.Run y tr z → z.stale = false

/-- A pool that is done is running no handler. -/
theorem done_quiet {tr : List Act} {y : Server} (h : server.Run .start tr y) :
    y.poolDone = true → y.toFlag = 0 ∧ y.toShut = 0 := by
  refine h.invariant (I := fun y => y.poolDone = true → y.toFlag = 0 ∧ y.toShut = 0) ?_ ?_
  · intro h0
    cases h0
  · intro x a y hx hs hdone
    cases hs with
    | handlerStart _ hd =>
        rw [hd] at hdone
        cases hdone
    | handlerFlag h => exact absurd ((hx hdone).1.symm.trans h) (Nat.succ_ne_zero _).symm
    | handlerShutdown h => exact absurd ((hx hdone).2.symm.trans h) (Nat.succ_ne_zero _).symm
    | poolEnd _ hf hs => exact ⟨hf, hs⟩
    | _ => exact hx hdone

/-- **A pool that is done leaves the frame alone**, whoever returns when. -/
theorem staleFree_of_done {y : Server} (hstale : y.stale = false) (hdone : y.poolDone = true)
    (hflag : y.toFlag = 0) (hshut : y.toShut = 0) : StaleFree y := by
  intro tr z h
  refine (h.invariant (I := fun z => z.stale = false ∧ z.poolDone = true ∧ z.toFlag = 0 ∧ z.toShut = 0)
    ⟨hstale, hdone, hflag, hshut⟩ ?_).1
  intro x a y hx hs
  obtain ⟨hstale, hdone, hflag, hshut⟩ := hx
  cases hs with
  | handlerStart _ hd =>
      rw [hdone] at hd
      cases hd
  | handlerFlag h => exact absurd (hflag.symm.trans h) (Nat.succ_ne_zero _).symm
  | handlerShutdown h => exact absurd (hshut.symm.trans h) (Nat.succ_ne_zero _).symm
  | poolEnd _ _ _ => exact ⟨hstale, rfl, hflag, hshut⟩
  | _ => exact ⟨hstale, hdone, hflag, hshut⟩

/-- **A pool that is not done can still run the handler** on the frame that is gone. -/
theorem not_staleFree {y : Server} (hgone : y.gone = true) (hdone : y.poolDone = false) :
    ¬ StaleFree y := by
  intro hfree
  have hentry : y.pc ≠ .entry := by
    intro h
    rw [Server.gone, h] at hgone
    cases hgone
  have h₁ : server.Run y _ _ := .single (.handlerStart hentry hdone)
  have h₂ := h₁.step (.handlerFlag rfl)
  have hstale : (y.stale || y.gone) = false := hfree _ _ h₂
  rw [hgone, Bool.or_true] at hstale
  cases hstale

/-- **The invariant of the runs that return to a pool that is done.** -/
structure FrameInv (x : Server) : Prop where
  unused : x.stale = false
  done : x.gone = true → x.poolDone = true

theorem frameInv_step {x y : Server} {a : Act} (hx : FrameInv x)
    (hquiet : x.poolDone = true → x.toFlag = 0 ∧ x.toShut = 0) (hs : server.step x a y)
    (hret : ReturnsWhenDone x a y) : FrameInv y := by
  have hlive : ∀ pc, x.pc = pc → pc.result = none → x.gone = false := by
    intro pc hpc hnone
    rw [Server.gone, hpc, hnone]
    rfl
  cases hs with
  | checkInactive h _ => exact ⟨hx.unused, fun hgone => hret (hlive _ h rfl) hgone⟩
  | errnoOther h _ => exact ⟨hx.unused, fun hgone => hret (hlive _ h rfl) hgone⟩
  | notSafe h _ => exact ⟨hx.unused, fun hgone => hret (hlive _ h rfl) hgone⟩
  | awaitShutdown _ hd => exact ⟨hx.unused, fun _ => hd⟩
  | @handlerFlag n h =>
      have hgone : x.gone = false := by
        refine Bool.eq_false_iff.mpr fun hgone => ?_
        have h0 := (hquiet (hx.done hgone)).1
        omega
      exact ⟨by rw [hx.unused, hgone]; rfl, fun hg => hx.done hg⟩
  | @handlerShutdown n h =>
      have hgone : x.gone = false := by
        refine Bool.eq_false_iff.mpr fun hgone => ?_
        have h0 := (hquiet (hx.done hgone)).2
        omega
      exact ⟨by rw [hx.unused, hgone]; rfl, fun hg => hx.done hg⟩
  | deactivate => exact ⟨hx.unused, hx.done⟩
  | handlerStart _ _ => exact ⟨hx.unused, hx.done⟩
  | poolEnd _ _ _ => exact ⟨hx.unused, fun _ => rfl⟩
  | _ => exact ⟨hx.unused, fun hgone => absurd hgone Bool.false_ne_true⟩

/-- **THE HANDLER AND THE FRAME IT CAPTURED**: where `accept_client` returns only to a pool that is
    done, the handler never uses the frame after its return; and once it has returned, the pool
    being done is exactly what it takes. -/
theorem staleFree_iff (tr : List Act) (y : Server) :
    ((server.restrict ReturnsWhenDone).Run .start tr y → y.stale = false) ∧
      (server.Run .start tr y → y.stale = false → y.gone = true →
        (StaleFree y ↔ y.poolDone = true)) := by
  constructor
  · intro h
    have hinv : FrameInv y := h.traceInvariant (I := fun _ y => FrameInv y) ⟨rfl, (nomatch ·)⟩
      fun _ _ _ _ hrun hx hs => frameInv_step hx (done_quiet hrun.of_restrict) hs.1 hs.2
    exact hinv.unused
  · intro h hstale hgone
    constructor
    · intro hfree
      by_contra hdone
      exact not_staleFree hgone (Bool.eq_false_iff.mpr hdone) hfree
    · intro hdone
      obtain ⟨hflag, hshut⟩ := done_quiet h hdone
      exact staleFree_of_done hstale hdone hflag hshut

/-- The statement for a pool that shuts down first and is done when the loop finds it inactive. -/
theorem staleFree_iff_done : ∃ tr y,
    (server.restrict ReturnsWhenDone).Run .start tr y ∧ y.stale = false ∧
      (StaleFree y ↔ y.poolDone = true) := by
  have h₁ : (server.restrict ReturnsWhenDone).Run .start _ _ :=
    .single ⟨.register rfl, fun _ => (nomatch ·)⟩
  have h₂ := h₁.step ⟨.handlerStart (by decide) rfl, fun _ => (nomatch ·)⟩
  have h₃ := h₂.step ⟨.handlerFlag rfl, fun _ => (nomatch ·)⟩
  have h₄ := h₃.step ⟨.handlerShutdown rfl, fun _ => (nomatch ·)⟩
  have h₅ := h₄.step ⟨.deactivate, fun _ => (nomatch ·)⟩
  have h₆ := h₅.step ⟨.poolEnd rfl rfl rfl, fun _ => (nomatch ·)⟩
  have hend := h₆.step ⟨.checkInactive rfl rfl, fun _ _ => rfl⟩
  have hstale := (staleFree_iff _ _).1 hend
  exact ⟨_, _, hend, hstale, (staleFree_iff _ _).2 hend.of_restrict hstale rfl⟩

/-- **The pool clears its active flag first and runs the handler second**: the loop finds it
    inactive in between, and the handler stores to a frame that is gone. -/
theorem handler_after_return : ¬ ∀ tr y, server.Run .start tr y → y.stale = false := by
  intro hall
  have h₁ : server.Run .start _ _ := .single (.register rfl)
  have h₂ := h₁.step .deactivate
  have h₃ := h₂.step (.checkInactive rfl rfl)
  have h₄ := h₃.step (.handlerStart (by decide) rfl)
  have h₅ := h₄.step (.handlerFlag rfl)
  exact Bool.noConfusion (hall _ _ h₅)

/-! ## 3. A pool that ends in order -/

/-- What pool and `accept` would have to keep to: a run of the handler starts only in an active pool,
    the pool is made inactive only with no run of it under way, and `accept` fails only on the socket
    that is shut. -/
def InOrder (x : Server) (a : Act) (_ : Server) : Prop :=
  (a = .handlerStart → x.active = true) ∧
    (a = .deactivate → x.toFlag = 0 ∧ x.toShut = 0) ∧
      ∀ e, a = .accept (.error e) → x.sockShut = true

/-- The invariant of such runs. -/
structure OrderInv (x : Server) : Prop where
  graceful : GracefulAt x.sockShut x.pc
  unused : x.stale = false
  quiet : x.active = false → x.toFlag = 0 ∧ x.toShut = 0
  returned : x.gone = true → x.active = false

theorem orderInv_step {x y : Server} {a : Act} (hx : OrderInv x)
    (hflag : 0 < x.toShut ∨ x.sockShut = true → x.safeShutdown = true) (hs : server.step x a y)
    (horder : InOrder x a y) : OrderInv y := by
  obtain ⟨hstart, hstop, hfails⟩ := horder
  have hgraceful : GracefulAt y.sockShut y.pc := gracefulAt_step hx.graceful hflag hs hfails
  obtain ⟨hat, hunused, hquiet, hreturned⟩ := hx
  -- a run of the handler is under way only before the return
  have hlive {n : Nat} (h : x.toFlag = n + 1 ∨ x.toShut = n + 1) : x.gone = false := by
    refine Bool.eq_false_iff.mpr fun hgone => ?_
    have h0 := hquiet (hreturned hgone)
    omega
  cases hs with
  | checkInactive _ hinactive => exact ⟨hgraceful, hunused, hquiet, fun _ => hinactive⟩
  | errnoOther h he =>
      rw [h] at hat
      exact absurd hat.1 he
  | notSafe h hf =>
      rw [h] at hat
      rw [hflag (.inr hat)] at hf
      cases hf
  | awaitShutdown h _ =>
      exact ⟨hgraceful, hunused, hquiet, fun _ => hreturned (by rw [Server.gone, h]; rfl)⟩
  | deactivate => exact ⟨hgraceful, hunused, fun _ => hstop rfl, fun _ => rfl⟩
  | handlerStart _ _ =>
      refine ⟨hgraceful, hunused, fun hinactive => ?_, hreturned⟩
      have hinactive : x.active = false := hinactive
      rw [hstart rfl] at hinactive
      cases hinactive
  | @handlerFlag n h =>
      refine ⟨hgraceful, by rw [hunused, hlive (.inl h)]; rfl, fun hinactive => ?_, hreturned⟩
      have h0 := hquiet hinactive
      omega
  | @handlerShutdown n h =>
      refine ⟨hgraceful, by rw [hunused, hlive (.inr h)]; rfl, fun hinactive => ?_, hreturned⟩
      have h0 := hquiet hinactive
      omega
  | poolEnd _ _ _ => exact ⟨hgraceful, hunused, hquiet, hreturned⟩
  | _ => exact ⟨hgraceful, hunused, hquiet, fun hgone => absurd hgone Bool.false_ne_true⟩

/-- **A POOL THAT ENDS IN ORDER**: where the handler runs only in an active pool, the pool is made
    inactive only behind its runs, and `accept` fails only on the socket that is shut,
    `accept_client` returns only with the pool inactive and no run of the handler under way, and no
    run ever uses a frame that is gone. -/
theorem staleFree_inOrder {tr : List Act} {y : Server}
    (h : (server.restrict InOrder).Run .start tr y) :
    y.stale = false ∧ (y.gone = true → y.active = false ∧ y.toFlag = 0 ∧ y.toShut = 0) := by
  have hinv : OrderInv y := h.traceInvariant (I := fun _ y => OrderInv y)
    ⟨trivial, rfl, Bool.noConfusion, Bool.noConfusion⟩
    fun _ _ _ _ hrun hx hs => orderInv_step hx (flag_before_shut hrun.of_restrict) hs.1 hs.2
  exact ⟨hinv.unused, fun hgone => ⟨hinv.returned hgone, hinv.quiet (hinv.returned hgone)⟩⟩

/-- The statement for a shutdown that finds `accept_client` at its `accept`. -/
theorem staleFree_inOrder_graceful : ∃ tr y, (server.restrict InOrder).Run .start tr y ∧
    y.pc = .returned (.quiet true) ∧ y.sockShut = true ∧ y.stale = false := by
  have h₁ : (server.restrict InOrder).Run .start _ _ := .single ⟨.register rfl, by simp [InOrder]⟩
  have h₂ := h₁.step ⟨.checkActive rfl rfl, by simp [InOrder]⟩
  have h₃ := h₂.step ⟨.handlerStart (by decide) rfl, by simp [InOrder, Server.start]⟩
  have h₄ := h₃.step ⟨.handlerFlag rfl, by simp [InOrder]⟩
  have h₅ := h₄.step ⟨.handlerShutdown rfl, by simp [InOrder]⟩
  have h₆ := h₅.step ⟨.acceptError rfl fun _ => rfl, by simp [InOrder]⟩
  have h₇ := h₆.step ⟨.errnoEinval rfl, by simp [InOrder]⟩
  have h₈ := h₇.step ⟨.safe rfl rfl, by simp [InOrder]⟩
  have h₉ := h₈.step ⟨.service rfl, by simp [InOrder]⟩
  have h₁₀ := h₉.step ⟨.deactivate, by simp [InOrder, Server.start]⟩
  have hend := h₁₀.step ⟨.checkInactive rfl rfl, by simp [InOrder]⟩
  exact ⟨_, _, hend, rfl, rfl, (staleFree_inOrder hend).1⟩

end Cse303
