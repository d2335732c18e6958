/-
  File:      Cse303/Server/Accept.lean
  Subject:   `accept_client` (net.cc) UNDER A THREAD POOL, and the descriptors it hands over.

  The main thread runs `accept_client` and then, back in `main`, `await_shutdown`. The pool's threads
  may at any time clear the active flag, and run the handler that `accept_client` registered, any
  number of them at once; the handler stores to the local `safe_shutdown` and shuts the listening
  socket, both captured by reference. The order of all these steps is free; what pool.h leaves open
  (before or after the active flag, once or more often) is left open here.

  * `Server`, `ServerStep` -- the state, and one constructor for each step;
  * `handed_run` -- what was handed to the pool is what the trace says: the descriptor of each
    connection accepted, and -1 for each failure that the loop tolerated;
  * **`handsOver_iff`** -- so the descriptors handed over are those of the connections accepted
    exactly in the runs without a tolerated failure.
-/
import Cse303.Lib.Lts
import Cse303.Net.Socket

namespace Cse303

/-! ## 1. The state -/

/-- Where the main thread is: in `accept_client`, or back in `main`. -/
inductive Pc where
  /-- before `set_shutdown_handler` -/
  | entry
  /-- `while (pool.check_active())` -/
  | loopTest
  | atAccept
  /-- `connSd < 0`, with the `errno` about to be read -/
  | failed (errno : Errno)
  /-- it was `EINVAL`, and `safe_shutdown` is about to be read -/
  | einval
  /-- about to hand `connSd` to the pool -/
  | serving (connSd : Int) (addr : Nat)
  /-- back in `main`, at `await_shutdown` -/
  | returned (r : Ret Bool)
  | awaited (r : Ret Bool)
  deriving DecidableEq, Repr

/-- What `accept_client` returned, once it has. -/
def Pc.result : Pc → Option (Ret Bool)
  | .returned r => some r
  | .awaited r => some r
  | _ => none

/-- The descriptor about to be handed over. -/
def Pc.pending : Pc → List Int
  | .serving connSd _ => [connSd]
  | _ => []

/-- The process: its main thread, the listening socket and the pool. -/
structure Server where
  pc : Pc
  /-- the local of `accept_client`'s frame -/
  safeShutdown : Bool
  sockShut : Bool
  active : Bool
  /-- the runs of the handler that will store to `safe_shutdown` next -/
  toFlag : Nat
  /-- the runs of the handler that will shut the socket next -/
  toShut : Nat
  /-- the pool's threads have ended: no handler is running or will be run -/
  poolDone : Bool
  /-- the arguments of `service_connection` so far -/
  serviced : List Int
  /-- the descriptors that `accept` returned -/
  accepted : List Nat
  /-- a handler has used the frame of `accept_client` after its return -/
  stale : Bool
  cout : List Piece
  deriving DecidableEq, Repr

/-- `accept_client` is entered, with a pool that is running. -/
def Server.start : Server := ⟨.entry, false, false, true, 0, 0, false, [], [], false, []⟩

/-- The frame of `accept_client` is gone. -/
def Server.gone (x : Server) : Bool := x.pc.result.isSome

/-- What was handed to the pool, or is about to be. -/
def Server.handed (x : Server) : List Int := x.serviced ++ x.pc.pending

/-! ## 2. The steps -/

/-- The `return err(false, ..)` of the loop. -/
def acceptError (e : Errno) : Ret Bool :=
  err false [.text "Error accepting request from client: ", msgFromErrno e]

inductive Act where
  | register
  | checkActive (b : Bool)
  /-- a descriptor and the address of the client, or a failure -/
  | accept (r : Answer (Nat × Nat))
  | readErrno (e : Errno)
  | readFlag (b : Bool)
  | service (connSd : Int)
  | awaitShutdown
  | deactivate
  | handlerStart
  | handlerFlag
  | handlerShutdown
  | poolEnd
  deriving DecidableEq, Repr

inductive ServerStep : Server → Act → Server → Prop where
  /- `accept_client` -/
  | register {x : Server} (h : x.pc = .entry) :
      ServerStep x .register { x with pc := .loopTest }
  | checkActive {x : Server} (h : x.pc = .loopTest) (ha : x.active = true) :
      ServerStep x (.checkActive true)
        { x with pc := .atAccept, cout := x.cout ++ [.text "Waiting for a client to connect...\n"] }
  | checkInactive {x : Server} (h : x.pc = .loopTest) (ha : x.active = false) :
      ServerStep x (.checkActive false) { x with pc := .returned (.quiet true) }
  | acceptOk {x : Server} {connSd addr : Nat} (h : x.pc = .atAccept) (hs : x.sockShut = false) :
      ServerStep x (.accept (.ok (connSd, addr)))
        { x with pc := .serving connSd addr, accepted := x.accepted ++ [connSd] }
  -- once the socket is shut down `accept` fails with EINVAL, and before in any way
  | acceptError {x : Server} {e : Errno} (h : x.pc = .atAccept)
      (hs : x.sockShut = true → e = .einval) :
      ServerStep x (.accept (.error e)) { x with pc := .failed e }
  | errnoOther {x : Server} {e : Errno} (h : x.pc = .failed e) (he : e ≠ .einval) :
      ServerStep x (.readErrno e) { x with pc := .returned (acceptError e) }
  | errnoEinval {x : Server} (h : x.pc = .failed .einval) :
      ServerStep x (.readErrno .einval) { x with pc := .einval }
  | notSafe {x : Server} (h : x.pc = .einval) (hf : x.safeShutdown = false) :
      ServerStep x (.readFlag false) { x with pc := .returned (acceptError .einval) }
  -- the tolerated failure goes on as a connection would: connSd is -1, clientAddr all zero
  | safe {x : Server} (h : x.pc = .einval) (hf : x.safeShutdown = true) :
      ServerStep x (.readFlag true) { x with pc := .serving (-1) 0 }
  | service {x : Server} {connSd : Int} {addr : Nat} (h : x.pc = .serving connSd addr) :
      ServerStep x (.service connSd)
        { x with pc := .loopTest, serviced := x.serviced ++ [connSd],
                 cout := x.cout ++ [.text "Connected to ", .inetNtop addr, .text "\n"] }
  /- `main` -/
  | awaitShutdown {x : Server} {r : Ret Bool} (h : x.pc = .returned r) (hd : x.poolDone = true) :
      ServerStep x .awaitShutdown { x with pc := .awaited r }
  /- the pool's threads -/
  | deactivate {x : Server} : ServerStep x .deactivate { x with active := false }
  | handlerStart {x : Server} (h : x.pc ≠ .entry) (hd : x.poolDone = false) :
      ServerStep x .handlerStart { x with toFlag := x.toFlag + 1 }
  | handlerFlag {x : Server} {n : Nat} (h : x.toFlag = n + 1) :
      ServerStep x .handlerFlag
        { x with safeShutdown := true, toFlag := n, toShut := x.toShut + 1,
                 stale := x.stale || x.gone }
  | handlerShutdown {x : Server} {n : Nat} (h : x.toShut = n + 1) :
      ServerStep x .handlerShutdown
        { x with sockShut := true, toShut := n, stale := x.stale || x.gone }
  | poolEnd {x : Server} (ha : x.active = false) (hf : x.toFlag = 0) (hs : x.toShut = 0) :
      ServerStep x .poolEnd { x with poolDone := true }

/-- The process as a transition system. -/
def server : Lts Server Act := ⟨ServerStep⟩

/-! ## 3. What is handed over -/

/-- What a step hands over: a failure that is tolerated is handed over as a connection. -/
def Act.hands : Act → List Int
  | .accept (.ok (connSd, _)) => [connSd]
  | .readFlag true => [-1]
  | _ => []

/-- What a step accepts. -/
def Act.accepts : Act → List Nat
  | .accept (.ok (connSd, _)) => [connSd]
  | _ => []

/-- **The step lemma of the hand-over.** -/
theorem handed_step {x y : Server} {a : Act} (h : server.step x a y) :
    y.handed = x.handed ++ a.hands ∧ y.accepted = x.accepted ++ a.accepts := by
  cases h with
  | acceptOk h _ =>
      have hnone : x.handed = x.serviced := by simp [Server.handed, Pc.pending, h]
      rw [hnone]
      exact ⟨rfl, rfl⟩
  | safe h _ =>
      have hnone : x.handed = x.serviced := by simp [Server.handed, Pc.pending, h]
      rw [hnone]
      exact ⟨rfl, (List.append_nil _).symm⟩
  | @service connSd addr h =>
      have hone : x.handed = x.serviced ++ [connSd] := by simp [Server.handed, Pc.pending, h]
      rw [hone]
      exact ⟨rfl, (List.append_nil _).symm⟩
  -- no other step hands over or accepts, and none but these three has something pending
  | _ => simp [Server.handed, Act.hands, Act.accepts, Pc.pending, *]

/-- **The run lemma**: trace and lists say the same. -/
theorem handed_run {tr : List Act} {y : Server} (h : server.Run .start tr y) :
    y.handed = tr.flatMap Act.hands ∧ y.accepted = tr.flatMap Act.accepts := by
  refine h.traceInvariant
    (I := fun tr y => y.handed = tr.flatMap Act.hands ∧ y.accepted = tr.flatMap Act.accepts)
    ⟨rfl, rfl⟩ ?_
  intro tr x a y _ hx hs
  obtain ⟨hhanded, haccepted⟩ := handed_step hs
  rw [hhanded, haccepted, hx.1, hx.2, List.flatMap_append, List.flatMap_append]
  simp

/-- Of what a step hands over, the descriptors are those it accepts. -/
theorem hands_filter (a : Act) :
    a.hands.filter (fun d => decide (0 ≤ d)) = a.accepts.map Nat.cast := by
  cases a with
  | accept r =>
      cases r with
      | ok c => simp [Act.hands, Act.accepts]
      | error _ => rfl
  | readFlag b => cases b <;> rfl
  | _ => rfl

/-- A step that tolerates no failure hands over what it accepts. -/
theorem hands_eq {a : Act} (h : a ≠ .readFlag true) : a.hands = a.accepts.map Nat.cast := by
  cases a with
  | accept r =>
      cases r with
      | ok c => rfl
      | error _ => rfl
  | readFlag b =>
      cases b with
      | false => rfl
      | true => exact absurd rfl h
  | _ => rfl

/-- **The descriptors handed over are exactly those of the connections accepted**, in order and
    each once; so none is negative. -/
def HandsOver (y : Server) : Prop := y.handed = y.accepted.map Nat.cast

instance (y : Server) : Decidable (HandsOver y) := inferInstanceAs (Decidable (_ = _))

/-- **What `accept_client` hands to the pool**, at any point of any run: no accepted connection is
    lost or handed over twice; and nothing else is handed over exactly when no failed `accept` met
    a `safe_shutdown` that was set. -/
theorem handsOver_iff {tr : List Act} {y : Server} (h : server.Run .start tr y) :
    y.handed.filter (fun d => decide (0 ≤ d)) = y.accepted.map Nat.cast ∧
      (HandsOver y ↔ .readFlag true ∉ tr) := by
  obtain ⟨hhanded, haccepted⟩ := handed_run h
  rw [HandsOver, hhanded, haccepted, List.filter_flatMap, List.map_flatMap]
  refine ⟨List.flatMap_congr fun a _ => hands_filter a, ?_, ?_⟩
  · intro heq htol
    have hmem : -1 ∈ tr.flatMap Act.hands := List.mem_flatMap.mpr ⟨_, htol, List.mem_singleton_self _⟩
    rw [heq] at hmem
    obtain ⟨a, -, ha⟩ := List.mem_flatMap.mp hmem
    obtain ⟨connSd, -, hneg⟩ := List.mem_map.mp ha
    omega
  · intro htol
    refine List.flatMap_congr fun a ha => hands_eq ?_
    intro h
    exact htol (h ▸ ha)

/-- The statement for a client that is accepted with descriptor 4 and handed over. -/
theorem handsOver_one : ∃ tr y, server.Run .start tr y ∧ y.serviced = [4] ∧
    y.handed.filter (fun d => decide (0 ≤ d)) = y.accepted.map Nat.cast ∧
      (HandsOver y ↔ .readFlag true ∉ tr) := by
  have h₁ : server.Run .start _ _ := .single (.register rfl)
  have h₂ := h₁.step (.checkActive rfl rfl)
  have h₃ := h₂.step (@ServerStep.acceptOk _ 4 16777343 rfl rfl)
  have h₄ := h₃.step (.service rfl)
  exact ⟨_, _, h₄, rfl, handsOver_iff h₄⟩

/-- **The shutdown falls between `check_active` and `accept`**: the pool is given -1. -/
theorem handsOver_minus_one : ¬ ∀ tr y, server.Run .start tr y → HandsOver y := by
  intro hall
  have h₁ : server.Run .start _ _ := .single (.register rfl)
  have h₂ := h₁.step (.checkActive rfl rfl)
  have h₃ := h₂.step .deactivate
  have h₄ := h₃.step (.handlerStart (by decide) rfl)
  have h₅ := h₄.step (.handlerFlag rfl)
  have h₆ := h₅.step (.handlerShutdown rfl)
  have h₇ := h₆.step (.acceptError rfl fun _ => rfl)
  have h₈ := h₇.step (.errnoEinval rfl)
  have h₉ := h₈.step (.safe rfl rfl)
  exact absurd (hall _ _ (h₉.step (.service rfl))) (by decide)

end Cse303
