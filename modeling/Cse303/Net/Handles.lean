/-
  File:      Cse303/Net/Handles.lean
  Subject:   WHAT A PROCESS HAS TO GIVE BACK: its sockets, and its RSA key.

  Both programs make a socket, load a key, and leave both to the `ContextManager`s of `main`; a
  socket of -1 and a key that is null are nothing to give back. The `FILE`s that the programs open
  are closed where they are opened, but for that of the server's data file.

  * `held_close` -- a socket that is made by either function and closed leaves all as it was, also
    where none could be made;
  * `held_load` -- so does a key that is loaded and freed.
-/
import Cse303.Net.Connect

namespace Cse303

variable {K : Type}

/-! ## 1. Uses -/

/-- What the process has to give back: sockets, the key, and the `FILE` of the data file. -/
inductive Handle where
  | sd (n : Nat)
  | rsa
  | file
  deriving DecidableEq, Repr

/-- The uses of descriptors, as uses of handles. -/
def NetRun.handleUses (r : NetRun) : List (Use Handle) :=
  r.uses.map fun
    | .opened sd => .opened (.sd sd)
    | .closed sd => .closed (.sd sd)

/-- `close(sd)`: of -1 it only fails. -/
def closeUses (sd : Int) : List (Use Handle) := if 0 ≤ sd then [.closed (.sd sd.toNat)] else []

/-- A key that was loaded, and one that is freed: null is neither. -/
def loadUses (pubkey : Option K) : List (Use Handle) :=
  if pubkey.isSome then [.opened .rsa] else []

def freeUses (pubkey : Option K) : List (Use Handle) :=
  if pubkey.isSome then [.closed .rsa] else []

/-! ## 2. The account -/

/-- A connection, in the account of the handles: one more is open behind it, or none. -/
theorem held_connect {made : Answer Nat} {r : NetRun} (h : MakesOne made r) {s : Finset Handle}
    (hfresh : ∀ sd, made = .ok sd → .sd sd ∉ s) :
    (∃ sd : Nat, r.ret.val = sd ∧ .sd sd ∉ s ∧
      Use.held s r.handleUses = some (insert (.sd sd) s)) ∨
      r.ret.val = -1 ∧ Use.held s r.handleUses = some s := by
  unfold NetRun.handleUses
  cases h with
  | @returned sd hm hret huses =>
      refine .inl ⟨sd, hret, hfresh sd hm, ?_⟩
      rw [huses]
      exact (Use.held_opened (hfresh sd hm) []).trans (Use.held_nil _)
  | @dropped sd hm hret huses =>
      refine .inr ⟨hret, ?_⟩
      rw [huses]
      exact Use.held_pair (hfresh sd hm)
  | none hret huses =>
      refine .inr ⟨hret, ?_⟩
      rw [huses]
      rfl

/-- Behind a connection and the `close` of what it returned, all is as it was. -/
theorem held_close {made : Answer Nat} {r : NetRun} (h : MakesOne made r) {s : Finset Handle}
    (hfresh : ∀ sd, made = .ok sd → .sd sd ∉ s) :
    ∃ t, Use.held s r.handleUses = some t ∧ s ⊆ t ∧
      ∀ us, Use.held t (closeUses r.ret.val ++ us) = Use.held s us := by
  rcases held_connect h hfresh with ⟨sd, hret, hnot, hheld⟩ | ⟨hret, hheld⟩
  · refine ⟨_, hheld, Finset.subset_insert _ _, fun us => ?_⟩
    rw [hret, closeUses, if_pos (by omega)]
    exact (Use.held_closed (Finset.mem_insert_self _ _) us).trans
      (by rw [Finset.erase_insert hnot])
  · refine ⟨_, hheld, subset_rfl, fun us => ?_⟩
    rw [hret, closeUses, if_neg (by omega)]
    rfl

/-- A key that is loaded and freed. -/
theorem held_load (pubkey : Option K) {s : Finset Handle} (hrsa : .rsa ∉ s) :
    ∃ t, Use.held s (loadUses pubkey) = some t ∧ s ⊆ t ∧ (∀ x ≠ .rsa, x ∉ s → x ∉ t) ∧
      ∀ us, Use.held t (freeUses pubkey ++ us) = Use.held s us := by
  unfold loadUses freeUses
  cases pubkey with
  | none => exact ⟨s, rfl, subset_rfl, fun _ _ h => h, fun _ => rfl⟩
  | some k =>
      refine ⟨insert .rsa s, (Use.held_opened hrsa []).trans (Use.held_nil _),
        Finset.subset_insert _ _, fun x hx h => by simpa [hx] using h, fun us => ?_⟩
      exact (Use.held_closed (Finset.mem_insert_self _ _) us).trans
        (by rw [Finset.erase_insert hrsa])

end Cse303
