/-
  File:      Cse303/Lib/CallLoop.lean
  Subject:   A LOOP THAT TALKS TO ITS ENVIRONMENT THROUGH CALLS.

  A C loop around a system call is three things: its locals, the call it makes from them, and what
  it does with the answer. `CallLoop` is that triple. Between two calls the loop runs on its own,
  so a state of the machine is always one of four (`Control`): at the next call, returned, left by
  an exception, or wild -- past a store outside the memory it owns, where nothing is claimed.

  * `Env` -- what the other side may answer: a relation on a state of the environment;
  * `CallLoop.lts` -- the loop in an environment, as a transition system whose labels are the call
    and its answer;
  * `step_call` -- inversion: the only steps are answered calls;
  * `carried`, `atCalls` -- what a local is at a later call, and what holds at every call;
  * `feed`, `Ends` -- the loop run on a list of answers, with no environment, and whether one answer
    given over and over ends it.
-/
import Cse303.Lib.Lts

/-! ## 1. The loop -/

/-- Where a loop with locals `σ` and result `ω` stands between two calls. -/
inductive Control (σ ω : Type*) where
  | call (s : σ)
  | ret (w : ω)
  | threw
  | wild
  deriving Repr, DecidableEq

/-- The loop is still at a call. -/
def Control.atCall {σ ω : Type*} : Control σ ω → Bool
  | .call _ => true
  | _ => false

/-- The loop has returned a value. -/
def Control.returned {σ ω : Type*} : Control σ ω → Bool
  | .ret _ => true
  | _ => false

/-- A loop with locals `σ`, calls `κ`, answers `ρ` and result `ω`. -/
structure CallLoop (σ κ ρ ω : Type*) where
  /-- the call made from these locals -/
  call : σ → κ
  /-- the rest of the iteration, up to the next call -/
  resume : σ → ρ → Control σ ω

/-- What an environment in state `e` may answer to a call, and its state after. -/
abbrev Env (ε κ ρ : Type*) := ε → κ → ρ → ε → Prop

namespace CallLoop

variable {σ κ ρ ω ε : Type*}

/-- One answered call. -/
inductive Step (P : CallLoop σ κ ρ ω) (E : Env ε κ ρ) :
    Control σ ω × ε → κ × ρ → Control σ ω × ε → Prop where
  | answer {s : σ} {e e' : ε} {r : ρ} (h : E e (P.call s) r e') :
      Step P E (.call s, e) (P.call s, r) (P.resume s r, e')

/-- The loop in its environment. -/
def lts (P : CallLoop σ κ ρ ω) (E : Env ε κ ρ) : Lts (Control σ ω × ε) (κ × ρ) :=
  ⟨P.Step E⟩

variable {P : CallLoop σ κ ρ ω} {E : Env ε κ ρ}

/-- **Inversion of a step.** -/
theorem step_call {c c' : Control σ ω} {e e' : ε} {a : κ × ρ}
    (h : (P.lts E).step (c, e) a (c', e')) :
    ∃ s, c = .call s ∧ a.1 = P.call s ∧ E e (P.call s) a.2 e' ∧ c' = P.resume s a.2 := by
  cases h with
  | @answer s _ _ r h => exact ⟨s, rfl, rfl, h, rfl⟩

/-! ## 2. From call to call -/

/-- **A local that each answer changes by `g`** holds at a later call what `g` made of the answers
    so far. -/
theorem carried {β : Type*} {f : σ → β} {g : β → ρ → β}
    (hg : ∀ s r s', P.resume s r = .call s' → f s' = g (f s) r) {x y : Control σ ω × ε}
    {tr : List (κ × ρ)} (h : (P.lts E).Run x tr y) {b : β} (h0 : ∀ s, x.1 = .call s → f s = b) :
    ∀ s, y.1 = .call s → f s = (tr.map Prod.snd).foldl g b := by
  induction h with
  | start => exact h0
  | step _ hs ih =>
      cases hs with
      | @answer s _ _ r _ =>
          intro s' hs'
          rw [hg s r s' hs', ih s rfl, List.map_append, List.foldl_append]
          rfl

/-- **What every answer establishes at the next call**, and the start at the first, holds at every
    call. -/
theorem atCalls {p : σ → Prop} (hp : ∀ s r s', P.resume s r = .call s' → p s')
    {x y : Control σ ω × ε} {tr : List (κ × ρ)} (h : (P.lts E).Run x tr y)
    (h0 : ∀ s, x.1 = .call s → p s) : ∀ s, y.1 = .call s → p s := by
  cases h with
  | start => exact h0
  | step _ hs =>
      cases hs with
      | answer _ => exact fun s' hs' => hp _ _ s' hs'

/-! ## 3. Answers without an environment -/

/-- The loop run on a list of answers, as far as it makes calls. -/
def feed (P : CallLoop σ κ ρ ω) : Control σ ω → List ρ → Control σ ω
  | .call s, r :: rs => feed P (P.resume s r) rs
  | c, _ => c

/-- An answer that brings the loop back to the same call can be given any number of times. -/
theorem feed_again {s : σ} {r : ρ} (h : P.resume s r = .call s) :
    ∀ k, P.feed (.call s) (List.replicate k r) = .call s
  | 0 => rfl
  | k + 1 => by
      rw [List.replicate_succ]
      show P.feed (P.resume s r) (List.replicate k r) = .call s
      rw [h]
      exact feed_again h k

/-- Whether some number of equal answers ends the loop. -/
def Ends (P : CallLoop σ κ ρ ω) (c : Control σ ω) (r : ρ) : Prop :=
  ∃ k, (P.feed c (List.replicate k r)).returned = true

/-- An answer the loop returns on ends it. -/
theorem ends_of_ret {s : σ} {r : ρ} {w : ω} (h : P.resume s r = .ret w) : P.Ends (.call s) r :=
  ⟨1, by
    show (P.feed (P.resume s r) []).returned = true
    rw [h]
    rfl⟩

/-- A loop that an answer brings back to the same call is never ended by it. -/
theorem not_ends_of_call {s : σ} {r : ρ} (h : P.resume s r = .call s) : ¬ P.Ends (.call s) r := by
  rintro ⟨k, hk⟩
  rw [feed_again h k] at hk
  cases hk

/-- An answer that ends the loop or brings it back to the same call, as a condition says, ends it
    exactly under the condition. -/
theorem ends_iff {s : σ} {r : ρ} {w : ω} {p : Prop} [Decidable p]
    (h : P.resume s r = if p then .ret w else .call s) : P.Ends (.call s) r ↔ p := by
  by_cases hp : p
  · rw [if_pos hp] at h
    exact ⟨fun _ => hp, fun _ => ends_of_ret h⟩
  · rw [if_neg hp] at h
    exact ⟨fun hend => absurd hend (not_ends_of_call h), fun hp' => absurd hp' hp⟩

end CallLoop
