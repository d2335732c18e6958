/-
  File:      Cse303/Lib/Lts.lean
  Subject:   LABELLED TRANSITION SYSTEMS AND THEIR FINITE RUNS.

  A system is a step relation `σ → α → σ → Prop`; a run is a finite sequence of steps, kept with
  the list of its labels (its trace). Nothing here speaks about a particular program.

  * `Run.traceInvariant`, `Run.invariant` -- the induction over a run, packaged once: what holds at
    the start and is kept by every step holds of the trace and the state of every run;
  * `restrict`, `Run.of_restrict` -- the system whose steps all meet a condition, so that "every run
    whose steps all meet `Q`" is a run of `L.restrict Q`;
  * `Run.ranked` -- a measure that every step but the idle ones decreases bounds the number of
    steps that are not idle, hence the length of every run with finitely many idle steps;
  * `RankedSimulates`, `Run.simulateRanked` -- every run of the one system is followed by a run of the
    other, whose length bounds its own;
  * `Refines`, `Run.refine` -- every run of the one system is a run of the other, under the same
    labels.
-/
import Mathlib.Data.List.Basic
import Mathlib.Tactic.Common

/-- A labelled transition system with states `σ` and labels `α`. -/
structure Lts (σ α : Type*) where
  step : σ → α → σ → Prop

namespace Lts

variable {σ α τ β : Type*} {L : Lts σ α}

/-- A finite run from `s`, with its trace; the last step is the outermost. -/
inductive Run (L : Lts σ α) (s : σ) : List α → σ → Prop where
  | start : Run L s [] s
  | step {tr : List α} {s₁ s₂ : σ} {a : α} (h : Run L s tr s₁) (hs : L.step s₁ a s₂) :
      Run L s (tr ++ [a]) s₂

/-! ## 1. Composing runs -/

theorem Run.single {s s' : σ} {a : α} (h : L.step s a s') : L.Run s [a] s' :=
  .step .start h

theorem Run.trans {s s₁ s₂ : σ} {tr tr' : List α} (h : L.Run s tr s₁) (h' : L.Run s₁ tr' s₂) :
    L.Run s (tr ++ tr') s₂ := by
  induction h' with
  | start => simpa using h
  | step _ hs ih =>
      rw [← List.append_assoc]
      exact .step ih hs

theorem Run.nil_eq {s s' : σ} (h : L.Run s [] s') : s' = s := by
  generalize htr : ([] : List α) = tr at h
  cases h with
  | start => rfl
  | step _ _ => exact absurd htr.symm (List.append_ne_nil_of_right_ne_nil _ (List.cons_ne_nil _ _))

/-- The first step of a run. -/
theorem run_cons {s s' : σ} {a : α} {tr : List α} :
    L.Run s (a :: tr) s' ↔ ∃ s₁, L.step s a s₁ ∧ L.Run s₁ tr s' := by
  constructor
  · intro h
    generalize htr : a :: tr = t at h
    induction h generalizing tr with
    | start => cases htr
    | @step t s₁ s₂ b h hs ih =>
        cases t with
        | nil =>
            obtain ⟨rfl, rfl⟩ := List.cons.inj htr
            obtain rfl := h.nil_eq
            exact ⟨s₂, hs, .start⟩
        | cons a' t =>
            obtain ⟨rfl, rfl⟩ := List.cons.inj htr
            obtain ⟨z, hz, hrun⟩ := ih rfl
            exact ⟨z, hz, hrun.step hs⟩
  · intro h
    obtain ⟨s₁, hs, h⟩ := h
    exact (Run.single hs).trans h

/-! ## 2. Invariants -/

/-- **The invariant rule, over trace and state.** -/
theorem Run.traceInvariant {I : List α → σ → Prop} {s s' : σ} {tr : List α}
    (h : L.Run s tr s') (h0 : I [] s)
    (hI : ∀ tr s₁ a s₂, L.Run s tr s₁ → I tr s₁ → L.step s₁ a s₂ → I (tr ++ [a]) s₂) :
    I tr s' := by
  induction h with
  | start => exact h0
  | step h hs ih => exact hI _ _ _ _ h ih hs

/-- **The invariant rule, over states.** -/
theorem Run.invariant {I : σ → Prop} {s s' : σ} {tr : List α} (h : L.Run s tr s') (h0 : I s)
    (hI : ∀ s₁ a s₂, I s₁ → L.step s₁ a s₂ → I s₂) : I s' :=
  h.traceInvariant (I := fun _ => I) h0 fun _ _ _ _ _ => hI _ _ _

/-! ## 3. Runs whose steps all meet a condition -/

/-- The steps of `L` that meet `Q`. -/
def restrict (L : Lts σ α) (Q : σ → α → σ → Prop) : Lts σ α :=
  ⟨fun s a s' => L.step s a s' ∧ Q s a s'⟩

/-- A run of the restricted system is a run. -/
theorem Run.of_restrict {Q : σ → α → σ → Prop} {s s' : σ} {tr : List α}
    (h : (L.restrict Q).Run s tr s') : L.Run s tr s' := by
  induction h with
  | start => exact .start
  | step _ hs ih => exact .step ih hs.1

/-! ## 4. Bounded runs -/

/-- **The ranking rule**: where a step that is not idle decreases the measure, and an idle one does
    not raise it, a run has at most as many non-idle steps as its start measures. -/
theorem Run.ranked {I : σ → Prop} {idle : α → Bool} {m : σ → Nat} {s s' : σ} {tr : List α}
    (h : L.Run s tr s') (h0 : I s) (hI : ∀ s₁ a s₂, I s₁ → L.step s₁ a s₂ → I s₂)
    (hm : ∀ s₁ a s₂, I s₁ → L.step s₁ a s₂ → m s₂ + (if idle a then 0 else 1) ≤ m s₁) :
    tr.length + m s' ≤ tr.countP idle + m s := by
  induction h with
  | start => simp
  | @step tr s₁ s₂ a h hs ih =>
      have hstep := hm s₁ a s₂ (h.invariant h0 hI) hs
      simp only [List.length_append, List.length_singleton, List.countP_append,
        List.countP_singleton]
      by_cases ha : idle a = true
      · simp only [ha, if_true] at hstep ⊢
        omega
      · simp only [ha] at hstep ⊢
        simp only [Bool.false_eq_true, if_false] at hstep ⊢
        omega

/-! ## 5. Simulation -/

/-- `R` is kept along the steps of `A`, each answered by a (possibly empty) run of `B`; and a step
    of `A` that is not idle is answered by a step of `B`, or takes something off the measure. -/
def RankedSimulates (A : Lts σ α) (B : Lts τ β) (R : σ → τ → Prop) (idle : α → Bool)
    (m : σ → Nat) : Prop :=
  ∀ s t a s', R s t → A.step s a s' →
    ∃ tr t', B.Run t tr t' ∧ R s' t' ∧ m s' + (if idle a then 0 else 1) ≤ m s + tr.length

/-- **A ranked simulation follows every run**, and the run it follows it by bounds its length. -/
theorem Run.simulateRanked {A : Lts σ α} {B : Lts τ β} {R : σ → τ → Prop} {idle : α → Bool}
    {m : σ → Nat} (hR : RankedSimulates A B R idle m) {s s' : σ} {t : τ} {tr : List α}
    (h : A.Run s tr s') (h0 : R s t) :
    ∃ tr' t', B.Run t tr' t' ∧ R s' t' ∧
      tr.length + m s' ≤ tr.countP idle + m s + tr'.length := by
  induction h with
  | start => exact ⟨[], t, .start, h0, by simp⟩
  | @step tr s₁ s₂ a _ hs ih =>
      obtain ⟨tr₁, t₁, h₁, hR₁, hlen₁⟩ := ih
      obtain ⟨tr₂, t₂, h₂, hR₂, hlen₂⟩ := hR _ _ _ _ hR₁ hs
      refine ⟨tr₁ ++ tr₂, t₂, h₁.trans h₂, hR₂, ?_⟩
      simp only [List.length_append, List.length_singleton, List.countP_append,
        List.countP_singleton]
      by_cases ha : idle a = true
      · simp only [ha, if_true] at hlen₂ ⊢
        omega
      · simp only [ha, Bool.false_eq_true, if_false] at hlen₂ ⊢
        omega

/-- `R` is kept along the steps of `A`, each answered by a step of `B` with the same label. -/
def Refines (A : Lts σ α) (B : Lts τ α) (R : σ → τ → Prop) : Prop :=
  ∀ s t a s', R s t → A.step s a s' → ∃ t', B.step t a t' ∧ R s' t'

/-- **A refinement follows every run**, trace and all. -/
theorem Run.refine {A : Lts σ α} {B : Lts τ α} {R : σ → τ → Prop} (hR : Refines A B R)
    {s s' : σ} {t : τ} {tr : List α} (h : A.Run s tr s') (h0 : R s t) :
    ∃ t', B.Run t tr t' ∧ R s' t' := by
  induction h with
  | start => exact ⟨t, .start, h0⟩
  | step _ hs ih =>
      obtain ⟨t₁, h₁, hR₁⟩ := ih
      obtain ⟨t₂, hs₂, hR₂⟩ := hR _ _ _ _ hR₁ hs
      exact ⟨t₂, h₁.step hs₂, hR₂⟩

end Lts
