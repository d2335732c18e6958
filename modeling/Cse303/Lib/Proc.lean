/-
  File:      Cse303/Lib/Proc.lean
  Subject:   STRAIGHT-LINE PROCESSES: what they did, in order, and how they ended, if they have.

  A process runs its parts one after the other; a part that ends the process is its last. Over any
  type of events and of endings.

  * `exit_seq` -- a process goes on exactly if all its parts do;
  * `mem_seq`, `exit_seq_some` -- each of its events is one of a part, and an ending is that of a
    part of which every event is one of the process.
-/
import Mathlib.Data.List.Basic
import Mathlib.Tactic.Common

variable {ε χ : Type}

/-- A process so far; `none` for one that goes on. -/
structure Proc (ε χ : Type) where
  events : List ε
  exit : Option χ
  deriving DecidableEq

namespace Proc

def skip : Proc ε χ := ⟨[], none⟩

def emit (es : List ε) : Proc ε χ := ⟨es, none⟩

def stop (x : χ) : Proc ε χ := ⟨[], some x⟩

/-- `q` runs behind `p`, if that goes on. -/
def andThen (p q : Proc ε χ) : Proc ε χ :=
  match p.exit with
  | some _ => p
  | none => ⟨p.events ++ q.events, q.exit⟩

/-- The parts in order. -/
def seq : List (Proc ε χ) → Proc ε χ
  | [] => skip
  | p :: ps => p.andThen (seq ps)

theorem andThen_some {p : Proc ε χ} {x : χ} (h : p.exit = some x) (q : Proc ε χ) :
    p.andThen q = p := by
  unfold andThen
  rw [h]

theorem andThen_none {p : Proc ε χ} (h : p.exit = none) (q : Proc ε χ) :
    p.andThen q = ⟨p.events ++ q.events, q.exit⟩ := by
  unfold andThen
  rw [h]

/-- Behind a part that goes on, the second part ends the process. -/
theorem exit_behind {p : Proc ε χ} (h : p.exit = none) (q : Proc ε χ) :
    (p.andThen q).exit = q.exit := by rw [andThen_none h]

@[simp] theorem skip_andThen (p : Proc ε χ) : (skip : Proc ε χ).andThen p = p := rfl

@[simp] theorem andThen_skip (p : Proc ε χ) : p.andThen skip = p := by
  obtain ⟨es, exit⟩ := p
  cases exit with
  | none => exact congrArg (Proc.mk · none) (List.append_nil es)
  | some x => rfl

/-- The second part's events only come if it runs. -/
theorem events_andThen (p q : Proc ε χ) :
    (p.andThen q).events = p.events ++ if p.exit.isNone then q.events else [] := by
  cases h : p.exit with
  | none => rw [andThen_none h]; rfl
  | some x => rw [andThen_some h]; exact (List.append_nil _).symm

/-- The events of two parts that pass a test, the second part's only if it runs. -/
theorem filter_andThen (f : ε → Bool) (p q : Proc ε χ) :
    (p.andThen q).events.filter f =
      p.events.filter f ++ if p.exit.isNone then q.events.filter f else [] := by
  cases h : p.exit with
  | none => rw [andThen_none h, List.filter_append]; rfl
  | some x => rw [andThen_some h]; exact (List.append_nil _).symm

theorem exit_andThen (p q : Proc ε χ) :
    (p.andThen q).exit = none ↔ p.exit = none ∧ q.exit = none := by
  cases h : p.exit with
  | none => rw [andThen_none h]; exact ⟨fun hq => ⟨rfl, hq⟩, fun hq => hq.2⟩
  | some x => rw [andThen_some h, h]; exact ⟨(nomatch ·), fun hq => (nomatch hq.1)⟩

/-- **A process goes on exactly if its parts do.** -/
theorem exit_seq {ps : List (Proc ε χ)} : (seq ps).exit = none ↔ ∀ p ∈ ps, p.exit = none := by
  induction ps with
  | nil => exact ⟨fun _ _ hp => (nomatch hp), fun _ => rfl⟩
  | cons p ps ih => rw [seq, exit_andThen, ih, List.forall_mem_cons]

/-- **Its events are those of its parts**, -/
theorem mem_seq {ps : List (Proc ε χ)} {e : ε} (h : e ∈ (seq ps).events) :
    ∃ p ∈ ps, e ∈ p.events := by
  induction ps with
  | nil => cases h
  | cons p ps ih =>
      rw [seq] at h
      cases hp : p.exit with
      | some x =>
          rw [andThen_some hp] at h
          exact ⟨p, List.mem_cons_self, h⟩
      | none =>
          rw [andThen_none hp] at h
          rcases List.mem_append.mp h with h | h
          · exact ⟨p, List.mem_cons_self, h⟩
          · obtain ⟨q, hq, hmem⟩ := ih h
            exact ⟨q, List.mem_cons_of_mem _ hq, hmem⟩

/-- **and its ending is that of one of them**, all of which it ran. -/
theorem exit_seq_some {ps : List (Proc ε χ)} {x : χ} (h : (seq ps).exit = some x) :
    ∃ p ∈ ps, p.exit = some x ∧ ∀ e ∈ p.events, e ∈ (seq ps).events := by
  induction ps with
  | nil => cases h
  | cons p ps ih =>
      rw [seq] at h ⊢
      cases hp : p.exit with
      | some y =>
          rw [andThen_some hp] at h ⊢
          exact ⟨p, List.mem_cons_self, hp.symm.trans h ▸ hp, fun _ he => he⟩
      | none =>
          rw [andThen_none hp] at h ⊢
          obtain ⟨q, hq, hexit, hall⟩ := ih h
          exact ⟨q, List.mem_cons_of_mem _ hq, hexit,
            fun e he => List.mem_append_right _ (hall e he)⟩

end Proc
