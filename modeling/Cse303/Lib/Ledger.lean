/-
  File:      Cse303/Lib/Ledger.lean
  Subject:   HANDLES THAT ARE OPENED AND CLOSED, and the account of them.

  A history is a list of uses. The account of it (`held`) is the set of handles that are open behind
  it, or none once a handle was opened that was open already, or closed that was not: so an account
  that exists says that nothing was closed twice, and an empty one that nothing is left open. Over
  any type of handles.

  * `held_append` -- the account of two histories is that of the second from where the first left;
  * `held_frame` -- what else is open does not matter, as long as it is not used;
  * `Shared`, `Shared.use` -- where the open handles are shared out among owners, who use their own
    and open new ones in any order, each goes on to have one owner.
-/
import Mathlib.Data.Finset.Basic
import Mathlib.Data.Finset.Lattice.Lemmas
import Mathlib.Tactic.Common

/-! ## 1. The account -/

/-- A use of a handle. -/
inductive Use (α : Type) where
  | opened (a : α)
  | closed (a : α)
  deriving DecidableEq, Repr

namespace Use

variable {α : Type}

/-- The handle used. -/
def handle : Use α → α
  | opened a => a
  | closed a => a

section Held

variable [DecidableEq α]

/-- The handles that are open behind a history, from those that were before. -/
def held : Finset α → List (Use α) → Option (Finset α)
  | s, [] => some s
  | s, opened a :: us => if a ∈ s then none else held (insert a s) us
  | s, closed a :: us => if a ∈ s then held (s.erase a) us else none

@[simp] theorem held_nil (s : Finset α) : held s [] = some s := rfl

theorem held_opened {s : Finset α} {a : α} (h : a ∉ s) (us : List (Use α)) :
    held s (opened a :: us) = held (insert a s) us := if_neg h

theorem held_closed {s : Finset α} {a : α} (h : a ∈ s) (us : List (Use α)) :
    held s (closed a :: us) = held (s.erase a) us := if_pos h

/-- **Two histories, one behind the other.** -/
theorem held_append {s t : Finset α} {us : List (Use α)} (h : held s us = some t)
    (vs : List (Use α)) : held s (us ++ vs) = held t vs := by
  induction us generalizing s with
  | nil => rw [← Option.some.inj h, List.nil_append]
  | cons u us ih =>
      cases u with
      | opened a =>
          by_cases ha : a ∈ s
          · rw [held, if_pos ha] at h
            cases h
          · rw [held_opened ha] at h
            rw [List.cons_append, held_opened ha, ih h]
      | closed a =>
          by_cases ha : a ∈ s
          · rw [held_closed ha] at h
            rw [List.cons_append, held_closed ha, ih h]
          · rw [held, if_neg ha] at h
            cases h

/-- A history that has an account has one at every point. -/
theorem held_front {s t : Finset α} {us vs : List (Use α)} (h : held s (us ++ vs) = some t) :
    ∃ r, held s us = some r := by
  induction us generalizing s with
  | nil => exact ⟨s, rfl⟩
  | cons u us ih =>
      rw [List.cons_append] at h
      cases u with
      | opened a =>
          by_cases ha : a ∈ s
          · rw [held, if_pos ha] at h
            cases h
          · rw [held_opened ha] at h ⊢
            exact ih h
      | closed a =>
          by_cases ha : a ∈ s
          · rw [held_closed ha] at h ⊢
            exact ih h
          · rw [held, if_neg ha] at h
            cases h

/-- **What else is open stays open**, as long as the history does not use it. -/
theorem held_frame {s t r : Finset α} {us : List (Use α)} (h : held s us = some t)
    (hr : ∀ u ∈ us, u.handle ∉ r) : held (s ∪ r) us = some (t ∪ r) := by
  induction us generalizing s with
  | nil => rw [← Option.some.inj h, held_nil]
  | cons u us ih =>
      obtain ⟨hu, hus⟩ := List.forall_mem_cons.mp hr
      cases u with
      | opened a =>
          have hr : a ∉ r := hu
          by_cases ha : a ∈ s
          · rw [held, if_pos ha] at h
            cases h
          · rw [held_opened ha] at h
            rw [held_opened (by simp [ha, hr]), ← Finset.insert_union]
            exact ih h hus
      | closed a =>
          have hr : a ∉ r := hu
          by_cases ha : a ∈ s
          · rw [held_closed ha] at h
            rw [held_closed (Finset.mem_union_left r ha), Finset.erase_union_distrib,
              Finset.erase_eq_of_notMem hr]
            exact ih h hus
          · rw [held, if_neg ha] at h
            cases h

/-- Opened and closed again: as it was. -/
theorem held_pair {s : Finset α} {a : α} (h : a ∉ s) :
    held s [opened a, closed a] = some s := by
  rw [held_opened h, held_closed (Finset.mem_insert_self a s), Finset.erase_insert h, held_nil]

end Held

/-! ## 2. Handles that are shared out -/

/-- Every open handle has an owner, and one only. -/
structure Shared {ι : Type} (s : Finset α) (own : ι → Finset α) : Prop where
  mem : ∀ a, a ∈ s ↔ ∃ i, a ∈ own i
  one : ∀ a i j, a ∈ own i → a ∈ own j → i = j

section Shared

variable {ι : Type} [DecidableEq ι] [DecidableEq α] {s : Finset α} {own : ι → Finset α}

/-- An owner opens one, -/
theorem Shared.add (h : Shared s own) {a : α} (ha : a ∉ s) (i : ι) :
    Shared (insert a s) (Function.update own i (insert a (own i))) := by
  have hnot (j : ι) : a ∉ own j := fun hj => ha ((h.mem a).mpr ⟨j, hj⟩)
  have hmem (b : α) (j : ι) : b ∈ Function.update own i (insert a (own i)) j ↔
      (b = a ∧ j = i) ∨ b ∈ own j := by
    by_cases hj : j = i
    · subst hj
      simp
    · simp [hj]
  refine ⟨fun b => ?_, fun b j k hj hk => ?_⟩
  · rw [Finset.mem_insert, h.mem]
    constructor
    · rintro (rfl | ⟨j, hj⟩)
      · exact ⟨i, (hmem b i).mpr (.inl ⟨rfl, rfl⟩)⟩
      · exact ⟨j, (hmem b j).mpr (.inr hj)⟩
    · rintro ⟨j, hj⟩
      exact ((hmem b j).mp hj).imp And.left fun hj => ⟨j, hj⟩
  · rcases (hmem b j).mp hj with ⟨rfl, rfl⟩ | hj'
    · rcases (hmem b k).mp hk with ⟨-, rfl⟩ | hk'
      · rfl
      · exact absurd hk' (hnot k)
    · rcases (hmem b k).mp hk with ⟨rfl, -⟩ | hk'
      · exact absurd hj' (hnot j)
      · exact h.one b j k hj' hk'

/-- closes one of his, -/
theorem Shared.remove (h : Shared s own) {a : α} {i : ι} (ha : a ∈ own i) :
    Shared (s.erase a) (Function.update own i ((own i).erase a)) := by
  have hmem (b : α) (j : ι) : b ∈ Function.update own i ((own i).erase a) j ↔
      b ≠ a ∧ b ∈ own j := by
    by_cases hj : j = i
    · subst hj
      simp
    · rw [Function.update_of_ne hj]
      refine ⟨fun hb => ⟨?_, hb⟩, And.right⟩
      rintro rfl
      exact hj (h.one b j i hb ha)
  refine ⟨fun b => ?_, fun b j k hj hk =>
    h.one b j k ((hmem b j).mp hj).2 ((hmem b k).mp hk).2⟩
  rw [Finset.mem_erase, h.mem]
  constructor
  · rintro ⟨hne, j, hj⟩
    exact ⟨j, (hmem b j).mpr ⟨hne, hj⟩⟩
  · rintro ⟨j, hj⟩
    exact ⟨((hmem b j).mp hj).1, j, ((hmem b j).mp hj).2⟩

/-- or leaves all of his to another. -/
theorem Shared.pass (h : Shared s own) {i j : ι} (hij : i ≠ j) :
    Shared s (Function.update (Function.update own i ∅) j (own j ∪ own i)) := by
  have hmem (b : α) (k : ι) : b ∈ Function.update (Function.update own i ∅) j (own j ∪ own i) k ↔
      (k = j ∧ b ∈ own i) ∨ (k ≠ i ∧ b ∈ own k) := by
    by_cases hk : k = j
    · subst hk
      simp [hij.symm, or_comm]
    · by_cases hki : k = i
      · subst hki
        simp [hk]
      · simp [hk, hki]
  refine ⟨fun b => ?_, fun b k l hk hl => ?_⟩
  · rw [h.mem]
    constructor
    · rintro ⟨k, hk⟩
      by_cases hki : k = i
      · exact ⟨j, (hmem b j).mpr (.inl ⟨rfl, hki ▸ hk⟩)⟩
      · exact ⟨k, (hmem b k).mpr (.inr ⟨hki, hk⟩)⟩
    · rintro ⟨k, hk⟩
      rcases (hmem b k).mp hk with ⟨-, hk⟩ | ⟨-, hk⟩
      · exact ⟨i, hk⟩
      · exact ⟨k, hk⟩
  · rcases (hmem b k).mp hk with ⟨rfl, hk'⟩ | ⟨hki, hk'⟩
    · rcases (hmem b l).mp hl with ⟨rfl, -⟩ | ⟨hli, hl'⟩
      · rfl
      · exact absurd (h.one b l i hl' hk') hli
    · rcases (hmem b l).mp hl with ⟨rfl, hl'⟩ | ⟨-, hl'⟩
      · exact absurd (h.one b k i hk' hl') hki
      · exact h.one b k l hk' hl'

/-- **A use by an owner**, of a handle that is his, or of one that nobody has: the account goes on,
    and the handles stay shared out. -/
theorem Shared.use (h : Shared s own) {i : ι} {u : Use α} {o : Finset α}
    (hown : held (own i) [u] = some o) (hfresh : ∀ a, u = opened a → a ∉ s) :
    ∃ t, held s [u] = some t ∧ Shared t (Function.update own i o) := by
  cases u with
  | opened a =>
      have ha := hfresh a rfl
      have hnot : a ∉ own i := fun hi => ha ((h.mem a).mpr ⟨i, hi⟩)
      rw [held_opened hnot, held_nil] at hown
      rw [← Option.some.inj hown]
      exact ⟨_, (held_opened ha []).trans (held_nil _), h.add ha i⟩
  | closed a =>
      by_cases ha : a ∈ own i
      · rw [held_closed ha, held_nil] at hown
        rw [← Option.some.inj hown]
        exact ⟨_, (held_closed ((h.mem a).mpr ⟨i, ha⟩) []).trans (held_nil _), h.remove ha⟩
      · rw [held, if_neg ha] at hown
        cases hown

end Shared

end Use
