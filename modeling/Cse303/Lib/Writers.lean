/-
  File:      Cse303/Lib/Writers.lean
  Subject:   SEVERAL WRITERS, OF ONE FILE AND OF ONE STREAM.

  Each writer of a file truncates it when it opens it, and writes its text over the front of what is
  there when it closes it; `content` is the file behind a sequence of such events, of any writers in
  any order. In a stream that they share, the writers' texts are merged, each in its own order
  (`Merged`).

  * `content_flush` -- right behind a close the file begins with the text of that writer;
  * `content_front` -- at every point it is empty or begins with the text of one that closed it,
    whatever the texts and however long they are;
  * `Merged.sublist` -- the text of each writer stands in the stream, in order.
-/
import Mathlib.Data.List.Infix
import Mathlib.Tactic.Common

namespace Writers

variable {ι α : Type}

/-! ## 1. A file -/

/-- What the writer `i` does to the file. -/
inductive Ev (ι α : Type) where
  | trunc (i : ι)
  | flush (i : ι) (text : List α)
  deriving DecidableEq, Repr

/-- A text over the front of a content: what the content is longer by stays. -/
def overlay (text old : List α) : List α := text ++ old.drop text.length

theorem overlay_nil (text : List α) : overlay text [] = text := by simp [overlay]

theorem overlay_front (text old : List α) : text <+: overlay text old := List.prefix_append ..

/-- The file behind an event; a file that is not there is created by the first opening. -/
def Ev.apply : Option (List α) → Ev ι α → Option (List α)
  | _, .trunc _ => some []
  | old, .flush _ text => old.map (overlay text)

/-- The file behind the events. -/
def content (old : Option (List α)) (es : List (Ev ι α)) : Option (List α) :=
  es.foldl Ev.apply old

theorem content_append (old : Option (List α)) (es es' : List (Ev ι α)) :
    content old (es ++ es') = content (content old es) es' := List.foldl_append

/-- The file stays once it is there, -/
theorem content_isSome {old : Option (List α)} (h : old.isSome = true) (es : List (Ev ι α)) :
    (content old es).isSome = true := by
  induction es generalizing old with
  | nil => exact h
  | cons e es ih =>
      refine ih ?_
      cases e with
      | trunc i => rfl
      | flush i text =>
          rw [Ev.apply, Option.isSome_map]
          exact h

/-- **Behind a close**, the text of the writer that closed is in front. -/
theorem content_flush {old : Option (List α)} {es : List (Ev ι α)} {i : ι} {text c : List α}
    (h : content old (es ++ [.flush i text]) = some c) : text <+: c := by
  rw [content_append] at h
  obtain ⟨before, -, rfl⟩ := Option.map_eq_some_iff.mp h
  exact overlay_front text before

/-- **At every point** the file is empty, or the text of a writer that closed it is in front. -/
theorem content_front {es : List (Ev ι α)} {c : List α} (h : content none es = some c) :
    c = [] ∨ ∃ i text, .flush i text ∈ es ∧ text <+: c := by
  rcases List.eq_nil_or_concat es with rfl | ⟨es, e, rfl⟩
  · cases h
  · rw [List.concat_eq_append] at h ⊢
    cases e with
    | trunc i =>
        rw [content_append] at h
        exact .inl (Option.some.inj h).symm
    | flush i text => exact .inr ⟨i, text, List.mem_concat_self, content_flush h⟩

/-! ## 2. A stream -/

/-- What a stream shows that all these texts are written to, one element of one of them at a
    time. -/
inductive Merged : List (List α) → List α → Prop
  | done {ls : List (List α)} (h : ∀ l ∈ ls, l = []) : Merged ls []
  | write {ls : List (List α)} {i : Nat} {a : α} {l out : List α} (h : ls[i]? = some (a :: l))
      (hout : Merged (ls.set i l) out) : Merged ls (a :: out)

/-- A text that nobody else writes beside. -/
theorem merged_singleton {l out : List α} : Merged [l] out ↔ out = l := by
  constructor
  · intro h
    induction out generalizing l with
    | nil =>
        cases h with
        | done h => exact (h l (List.mem_singleton_self l)).symm
    | cons a out ih =>
        cases h with
        | @write _ i _ l' _ hi hout =>
            obtain ⟨hlt, hl⟩ := List.getElem?_eq_some_iff.mp hi
            obtain rfl : i = 0 := Nat.lt_one_iff.mp hlt
            rw [ih hout]
            exact hl.symm
  · intro h
    subst h
    induction out with
    | nil => exact .done fun l hl => List.mem_singleton.mp hl
    | cons a out ih => exact .write (i := 0) rfl ih

/-- **Each text stands in the stream**, in its own order. -/
theorem Merged.sublist {ls : List (List α)} {out : List α} (h : Merged ls out) :
    ∀ l ∈ ls, l.Sublist out := by
  induction h with
  | done h =>
      intro l hl
      rw [h l hl]
  | @write ls i a l out hi hout ih =>
      intro l' hl'
      obtain ⟨hlt, hl⟩ := List.getElem?_eq_some_iff.mp hi
      obtain ⟨j, hj, hget⟩ := List.getElem_of_mem hl'
      by_cases hij : i = j
      · subst hij
        rw [← hget, hl]
        exact (ih l (List.mem_set hlt l)).cons_cons a
      · have hmem : l' ∈ ls.set i l := by
          have hj' : j < (ls.set i l).length := by rw [List.length_set]; exact hj
          rw [← hget, ← List.getElem_set_of_ne hij l hj']
          exact List.getElem_mem hj'
        exact (ih l' hmem).cons a

end Writers
