/-
  File:      Cse303/Lib/Getopt.lean
  Subject:   `getopt`: HOW THE ELEMENTS OF A COMMAND LINE BECOME OPTIONS.

  As the GNU library does it, for an option string without a sign in front: operands are passed over
  wherever they stand, `--` ends the options, letters without an argument may stand together, and
  an argument is the rest of its element or, if there is none, the next element whatever that is.
  What comes back is the list of the letters returned, with their arguments; `?` stands for a
  letter that is not known, and for an argument that is missing.

  * `getopt_letter` -- a letter and its argument, as two elements, are that option, whatever the
    argument;
  * **`getopt_render`** -- so a list of options with arguments, written as elements, is read back.
-/
import Mathlib.Data.List.Basic
import Mathlib.Tactic.Common

namespace Getopt

/-- Whether a letter takes an argument; none if it is not an option. -/
def takes : List Char → Char → Option Bool
  | [], _ => none
  | x :: spec, c =>
    if c = ':' ∨ c = ';' then none
    else if x = c then some (spec.head? == some ':')
    else takes spec c

/-- The letters of one element, and the last of them if its argument is the next element. -/
def cluster (spec : List Char) : List Char → List (Char × String) × Option Char
  | [] => ([], none)
  | c :: cs =>
    match takes spec c with
    | none => (('?', "") :: (cluster spec cs).1, (cluster spec cs).2)
    | some false => ((c, "") :: (cluster spec cs).1, (cluster spec cs).2)
    | some true => if cs = [] then ([], some c) else ([(c, String.ofList cs)], none)

/-- `getopt`, called until it returns -1. -/
def getopt (spec : List Char) : List String → List (Char × String)
  | [] => []
  | arg :: args =>
    match arg.toList with
    | ['-', '-'] => []
    | '-' :: c :: cs =>
      match cluster spec (c :: cs) with
      | (os, none) => os ++ getopt spec args
      | (os, some c) =>
        match args with
        | [] => os ++ [('?', "")]
        | next :: args => os ++ (c, next) :: getopt spec args
    -- an operand
    | _ => getopt spec args

/-- Options as elements: each letter one, and its argument the next. -/
def render : List (Char × String) → List String
  | [] => []
  | (c, arg) :: os => String.ofList ['-', c] :: arg :: render os

/-- **A letter that takes an argument**, and an element behind it. -/
theorem getopt_letter {spec : List Char} {c : Char} (h : takes spec c = some true) (hc : c ≠ '-')
    (arg : String) (args : List String) :
    getopt spec (String.ofList ['-', c] :: arg :: args) = (c, arg) :: getopt spec args := by
  have hcluster : cluster spec [c] = ([], some c) := by
    simp only [cluster, h, if_true]
  rw [getopt, String.toList_ofList]
  split
  · rename_i heq
    simp only [List.cons.injEq, and_true, true_and] at heq
    exact absurd heq hc
  · rename_i heq
    obtain ⟨rfl, rfl⟩ : c = _ ∧ [] = _ := by simpa using heq
    rw [hcluster]
    rfl
  · rename_i hno
    exact absurd rfl (hno c [])

/-- **Options with arguments are read back**, and then what stands behind them. -/
theorem getopt_render {spec : List Char} {os : List (Char × String)}
    (h : ∀ o ∈ os, takes spec o.1 = some true ∧ o.1 ≠ '-') (args : List String) :
    getopt spec (render os ++ args) = os ++ getopt spec args := by
  induction os with
  | nil => rfl
  | cons o os ih =>
      obtain ⟨⟨htakes, hdash⟩, hos⟩ := List.forall_mem_cons.mp h
      obtain ⟨c, arg⟩ := o
      rw [render, List.cons_append, List.cons_append, getopt_letter htakes hdash, ih hos,
        List.cons_append]

end Getopt
