/-
  File:      Cse303/Server/Args.lean
  Subject:   `arg_t` (server.cc): THE COMMAND LINE OF THE SERVER.

  The same loop as the client's, over other options, and nothing is checked behind it. The port is
  the one field without a first value: until a `-p` stores to it, it is what the memory held before
  (`none`). A number that is given is an `int`; four of the fields are a `size_t`, in which a
  negative one becomes a count near the top.

  * **`serverArgT_iff`** -- the constructor returns for exactly the command lines whose options are
    known, with the last argument of each.
-/
import Cse303.Client.Args

namespace Cse303

open CInt

/-- `arg_t`, of the server. -/
structure ServerArgT where
  port : Option Int := none
  datafile : String := ""
  keyfile : String := ""
  threads : Int := 1
  numBuckets : Nat := 1024
  quotaInterval : Nat := 60
  quotaUp : Nat := 1048576
  quotaDown : Nat := 1048576
  quotaReq : Nat := 16
  topSize : Nat := 4
  adminName : String := ""
  deriving DecidableEq, Repr

/-- An `int` that is stored in a `size_t`. -/
def atoiSize (s : String) : Nat := toSize (atoi s)

/-- The `switch`; `none` is `throw 1`. -/
def ServerArgT.option (a : ServerArgT) (o : Opt) : Option ServerArgT :=
  match o.opt with
  | 'p' => some { a with port := some (atoi o.optarg) }
  | 'f' => some { a with datafile := o.optarg }
  | 'k' => some { a with keyfile := o.optarg }
  | 't' => some { a with threads := atoi o.optarg }
  | 'b' => some { a with numBuckets := atoiSize o.optarg }
  | 'i' => some { a with quotaInterval := atoiSize o.optarg }
  | 'u' => some { a with quotaUp := atoiSize o.optarg }
  | 'd' => some { a with quotaDown := atoiSize o.optarg }
  | 'r' => some { a with quotaReq := atoiSize o.optarg }
  | 'o' => some { a with topSize := atoiSize o.optarg }
  | 'a' => some { a with adminName := o.optarg }
  -- also for -h
  | _ => none

/-- The loop over the options. -/
def ServerArgT.options : ServerArgT → List Opt → Option ServerArgT
  | a, [] => some a
  | a, o :: os =>
    match a.option o with
    | none => none
    | some a => a.options os

/-- `arg_t(argc, argv)`; `none` is `throw 1`. -/
def serverArgT (opts : List Opt) : Option ServerArgT := ({} : ServerArgT).options opts

/-- The options with a meaning, `-h` not among them. -/
def serverKnown : List Char := ['p', 'f', 'k', 't', 'b', 'i', 'u', 'd', 'r', 'o', 'a']

/-- The arguments, with those of the options in the place of what they were. -/
def ServerArgT.lasts (a : ServerArgT) (opts : List Opt) : ServerArgT where
  port := ((lastArg 'p' opts).map atoi).or a.port
  datafile := (lastArg 'f' opts).getD a.datafile
  keyfile := (lastArg 'k' opts).getD a.keyfile
  threads := ((lastArg 't' opts).map atoi).getD a.threads
  numBuckets := ((lastArg 'b' opts).map atoiSize).getD a.numBuckets
  quotaInterval := ((lastArg 'i' opts).map atoiSize).getD a.quotaInterval
  quotaUp := ((lastArg 'u' opts).map atoiSize).getD a.quotaUp
  quotaDown := ((lastArg 'd' opts).map atoiSize).getD a.quotaDown
  quotaReq := ((lastArg 'r' opts).map atoiSize).getD a.quotaReq
  topSize := ((lastArg 'o' opts).map atoiSize).getD a.topSize
  adminName := (lastArg 'a' opts).getD a.adminName

/-- One option more in front. -/
theorem serverLasts_cons (a : ServerArgT) (o : Opt) (os : List Opt) :
    a.lasts (o :: os) = (a.lasts [o]).lasts os := by
  have hor {β : Type} (x y : Option β) (d : β) : (x.or y).getD d = x.getD (y.getD d) := by
    cases x <;> rfl
  have hmap {β : Type} (f : String → β) (x y : Option String) :
      (x.or y).map f = (x.map f).or (y.map f) := by
    cases x <;> rfl
  simp only [ServerArgT.lasts, lastArg_cons _ o, lastArg_nil, hor, hmap, Option.none_or,
    Option.or_assoc]

/-- **One pass of the loop.** -/
theorem serverOption_eq (a : ServerArgT) (o : Opt) :
    a.option o = if o.opt ∈ serverKnown then some (a.lasts [o]) else none := by
  obtain ⟨c, arg⟩ := o
  unfold ServerArgT.option
  split
  all_goals first
    | (rename_i h; subst h; rfl)
    | (rename_i h₁ h₂ h₃ h₄ h₅ h₆ h₇ h₈ h₉ h₁₀ h₁₁
       rw [if_neg]
       simp only [serverKnown, List.mem_cons, List.not_mem_nil, or_false, not_or]
       exact ⟨h₁, h₂, h₃, h₄, h₅, h₆, h₇, h₈, h₉, h₁₀, h₁₁⟩)

/-- **THE CONSTRUCTOR** throws at an option without a meaning, and otherwise the last argument of
    each option stays. -/
theorem serverArgT_iff (opts : List Opt) (b : ServerArgT) :
    serverArgT opts = some b ↔
      (∀ o ∈ opts, o.opt ∈ serverKnown) ∧ b = ({} : ServerArgT).lasts opts := by
  unfold serverArgT
  generalize ({} : ServerArgT) = a
  induction opts generalizing a with
  | nil =>
      show some a = some b ↔ _ ∧ b = a
      rw [Option.some.injEq]
      exact ⟨fun h => ⟨fun _ ho => (nomatch ho), h.symm⟩, fun h => h.2.symm⟩
  | cons o os ih =>
      rw [ServerArgT.options, serverOption_eq, List.forall_mem_cons, serverLasts_cons a o os]
      by_cases h : o.opt ∈ serverKnown
      · rw [if_pos h]
        exact (ih _).trans ⟨fun h' => ⟨⟨h, h'.1⟩, h'.2⟩, fun h' => ⟨h'.1.2, h'.2⟩⟩
      · rw [if_neg h]
        exact ⟨(nomatch ·), fun h' => absurd h'.1.1 h⟩

end Cse303
