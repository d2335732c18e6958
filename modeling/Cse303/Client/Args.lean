/-
  File:      Cse303/Client/Args.lean
  Subject:   `arg_t` (client.cc): THE COMMAND LINE OF THE CLIENT.

  The command line is the list of what `getopt` returned before its -1, of any length. The
  constructor stores the arguments, the last one of an option staying, throws at the first option
  it does not know, and then checks the command against its three tables.

  * `Req`, `Asks` -- the requests a client can make, and what it means for a command line to ask for
    one, as the help text has it;
  * `options_iff` -- the loop over the options: what it leaves is the last argument of each;
  * **`argT_iff`** -- so the constructor returns for exactly the command lines that ask for a
    request, and with the last arguments.
-/
import Cse303.Lib.CInt
import Cse303.Lib.Inet
import Mathlib.Data.List.Basic

namespace Cse303

open CInt
open Inet (isspace)

/-! ## 1. The requests -/

/-- The requests of protocol.h that are made by command. -/
inductive Req where
  | bye
  | sav
  | reg
  | set
  | get
  | all
  deriving DecidableEq, Repr

/-- `REQ_BYE`, `REQ_SAV`, `REQ_REG`, `REQ_SET`, `REQ_GET`, `REQ_ALL`. -/
def Req.text : Req → String
  | .bye => "EXIT____"
  | .sav => "PERSIST_"
  | .reg => "REGISTER"
  | .set => "SETPFILE"
  | .get => "GETPFILE"
  | .all => "ALLUSERS"

/-- The requests that come with a `-1`. -/
def Req.takesArg : Req → Bool
  | .set | .get | .all => true
  | .bye | .sav | .reg => false

theorem Req.text_inj {r r' : Req} (h : r.text = r'.text) : r = r' := by
  cases r <;> cases r' <;> first | rfl | exact absurd h (by decide)

/-! ## 2. The constructor -/

/-- What `getopt` returned, and `optarg`. -/
structure Opt where
  opt : Char
  optarg : String
  deriving DecidableEq, Repr

/-- `atoi`: a `strtol`, stored in an `int`. -/
def atoi (s : String) : Int :=
  let value (cs : List Char) : Int :=
    (cs.takeWhile Char.isDigit).foldl (fun n c => 10 * n + (c.toNat - '0'.toNat)) 0
  let n : Int :=
    match s.toList.dropWhile isspace with
    | '-' :: cs => -value cs
    | '+' :: cs => value cs
    | cs => value cs
  toInt (max (-9223372036854775808) (min n 9223372036854775807))

/-- `arg_t`. -/
structure ArgT where
  server : String := ""
  port : Int := 0
  keyfile : String := ""
  username : String := ""
  userpass : String := ""
  command : String := ""
  arg1 : String := ""
  arg2 : String := ""
  deriving DecidableEq, Repr

/-- The `switch`; `none` is `throw 1`. -/
def ArgT.option (a : ArgT) (o : Opt) : Option ArgT :=
  match o.opt with
  | 'p' => some { a with port := atoi o.optarg }
  | 's' => some { a with server := o.optarg }
  | 'k' => some { a with keyfile := o.optarg }
  | 'u' => some { a with username := o.optarg }
  | 'w' => some { a with userpass := o.optarg }
  | 'C' => some { a with command := o.optarg }
  | '1' => some { a with arg1 := o.optarg }
  | '2' => some { a with arg2 := o.optarg }
  -- also for -h
  | _ => none

/-- The loop over the options. -/
def ArgT.options : ArgT → List Opt → Option ArgT
  | a, [] => some a
  | a, o :: os =>
    match a.option o with
    | none => none
    | some a => a.options os

/-- The commands without an argument, with one, and with two. -/
def args0 : List String := [Req.bye.text, Req.sav.text, Req.reg.text]
def args1 : List String := [Req.set.text, Req.get.text, Req.all.text]
def args2 : List String := []

/-- The loop over one of the tables: it returns or throws at a match, and otherwise ends. -/
def ArgT.lookUp (a : ArgT) (throws : Bool) : List String → Option Bool
  | [] => none
  | c :: cs => if a.command = c then some (!throws) else a.lookUp throws cs

/-- The three loops, and the `throw 1` behind them. -/
def ArgT.valid (a : ArgT) : Bool :=
  match a.lookUp (a.arg1 != "" || a.arg2 != "") args0 with
  | some ok => ok
  | none =>
    match a.lookUp (a.arg1 == "" || a.arg2 != "") args1 with
    | some ok => ok
    | none =>
      match a.lookUp (a.arg1 == "" || a.arg2 == "") args2 with
      | some ok => ok
      | none => false

/-- `arg_t(argc, argv)`; `none` is `throw 1`. -/
def argT (opts : List Opt) : Option ArgT :=
  match ({} : ArgT).options opts with
  | none => none
  | some a => if a.valid then some a else none

/-! ## 3. What a command line asks for -/

/-- The options with a meaning, `-h` not among them. -/
def known : List Char := ['p', 's', 'k', 'u', 'w', 'C', '1', '2']

/-- The last argument of an option, if there is one, -/
def lastArg (c : Char) (opts : List Opt) : Option String :=
  (opts.reverse.find? (fun o => o.opt == c)).map Opt.optarg

/-- or the empty string. -/
def lastValue (c : Char) (opts : List Opt) : String := (lastArg c opts).getD ""

/-- **A command line asks for a request**: every option is known, the last `-C` names the request,
    and it has the `-1` that the request needs, and no `-2`. -/
structure Asks (opts : List Opt) (r : Req) : Prop where
  options : ∀ o ∈ opts, o.opt ∈ known
  command : lastValue 'C' opts = r.text
  arg1 : lastValue '1' opts ≠ "" ↔ r.takesArg = true
  arg2 : lastValue '2' opts = ""

/-- The arguments, with those of the options in the place of what they were. -/
def ArgT.lasts (a : ArgT) (opts : List Opt) : ArgT where
  server := (lastArg 's' opts).getD a.server
  port := ((lastArg 'p' opts).map atoi).getD a.port
  keyfile := (lastArg 'k' opts).getD a.keyfile
  username := (lastArg 'u' opts).getD a.username
  userpass := (lastArg 'w' opts).getD a.userpass
  command := (lastArg 'C' opts).getD a.command
  arg1 := (lastArg '1' opts).getD a.arg1
  arg2 := (lastArg '2' opts).getD a.arg2

/-! ## 4. The loop over the options -/

@[simp] theorem lastArg_nil (c : Char) : lastArg c [] = none := rfl

/-- An option counts as long as no later one is the same. -/
theorem lastArg_cons (c : Char) (o : Opt) (os : List Opt) :
    lastArg c (o :: os) = (lastArg c os).or (if o.opt = c then some o.optarg else none) := by
  unfold lastArg
  rw [List.reverse_cons, List.find?_append]
  cases os.reverse.find? (fun o => o.opt == c) with
  | some o' => rfl
  | none => by_cases h : o.opt = c <;> simp [h]

theorem lasts_nil (a : ArgT) : a.lasts [] = a := rfl

/-- One option more in front. -/
theorem lasts_cons (a : ArgT) (o : Opt) (os : List Opt) :
    a.lasts (o :: os) = (a.lasts [o]).lasts os := by
  have hor {β : Type} (x y : Option β) (d : β) : (x.or y).getD d = x.getD (y.getD d) := by
    cases x <;> rfl
  have hmap (x y : Option String) : (x.or y).map atoi = (x.map atoi).or (y.map atoi) := by
    cases x <;> rfl
  simp only [ArgT.lasts, lastArg_cons _ o, lastArg_nil, hor, hmap, Option.none_or]

/-- **One pass of the loop.** -/
theorem option_eq (a : ArgT) (o : Opt) :
    a.option o = if o.opt ∈ known then some (a.lasts [o]) else none := by
  obtain ⟨c, arg⟩ := o
  unfold ArgT.option
  split
  all_goals first
    | (rename_i h; subst h; rfl)
    | (rename_i h₁ h₂ h₃ h₄ h₅ h₆ h₇ h₈
       rw [if_neg]
       simp only [known, List.mem_cons, List.not_mem_nil, or_false, not_or]
       exact ⟨h₁, h₂, h₃, h₄, h₅, h₆, h₇, h₈⟩)

/-- **The loop**: it throws at an option without a meaning, and otherwise the last argument of each
    option stays. -/
theorem options_iff (opts : List Opt) (a b : ArgT) :
    a.options opts = some b ↔ (∀ o ∈ opts, o.opt ∈ known) ∧ b = a.lasts opts := by
  induction opts generalizing a with
  | nil =>
      show some a = some b ↔ _
      rw [lasts_nil, Option.some.injEq]
      exact ⟨fun h => ⟨fun _ ho => (nomatch ho), h.symm⟩, fun h => h.2.symm⟩
  | cons o os ih =>
      rw [ArgT.options, option_eq, List.forall_mem_cons, lasts_cons a o os]
      by_cases h : o.opt ∈ known
      · rw [if_pos h]
        exact (ih _).trans ⟨fun h' => ⟨⟨h, h'.1⟩, h'.2⟩, fun h' => ⟨h'.1.2, h'.2⟩⟩
      · rw [if_neg h]
        exact ⟨(nomatch ·), fun h' => absurd h'.1.1 h⟩

/-! ## 5. The check of the command -/

theorem mem_args0 {c : String} : c ∈ args0 ↔ ∃ r : Req, c = r.text ∧ r.takesArg = false := by
  constructor
  · intro h
    simp only [args0, List.mem_cons, List.not_mem_nil, or_false] at h
    rcases h with h | h | h
    · exact ⟨.bye, h, rfl⟩
    · exact ⟨.sav, h, rfl⟩
    · exact ⟨.reg, h, rfl⟩
  · rintro ⟨r, rfl, h⟩
    cases r <;> first | decide | cases h

theorem mem_args1 {c : String} : c ∈ args1 ↔ ∃ r : Req, c = r.text ∧ r.takesArg = true := by
  constructor
  · intro h
    simp only [args1, List.mem_cons, List.not_mem_nil, or_false] at h
    rcases h with h | h | h
    · exact ⟨.set, h, rfl⟩
    · exact ⟨.get, h, rfl⟩
    · exact ⟨.all, h, rfl⟩
  · rintro ⟨r, rfl, h⟩
    cases r <;> first | decide | cases h

/-- **One of the three loops.** -/
theorem lookUp_eq (a : ArgT) (throws : Bool) (table : List String) :
    a.lookUp throws table = if a.command ∈ table then some (!throws) else none := by
  induction table with
  | nil => rfl
  | cons c cs ih =>
      rw [ArgT.lookUp, ih]
      by_cases h : a.command = c <;> simp [h]

/-- **The check**: the command is a request's, and its arguments are as many as that takes. -/
theorem valid_iff (a : ArgT) :
    a.valid = true ↔
      ∃ r : Req, a.command = r.text ∧ (a.arg1 ≠ "" ↔ r.takesArg = true) ∧ a.arg2 = "" := by
  have hargs (r : Req) (h : a.command = r.text) :
      (∃ r' : Req, a.command = r'.text ∧ (a.arg1 ≠ "" ↔ r'.takesArg = true) ∧ a.arg2 = "") ↔
        (a.arg1 ≠ "" ↔ r.takesArg = true) ∧ a.arg2 = "" :=
    ⟨fun ⟨_, h', hargs⟩ => Req.text_inj (h'.symm.trans h) ▸ hargs, fun hargs => ⟨r, h, hargs⟩⟩
  simp only [ArgT.valid, lookUp_eq]
  by_cases h₀ : a.command ∈ args0
  · obtain ⟨r, hr, hno⟩ := mem_args0.mp h₀
    rw [if_pos h₀, hargs r hr, hno]
    simp
  by_cases h₁ : a.command ∈ args1
  · obtain ⟨r, hr, hyes⟩ := mem_args1.mp h₁
    rw [if_neg h₀, if_pos h₁, hargs r hr, hyes]
    simp
  · have h₂ : a.command ∉ args2 := List.not_mem_nil
    rw [if_neg h₀, if_neg h₁, if_neg h₂]
    refine ⟨(nomatch ·), ?_⟩
    rintro ⟨r, hr, -⟩
    cases hr' : r.takesArg with
    | false => exact absurd (mem_args0.mpr ⟨r, hr, hr'⟩) h₀
    | true => exact absurd (mem_args1.mpr ⟨r, hr, hr'⟩) h₁

/-- **THE CONSTRUCTOR** returns for exactly the command lines that ask for a request, with the last
    argument of each option; for the others it throws. -/
theorem argT_iff (opts : List Opt) (a : ArgT) :
    argT opts = some a ↔ (∃ r, Asks opts r) ∧ a = ({} : ArgT).lasts opts := by
  have hasks : (∃ r, Asks opts r) ↔
      (∀ o ∈ opts, o.opt ∈ known) ∧ (({} : ArgT).lasts opts).valid = true := by
    rw [valid_iff]
    exact ⟨fun ⟨r, h⟩ => ⟨h.options, r, h.command, h.arg1, h.arg2⟩,
      fun ⟨hopts, r, hcommand, harg1, harg2⟩ => ⟨r, hopts, hcommand, harg1, harg2⟩⟩
  rw [hasks, argT]
  cases hrun : ({} : ArgT).options opts with
  | none =>
      refine ⟨(nomatch ·), fun h => ?_⟩
      rw [(options_iff opts _ _).mpr ⟨h.1.1, rfl⟩] at hrun
      cases hrun
  | some b =>
      obtain ⟨hopts, rfl⟩ := (options_iff opts _ b).mp hrun
      dsimp only
      by_cases hvalid : (({} : ArgT).lasts opts).valid = true
      · rw [if_pos hvalid, Option.some.injEq]
        exact ⟨fun h => ⟨⟨hopts, hvalid⟩, h.symm⟩, fun h => h.2.symm⟩
      · rw [if_neg hvalid]
        exact ⟨(nomatch ·), fun h => absurd h.1.2 hvalid⟩

end Cse303
