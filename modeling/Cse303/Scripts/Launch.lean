/-
  File:      Cse303/Scripts/Launch.lean
  Subject:   THE COMMAND LINES OF THE TEST SCRIPTS (cse303.py), and what the two programs read.

  The scripts keep the configuration of a server and of a client in objects, and make the elements
  of a command line from them; the programs take these apart with `getopt` and `atoi`. Fields are
  any strings.

  * `atoi_toString` -- a number written in decimal is read back;
  * **`launchcmd_read`** -- the server reads every field of its configuration back;
  * **`script_read_iff`** -- the client reads every field of its own back, for the six commands that
    it knows; the eight others of the scripts are rejected, and so is a file name that is empty;
  * **`scripts_meet`** -- a client and a server that are given the same port use the same.
-/
import Mathlib.Tactic.FinCases
import Cse303.Client.Process
import Cse303.Lib.Getopt
import Cse303.Server.Starts

namespace Cse303

open CInt Getopt
open Inet (isspace)

variable {K : Type}

/-! ## 1. The scripts -/

/-- `UserConfig`. -/
structure UserConfig where
  name : String
  pwd : String
  deriving DecidableEq, Repr

/-- `ServerConfig`. -/
structure ServerConfig where
  exe : String
  port : String
  keyfile : String
  dirfile : String
  threads : String := "1"
  buckets : String := "16"
  qi : String := "60"
  upq : String := "1048576"
  dnq : String := "1048576"
  rqq : String := "128"
  top : String := "4"
  admin : String := "alice"
  deriving DecidableEq, Repr

/-- `launchcmd`. -/
def ServerConfig.launchcmd (c : ServerConfig) : List String :=
  [c.exe, "-p", c.port, "-k", c.keyfile, "-f", c.dirfile, "-t", c.threads, "-b", c.buckets,
    "-i", c.qi, "-u", c.upq, "-d", c.dnq, "-r", c.rqq, "-o", c.top, "-a", c.admin]

/-- `ClientConfig`. -/
structure ClientConfig where
  exe : String
  server : String
  port : String
  keyfile : String
  deriving DecidableEq, Repr

namespace ClientConfig

def cmd0 (c : ClientConfig) (user : UserConfig) (cmd : String) : List String :=
  [c.exe, "-k", c.keyfile, "-s", c.server, "-p", c.port, "-u", user.name, "-w", user.pwd,
    "-C", cmd]

def cmd1 (c : ClientConfig) (user : UserConfig) (cmd param1 : String) : List String :=
  [c.exe, "-k", c.keyfile, "-s", c.server, "-p", c.port, "-u", user.name, "-w", user.pwd,
    "-C", cmd, "-1", param1]

def cmd2 (c : ClientConfig) (user : UserConfig) (cmd param1 param2 : String) : List String :=
  [c.exe, "-k", c.keyfile, "-s", c.server, "-p", c.port, "-u", user.name, "-w", user.pwd,
    "-C", cmd, "-1", param1, "-2", param2]

end ClientConfig

/-- The methods of `ClientConfig` that make a command line. -/
inductive Script where
  | reg
  | bye
  | setC (filename : String)
  | getC (filename : String)
  | getA (filename : String)
  | kvI (key valfile : String)
  | kvU (key valfile : String)
  | kvG (key : String)
  | kvD (key : String)
  | kvA (filename : String)
  | kvT (filename : String)
  | kvF (name filename : String)
  | kMR (name filename : String)
  | persist
  deriving DecidableEq, Repr

/-- The command line of a method. -/
def ClientConfig.argv (c : ClientConfig) (user : UserConfig) : Script → List String
  | .reg => c.cmd0 user "REGISTER"
  | .bye => c.cmd0 user "EXIT____"
  | .setC filename => c.cmd1 user "SETPFILE" filename
  | .getC filename => c.cmd1 user "GETPFILE" filename
  | .getA filename => c.cmd1 user "ALLUSERS" filename
  | .kvI key valfile => c.cmd2 user "KVINSERT" key valfile
  | .kvU key valfile => c.cmd2 user "KVUPDATE" key valfile
  | .kvG key => c.cmd1 user "KVGETONE" key
  | .kvD key => c.cmd1 user "KVDELETE" key
  | .kvA filename => c.cmd1 user "KVGETALL" filename
  | .kvT filename => c.cmd1 user "TOP_KEYS" filename
  | .kvF name filename => c.cmd2 user "REG_MR__" name filename
  | .kMR name filename => c.cmd2 user "MAP__RED" name filename
  | .persist => c.cmd0 user "PERSIST_"

/-! ## 2. What the programs make of a command line -/

/-- The option strings of the two constructors. -/
def clientOptstring : String := "k:u:w:s:p:C:1:2:h"
def serverOptstring : String := "p:f:k:ht:b:i:u:d:r:o:a:"

/-- What `getopt` returns of a command line, whose first element is the program. -/
def optsOf (optstring : String) (argv : List String) : List Opt :=
  (getopt optstring.toList argv.tail).map fun o => ⟨o.1, o.2⟩

/-- **A command line of options with arguments is read back.** -/
theorem optsOf_render {optstring : String} {os : List (Char × String)}
    (h : ∀ o ∈ os, takes optstring.toList o.1 = some true ∧ o.1 ≠ '-') (exe : String) :
    optsOf optstring (exe :: render os) = os.map fun o => ⟨o.1, o.2⟩ := by
  have hread := getopt_render h []
  rw [List.append_nil] at hread
  rw [optsOf, List.tail_cons, hread, getopt, List.append_nil]

/-- The letters of a script's command line, with their arguments. -/
def Script.params : Script → List (Char × String)
  | .reg | .bye | .persist => []
  | .setC x | .getC x | .getA x | .kvG x | .kvD x | .kvA x | .kvT x => [('1', x)]
  | .kvI x y | .kvU x y | .kvF x y | .kMR x y => [('1', x), ('2', y)]

/-- The text behind `-C`. -/
def Script.command : Script → String
  | .reg => "REGISTER"
  | .bye => "EXIT____"
  | .setC _ => "SETPFILE"
  | .getC _ => "GETPFILE"
  | .getA _ => "ALLUSERS"
  | .kvI _ _ => "KVINSERT"
  | .kvU _ _ => "KVUPDATE"
  | .kvG _ => "KVGETONE"
  | .kvD _ => "KVDELETE"
  | .kvA _ => "KVGETALL"
  | .kvT _ => "TOP_KEYS"
  | .kvF _ _ => "REG_MR__"
  | .kMR _ _ => "MAP__RED"
  | .persist => "PERSIST_"

def ClientConfig.letters (c : ClientConfig) (user : UserConfig) (s : Script) :
    List (Char × String) :=
  [('k', c.keyfile), ('s', c.server), ('p', c.port), ('u', user.name), ('w', user.pwd),
    ('C', s.command)] ++ s.params

theorem argv_render (c : ClientConfig) (user : UserConfig) (s : Script) :
    c.argv user s = c.exe :: render (c.letters user s) := by
  cases s <;> rfl

/-- The letters that the scripts use are options with an argument. -/
theorem takes_client : ∀ l ∈ ['k', 's', 'p', 'u', 'w', 'C', '1', '2'],
    takes clientOptstring.toList l = some true ∧ l ≠ '-' := by
  intro l hl
  fin_cases hl <;> decide

theorem takes_server : ∀ l ∈ ['p', 'k', 'f', 't', 'b', 'i', 'u', 'd', 'r', 'o', 'a'],
    takes serverOptstring.toList l = some true ∧ l ≠ '-' := by
  intro l hl
  fin_cases hl <;> decide

theorem letters_known (c : ClientConfig) (user : UserConfig) (s : Script) :
    ∀ o ∈ c.letters user s, o.1 ∈ ['k', 's', 'p', 'u', 'w', 'C', '1', '2'] := by
  have hparams : ∀ o ∈ s.params, o.1 ∈ ['1', '2'] := by
    cases s <;> simp [Script.params]
  intro o ho
  rcases List.mem_append.mp ho with ho | ho
  · simp only [List.mem_cons, List.not_mem_nil, or_false] at ho
    rcases ho with rfl | rfl | rfl | rfl | rfl | rfl <;> simp
  · have hmem := hparams o ho
    simp only [List.mem_cons, List.not_mem_nil, or_false] at hmem
    rcases hmem with h | h <;> simp [h]

/-- **What the client reads of a script.** -/
theorem optsOf_argv (c : ClientConfig) (user : UserConfig) (s : Script) :
    optsOf clientOptstring (c.argv user s) = (c.letters user s).map fun o => ⟨o.1, o.2⟩ := by
  rw [argv_render]
  exact optsOf_render (fun o ho => takes_client o.1 (letters_known c user s o ho)) c.exe

/-! ## 3. The client -/

/-- The arguments behind `-1` and `-2`. -/
def Script.arg1 (s : Script) : String := (s.params.head?.map Prod.snd).getD ""
def Script.arg2 (s : Script) : String := (s.params.tail.head?.map Prod.snd).getD ""

/-- The request of a method, of those that the client knows. -/
def Script.request : Script → Option Req
  | .reg => some .reg
  | .bye => some .bye
  | .setC _ => some .set
  | .getC _ => some .get
  | .getA _ => some .all
  | .persist => some .sav
  | _ => none

/-- The fields of the constructor, as the scripts have them. -/
def ClientConfig.fields (c : ClientConfig) (user : UserConfig) (s : Script) : ArgT :=
  ⟨c.server, atoi c.port, c.keyfile, user.name, user.pwd, s.command, s.arg1, s.arg2⟩

theorem lasts_argv (c : ClientConfig) (user : UserConfig) (s : Script) :
    ({} : ArgT).lasts (optsOf clientOptstring (c.argv user s)) = c.fields user s := by
  rw [optsOf_argv]
  cases s <;> rfl

/-- A method makes one of the client's requests, and names a file if that needs one. -/
structure Script.Makes (s : Script) (r : Req) : Prop where
  request : s.request = some r
  file : r.takesArg = true → s.arg1 ≠ ""

/-- The command of a method is a request's exactly if the method makes that. -/
theorem command_iff (s : Script) (r : Req) : s.command = r.text ↔ s.request = some r := by
  cases s <;> cases r <;> simp [Script.command, Script.request, Req.text]

theorem asks_iff (c : ClientConfig) (user : UserConfig) (s : Script) (r : Req) :
    Asks (optsOf clientOptstring (c.argv user s)) r ↔ s.Makes r := by
  have hlasts := lasts_argv c user s
  have hcommand : lastValue 'C' (optsOf clientOptstring (c.argv user s)) = s.command :=
    congrArg ArgT.command hlasts
  have harg1 : lastValue '1' (optsOf clientOptstring (c.argv user s)) = s.arg1 :=
    congrArg ArgT.arg1 hlasts
  have harg2 : lastValue '2' (optsOf clientOptstring (c.argv user s)) = s.arg2 :=
    congrArg ArgT.arg2 hlasts
  constructor
  · rintro ⟨-, hc, h1, -⟩
    rw [hcommand] at hc
    rw [harg1] at h1
    exact ⟨(command_iff s r).mp hc, h1.mpr⟩
  · rintro ⟨hreq, hfile⟩
    refine ⟨fun o ho => ?_, by rw [hcommand, command_iff, hreq], ?_, ?_⟩
    · rw [optsOf_argv] at ho
      obtain ⟨letter, hletter, rfl⟩ := List.mem_map.mp ho
      have hknown : ∀ l ∈ ['k', 's', 'p', 'u', 'w', 'C', '1', '2'], l ∈ known := by simp [known]
      exact hknown _ (letters_known c user s letter hletter)
    · rw [harg1]
      refine ⟨fun hne => ?_, hfile⟩
      cases s <;> cases hreq <;> first | rfl | exact absurd rfl hne
    · rw [harg2]
      cases s <;> cases hreq <;> rfl

/-- What the constructor makes of a script. -/
theorem argT_argv (c : ClientConfig) (user : UserConfig) (s : Script) (a : ArgT) :
    argT (optsOf clientOptstring (c.argv user s)) = some a ↔
      (∃ r, s.Makes r) ∧ a = c.fields user s := by
  rw [argT_iff, lasts_argv]
  simp only [asks_iff]

/-- **THE COMMAND LINES OF THE SCRIPTS**, for any configuration, user and arguments: the client
    takes exactly those of its six commands, with a file name that is not empty where they need one,
    and reads every field back as the script has it; and where its key file is there, it makes that
    request of them, and of the others none. -/
theorem script_read_iff (c : ClientConfig) (user : UserConfig) (s : Script) :
    (∀ a, argT (optsOf clientOptstring (c.argv user s)) = some a ↔
      (∃ r, s.Makes r) ∧ a = c.fields user s) ∧
      ∀ calls : ClientCalls K, fileExists c.keyfile calls.seen = true →
        (∀ r, s.Makes r → requests (clientProcess calls c.exe
          (optsOf clientOptstring (c.argv user s))) =
            [.req r.fn (calls.run (c.fields user s)).ret.val (calls.pubkey (c.fields user s))
              user.name user.pwd s.arg1 s.arg2]) ∧
          ((∀ r, ¬ s.Makes r) → requests (clientProcess calls c.exe
            (optsOf clientOptstring (c.argv user s))) = []) := by
  have hlasts := lasts_argv c user s
  refine ⟨argT_argv c user s, fun calls hthere => ⟨fun r hr => ?_, fun hno => ?_⟩⟩
  · have huser : lastValue 'u' (optsOf clientOptstring (c.argv user s)) = user.name :=
      congrArg ArgT.username hlasts
    have hpass : lastValue 'w' (optsOf clientOptstring (c.argv user s)) = user.pwd :=
      congrArg ArgT.userpass hlasts
    have harg1 : lastValue '1' (optsOf clientOptstring (c.argv user s)) = s.arg1 :=
      congrArg ArgT.arg1 hlasts
    have harg2 : lastValue '2' (optsOf clientOptstring (c.argv user s)) = s.arg2 :=
      congrArg ArgT.arg2 hlasts
    have hw : (calls.world (c.fields user s)).keyfileThere = true := hthere
    rw [clientProcess, clientMain_accepted _ c.exe ((asks_iff c user s r).mpr hr), hlasts, hw,
      huser, hpass, harg1, harg2]
    rfl
  · have hasks : ∀ r, ¬ Asks (optsOf clientOptstring (c.argv user s)) r :=
      fun r hr => hno r ((asks_iff c user s r).mp hr)
    rw [clientProcess, clientMain_rejected _ c.exe hasks, requests_andThen, requests_usage]
    cases (usage commands c.exe : Client K).exit <;> rfl

/-- The statement for the user of the scripts who sets a content, and one who inserts a value. -/
theorem script_read_iff_alice :
    let c : ClientConfig := ⟨"./obj64/client.exe", "localhost", "9999", "key"⟩
    let alice : UserConfig := ⟨"alice", "alice_is_awesome"⟩
    requests (clientProcess unresolved c.exe
        (optsOf clientOptstring (c.argv alice (.setC "server/responses.h")))) =
          [.req .reqSet (-1) (some 7) "alice" "alice_is_awesome" "server/responses.h" ""] ∧
      requests (clientProcess unresolved c.exe
        (optsOf clientOptstring (c.argv alice (.kvI "k1" "server/responses.h")))) = [] := by
  intro c alice
  refine ⟨((script_read_iff c alice _).2 unresolved rfl).1 .set ⟨rfl, fun _ => by decide⟩,
    ((script_read_iff c alice _).2 unresolved rfl).2 ?_⟩
  rintro r ⟨hreq, -⟩
  cases hreq

/-! ## 4. The server -/

/-- The digits of a number make it. -/
theorem foldl_toDigits (n : Nat) :
    (Nat.toDigits 10 n).foldl (fun (n : Int) c => 10 * n + (c.toNat - '0'.toNat)) 0 = n := by
  have hdigit : ∀ k : Fin 10, ((Nat.digitChar k).toNat : Int) - '0'.toNat = (k : Nat) := by decide
  induction n using Nat.strongRecOn with
  | ind n ih =>
      by_cases hn : n < 10
      · rw [Nat.toDigits_of_lt_base hn, List.foldl_cons, List.foldl_nil, hdigit ⟨n, hn⟩]
        simp
      · rw [Nat.toDigits_of_base_le (by omega) (by omega), List.foldl_append,
          ih (n / 10) (by omega), List.foldl_cons, List.foldl_nil,
          hdigit ⟨n % 10, Nat.mod_lt _ (by omega)⟩]
        simp only [Int.natCast_ediv, Int.natCast_emod]
        omega

/-- The digits of `atoi`, where there are no others. -/
theorem value_toDigits (n : Nat) :
    ((Nat.toDigits 10 n).takeWhile Char.isDigit).foldl
      (fun (n : Int) c => 10 * n + (c.toNat - '0'.toNat)) 0 = n := by
  have hall : ∀ c ∈ Nat.toDigits 10 n, Char.isDigit c = true :=
    fun _ hc => Nat.isDigit_of_mem_toDigits (by omega) (by omega) hc
  rw [List.takeWhile_eq_self_iff.mpr hall, foldl_toDigits]

/-- `atoi` of a number without a sign, -/
theorem atoi_natural {s : String} {n : Nat} (hs : s.toList = Nat.toDigits 10 n) :
    atoi s = toInt (max (-9223372036854775808) (min n 9223372036854775807)) := by
  have hvalue := value_toDigits n
  obtain ⟨c, cs, hc⟩ := List.exists_cons_of_ne_nil (Nat.toDigits_ne_nil (n := n) (b := 10))
  have hdigit := Char.isDigit_iff_toNat.mp
    (Nat.isDigit_of_mem_toDigits (b := 10) (n := n) (by omega) (by omega) (hc ▸ List.mem_cons_self))
  have hspace : ¬ isspace c = true := by
    simp only [isspace, Bool.or_eq_true, beq_iff_eq, Bool.and_eq_true, decide_eq_true_eq]
    rintro (rfl | h)
    · exact absurd hdigit (by decide)
    · have h48 : '0'.toNat = 48 := rfl
      omega
  rw [hc] at hvalue
  unfold atoi
  rw [hs, hc, List.dropWhile_cons_of_neg hspace]
  dsimp only
  split
  · rename_i heq
    rw [List.head_eq_of_cons_eq heq] at hdigit
    exact absurd hdigit (by decide)
  · rename_i heq
    rw [List.head_eq_of_cons_eq heq] at hdigit
    exact absurd hdigit (by decide)
  · rw [hvalue]

/-- and of one with a minus. -/
theorem atoi_negative {s : String} {n : Nat} (hs : s.toList = '-' :: Nat.toDigits 10 n) :
    atoi s = toInt (max (-9223372036854775808) (min (-n) 9223372036854775807)) := by
  have hspace : ¬ isspace '-' = true := by decide
  unfold atoi
  rw [hs, List.dropWhile_cons_of_neg hspace]
  show toInt (max _ (min (-List.foldl _ 0 ((Nat.toDigits 10 n).takeWhile Char.isDigit)) _)) = _
  rw [value_toDigits]

/-- The text of a number. -/
theorem toString_ofNat (m : Nat) : (toString (Int.ofNat m)).toList = Nat.toDigits 10 m :=
  Nat.toList_repr

theorem toString_negSucc (m : Nat) :
    (toString (Int.negSucc m)).toList = '-' :: Nat.toDigits 10 (m + 1) := by
  show ("-" ++ (m + 1).repr).toList = _
  rw [String.toList_append, Nat.toList_repr]
  rfl

/-- **A number in decimal is read back**, where it fits an `int`. -/
theorem atoi_toString {n : Int} (h : -2147483648 ≤ n) (h' : n < 2147483648) :
    atoi (toString n) = n := by
  cases n with
  | ofNat m =>
      rw [atoi_natural (toString_ofNat m)]
      have hrange : (max (-9223372036854775808) (min (m : Int) 9223372036854775807)) = m := by
        have hm : (m : Int) < 2147483648 := h'
        omega
      rw [hrange]
      exact toInt_of_range h h'
  | negSucc m =>
      rw [atoi_negative (toString_negSucc m)]
      have hm : Int.negSucc m = -((m + 1 : Nat) : Int) := rfl
      rw [hm] at h h' ⊢
      have hrange : (max (-9223372036854775808)
          (min (-((m + 1 : Nat) : Int)) 9223372036854775807)) = -((m + 1 : Nat) : Int) := by
        omega
      rw [hrange]
      exact toInt_of_range h h'

/-- The letters of the server's command line, with their arguments. -/
def ServerConfig.letters (c : ServerConfig) : List (Char × String) :=
  [('p', c.port), ('k', c.keyfile), ('f', c.dirfile), ('t', c.threads), ('b', c.buckets),
    ('i', c.qi), ('u', c.upq), ('d', c.dnq), ('r', c.rqq), ('o', c.top), ('a', c.admin)]

theorem optsOf_launchcmd (c : ServerConfig) :
    optsOf serverOptstring c.launchcmd = c.letters.map fun o => ⟨o.1, o.2⟩ := by
  have htakes : ∀ o ∈ c.letters, takes serverOptstring.toList o.1 = some true ∧ o.1 ≠ '-' :=
    fun o ho => takes_server o.1 (List.mem_map_of_mem (f := Prod.fst) ho)
  exact optsOf_render htakes c.exe

/-- The fields of the constructor, as the script has them. -/
def ServerConfig.fields (c : ServerConfig) : ServerArgT where
  port := some (atoi c.port)
  datafile := c.dirfile
  keyfile := c.keyfile
  threads := atoi c.threads
  numBuckets := atoiSize c.buckets
  quotaInterval := atoiSize c.qi
  quotaUp := atoiSize c.upq
  quotaDown := atoiSize c.dnq
  quotaReq := atoiSize c.rqq
  topSize := atoiSize c.top
  adminName := c.admin

/-- **The server reads every field back.** -/
theorem launchcmd_read (c : ServerConfig) :
    serverArgT (optsOf serverOptstring c.launchcmd) = some c.fields := by
  rw [serverArgT_iff, optsOf_launchcmd]
  refine ⟨fun o ho => ?_, rfl⟩
  have hknown : ∀ l ∈ ['p', 'k', 'f', 't', 'b', 'i', 'u', 'd', 'r', 'o', 'a'],
      l ∈ serverKnown := by simp [serverKnown]
  obtain ⟨letter, hletter, rfl⟩ := List.mem_map.mp ho
  exact hknown _ (List.mem_map_of_mem (f := Prod.fst) hletter)

/-- **CLIENT AND SERVER OF A SCRIPT** that are given the same port, whatever text it is: in any runs
    of the two, the server binds the port that the client connects to; and where the text is a
    number in decimal that fits an `int`, it is that number's. -/
theorem scripts_meet {c : ClientConfig} {d : ServerConfig} (hport : c.port = d.port)
    {user : UserConfig} {s : Script} {a : ArgT} {b : ServerArgT} {p : Int}
    (ha : argT (optsOf clientOptstring (c.argv user s)) = some a)
    (hb : serverArgT (optsOf serverOptstring d.launchcmd) = some b) (hp : b.port = some p)
    {calls : ConnectCalls} {listens : ListenCalls} {sd sd' : Nat} {addr addr' : SockaddrIn}
    (h : .connect sd addr ∈ (connectToServer a.server a.port calls).calls)
    (h' : .bind sd' addr' ∈ (createServerSocket (toSize p) listens).calls) :
    addr.sinPort = addr'.sinPort ∧
      ∀ n : Int, d.port = toString n → -2147483648 ≤ n → n < 2147483648 →
        addr'.sinPort = htons n := by
  have hclient : a.port = atoi c.port := by
    rw [((argT_iff _ a).mp ha).2, lasts_argv]
    rfl
  have hserver : p = atoi d.port := by
    rw [launchcmd_read, Option.some.injEq] at hb
    rw [← hb] at hp
    exact (Option.some.inj hp).symm
  obtain ⟨host, -, rfl⟩ := connect_addr h
  obtain rfl := bind_addr h'
  refine ⟨?_, fun n hn hlow hhigh => ?_⟩
  · show htons a.port = htons (toSize p)
    rw [htons_toSize, hclient, hserver, hport]
  · show htons (toSize p) = htons n
    rw [htons_toSize, hserver, hn, atoi_toString hlow hhigh]

/-- The statement for the port of the scripts. -/
theorem scripts_meet_9999 :
    let addr : SockaddrIn := ⟨⟨127, 0, 0, 1⟩, htons 9999⟩
    let addr' : SockaddrIn := ⟨.any, htons 9999⟩
    addr.sinPort = addr'.sinPort ∧
      ∀ n : Int, "9999" = toString n → -2147483648 ≤ n → n < 2147483648 →
        addr'.sinPort = htons n := by
  intro addr addr'
  let c : ClientConfig := ⟨"./obj64/client.exe", "localhost", "9999", "key"⟩
  let d : ServerConfig := { exe := "./obj64/server.exe", port := "9999", keyfile := "rsa",
                            dirfile := "company.dir" }
  let a : ArgT := c.fields ⟨"alice", "pw"⟩ .reg
  have hatoi : atoi "9999" = 9999 := atoi_toString (n := 9999) (by omega) (by omega)
  have ha : argT (optsOf clientOptstring (c.argv ⟨"alice", "pw"⟩ .reg)) = some a :=
    (argT_argv c _ .reg a).mpr ⟨⟨.reg, rfl, (nomatch ·)⟩, rfl⟩
  have hp : d.fields.port = some 9999 := congrArg some hatoi
  have hconnect : .connect 3 addr ∈ (connectToServer a.server a.port
      ⟨.ok ⟨127, 0, 0, 1⟩, .ok 3, .ok (), .ok ()⟩).calls := by
    have hport : a.port = 9999 := by
      show atoi c.port = 9999
      exact hatoi
    rw [hport]
    simp [connectToServer, Inet.addr_ntoa, addr]
  have hbind : .bind 3 addr' ∈ (createServerSocket (toSize 9999)
      ⟨.ok 3, .ok (), .ok (), .ok ()⟩).calls := by
    have hsize : toSize 9999 = 9999 := toSize_natCast (n := 9999) (by omega)
    rw [hsize]
    decide
  have hsame : c.port = d.port := rfl
  exact scripts_meet hsame ha (launchcmd_read d) hp hconnect hbind

end Cse303
