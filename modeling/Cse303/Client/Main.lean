/-
  File:      Cse303/Client/Main.lean
  Subject:   `main` OF THE CLIENT (client.cc), its help text, and the requests it makes.

  What `main` does is kept in order: its calls of other files' functions with their arguments, what
  goes to `cout`, and which entries of `commands` it reads. What the calls answer is an input
  (`World`). The functions of requests.cc print that they are not implemented and then assert; an
  assertion that fails ends the process, and so does a read past the end of a table, with nothing
  known of it from there on.

  * `usage_inside_iff` -- the help text stays within a table of 14 entries or more, and within no
    smaller one; `commands` has six;
  * `dispatch_requests` -- the two tables of `main` name each request once;
  * **`clientRight_iff`** -- `main` makes one request, and no other call of requests.cc, for exactly
    the command lines that ask for one when the key file is there;
  * **`clientMain_requests`** -- all it calls of requests.cc, for any command line.
-/
import Cse303.Client.Args
import Cse303.Common.Err
import Cse303.Lib.Proc

namespace Cse303

variable {K : Type}

/-! ## 1. The process -/

/-- The functions of requests.cc with one signature. -/
inductive ReqFn where
  | reqReg
  | reqBye
  | reqSav
  | reqSet
  | reqGet
  | reqAll
  deriving DecidableEq, Repr

/-- What the process does: calls, output, and reads of `commands[i]`. Keys are of type `K`. -/
inductive Event (K : Type) where
  | fileExists (filename : String)
  | connectToServer (hostname : String) (port : Int)
  | close (sd : Int)
  | loadPub (filename : String)
  | rsaFree (pubkey : Option K)
  | reqKey (sd : Int) (keyfile : String)
  | req (f : ReqFn) (sd : Int) (pubkey : Option K) (user pass arg1 arg2 : String)
  | command (i : Nat)
  | cout (p : Piece)
  deriving DecidableEq

/-- A call of a function of requests.cc. -/
def Event.isReq : Event K → Bool
  | .reqKey .. | .req .. => true
  | _ => false

/-- How it ends: an exit code, a failed assertion, or nothing that is defined. -/
inductive Exit where
  | code (n : Int)
  | abort
  | wild
  deriving DecidableEq, Repr

abbrev Client (K : Type) := Proc (Event K) Exit

/-- `cout << ..`. -/
def print (ps : List Piece) : Client K := .emit (ps.map .cout)

/-- The calls of requests.cc that were made, in order. -/
def requests (p : Client K) : List (Event K) := p.events.filter Event.isReq

/-! ## 2. requests.cc -/

/-- The body of every function of requests.cc: its message, and its `assert`s in order. -/
def notImplemented (name : String) (asserts : List Bool) : Client K :=
  .seq [print [.text ("requests.cc::" ++ name ++ "() is not implemented\n")],
    if asserts.all id then .skip else .stop .abort]

def reqKey (sd : Int) (keyfile : String) : Client K :=
  notImplemented "req_key" [sd != 0, 0 < keyfile.length]

def reqReg (sd : Int) (pubkey : Option K) (user pass _ _ : String) : Client K :=
  notImplemented "req_reg" [sd != 0, pubkey.isSome, 0 < user.length, 0 < pass.length]

def reqBye (sd : Int) (pubkey : Option K) (user pass _ _ : String) : Client K :=
  notImplemented "req_bye" [sd != 0, pubkey.isSome, 0 < user.length, 0 < pass.length]

def reqSav (sd : Int) (pubkey : Option K) (user pass _ _ : String) : Client K :=
  notImplemented "req_sav" [sd != 0, pubkey.isSome, 0 < user.length, 0 < pass.length]

def reqSet (sd : Int) (pubkey : Option K) (user pass setfile _ : String) : Client K :=
  notImplemented "req_set"
    [sd != 0, pubkey.isSome, 0 < user.length, 0 < pass.length, 0 < setfile.length]

def reqGet (sd : Int) (pubkey : Option K) (user pass getname _ : String) : Client K :=
  notImplemented "req_get"
    [sd != 0, pubkey.isSome, 0 < user.length, 0 < pass.length, 0 < getname.length]

def reqAll (sd : Int) (pubkey : Option K) (user pass allfile _ : String) : Client K :=
  notImplemented "req_all"
    [sd != 0, pubkey.isSome, 0 < user.length, 0 < pass.length, 0 < allfile.length]

/-- A call through one of the pointers of `func`. -/
def ReqFn.body : ReqFn → Int → Option K → String → String → String → String → Client K
  | .reqReg => Cse303.reqReg
  | .reqBye => Cse303.reqBye
  | .reqSav => Cse303.reqSav
  | .reqSet => Cse303.reqSet
  | .reqGet => Cse303.reqGet
  | .reqAll => Cse303.reqAll

/-! ## 3. The help text -/

/-- `commands`. -/
def commands : List (String × String) :=
  [(Req.bye.text, "             Force the server to stop"),
   (Req.sav.text, "             Instruct the server to save its data"),
   (Req.reg.text, "             Register a new user"),
   (Req.set.text, " -1 [file]   Set user's data to the contents of the file"),
   (Req.get.text, " -1 [string] Get data for the provided user"),
   (Req.all.text, " -1 [file]   Get all users' names, save to a file")]

/-- `basename`, of libgen.h. -/
def basename (path : String) : String :=
  if path = "" then "."
  else
    match path.toList.reverse.dropWhile (· == '/') with
    | [] => "/"
    | cs => String.ofList (cs.takeWhile (· != '/')).reverse

/-- One pass of a loop of `usage`. -/
def usageRow (table : List (String × String)) (i : Nat) : Client K :=
  .seq [.emit [.command i],
    match table[i]? with
    | none => .stop .wild
    | some row => print [.text "  ", .text row.1, .text row.2, .text "\n"]]

/-- A title of the help text, and the loop below it, from `lo` to before `hi`. -/
def usageSection (table : List (String × String)) (title : String) (lo hi : Nat) : Client K :=
  .seq [print [.text title], .seq ((List.range' lo (hi - lo)).map (usageRow table)),
    print [.text "\n"]]

/-- The parts of `usage`. -/
def usageParts (table : List (String × String)) (progname : String) : List (Client K) :=
  [ print [.text (basename progname), .text ": company user directory client\n\n",
      .text " Required Configuration Parameters:\n",
      .text "  -k [file]   The filename for storing the server's public key\n",
      .text "  -u [string] The username to use for authentication\n",
      .text "  -w [string] The password to use for authentication\n",
      .text "  -s [string] IP address or hostname of server\n",
      .text "  -p [int]    Port to use to connect to server\n",
      .text "  -C [string] The command to execute (choose one from below)\n\n"],
    usageSection table " Admin Commands (pass via -C):\n" 0 2,
    usageSection table " Auth Table Commands (pass via -C, with argument as -1)\n" 2 6,
    usageSection table " K/V Table Commands (pass via -C, with arguments as -1 and -2)\n" 6 11,
    usageSection table " K/V MRU Commands (pass via -C, with argument as -1)\n" 11 12,
    usageSection table " Map/Reduce Commands (pass via -C, with arguments as -1 and -2)\n" 12 14,
    print [.text " Other Options:\n", .text "  -h          Print help (this message)\n"]]

/-- `usage`. -/
def usage (table : List (String × String)) (progname : String) : Client K :=
  .seq (usageParts table progname)

/-! ## 4. `main` -/

/-- What the calls of `main` answer. -/
structure World (K : Type) where
  /-- `file_exists(keyfile)` -/
  keyfileThere : Bool
  /-- the `connect_to_server` for the key -/
  keySd : Int
  /-- `load_pub`, null for an error -/
  pubkey : Option K
  /-- the `connect_to_server` for the request -/
  sd : Int
  deriving DecidableEq

/-- The tables of `main`. -/
def cmd : List String :=
  [Req.reg.text, Req.bye.text, Req.set.text, Req.get.text, Req.all.text, Req.sav.text]
def func : List ReqFn := [.reqReg, .reqBye, .reqSet, .reqGet, .reqAll, .reqSav]

/-- `func[i](..)`. -/
def callReq (args : ArgT) (sd : Int) (pubkey : Option K) (f : ReqFn) : Client K :=
  .seq [.emit [.req f sd pubkey args.username args.userpass args.arg1 args.arg2],
    f.body sd pubkey args.username args.userpass args.arg1 args.arg2]

/-- The loop over `cmd`. -/
def dispatch (args : ArgT) (sd : Int) (pubkey : Option K) : List (String × ReqFn) → Client K
  | [] => .skip
  | (c, f) :: rest =>
    (if args.command = c then callReq args sd pubkey f else .skip).andThen
      (dispatch args sd pubkey rest)

/-- The key from the server, for a client without one. -/
def fetchKey (w : World K) (args : ArgT) : Client K :=
  .seq [.emit [.connectToServer args.server args.port], .emit [.reqKey w.keySd args.keyfile],
    reqKey w.keySd args.keyfile, .emit [.close w.keySd]]

/-- `main`, behind the `try`. -/
def runArgs (w : World K) (args : ArgT) : Client K :=
  .seq [
    .emit [.fileExists args.keyfile],
    if w.keyfileThere then .skip else fetchKey w args,
    .emit [.loadPub args.keyfile],
    .emit [.connectToServer args.server args.port],
    dispatch args w.sd w.pubkey (cmd.zip func),
    -- the two ContextManagers, the later one first
    .emit [.close w.sd],
    .emit [.rsaFree w.pubkey],
    .stop (.code 0)]

/-- `main`. -/
def clientMain (w : World K) (argv0 : String) (opts : List Opt) : Client K :=
  match argT opts with
  | none => .seq [usage commands argv0, .stop (.code 1)]
  | some args => runArgs w args

/-! ## 5. The help text stays in its table -/

theorem mem_print {ps : List Piece} {e : Event K} (h : e ∈ (print ps : Client K).events) :
    ∃ p, e = .cout p := by
  obtain ⟨p, -, rfl⟩ := List.mem_map.mp h
  exact ⟨p, rfl⟩

/-- A pass reads its own entry, and prints. -/
theorem mem_usageRow {table : List (String × String)} {j : Nat} {e : Event K}
    (h : e ∈ (usageRow table j).events) : e = .command j ∨ ∃ p, e = .cout p := by
  obtain ⟨p, hp, he⟩ := Proc.mem_seq h
  rcases List.mem_cons.mp hp with rfl | hp
  · exact .inl (List.mem_singleton.mp he)
  · rw [List.mem_singleton.mp hp] at he
    cases hrow : table[j]? with
    | none => rw [hrow] at he; cases he
    | some row => rw [hrow] at he; exact .inr (mem_print he)

/-- It always reads it, -/
theorem usageRow_command (table : List (String × String)) (j : Nat) :
    (.command j : Event K) ∈ (usageRow table j).events := List.mem_cons_self

/-- and goes on exactly if it is there. -/
theorem usageRow_exit {table : List (String × String)} {j : Nat} :
    (usageRow table j : Client K).exit = none ↔ j < table.length := by
  rw [usageRow, Proc.exit_seq, List.forall_mem_cons]
  cases hrow : table[j]? with
  | none =>
      rw [List.getElem?_eq_none_iff] at hrow
      exact ⟨fun h => (nomatch h.2 _ (List.mem_singleton_self _)), fun h => by omega⟩
  | some row =>
      obtain ⟨hlt, -⟩ := List.getElem?_eq_some_iff.mp hrow
      refine ⟨fun _ => hlt, fun _ => ⟨rfl, fun p hp => ?_⟩⟩
      rw [List.mem_singleton.mp hp]
      rfl

/-- A section does nothing but the passes of its loop, and print. -/
theorem mem_usageSection {table : List (String × String)} {title : String} {lo hi : Nat}
    {e : Event K} (h : e ∈ (usageSection table title lo hi).events) :
    (∃ j, lo ≤ j ∧ j < hi ∧ e = .command j) ∨ ∃ p, e = .cout p := by
  obtain ⟨p, hp, he⟩ := Proc.mem_seq h
  simp only [List.mem_cons, List.not_mem_nil, or_false] at hp
  rcases hp with rfl | rfl | rfl
  · exact .inr (mem_print he)
  · obtain ⟨q, hq, he⟩ := Proc.mem_seq he
    obtain ⟨j, hj, rfl⟩ := List.mem_map.mp hq
    rw [List.mem_range'_1] at hj
    rcases mem_usageRow he with he | he
    · exact .inl ⟨j, hj.1, by omega, he⟩
    · exact .inr he
  · exact .inr (mem_print he)

/-- It goes on exactly if all its entries are there, -/
theorem usageSection_exit {table : List (String × String)} {title : String} {lo hi : Nat} :
    (usageSection table title lo hi : Client K).exit = none ↔
      ∀ j, lo ≤ j → j < hi → j < table.length := by
  rw [usageSection, Proc.exit_seq, List.forall_mem_cons, List.forall_mem_cons, Proc.exit_seq]
  constructor
  · intro h j hlo hhi
    exact usageRow_exit.mp (h.2.1 _ (List.mem_map_of_mem (List.mem_range'_1.mpr (by omega))))
  · refine fun h => ⟨rfl, fun p hp => ?_, fun p hp => ?_⟩
    · obtain ⟨j, hj, rfl⟩ := List.mem_map.mp hp
      rw [List.mem_range'_1] at hj
      exact usageRow_exit.mpr (h j hj.1 (by omega))
    · rw [List.mem_singleton.mp hp]
      rfl

/-- and where it does not it has read one that is not. -/
theorem usageSection_past {table : List (String × String)} {title : String} {lo hi : Nat} {x : Exit}
    (h : (usageSection table title lo hi : Client K).exit = some x) :
    ∃ j, table.length ≤ j ∧ (.command j : Event K) ∈ (usageSection table title lo hi).events := by
  obtain ⟨p, hp, hexit, hall⟩ := Proc.exit_seq_some h
  simp only [List.mem_cons, List.not_mem_nil, or_false] at hp
  rcases hp with rfl | rfl | rfl
  · cases hexit
  · obtain ⟨q, hq, hexit', hall'⟩ := Proc.exit_seq_some hexit
    obtain ⟨j, -, rfl⟩ := List.mem_map.mp hq
    refine ⟨j, ?_, hall _ (hall' _ (usageRow_command table j))⟩
    refine Nat.not_lt.mp fun hlt => ?_
    rw [usageRow_exit.mpr hlt] at hexit'
    cases hexit'
  · cases hexit

/-- A part of the help text is a text, or a section that ends at 14 or before. -/
theorem mem_usageParts {table : List (String × String)} {progname : String} {p : Client K}
    (h : p ∈ usageParts table progname) :
    (∃ ps, p = print ps) ∨ ∃ title lo hi, hi ≤ 14 ∧ p = usageSection table title lo hi := by
  simp only [usageParts, List.mem_cons, List.not_mem_nil, or_false] at h
  rcases h with h | h | h | h | h | h | h
  · exact .inl ⟨_, h⟩
  · exact .inr ⟨_, _, _, by decide, h⟩
  · exact .inr ⟨_, _, _, by decide, h⟩
  · exact .inr ⟨_, _, _, by decide, h⟩
  · exact .inr ⟨_, _, _, by decide, h⟩
  · exact .inr ⟨_, _, _, by decide, h⟩
  · exact .inl ⟨_, h⟩

/-- The help text reads the first 14 entries, at most, and prints. -/
theorem mem_usage {table : List (String × String)} {progname : String} {e : Event K}
    (h : e ∈ (usage table progname).events) : (∃ j < 14, e = .command j) ∨ ∃ p, e = .cout p := by
  obtain ⟨p, hp, he⟩ := Proc.mem_seq h
  rcases mem_usageParts hp with ⟨ps, rfl⟩ | ⟨title, lo, hi, hhi, rfl⟩
  · exact .inr (mem_print he)
  · rcases mem_usageSection he with ⟨j, -, hj, he⟩ | he
    · exact .inl ⟨j, Nat.lt_of_lt_of_le hj hhi, he⟩
    · exact .inr he

/-- It comes to its end exactly if there are 14, -/
theorem usage_exit {table : List (String × String)} {progname : String} :
    (usage table progname : Client K).exit = none ↔ 14 ≤ table.length := by
  rw [usage, Proc.exit_seq]
  constructor
  · intro h
    have hlast : usageSection table
        " Map/Reduce Commands (pass via -C, with arguments as -1 and -2)\n" 12 14 ∈
          (usageParts table progname : List (Client K)) := by simp [usageParts]
    exact usageSection_exit.mp (h _ hlast) 13 (by decide) (by decide)
  · intro h p hp
    rcases mem_usageParts hp with ⟨ps, rfl⟩ | ⟨title, lo, hi, hhi, rfl⟩
    · rfl
    · exact usageSection_exit.mpr fun j _ hj => by omega

/-- and otherwise has read past the last. -/
theorem usage_past {table : List (String × String)} {progname : String} {x : Exit}
    (h : (usage table progname : Client K).exit = some x) :
    ∃ j, table.length ≤ j ∧ (.command j : Event K) ∈ (usage table progname).events := by
  obtain ⟨p, hp, hexit, hall⟩ := Proc.exit_seq_some h
  rcases mem_usageParts hp with ⟨ps, rfl⟩ | ⟨title, lo, hi, -, rfl⟩
  · cases hexit
  · obtain ⟨j, hj, hmem⟩ := usageSection_past hexit
    exact ⟨j, hj, hall _ hmem⟩

/-- **The help text stays within a table** exactly if that has the 14 entries its ranges were
    written for. -/
theorem usage_inside_iff (table : List (String × String)) (progname : String) :
    (∀ i, (.command i : Event K) ∈ (usage table progname).events → i < table.length) ↔
      14 ≤ table.length := by
  constructor
  · intro h
    cases hexit : (usage table progname : Client K).exit with
    | none => exact usage_exit.mp hexit
    | some x =>
        obtain ⟨j, hj, hmem⟩ := usage_past hexit
        exact absurd (h j hmem) (Nat.not_lt.mpr hj)
  · intro h i hi
    rcases mem_usage hi with ⟨j, hj, he⟩ | ⟨p, he⟩
    · cases he
      omega
    · cases he

/-! ## 6. The requests -/

/-- A process that makes no call of requests.cc. -/
theorem requests_nil {p : Client K} (h : ∀ e ∈ p.events, e.isReq = false) : requests p = [] :=
  List.filter_eq_nil_iff.mpr fun e he => by simp [h e he]

theorem requests_andThen (p q : Client K) :
    requests (p.andThen q) = requests p ++ if p.exit.isNone then requests q else [] :=
  Proc.filter_andThen Event.isReq p q

/-- The help text makes none. -/
theorem requests_usage (table : List (String × String)) (progname : String) :
    requests (usage table progname : Client K) = [] := by
  refine requests_nil fun e he => ?_
  rcases mem_usage he with ⟨j, -, rfl⟩ | ⟨p, rfl⟩ <;> rfl

/-- What stands in for the functions of requests.cc makes none, -/
theorem requests_notImplemented (name : String) (asserts : List Bool) :
    requests (notImplemented name asserts : Client K) = [] := by
  unfold notImplemented
  cases asserts.all id <;> rfl

/-- and returns if all it asserts holds. -/
theorem exit_notImplemented (name : String) (asserts : List Bool) :
    (notImplemented name asserts : Client K).exit = none ↔ asserts.all id = true := by
  unfold notImplemented
  cases asserts.all id with
  | true => exact ⟨fun _ => rfl, fun _ => rfl⟩
  | false => exact ⟨(nomatch ·), (nomatch ·)⟩

/-- A call through `func` is one request. -/
theorem requests_callReq (args : ArgT) (sd : Int) (pubkey : Option K) (f : ReqFn) :
    requests (callReq args sd pubkey f) =
      [.req f sd pubkey args.username args.userpass args.arg1 args.arg2] := by
  have hbody :
      requests (f.body sd pubkey args.username args.userpass args.arg1 args.arg2) = [] := by
    cases f <;> exact requests_notImplemented _ _
  rw [callReq, Proc.seq, Proc.seq, Proc.seq, Proc.andThen_skip, requests_andThen, hbody]
  rfl

/-- **The loop over a table** that names the command once calls what stands beside it, and nothing
    else. -/
theorem dispatch_eq {args : ArgT} {table : List (String × ReqFn)} {c : String} {f : ReqFn}
    (sd : Int) (pubkey : Option K) (hnodup : (table.map Prod.fst).Nodup) (hmem : (c, f) ∈ table)
    (hc : args.command = c) : dispatch args sd pubkey table = callReq args sd pubkey f := by
  have hskip (rest : List (String × ReqFn)) (h : c ∉ rest.map Prod.fst) :
      dispatch args sd pubkey rest = .skip := by
    induction rest with
    | nil => rfl
    | cons e rest ih =>
        rw [List.map_cons, List.mem_cons, not_or] at h
        obtain ⟨hne, hrest⟩ := h
        rw [dispatch, if_neg (hc ▸ hne), Proc.skip_andThen, ih hrest]
  induction table with
  | nil => cases hmem
  | cons e rest ih =>
      obtain ⟨hfirst, hnodup⟩ := List.nodup_cons.mp hnodup
      rcases List.mem_cons.mp hmem with rfl | hmem
      · rw [dispatch, if_pos hc, hskip rest hfirst, Proc.andThen_skip]
      · have hne : args.command ≠ e.1 := fun h =>
          hfirst (h ▸ hc ▸ List.mem_map_of_mem (f := Prod.fst) hmem)
        rw [dispatch, if_neg hne, Proc.skip_andThen, ih hnodup hmem]

/-- The function of requests.cc for a request. -/
def Req.fn : Req → ReqFn
  | .bye => .reqBye
  | .sav => .reqSav
  | .reg => .reqReg
  | .set => .reqSet
  | .get => .reqGet
  | .all => .reqAll

/-- **The tables of `main`**: a command that names a request gets that request, once. -/
theorem dispatch_requests {args : ArgT} {r : Req} (sd : Int) (pubkey : Option K)
    (h : args.command = r.text) :
    requests (dispatch args sd pubkey (cmd.zip func)) =
      [.req r.fn sd pubkey args.username args.userpass args.arg1 args.arg2] := by
  have hmem : (r.text, r.fn) ∈ cmd.zip func := by cases r <;> decide
  rw [dispatch_eq sd pubkey (by decide) hmem h, requests_callReq]

/-! ## 7. What `main` calls -/

/-- The function that fetches the key returns: both its assertions hold. -/
theorem exit_reqKey (sd : Int) (keyfile : String) :
    (reqKey sd keyfile : Client K).exit = none ↔ sd ≠ 0 ∧ keyfile ≠ "" := by
  rw [reqKey, exit_notImplemented]
  simp [Nat.pos_iff_ne_zero]

/-- A call in front of the rest. -/
theorem requests_emit (es : List (Event K)) (p : Client K) :
    requests ((Proc.emit es).andThen p) = es.filter Event.isReq ++ requests p :=
  requests_andThen (.emit es) p

/-- Fetching the key is a call of `req_key`, -/
theorem requests_fetchKey (w : World K) (args : ArgT) :
    requests (fetchKey w args) = [.reqKey w.keySd args.keyfile] := by
  have hbody : requests (reqKey w.keySd args.keyfile : Client K) = [] :=
    requests_notImplemented _ _
  simp only [fetchKey, Proc.seq, requests_andThen, hbody]
  cases (reqKey w.keySd args.keyfile : Client K).exit <;> rfl

/-- and `main` goes on behind it if that returns. -/
theorem exit_fetchKey (w : World K) (args : ArgT) :
    (fetchKey w args).exit = none ↔ w.keySd ≠ 0 ∧ args.keyfile ≠ "" := by
  rw [← exit_reqKey (K := K), fetchKey, Proc.exit_seq]
  simp only [List.forall_mem_cons]
  exact ⟨fun h => h.2.2.1, fun h => ⟨rfl, rfl, h, rfl, fun _ hp => (nomatch hp)⟩⟩

/-- **`main` behind the `try`**: the key, if it is not there, and then the request. -/
theorem requests_runArgs (w : World K) {args : ArgT} {r : Req} (h : args.command = r.text) :
    requests (runArgs w args) =
      (if w.keyfileThere then [] else [.reqKey w.keySd args.keyfile]) ++
        if w.keyfileThere ∨ w.keySd ≠ 0 ∧ args.keyfile ≠ "" then
          [.req r.fn w.sd w.pubkey args.username args.userpass args.arg1 args.arg2]
        else [] := by
  have hrest : requests (.seq [.emit [.loadPub args.keyfile],
      .emit [.connectToServer args.server args.port], dispatch args w.sd w.pubkey (cmd.zip func),
      .emit [.close w.sd], .emit [.rsaFree w.pubkey], .stop (.code 0)] : Client K) =
      [.req r.fn w.sd w.pubkey args.username args.userpass args.arg1 args.arg2] := by
    simp only [Proc.seq, requests_emit, requests_andThen (dispatch ..), dispatch_requests _ _ h]
    cases (dispatch args w.sd w.pubkey (cmd.zip func)).exit <;> rfl
  rw [runArgs, Proc.seq, Proc.seq, requests_emit, requests_andThen, hrest]
  cases w.keyfileThere with
  | true => rfl
  | false =>
      have hfetch := requests_fetchKey w args
      by_cases hgo : (fetchKey w args).exit = none
      · have hkey : false = true ∨ w.keySd ≠ 0 ∧ args.keyfile ≠ "" :=
          .inr ((exit_fetchKey w args).mp hgo)
        rw [if_pos hkey]
        simp [hfetch, hgo, Event.isReq]
      · have hkey : ¬ (false = true ∨ w.keySd ≠ 0 ∧ args.keyfile ≠ "") :=
          fun h => hgo ((exit_fetchKey w args).mpr (h.resolve_left Bool.false_ne_true))
        rw [if_neg hkey]
        simp [hfetch, hgo, Event.isReq]

/-- **What `main` should do** with a command line, for any answers of its calls. -/
structure ClientRight (w : World K) (argv0 : String) (opts : List Opt) : Prop where
  /-- asked for a request, it makes that one and no other -/
  accepted : ∀ r, Asks opts r → (argT opts).isSome = true ∧
    requests (clientMain w argv0 opts) = [.req r.fn w.sd w.pubkey (lastValue 'u' opts)
      (lastValue 'w' opts) (lastValue '1' opts) (lastValue '2' opts)]
  /-- otherwise it makes none, prints its help text from entries that exist, and returns 1 -/
  rejected : (∀ r, ¬ Asks opts r) → requests (clientMain w argv0 opts) = [] ∧
    (∀ i, (.command i : Event K) ∈ (clientMain w argv0 opts).events → i < commands.length) ∧
    (clientMain w argv0 opts).exit = some (.code 1)

/-- The constructor throws for what asks for nothing. -/
theorem argT_none {opts : List Opt} (h : ∀ r, ¬ Asks opts r) : argT opts = none := by
  cases hargs : argT opts with
  | none => rfl
  | some a =>
      obtain ⟨⟨r, hr⟩, -⟩ := (argT_iff opts a).mp hargs
      exact absurd hr (h r)

/-- And then only the help text runs. -/
theorem clientMain_rejected (w : World K) (argv0 : String) {opts : List Opt}
    (h : ∀ r, ¬ Asks opts r) :
    clientMain w argv0 opts = (usage commands argv0).andThen (.stop (.code 1)) := by
  rw [clientMain, argT_none h]
  exact congrArg (usage commands argv0).andThen (Proc.andThen_skip _)

/-- Asked for a request, `main` calls this of requests.cc. -/
theorem clientMain_accepted (w : World K) (argv0 : String) {opts : List Opt} {r : Req}
    (h : Asks opts r) :
    requests (clientMain w argv0 opts) =
      (if w.keyfileThere then [] else [.reqKey w.keySd (lastValue 'k' opts)]) ++
        if w.keyfileThere ∨ w.keySd ≠ 0 ∧ lastValue 'k' opts ≠ "" then
          [.req r.fn w.sd w.pubkey (lastValue 'u' opts) (lastValue 'w' opts) (lastValue '1' opts)
            (lastValue '2' opts)]
        else [] := by
  have hargs := (argT_iff opts _).mpr ⟨⟨r, h⟩, rfl⟩
  rw [clientMain, hargs]
  exact requests_runArgs w h.command

/-- **`main` makes one request and no other call of requests.cc** for exactly the command lines that
    ask for one while the key file is there: without the file the key is fetched first, and for
    every other command line the help text reads past its table. -/
theorem clientRight_iff (w : World K) (argv0 : String) (opts : List Opt) :
    ClientRight w argv0 opts ↔ (∃ r, Asks opts r) ∧ w.keyfileThere = true := by
  constructor
  · intro h
    by_cases hasks : ∃ r, Asks opts r
    · obtain ⟨r, hr⟩ := hasks
      refine ⟨⟨r, hr⟩, Bool.not_eq_false _ ▸ fun hno => ?_⟩
      have hone := (h.accepted r hr).2
      rw [clientMain_accepted w argv0 hr, hno] at hone
      cases List.head_eq_of_cons_eq hone
    · rw [not_exists] at hasks
      obtain ⟨-, hinside, hexit⟩ := h.rejected hasks
      rw [clientMain_rejected w argv0 hasks] at hinside hexit
      cases hend : (usage commands argv0 : Client K).exit with
      | none => exact absurd (usage_exit.mp hend) (by decide)
      | some x =>
          rw [Proc.andThen_some hend] at hinside
          exact absurd ((usage_inside_iff commands argv0).mp hinside) (by decide)
  · rintro ⟨⟨r, hr⟩, hthere⟩
    refine ⟨fun r' hr' => ⟨?_, ?_⟩, fun hno => absurd hr (hno r)⟩
    · rw [(argT_iff opts _).mpr ⟨⟨r, hr⟩, rfl⟩]
      rfl
    · rw [clientMain_accepted w argv0 hr', hthere]
      rfl

/-- **WHAT THE CLIENT CALLS OF requests.cc**, for any command line: the key, if its file is not
    there, and then the request that is asked for, unless fetching the key ended the process;
    nothing if none is asked for, where the help text is all there is before the return of 1. -/
theorem clientMain_requests (w : World K) (argv0 : String) (opts : List Opt) :
    (∀ r, Asks opts r → argT opts = some (({} : ArgT).lasts opts) ∧
      requests (clientMain w argv0 opts) =
        (if w.keyfileThere then [] else [.reqKey w.keySd (lastValue 'k' opts)]) ++
          if w.keyfileThere ∨ w.keySd ≠ 0 ∧ lastValue 'k' opts ≠ "" then
            [.req r.fn w.sd w.pubkey (lastValue 'u' opts) (lastValue 'w' opts) (lastValue '1' opts)
              (lastValue '2' opts)]
          else []) ∧
      ((∀ r, ¬ Asks opts r) → argT opts = none ∧ requests (clientMain w argv0 opts) = [] ∧
        clientMain w argv0 opts = (usage commands argv0).andThen (.stop (.code 1))) := by
  refine ⟨fun r hr => ⟨(argT_iff opts _).mpr ⟨⟨r, hr⟩, rfl⟩, clientMain_accepted w argv0 hr⟩,
    fun hno => ⟨argT_none hno, ?_, clientMain_rejected w argv0 hno⟩⟩
  rw [clientMain_rejected w argv0 hno, requests_andThen, requests_usage]
  cases (usage commands argv0 : Client K).exit <;> rfl

/-- **A client without its key file** calls `req_key` before the request it was asked for; and a
    command line that is rejected is answered by a help text that reads past `commands`. -/
theorem clientMain_not_right :
    ¬ ClientRight (⟨false, 3, some 7, 4⟩ : World Nat) "client" [⟨'k', "server.pub"⟩,
        ⟨'C', "REGISTER"⟩] ∧
      ¬ ClientRight (⟨true, 3, some 7, 4⟩ : World Nat) "client" [⟨'h', ""⟩] := by
  constructor
  · intro h
    exact absurd ((clientRight_iff _ _ _).mp h).2 (by decide)
  · intro h
    obtain ⟨⟨r, hr⟩, -⟩ := (clientRight_iff _ _ _).mp h
    exact absurd (hr.options _ List.mem_cons_self) (by decide)

end Cse303
