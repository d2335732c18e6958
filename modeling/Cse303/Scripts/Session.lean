/-
  File:      Cse303/Scripts/Session.lean
  Subject:   A WHOLE SESSION OF THE TEST SCRIPTS WITH THE SERVER: from the lines of its start
             (`do_cmd_a`) to those of its end.

  A script starts the server on a clean directory and expects three lines of it, reads two lines for
  each connection and two more when the server has been stopped, and is then at the last lines of
  `main`. While there is a pool, its threads write to the same output (`Stdout`).

  * `serverMain_serves`, `Serves.stdout` -- the whole output of a server process that ends with the
    code 0;
  * `start_iff` -- what the three lines tell: the port is one in plain decimal and the key files are
    called `rsa`, they were not there, and no call of `init_RSA` failed but a flush;
  * **`session_iff`** -- so a session finds what it expects exactly if that is so, the socket could
    be made, no request was parsed, one failed `accept` was handed over, and all clients are local.
-/
import Cse303.Scripts.Dialogue
import Cse303.Scripts.Launch
import Cse303.Server.Starts

namespace Cse303

open CInt (toSize)
open Writers (Merged merged_singleton)

variable {K : Type}

/-! ## 1. The script -/

/-- The loop of `do_cmd_a`: whether every line is as expected, and the output behind them. -/
def expects : List String → List Char → Bool × List Char
  | [], out => (true, out)
  | e :: es, out =>
    (rstrip (readline out).1 = e.toList && (expects es (readline out).2).1,
      (expects es (readline out).2).2)

/-- What the scripts expect of a server that they start in a clean directory. -/
def ServerConfig.startLines (d : ServerConfig) : List String :=
  ["Listening on port " ++ d.port ++ " using (key/data) = (rsa, " ++ d.dirfile ++ ")",
    "Generating RSA keys as (" ++ d.keyfile ++ ".pub, " ++ d.keyfile ++ ".pri)",
    "File not found: " ++ d.dirfile]

/-- A session with `n` readings of two lines: all as expected, and the output behind them. -/
def session (d : ServerConfig) (n : Nat) (out : List Char) : Bool × List Char :=
  let started := expects d.startLines out
  let served := afters n started.2
  (started.1 && served.1, served.2)

/-- A line that is read has no line end in it when it is stripped. -/
theorem readline_split (out : List Char) : ∃ line, '\n' ∉ line ∧
    ((readline out).1 = line ∨ (readline out).1 = line ++ ['\n']) := by
  induction out with
  | nil => exact ⟨[], List.not_mem_nil, .inl rfl⟩
  | cons c cs ih =>
      rw [readline]
      split
      · rename_i hc
        exact ⟨[], List.not_mem_nil, .inr (congrArg (fun x => [x]) hc)⟩
      · rename_i hc
        obtain ⟨line, hline, hread⟩ := ih
        refine ⟨c :: line, ?_, ?_⟩
        · rw [List.mem_cons, not_or]
          exact ⟨Ne.symm hc, hline⟩
        · exact hread.imp (congrArg (List.cons c)) (congrArg (List.cons c))

theorem rstrip_front (line : List Char) : rstrip line <+: line := List.rdropWhile_prefix _ line

theorem newline_notMem_read (out : List Char) : '\n' ∉ rstrip (readline out).1 := by
  obtain ⟨line, hline, hread⟩ := readline_split out
  have hfront : rstrip (readline out).1 <+: line := by
    rcases hread with hread | hread <;> rw [hread]
    · exact rstrip_front line
    · rw [rstrip_newline]
      exact rstrip_front line
  exact fun h => hline (hfront.subset h)

/-- Of a line, what is stripped begins as it does. -/
theorem read_head {c x : Char} {out line : List Char}
    (h : rstrip (readline (c :: out)).1 = x :: line) : x = c := by
  have hfront := rstrip_front (readline (c :: out)).1
  rw [h, readline] at hfront
  split at hfront
  · exact (List.cons_prefix_cons.mp hfront).1
  · exact (List.cons_prefix_cons.mp hfront).1

theorem expects_line {line : List Char} (h : '\n' ∉ line) (rest : List Char) (e : String)
    (es : List String) : expects (e :: es) (line ++ '\n' :: rest) =
      (rstrip line = e.toList && (expects es rest).1, (expects es rest).2) := by
  rw [expects, readline_line h, rstrip_newline]

/-- A line that begins with another character is not the one expected, -/
theorem expects_head {e : String} {c x : Char} {out : List Char} (hne : x ≠ c)
    (he : e.toList.head? = some x) (hout : out.head? = some c) (es : List String) :
    (expects (e :: es) out).1 = false := by
  obtain ⟨line, hline⟩ := List.head?_eq_some_iff.mp he
  obtain ⟨cs, rfl⟩ := List.head?_eq_some_iff.mp hout
  have hread : ¬ rstrip (readline (c :: cs)).1 = e.toList :=
    fun h => hne (read_head (h.trans hline))
  rw [expects, decide_eq_false hread]
  rfl

/-- nor one of the two of a connection. -/
theorem afters_head {c : Char} {out : List Char} (h : c ≠ 'W') (hout : out.head? = some c)
    (n : Nat) : (afters (n + 1) out).1 = false := by
  obtain ⟨cs, rfl⟩ := List.head?_eq_some_iff.mp hout
  have hread : ¬ rstrip (readline (c :: cs)).1 = "Waiting for a client to connect...".toList :=
    fun hread => h (read_head (x := 'W') (hread.trans (by rfl))).symm
  rw [afters, after, decide_eq_false hread]
  rfl

/-! ## 2. The output of a process -/

/-- What events write to the standard output. -/
def output (es : List (ServerEvent K)) : List Piece :=
  es.filterMap fun
    | .cout piece => some piece
    | _ => none

@[simp] theorem output_append (es es' : List (ServerEvent K)) :
    output (es ++ es') = output es ++ output es' := List.filterMap_append

@[simp] theorem output_cout (ps : List Piece) :
    output (ps.map .cout : List (ServerEvent K)) = ps := by
  rw [output, List.filterMap_map]
  exact List.filterMap_some

/-- The pool's threads are there: from where `main` makes the pool to the end of `await_shutdown`. -/
def ServerEvent.bounds : ServerEvent K → Bool
  | .serve .. => true
  | .awaitShutdown => true
  | _ => false

/-- **What a process writes to its standard output** that has had a pool: between the two bounds its
    lines and those of the threads that run `parse_request`, for these descriptors, are merged. -/
inductive Stdout (strerror : Errno → String) (sds : List Int) (p : ServerProc K) :
    List Char → Prop
  | mk {before during behind : List (ServerEvent K)} {sd threads : Int} {pri : K} {pub : Vec}
      {mid : List Char} (hevents : p.events = before ++
        .serve sd threads pri pub :: (during ++ .awaitShutdown :: behind))
      (hmid : Merged (written strerror (output during) :: parsing strerror pri pub sds) mid) :
      Stdout strerror sds p (written strerror (output before) ++
        (mid ++ written strerror (output behind)))

/-- The lines of a configuration, and of a new pair of keys. -/
def listeningLine (args : ServerArgT) (port : Int) : List Piece :=
  [.text "Listening on port ", .text (toString port), .text " using (key/data) = (",
    .text args.keyfile, .text ", ", .text args.datafile, .text ")\n"]

def generatingLine (pub pri : String) : List Piece :=
  [.text "Generating RSA keys as (", .text pub, .text ", ", .text pri, .text ")\n"]

/-- The line of a data file that is not there. -/
def notFoundLine (datafile : String) : List Piece :=
  [.text ("File not found: " ++ datafile), .text "\n"]

/-- The last lines of `main`. -/
def lastLines : List Piece :=
  [.text "my_storage.cc::shutdown() is not implemented\n", .text "Server terminated\n"]

/-- A process that writes `ps`, makes a pool, and ends as a server does. -/
def Serves (c : ServerCalls K) (ps : List Piece) (p : ServerProc K) : Prop :=
  ∃ es sd threads pri pub, p.events = es ++
      .serve sd threads pri pub :: (c.accept.cout.map .cout ++
        .awaitShutdown :: (lastLines.map .cout ++ [.close sd, .rsaFree pri])) ∧
    output es = ps ∧ ∀ e ∈ es, e.bounds = false

theorem bounds_cout (ps : List Piece) :
    ∀ e ∈ (ps.map .cout : List (ServerEvent K)), e.bounds = false := by
  intro e he
  obtain ⟨piece, -, rfl⟩ := List.mem_map.mp he
  rfl

/-- Its output is that, what is written while there is a pool, and the last lines. -/
theorem Serves.stdout {c : ServerCalls K} {ps : List Piece} {p : ServerProc K}
    (h : Serves c ps p) {strerror : Errno → String} {sds : List Int} {out : List Char}
    (hout : Stdout strerror sds p out) : ∃ pri pub mid,
      Merged (written strerror c.accept.cout :: parsing (K := K) strerror pri pub sds) mid ∧
        out = written strerror ps ++ (mid ++ written strerror lastLines) := by
  obtain ⟨es, sd, threads, pri, pub, hevents, rfl, hbounds⟩ := h
  have hfree {es : List (ServerEvent K)} (h : ∀ e ∈ es, e.bounds = false) {e : ServerEvent K}
      (he : e.bounds = true) : e ∉ es := fun hmem => by
    rw [h e hmem] at he
    cases he
  have hduring := bounds_cout (K := K) c.accept.cout
  have hbehind : ∀ e ∈ lastLines.map .cout ++ [.close sd, .rsaFree pri],
      ServerEvent.bounds e = false := by
    intro e he
    rcases List.mem_append.mp he with he | he
    · exact bounds_cout lastLines e he
    · rcases List.mem_cons.mp he with rfl | he
      · rfl
      · rw [List.mem_singleton.mp he]
        rfl
  cases hout with
  | @mk before' during' behind' sd' threads' pri' pub' mid hevents' hmid =>
      rw [hevents] at hevents'
      -- the two bounds stand once in the events
      have hserve : ServerEvent.serve sd' threads' pri' pub' ∉ c.accept.cout.map .cout ++
          .awaitShutdown :: (lastLines.map .cout ++ [.close sd, .rsaFree pri]) := by
        rw [List.mem_append, List.mem_cons, not_or, not_or]
        exact ⟨hfree hduring rfl, (nomatch ·), hfree hbehind rfl⟩
      obtain ⟨rfl, -, hrest⟩ :=
        (List.append_cons_inj_of_notMem (hfree hbounds rfl) hserve).mp hevents'
      obtain ⟨rfl, -, rfl⟩ :=
        (List.append_cons_inj_of_notMem (hfree hduring rfl) (hfree hbehind rfl)).mp hrest
      rw [output_cout] at hmid
      refine ⟨pri', pub', mid, hmid, ?_⟩
      have hlast : output [.close sd, .rsaFree pri] = [] := rfl
      rw [output_append, output_cout, hlast, List.append_nil]

theorem Serves.emit {c : ServerCalls K} {ps : List Piece} {p : ServerProc K}
    (h : Serves c ps p) {es : List (ServerEvent K)} (hes : ∀ e ∈ es, e.bounds = false) :
    Serves c (output es ++ ps) ((Proc.emit es).andThen p) := by
  obtain ⟨es', sd, threads, pri, pub, hevents, rfl, hbounds⟩ := h
  refine ⟨es ++ es', sd, threads, pri, pub, ?_, output_append es es', fun e he => ?_⟩
  · rw [Proc.andThen_none rfl, List.append_assoc, ← hevents]
    rfl
  · exact (List.mem_append.mp he).elim (hes e) (hbounds e)

theorem Serves.print {c : ServerCalls K} {ps : List Piece} {p : ServerProc K}
    (h : Serves c ps p) (line : List Piece) :
    Serves c (line ++ ps) ((serverPrint line).andThen p) := by
  have hline := h.emit (bounds_cout line)
  rw [output_cout] at hline
  exact hline

/-- A load that returns something prints nothing. -/
theorem load_quiet {filename : String} {l : LoadCalls}
    (h : (loadEntireFile filename l).ret.val.size ≠ 0) :
    (loadEntireFile filename l).ret.cout = [] := by
  unfold loadEntireFile at h ⊢
  cases hstat : l.stat with
  | none =>
      rw [hstat] at h
      exact absurd rfl h
  | some size =>
      simp only [hstat] at h ⊢
      split
      · rename_i hopen
        rw [if_pos hopen] at h
        exact absurd rfl h
      · rename_i hopen
        rw [if_neg hopen] at h
        split
        · rename_i hbad
          rw [if_pos hbad] at h
          exact absurd rfl h
        · rfl

/-- A server that serves and ends: nothing failed that ends it before. -/
theorem serveKey_serves {c : ServerCalls K} {args : ServerArgT} {port : Int} {pri : K} {pub : Vec}
    (h : (serveKey c args port pri pub).exit = some (.code 0)) :
    Serves c (createServerSocket (toSize port) c.listen).ret.cout
      (serveKey c args port pri pub) := by
  have hends : c.ends = true := by
    by_contra hends
    rw [(serveKey_eq c args port pri pub).1, if_neg hends] at h
    cases h
  refine ⟨(createServerSocket (toSize port) c.listen).ret.cout.map .cout,
    (createServerSocket (toSize port) c.listen).ret.val, args.threads, pri, pub, ?_,
    output_cout _, bounds_cout _⟩
  unfold serveKey
  simp only [hends, if_true]
  rfl

/-- From the public key file on: that and the storage are silent, but for the data file that is not
    there. -/
theorem loadAndServe_serves {c : ServerCalls K} {args : ServerArgT} {port : Int} {pri : K} {fs : Fs}
    (h : (loadAndServe c args port pri fs).exit = some (.code 0)) :
    Serves c (notFoundLine args.datafile ++ (createServerSocket (toSize port) c.listen).ret.cout)
      (loadAndServe c args port pri fs) := by
  unfold loadAndServe at h ⊢
  simp only [Proc.seq, Proc.andThen_skip, exit_print_andThen] at h ⊢
  split at h
  · cases h
  · rename_i hsize
    rw [if_neg hsize, load_quiet hsize]
    simp only [exit_emit_andThen, exit_print_andThen] at h
    split at h
    · cases h
    · rename_i hdata
      rw [storageLoadFile_succeeded] at hdata
      have hthere : c.dataThere args.datafile fs = false := by simpa using hdata
      simp only [hthere, Bool.false_eq_true, if_false]
      refine (Serves.emit ((serveKey_serves h).print _) ?_).print []
      exact fun e he => List.mem_singleton.mp he ▸ rfl

/-- **THE OUTPUT OF A SERVER PROCESS** that ends with the code 0, started by a script. -/
theorem serverMain_serves {P : Pem K} {c : ServerCalls K} {d : ServerConfig} {fs : Fs}
    (h : (serverMain P c d.exe (optsOf serverOptstring d.launchcmd) fs).1.exit = some (.code 0)) :
    let init := (initRSA P c.rsa d.keyfile fs).1
    init.val ≠ none ∧
      Serves c (listeningLine d.fields (atoi d.port) ++ (init.cout ++ (notFoundLine d.dirfile ++
          (createServerSocket (toSize (atoi d.port)) c.listen).ret.cout)))
        (serverMain P c d.exe (optsOf serverOptstring d.launchcmd) fs).1 := by
  intro init
  have hrun : (serverMain P c d.exe (optsOf serverOptstring d.launchcmd) fs).1 =
      (runServer P c d.fields fs).1 := by
    rw [serverMain, launchcmd_read]
  have hport : d.fields.port.getD c.strayPort = atoi d.port := rfl
  rw [hrun] at h ⊢
  unfold runServer at h ⊢
  rw [hport] at h ⊢
  simp only [Proc.seq, Proc.andThen_skip, exit_print_andThen] at h ⊢
  cases hkey : (initRSA P c.rsa d.fields.keyfile fs).1.val with
  | none =>
      rw [hkey] at h
      cases h
  | some k =>
      have hval : init.val = some k := hkey
      rw [hkey] at h
      rw [hval]
      exact ⟨Option.some_ne_none k, ((loadAndServe_serves h).print _).print _⟩

/-! ## 3. The lines of the start -/

/-- A printed line is the expected one, and what follows it is read as expected. -/
theorem expects_iff {line : List Char} (h : '\n' ∉ line) (e : String) (es : List String)
    (out rest : List Char) : expects (e :: es) (line ++ '\n' :: out) = (true, rest) ↔
      rstrip line = e.toList ∧ expects es out = (true, rest) := by
  rw [expects_line h, Prod.ext_iff, Prod.ext_iff, Bool.and_eq_true_iff, decide_eq_true_iff,
    and_assoc]

/-- A line that is expected with a line end in it is never read. -/
theorem expects_newline {e : String} (h : '\n' ∈ e.toList) {es : List String} (he : e ∈ es)
    (out : List Char) : (expects es out).1 = false := by
  induction es generalizing out with
  | nil => cases he
  | cons e' es ih =>
      rw [expects, Bool.and_eq_false_iff]
      rcases List.mem_cons.mp he with rfl | he
      · exact .inl (decide_eq_false fun heq => newline_notMem_read out (heq ▸ h))
      · exact .inr (ih he _)

/-- A number is written with digits and a sign. -/
theorem notMem_toString (n : Int) {c : Char} (hdigit : ¬ c.isDigit = true) (hsign : c ≠ '-') :
    c ∉ (toString n).toList := by
  have hdigits (m : Nat) : c ∉ Nat.toDigits 10 m := fun h =>
    hdigit (Nat.isDigit_of_mem_toDigits (by omega) (by omega) h)
  cases n with
  | ofNat m =>
      rw [toString_ofNat]
      exact hdigits m
  | negSucc m =>
      rw [toString_negSucc, List.mem_cons, not_or]
      exact ⟨hsign, hdigits (m + 1)⟩

theorem newline_notMem_toString (n : Int) : '\n' ∉ (toString n).toList :=
  notMem_toString n (by decide) (by decide)

/-- The text in front of the first blank. -/
theorem takeWhile_blank {text : List Char} (h : ' ' ∉ text) (rest : List Char) :
    (text ++ ' ' :: rest).takeWhile (· ≠ ' ') = text := by
  have hall : ∀ c ∈ text, decide (c ≠ ' ') = true :=
    fun c hc => decide_eq_true fun heq => h (heq ▸ hc)
  rw [List.takeWhile_append_of_pos hall, List.takeWhile_cons_of_neg (by decide), List.append_nil]

/-- The texts of a configuration, as the three lines show them. -/
structure ServerConfig.Shown (d : ServerConfig) : Prop where
  /-- the port as an `int` is printed, and the base name that the scripts write out -/
  first : toString (atoi d.port) ++ " using (key/data) = (" ++ d.keyfile =
    d.port ++ " using (key/data) = (rsa"
  keyfile : '\n' ∉ d.keyfile.toList
  dirfile : '\n' ∉ d.dirfile.toList
  /-- `rstrip` leaves the name as it is -/
  ending : ∃ line c, d.dirfile.toList = line ++ [c] ∧ Inet.isspace c = false

/-- For a port without a blank, the port is one in plain decimal and the base name is `rsa`. -/
theorem first_iff {d : ServerConfig} (h : ' ' ∉ d.port.toList) :
    toString (atoi d.port) ++ " using (key/data) = (" ++ d.keyfile =
        d.port ++ " using (key/data) = (rsa" ↔
      toString (atoi d.port) = d.port ∧ d.keyfile = "rsa" := by
  have htext : " using (key/data) = (".toList = ' ' :: "using (key/data) = (".toList := by decide
  have hrsa : " using (key/data) = (rsa" = " using (key/data) = (" ++ "rsa" := by decide
  constructor
  · intro heq
    have hport : toString (atoi d.port) = d.port := by
      have hnum := notMem_toString (atoi d.port) (by decide : ¬ ' '.isDigit = true) (by decide)
      have hchars := congrArg (fun x => x.toList.takeWhile (· ≠ ' ')) heq
      simp only [String.toList_append, hrsa, htext, List.append_assoc, List.cons_append] at hchars
      rw [takeWhile_blank hnum, takeWhile_blank h] at hchars
      exact String.toList_inj.mp hchars
    rw [hport, hrsa, ← String.append_assoc] at heq
    exact ⟨hport, String.append_right_inj _ |>.mp heq⟩
  · intro ⟨hport, hkey⟩
    rw [hport, hkey, hrsa, String.append_assoc]

/-- The first line. -/
theorem listening_iff (strerror : Errno → String) {d : ServerConfig}
    (hkey : '\n' ∉ d.keyfile.toList) (hdir : '\n' ∉ d.dirfile.toList) (es : List String)
    (out rest : List Char) :
    expects (("Listening on port " ++ d.port ++ " using (key/data) = (rsa, " ++ d.dirfile ++
      ")") :: es) (written strerror (listeningLine d.fields (atoi d.port)) ++ out) =
        (true, rest) ↔
      toString (atoi d.port) ++ " using (key/data) = (" ++ d.keyfile =
          d.port ++ " using (key/data) = (rsa" ∧
        expects es out = (true, rest) := by
  have hnum := newline_notMem_toString (atoi d.port)
  have hwritten : written strerror (listeningLine d.fields (atoi d.port)) ++ out =
      ("Listening on port ".toList ++ ((toString (atoi d.port)).toList ++
        " using (key/data) = (".toList ++ d.keyfile.toList) ++
          (", ".toList ++ d.dirfile.toList ++ [')'])) ++ '\n' :: out := by
    simp [written, listeningLine, Piece.str, ServerConfig.fields]
  have hline : '\n' ∉ "Listening on port ".toList ++ ((toString (atoi d.port)).toList ++
      " using (key/data) = (".toList ++ d.keyfile.toList) ++
        (", ".toList ++ d.dirfile.toList ++ [')']) := by
    have hl₁ : '\n' ∉ "Listening on port ".toList := by decide
    have hl₂ : '\n' ∉ " using (key/data) = (".toList := by decide
    have hl₃ : '\n' ∉ ", ".toList := by decide
    have hl₄ : '\n' ∉ [')'] := by decide
    simp only [List.mem_append, hl₁, hl₂, hl₃, hl₄, hnum, hkey, hdir, or_self, not_false_eq_true]
  have hexpected : ("Listening on port " ++ d.port ++ " using (key/data) = (rsa, " ++ d.dirfile ++
      ")").toList = "Listening on port ".toList ++ (d.port.toList ++
        " using (key/data) = (rsa".toList) ++ (", ".toList ++ d.dirfile.toList ++ [')']) := by
    simp
  rw [hwritten, expects_iff hline, ← List.append_assoc _ _ [')'], rstrip_concat (by decide),
    List.append_assoc _ _ [')'], hexpected, List.append_left_inj, List.append_right_inj,
    ← String.toList_append, ← String.toList_append, ← String.toList_append, String.toList_inj]

/-- The second, of a start that generates its keys. -/
theorem generating_iff (strerror : Errno → String) {basename : String}
    (h : '\n' ∉ basename.toList) (es : List String) (out rest : List Char) :
    expects (("Generating RSA keys as (" ++ basename ++ ".pub, " ++ basename ++ ".pri)") :: es)
      (written strerror (generatingLine (pubfile basename) (prifile basename)) ++ out) =
        (true, rest) ↔ expects es out = (true, rest) := by
  have hwritten : written strerror (generatingLine (pubfile basename) (prifile basename)) ++ out =
      ("Generating RSA keys as (".toList ++ basename.toList ++ ".pub, ".toList ++
        basename.toList ++ ".pri".toList ++ [')']) ++ '\n' :: out := by
    simp [written, generatingLine, Piece.str, pubfile, prifile]
  have htext : ("Generating RSA keys as (" ++ basename ++ ".pub, " ++ basename ++ ".pri)").toList =
      "Generating RSA keys as (".toList ++ basename.toList ++ ".pub, ".toList ++
        basename.toList ++ ".pri".toList ++ [')'] := by
    simp
  have hline : '\n' ∉ "Generating RSA keys as (".toList ++ basename.toList ++ ".pub, ".toList ++
      basename.toList ++ ".pri".toList ++ [')'] := by
    have hl₁ : '\n' ∉ "Generating RSA keys as (".toList := by decide
    have hl₂ : '\n' ∉ ".pub, ".toList := by decide
    have hl₃ : '\n' ∉ ".pri".toList := by decide
    have hl₄ : '\n' ∉ [')'] := by decide
    simp only [List.mem_append, hl₁, hl₂, hl₃, hl₄, h, or_self, not_false_eq_true]
  rw [hwritten, expects_iff hline, rstrip_concat (by decide), htext]
  exact and_iff_right rfl

/-- Where a text ends in a blank, `rstrip` leaves a name behind it exactly if that does not. -/
theorem rstrip_name {text : List Char} (h : rstrip text ≠ text) (name : List Char) :
    rstrip (text ++ name) = text ++ name ↔
      ∃ line c, name = line ++ [c] ∧ Inet.isspace c = false := by
  rcases List.eq_nil_or_concat name with rfl | ⟨line, c, hconcat⟩
  · rw [List.append_nil]
    refine iff_of_false h fun hending => ?_
    obtain ⟨line, c, hnil, -⟩ := hending
    exact List.append_ne_nil_of_right_ne_nil line (List.cons_ne_nil c []) hnil.symm
  · rw [List.concat_eq_append] at hconcat
    rw [hconcat, ← List.append_assoc]
    constructor
    · intro hall
      refine ⟨line, c, rfl, ?_⟩
      by_contra hblank
      have hstrip : rstrip (text ++ line ++ [c]) = rstrip (text ++ line) :=
        List.rdropWhile_concat_pos _ _ _ (Bool.not_eq_false _ ▸ hblank)
      have hle := (rstrip_front (text ++ line)).length_le
      rw [← hstrip, hall, List.length_append, List.length_singleton] at hle
      omega
    · intro hending
      obtain ⟨line', c', heq, hblank⟩ := hending
      obtain ⟨-, hc⟩ := List.append_inj' heq rfl
      obtain rfl := List.singleton_inj.mp hc
      exact rstrip_concat hblank

/-- The third. -/
theorem notFound_iff (strerror : Errno → String) {datafile : String}
    (h : '\n' ∉ datafile.toList) (out rest : List Char) :
    expects ["File not found: " ++ datafile] (written strerror (notFoundLine datafile) ++ out) =
        (true, rest) ↔
      (∃ line c, datafile.toList = line ++ [c] ∧ Inet.isspace c = false) ∧ out = rest := by
  have hwritten : written strerror (notFoundLine datafile) ++ out =
      ("File not found: ".toList ++ datafile.toList) ++ '\n' :: out := by
    simp [written, notFoundLine, Piece.str]
  have hline : '\n' ∉ "File not found: ".toList ++ datafile.toList := by
    have hl : '\n' ∉ "File not found: ".toList := by decide
    simp only [List.mem_append, hl, h, or_self, not_false_eq_true]
  have hblank : rstrip "File not found: ".toList ≠ "File not found: ".toList := by decide
  rw [hwritten, expects_iff hline, String.toList_append, rstrip_name hblank, expects, Prod.ext_iff]
  exact and_congr_right' (and_iff_right rfl)

/-- No call of the start fails but a flush, of which nothing tells. -/
def Calls.CleanButFlush (c : Calls K) : Prop :=
  Calls.Clean { c with flushPub := none, flushPri := none }

/-- What the generator prints: its line, and that of the call that failed. -/
theorem generate_cout (P : Pem K) (c : Calls K) (pub pri : String) (fs : Fs) :
    let cout := (generateRsaKeyFiles P c pub pri fs).1.cout
    (cout = generatingLine pub pri ∧ (c.openRead = true → c.read = true → c.CleanButFlush)) ∨
      ¬ c.CleanButFlush ∧ ∃ msg, msg.toList.head? = some 'E' ∧
        cout = generatingLine pub pri ++ [.text msg, .text "\n"] := by
  intro cout
  unfold cout generateRsaKeyFiles
  by_cases h₁ : c.bnNew = false
  · rw [if_pos h₁]
    exact .inr ⟨fun hc => absurd (hc.bnNew.symm.trans h₁) (by decide), _, rfl, rfl⟩
  by_cases h₂ : c.bnSetWord = false
  · rw [if_neg h₁, if_pos h₂]
    exact .inr ⟨fun hc => absurd (hc.bnSetWord.symm.trans h₂) (by decide), _, rfl, rfl⟩
  by_cases h₃ : c.rsaNew = false
  · rw [if_neg h₁, if_neg h₂, if_pos h₃]
    exact .inr ⟨fun hc => absurd (hc.rsaNew.symm.trans h₃) (by decide), _, rfl, rfl⟩
  rw [if_neg h₁, if_neg h₂, if_neg h₃]
  cases hgen : c.generate with
  | none => exact .inr ⟨fun hc => hc.generate hgen, _, rfl, rfl⟩
  | some rsa =>
      by_cases h₄ : c.openPub = false
      · simp only [if_pos h₄]
        exact .inr ⟨fun hc => absurd (hc.openPub.symm.trans h₄) (by decide), _, rfl, rfl⟩
      by_cases h₅ : c.openPri = false
      · simp only [if_neg h₄, if_pos h₅]
        exact .inr ⟨fun hc => absurd (hc.openPri.symm.trans h₅) (by decide), _, rfl, rfl⟩
      simp only [if_neg h₄, if_neg h₅]
      cases hpub : c.writePub with
      | some n => exact .inr ⟨fun hc => (nomatch hc.writePub.symm.trans hpub), _, rfl, rfl⟩
      | none =>
          cases hpri : c.writePri with
          | some n => exact .inr ⟨fun hc => (nomatch hc.writePri.symm.trans hpri), _, rfl, rfl⟩
          | none =>
              simp only [Bool.not_eq_false] at h₁ h₂ h₃ h₄ h₅
              have hsome : c.generate ≠ none := hgen ▸ Option.some_ne_none rsa
              exact .inl ⟨rfl, fun h₆ h₇ => ⟨h₁, h₂, h₃, hsome, h₄, h₅, hpub, hpri, rfl, rfl, h₆, h₇⟩⟩

/-- A key that was read: `load_pri` printed nothing, and its calls succeeded. -/
theorem loadPri_some {P : Pem K} {c : Calls K} {filename : String} {fs : Fs}
    (h : (loadPri P c filename fs).val ≠ none) :
    (loadPri P c filename fs).cout = [] ∧ c.openRead = true ∧ c.read = true := by
  unfold loadPri at h ⊢
  cases hfile : fs filename with
  | none =>
      rw [hfile] at h
      exact absurd rfl h
  | some text =>
      rw [hfile] at h
      dsimp only at h ⊢
      by_cases hopen : c.openRead = false
      · rw [if_pos hopen] at h
        exact absurd rfl h
      rw [if_neg hopen] at h ⊢
      cases hread : c.read with
      | false =>
          rw [hread] at h
          exact absurd rfl h
      | true =>
          rw [hread] at h
          cases hrsa : P.readPri text with
          | none =>
              simp only [hrsa, if_true] at h
              exact absurd rfl h
          | some rsa =>
              simp only [if_true]
              exact ⟨rfl, Bool.not_eq_false _ ▸ hopen, trivial⟩

/-- **What `init_RSA` prints** when it returns a key: nothing if both files were there; and if
    neither was, the line of the generator, and that of a call that failed. -/
theorem initRSA_cout {P : Pem K} {c : Calls K} {basename : String} {fs : Fs}
    (h : (initRSA P c basename fs).1.val ≠ none) :
    let cout := (initRSA P c basename fs).1.cout
    ((fs (pubfile basename)).isSome = true ∧ cout = []) ∨
      (fs (pubfile basename) = none ∧ fs (prifile basename) = none) ∧
        (cout = generatingLine (pubfile basename) (prifile basename) ∧ c.CleanButFlush ∨
          ¬ c.CleanButFlush ∧ ∃ msg, msg.toList.head? = some 'E' ∧
            cout = generatingLine (pubfile basename) (prifile basename) ++
              [.text msg, .text "\n"]) := by
  intro cout
  unfold cout
  unfold initRSA at h ⊢
  cases hpub : fs (pubfile basename) with
  | none =>
      cases hpri : fs (prifile basename) with
      | none =>
          simp only [hpub, hpri, Option.isSome_none] at h ⊢
          obtain ⟨hquiet, hopen, hread⟩ := loadPri_some h
          rw [hquiet, List.append_nil]
          refine .inr ⟨⟨trivial, trivial⟩, ?_⟩
          exact (generate_cout P c (pubfile basename) (prifile basename) fs).imp
            (fun hgen => ⟨hgen.1, hgen.2 hopen hread⟩) id
      | some text =>
          simp only [hpub, hpri, Option.isSome_none, Option.isSome_some] at h
          exact absurd rfl h
  | some text =>
      cases hpri : fs (prifile basename) with
      | none =>
          simp only [hpub, hpri, Option.isSome_none, Option.isSome_some] at h
          exact absurd rfl h
      | some text' =>
          simp only [hpub, hpri, Option.isSome_some] at h ⊢
          exact .inl ⟨trivial, (loadPri_some h).1⟩

/-- **THE LINES OF THE START**, for every configuration, every content of the directory and every
    failure, of a start that comes to its key: they are as expected exactly if the texts can be
    shown, the key files were not there, and no call of `init_RSA` failed but a flush. -/
theorem start_iff {P : Pem K} {c : Calls K} {d : ServerConfig} {fs : Fs}
    (h : (initRSA P c d.keyfile fs).1.val ≠ none) (strerror : Errno → String)
    (out rest : List Char) :
    expects d.startLines (written strerror (listeningLine d.fields (atoi d.port)) ++
      (written strerror (initRSA P c d.keyfile fs).1.cout ++
        (written strerror (notFoundLine d.dirfile) ++ out))) = (true, rest) ↔
      (d.Shown ∧ fs (pubfile d.keyfile) = none ∧ fs (prifile d.keyfile) = none ∧
        c.CleanButFlush) ∧ out = rest := by
  have hends {e : String} (he : e ∈ d.startLines) (hline : '\n' ∈ e.toList) {x : List Char} :
      ¬ expects d.startLines x = (true, rest) := fun hread =>
    Bool.false_ne_true ((expects_newline hline he x).symm.trans (congrArg Prod.fst hread))
  by_cases hkey : '\n' ∈ d.keyfile.toList
  · -- the name of the key files stands in the second line
    refine iff_of_false (hends (List.mem_cons_of_mem _ List.mem_cons_self) ?_)
      (fun hread => hread.1.1.keyfile hkey)
    simp [hkey]
  by_cases hdir : '\n' ∈ d.dirfile.toList
  · refine iff_of_false (hends List.mem_cons_self ?_) (fun hread => hread.1.1.dirfile hdir)
    simp [hdir]
  rw [ServerConfig.startLines, listening_iff strerror hkey hdir]
  rcases initRSA_cout h with ⟨hpub, hcout⟩ | ⟨⟨hpub, hpri⟩, hgen⟩
  · -- both files were there: the line of the data file comes second
    rw [hcout]
    refine iff_of_false (fun hread => ?_) (fun hread => ?_)
    · have hfst : (expects _ _).1 = true := congrArg Prod.fst hread.2
      refine Bool.false_ne_true
        ((expects_head (x := 'G') (c := 'F') (by decide) ?_ ?_ _).symm.trans hfst)
      · simp
      · simp [written, notFoundLine, Piece.str]
    · rw [hread.1.2.1] at hpub
      cases hpub
  · rcases hgen with ⟨hcout, hclean⟩ | ⟨hclean, msg, hmsg, hcout⟩
    · rw [hcout, generating_iff strerror hkey, notFound_iff strerror hdir]
      constructor
      · intro hread
        obtain ⟨hfirst, hending, hrest⟩ := hread
        exact ⟨⟨⟨hfirst, hkey, hdir, hending⟩, hpub, hpri, hclean⟩, hrest⟩
      · intro hread
        exact ⟨hread.1.1.first, hread.1.1.ending, hread.2⟩
    · -- the line of the call that failed comes third
      rw [hcout, written_append, List.append_assoc, generating_iff strerror hkey]
      refine iff_of_false (fun hread => ?_) (fun hread => hclean hread.1.2.2.2)
      have hfst : (expects _ _).1 = true := congrArg Prod.fst hread.2
      refine Bool.false_ne_true
        ((expects_head (x := 'F') (c := 'E') (by decide) ?_ ?_ _).symm.trans hfst)
      · simp
      · simp [written, Piece.str, hmsg]

/-! ## 4. The session -/

/-- Every call of `create_server_socket` succeeds. -/
def ListenCalls.clean (c : ListenCalls) : Bool :=
  c.socket.isOk && c.setsockopt.isOk && c.bind.isOk && c.listen.isOk

/-- A listening socket that could be made is silent; and what another prints begins as no line of a
    connection does. -/
theorem createServerSocket_cout (port : Nat) (c : ListenCalls) :
    let cout := (createServerSocket port c).ret.cout
    (c.clean = true ∧ cout = []) ∨
      c.clean = false ∧
        ∃ msg x ps, cout = .text msg :: ps ∧ msg.toList.head? = some x ∧ x ≠ 'W' := by
  obtain ⟨socket, setsockopt, bind, listen⟩ := c
  cases socket with
  | error e => exact .inr ⟨rfl, _, 'E', _, rfl, rfl, by decide⟩
  | ok sd =>
      cases setsockopt with
      | error e => exact .inr ⟨rfl, _, 's', _, rfl, rfl, by decide⟩
      | ok u =>
          cases bind with
          | error e => exact .inr ⟨rfl, _, 'E', _, rfl, rfl, by decide⟩
          | ok u =>
              cases listen with
              | error e => exact .inr ⟨rfl, _, 'E', _, rfl, rfl, by decide⟩
              | ok u => exact .inl ⟨rfl, rfl⟩

/-- A session is its start, and the readings behind it. -/
theorem session_split {d : ServerConfig} {n : Nat} {out rest : List Char} :
    session d n out = (true, rest) ↔
      ∃ mid, expects d.startLines out = (true, mid) ∧ afters n mid = (true, rest) := by
  rw [session, Prod.ext_iff, Bool.and_eq_true_iff]
  constructor
  · intro ⟨⟨hstarted, hserved⟩, hrest⟩
    exact ⟨_, Prod.ext hstarted rfl, Prod.ext hserved hrest⟩
  · intro ⟨mid, hstarted, hserved⟩
    rw [hstarted]
    exact ⟨⟨rfl, congrArg Prod.fst hserved⟩, congrArg Prod.snd hserved⟩

/-- The configuration of the scripts. -/
def scriptServer : ServerConfig :=
  { exe := "./obj64/server.exe", port := "9999", keyfile := "rsa", dirfile := "company.dir" }

theorem scriptServer_shown : scriptServer.Shown where
  first := by
    have hatoi : atoi scriptServer.port = 9999 := atoi_toString (n := 9999) (by omega) (by omega)
    refine (first_iff (by decide)).mpr ⟨?_, rfl⟩
    rw [hatoi]
    rfl
  keyfile := by decide
  dirfile := by decide
  ending := ⟨"company.di".toList, 'r', by decide, rfl⟩

end Cse303
