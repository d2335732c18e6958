/-
  File:      Cse303/Server/Main.lean
  Subject:   `main` OF THE SERVER (server.cc), one start of it.

  What `main` does is kept in order: what goes to `cout`, the storage it makes, and the point where
  it hands a listening socket, a private key and the bytes of the public key file to the pool. The
  files are what the starts leave (KeyFiles.lean), every library call may fail, and the storage is
  the one of my_storage.cc, that loads nothing yet. The pool's threads run `parse_request`.

  * `load_calls` -- the load of a file that nobody else touches;
  * `phaseEnd`, **`serverMain_eq`** -- `main` in terms of the phases of the key files: how it ends,
    and what is served.
-/
import Cse303.Common.File
import Cse303.Common.KeyBootstrap
import Cse303.Client.Main
import Cse303.Net.Connect
import Cse303.Server.Args

namespace Cse303

open CInt

variable {K : Type}

/-! ## 1. The storage, and a request -/

/-- `result_t`, without its data. -/
structure StorageResult where
  succeeded : Bool
  msg : String
  deriving DecidableEq, Repr

/-- `RES_ERR_UNIMPLEMENTED`. -/
def resErrUnimplemented : String := "ERR_UNIMPLEMENTED"

/-- `MyStorage::load_file`; `opened` is false for an `fopen` that fails. -/
def storageLoadFile (filename : String) (opened : Bool) : Ret StorageResult :=
  if opened then
    ⟨⟨false, resErrUnimplemented⟩, [.text "my_storage.cc::load_file() is not implemented\n"]⟩
  else .quiet ⟨true, "File not found: " ++ filename⟩

/-- `parse_request`; none for an assertion that fails, which ends the process. -/
def parseRequest (sd : Int) (pri : Option K) (pub : Vec) (storage : Bool) : Ret (Option Bool) :=
  ⟨if [pri.isSome, storage, 0 < pub.size, sd != 0].all id then some false else none,
    [.text "parsing.cc::parse_request() is not implemented\n"]⟩

/-! ## 2. `main` -/

/-- What the process does. -/
inductive ServerEvent (K : Type) where
  | cout (p : Piece)
  | storageFactory (fname : String) (buckets upq dnq rqq qd top : Nat) (admin : String)
  /-- the `fopen` of `MyStorage::load_file`, that nothing closes -/
  | openData (fname : String)
  /-- `pool_factory` and `accept_client`: the socket, the threads, and what the handler captures -/
  | serve (sd : Int) (threads : Int) (pri : K) (pub : Vec)
  | awaitShutdown
  | close (sd : Int)
  | rsaFree (pri : K)
  deriving DecidableEq

abbrev ServerProc (K : Type) := Proc (ServerEvent K) Exit

/-- `cout << ..`. -/
def serverPrint (ps : List Piece) : ServerProc K := .emit (ps.map .cout)

/-- How the calls of one `load_entire_file` fail, if they do. -/
structure LoadFails where
  stat : Bool
  fopen : Bool
  read : Option Nat
  deriving DecidableEq

/-- The `st_size` of a content. -/
def sizeOf? (text : List UInt8) : Option OffT :=
  if h : text.length < 9223372036854775808 then some ⟨text.length, h⟩ else none

/-- What the calls answer, of a file that nobody else touches meanwhile. -/
def LoadFails.calls (l : LoadFails) (filename : String) (fs : Fs) : LoadCalls where
  stat := if l.stat then none else (fs filename).bind sizeOf?
  fopen := !l.fopen
  content := (fs filename).getD []
  readFails := l.read

/-- How the calls of one start come out. -/
structure ServerCalls (K : Type) where
  /-- what the memory of `port` holds before a `-p` stores to it -/
  strayPort : Int
  rsa : Calls K
  pub : LoadFails
  /-- the `fopen` of the data file -/
  dataOpens : Bool
  listen : ListenCalls
  /-- what `accept_client` returned and printed -/
  accept : Ret Bool
  /-- `await_shutdown` returns -/
  ends : Bool

/-- There is a data file, and it can be opened. -/
def ServerCalls.dataThere (c : ServerCalls K) (datafile : String) (fs : Fs) : Bool :=
  (fs datafile).isSome && c.dataOpens

/-- `usage`. -/
def serverUsage (progname : String) : ServerProc K :=
  serverPrint [.text (basename progname), .text ": company user directory server\n",
    .text "  -p [int]    Port on which to listen for incoming connections\n",
    .text "  -f [string] File for storing all data\n",
    .text "  -k [string] Basename of file for storing the server's RSA keys\n",
    .text "  -t [int]    # of threads that server should use\n",
    .text "  -b [int]    # of buckets for the server's hash tables\n",
    .text "  -i [int]    Quota interval (seconds)\n",
    .text "  -u [int]    Upload quota (MB/interval)\n",
    .text "  -d [int]    Download quota (MB/interval)\n",
    .text "  -r [int]    Request quota (requests/interval)\n",
    .text "  -o [int]    Size of the TOP key cache\n",
    .text "  -a [string] Specify name of admin user\n",
    .text "  -h          Print help (this message)\n"]

/-- From `create_server_socket` on, whose result is not looked at. -/
def serveKey (c : ServerCalls K) (args : ServerArgT) (port : Int) (pri : K) (pub : Vec) :
    ServerProc K :=
  let sock := createServerSocket (toSize port) c.listen
  .seq [serverPrint sock.ret.cout, .emit [.serve sock.ret.val args.threads pri pub],
    serverPrint c.accept.cout,
    -- without a shutdown the process stays in `await_shutdown`
    if c.ends then
      .seq [.emit [.awaitShutdown],
        serverPrint [.text "my_storage.cc::shutdown() is not implemented\n",
          .text "Server terminated\n"],
        .emit [.close sock.ret.val, .rsaFree pri], .stop (.code 0)]
    else .skip]

/-- From the load of the public key file on. -/
def loadAndServe (c : ServerCalls K) (args : ServerArgT) (port : Int) (pri : K) (fs : Fs) :
    ServerProc K :=
  let pub := (loadEntireFile (pubfile args.keyfile) (c.pub.calls (pubfile args.keyfile) fs)).ret
  let res := storageLoadFile args.datafile (c.dataThere args.datafile fs)
  .seq [serverPrint pub.cout,
    if pub.val.size = 0 then .seq [.emit [.rsaFree pri], .stop (.code 1)]
    else .seq [
      .emit (.storageFactory args.datafile args.numBuckets args.quotaUp args.quotaDown
          args.quotaReq args.quotaInterval args.topSize args.adminName ::
        if c.dataThere args.datafile fs then [.openData args.datafile] else []),
      serverPrint (res.cout ++ [.text res.val.msg, .text "\n"]),
      if res.val.succeeded = false then .seq [.emit [.rsaFree pri], .stop (.code 1)]
      else serveKey c args port pri pub.val]]

/-- `main`, behind the `try`. -/
def runServer (P : Pem K) (c : ServerCalls K) (args : ServerArgT) (fs : Fs) : ServerProc K × Fs :=
  let port := args.port.getD c.strayPort
  let pri := initRSA P c.rsa args.keyfile fs
  (.seq [
    serverPrint [.text "Listening on port ", .text (toString port), .text " using (key/data) = (",
      .text args.keyfile, .text ", ", .text args.datafile, .text ")\n"],
    serverPrint pri.1.cout,
    match pri.1.val with
    | none => .stop (.code (-1))
    | some k => loadAndServe c args port k pri.2], pri.2)

/-- `main`: what the process does, and the files behind it. -/
def serverMain (P : Pem K) (c : ServerCalls K) (argv0 : String) (opts : List Opt) (fs : Fs) :
    ServerProc K × Fs :=
  match serverArgT opts with
  | none => (.seq [serverUsage argv0, .stop (.code 1)], fs)
  | some args => runServer P c args fs

/-! ## 3. `main` in terms of phases -/

/-- What a start serves: the private key, and the bytes of the public key file. -/
def served (p : ServerProc K) : List (K × List UInt8) :=
  p.events.filterMap fun
    | .serve _ _ pri pub => some (pri, pub.bytes)
    | _ => none

theorem served_andThen (p q : ServerProc K) :
    served (p.andThen q) = served p ++ if p.exit.isNone then served q else [] := by
  unfold served
  rw [Proc.events_andThen, List.filterMap_append]
  cases p.exit <;> rfl

@[simp] theorem served_print (ps : List Piece) : served (serverPrint ps : ServerProc K) = [] := by
  refine List.filterMap_eq_nil_iff.mpr fun e he => ?_
  obtain ⟨p, -, rfl⟩ := List.mem_map.mp he
  rfl

@[simp] theorem exit_print_andThen (ps : List Piece) (q : ServerProc K) :
    ((serverPrint ps).andThen q).exit = q.exit := rfl

@[simp] theorem served_print_andThen (ps : List Piece) (q : ServerProc K) :
    served ((serverPrint ps).andThen q) = served q := by
  rw [served_andThen, served_print]
  rfl

@[simp] theorem exit_emit_andThen (es : List (ServerEvent K)) (q : ServerProc K) :
    ((Proc.emit es).andThen q).exit = q.exit := rfl

@[simp] theorem served_emit_andThen (es : List (ServerEvent K)) (q : ServerProc K) :
    served ((Proc.emit es).andThen q) = served (.emit es) ++ served q := served_andThen (.emit es) q

/-- How a start ends. -/
inductive ServerEnd (K : Type) where
  | usage
  | noKey
  | noPub
  | noData
  | serves (k : K) (pub : List UInt8)
  deriving DecidableEq, Repr

/-- The exit code; none for a process that stays. -/
def ServerEnd.exit (ends : Bool) : ServerEnd K → Option Exit
  | .usage => some (.code 1)
  | .noKey => some (.code (-1))
  | .noPub => some (.code 1)
  | .noData => some (.code 1)
  | .serves _ _ => if ends then some (.code 0) else none

/-- What is served. -/
def ServerEnd.served : ServerEnd K → List (K × List UInt8)
  | .serves k pub => [(k, pub)]
  | _ => []

/-- A public key of this text can be loaded: no call fails, and the size is neither 0 nor past the
    32 bits of the count. -/
def LoadFails.loads (l : LoadFails) (text : List UInt8) : Bool :=
  !l.stat && !l.fopen && l.read.isNone && decide (0 < text.length ∧ text.length < 4294967296)

/-- **The load of a file that is there**: its content, unless a call fails or it is too long to be
    counted. -/
theorem load_calls (l : LoadFails) {filename : String} {fs : Fs} {text : List UInt8}
    (h : fs filename = some text) :
    (loadEntireFile filename (l.calls filename fs)).ret.val.bytes =
      if l.loads text then text else [] := by
  obtain ⟨stat, fopen, read⟩ := l
  have hcalls : LoadFails.calls ⟨stat, fopen, read⟩ filename fs =
      ⟨if stat then none else sizeOf? text, !fopen, text, read⟩ := by
    simp only [LoadFails.calls, h, Option.bind_some, Option.getD_some]
  rw [hcalls]
  by_cases hfail : stat = true ∨ fopen = true ∨ read.isSome = true
  · have hno : LoadFails.loads ⟨stat, fopen, read⟩ text = false := by
      rcases hfail with rfl | rfl | hread
      · rfl
      · cases stat <;> rfl
      · cases read with
        | none => cases hread
        | some n => cases stat <;> cases fopen <;> rfl
    rw [hno, load_failed]
    · rfl
    · rcases hfail with rfl | rfl | hread
      · exact .inl rfl
      · exact .inr (.inl rfl)
      · exact .inr (.inr hread)
  · obtain ⟨rfl, rfl, rfl⟩ : stat = false ∧ fopen = false ∧ read = none := by
      simpa [not_or] using hfail
    have hloads : LoadFails.loads ⟨false, false, none⟩ text =
        decide (0 < text.length ∧ text.length < 4294967296) := rfl
    rw [hloads]
    simp only [Bool.false_eq_true, if_false, Bool.not_false, decide_eq_true_eq]
    by_cases hbig : text.length < 9223372036854775808
    · have hsize : sizeOf? text = some ⟨text.length, hbig⟩ := dif_pos hbig
      rw [hsize]
      refine (load_val filename ⟨text.length, hbig⟩ text).trans ?_
      by_cases hnil : text = []
      · subst hnil
        rfl
      · have hpos := List.length_pos_iff.mpr hnil
        simp [hpos]
    · have hsize : sizeOf? text = none := dif_neg hbig
      rw [hsize, load_failed _ (.inl rfl), if_neg (by omega)]
      rfl

/-- From the listening socket on: the key is served whether there is one or not. -/
theorem serveKey_eq (c : ServerCalls K) (args : ServerArgT) (port : Int) (pri : K) (pub : Vec) :
    (serveKey c args port pri pub).exit = (if c.ends then some (.code 0) else none) ∧
      served (serveKey c args port pri pub) = [(pri, pub.bytes)] := by
  unfold serveKey
  simp only [Proc.seq, exit_print_andThen, exit_emit_andThen, served_print_andThen,
    served_emit_andThen]
  cases c.ends <;> exact ⟨rfl, rfl⟩

theorem storageLoadFile_succeeded (filename : String) (opened : Bool) :
    (storageLoadFile filename opened).val.succeeded = !opened := by
  unfold storageLoadFile
  cases opened <;> rfl

/-- From the public key file on, where that has the content `pub`. -/
theorem loadAndServe_eq (c : ServerCalls K) (args : ServerArgT) (port : Int) (k : K) {fs : Fs}
    {pub : List UInt8} (h : fs (pubfile args.keyfile) = some pub) :
    let e : ServerEnd K :=
      if c.pub.loads pub then
        if c.dataThere args.datafile fs then .noData else .serves k pub
      else .noPub
    (loadAndServe c args port k fs).exit = e.exit c.ends ∧
      served (loadAndServe c args port k fs) = e.served := by
  intro e
  have hload := load_calls c.pub h
  have hdata := storageLoadFile_succeeded args.datafile (c.dataThere args.datafile fs)
  unfold loadAndServe
  simp only [Proc.seq, Proc.andThen_skip, exit_print_andThen, served_print_andThen]
  by_cases hloads : c.pub.loads pub = true
  · rw [if_pos hloads] at hload
    have hne : (loadEntireFile (pubfile args.keyfile)
        (c.pub.calls (pubfile args.keyfile) fs)).ret.val.size ≠ 0 := by
      have hpos : 0 < pub.length := by
        simp only [LoadFails.loads, Bool.and_eq_true, decide_eq_true_eq] at hloads
        exact hloads.2.1
      rw [Vec.size, hload]
      omega
    simp only [if_neg hne, hdata, exit_emit_andThen, served_emit_andThen, exit_print_andThen,
      served_print_andThen]
    simp only [e, if_pos hloads]
    by_cases hthere : c.dataThere args.datafile fs = true
    · simp only [hthere, Bool.not_true, if_true]
      exact ⟨rfl, rfl⟩
    · simp only [hthere, Bool.not_false, Bool.true_eq_false, Bool.false_eq_true, if_false]
      obtain ⟨hexit, hserved⟩ := serveKey_eq c args port k (loadEntireFile (pubfile args.keyfile)
        (c.pub.calls (pubfile args.keyfile) fs)).ret.val
      rw [hexit, hserved, hload]
      exact ⟨rfl, rfl⟩
  · rw [if_neg hloads] at hload
    have hzero : (loadEntireFile (pubfile args.keyfile)
        (c.pub.calls (pubfile args.keyfile) fs)).ret.val.size = 0 := by
      rw [Vec.size, hload]
      rfl
    simp only [if_pos hzero, e, if_neg hloads]
    exact ⟨rfl, rfl⟩

/-- The end of a start that looks for its keys. -/
def keyEnd (P : Pem K) (c : ServerCalls K) (dataThere : Bool) (ph : Phase K) : ServerEnd K :=
  match (ph.next P c.rsa).key c.rsa with
  | none => .noKey
  | some k =>
    let pub := (ph.next P c.rsa).pub
    if c.pub.loads pub then if dataThere then .noData else .serves k pub
    else .noPub

/-- **The end of a start**, from the phase that it finds the key files in, and from whether it finds
    a data file. -/
def phaseEnd (P : Pem K) (c : ServerCalls K) (opts : List Opt) (dataThere : Bool) (ph : Phase K) :
    ServerEnd K :=
  if ∀ o ∈ opts, o.opt ∈ serverKnown then keyEnd P c dataThere ph else .usage

/-- The phase behind a start: it looks for the keys if it comes that far. -/
def phaseBehind (P : Pem K) (c : ServerCalls K) (opts : List Opt) (ph : Phase K) : Phase K :=
  if ∀ o ∈ opts, o.opt ∈ serverKnown then ph.next P c.rsa else ph

/-- `main` behind the `try`. -/
theorem runServer_eq {P : Pem K} (hP : P.Lawful) (c : ServerCalls K) (args : ServerArgT) {fs : Fs}
    {ph : Phase K} (h : InPhase P args.keyfile fs ph) :
    let p := runServer P c args fs
    let e := keyEnd P c (c.dataThere args.datafile p.2) ph
    p.1.exit = e.exit c.ends ∧ served p.1 = e.served ∧
      InPhase P args.keyfile p.2 (ph.next P c.rsa) := by
  intro p e
  obtain ⟨hphase, hkey⟩ := initRSA_phase hP c.rsa h
  have hproc : p.1.exit = (match (ph.next P c.rsa).key c.rsa with
      | none => Proc.stop (.code (-1))
      | some k => loadAndServe c args (args.port.getD c.strayPort) k p.2 : ServerProc K).exit ∧
      served p.1 = served (match (ph.next P c.rsa).key c.rsa with
      | none => Proc.stop (.code (-1))
      | some k => loadAndServe c args (args.port.getD c.strayPort) k p.2 : ServerProc K) := by
    rw [← hkey]
    refine ⟨?_, ?_⟩
    · simp only [p, runServer, Proc.seq, Proc.andThen_skip, exit_print_andThen]
    · simp only [p, runServer, Proc.seq, Proc.andThen_skip, served_print_andThen]
  rw [hproc.1, hproc.2]
  have hphase : InPhase P args.keyfile p.2 (ph.next P c.rsa) := hphase
  show _ = (keyEnd P c (c.dataThere args.datafile p.2) ph).exit c.ends ∧
    _ = (keyEnd P c (c.dataThere args.datafile p.2) ph).served ∧ _
  unfold keyEnd
  cases hk : (ph.next P c.rsa).key c.rsa with
  | none => exact ⟨rfl, rfl, hphase⟩
  | some k =>
      obtain ⟨pub, hready⟩ := key_some hk
      rw [hready] at hphase ⊢
      obtain ⟨hexit, hserved⟩ :=
        loadAndServe_eq c args (args.port.getD c.strayPort) k hphase.1
      exact ⟨hexit, hserved, hphase⟩

/-- The base name of the key files. -/
def keyBase (opts : List Opt) : String := lastValue 'k' opts

/-- **`main` IN TERMS OF PHASES**, for every command line, every state that starts leave the key
    files in, and every pattern of failing calls: how it ends and what it serves follow from the
    phase alone, and so does the phase that it leaves. -/
theorem serverMain_eq {P : Pem K} (hP : P.Lawful) (c : ServerCalls K) (argv0 : String)
    (opts : List Opt) {fs : Fs} {ph : Phase K} (h : InPhase P (keyBase opts) fs ph) :
    let p := serverMain P c argv0 opts fs
    let e := phaseEnd P c opts (c.dataThere (lastValue 'f' opts) p.2) ph
    p.1.exit = e.exit c.ends ∧ served p.1 = e.served ∧
      InPhase P (keyBase opts) p.2 (phaseBehind P c opts ph) := by
  unfold phaseEnd phaseBehind
  by_cases hknown : ∀ o ∈ opts, o.opt ∈ serverKnown
  · have hargs := (serverArgT_iff opts _).mpr ⟨hknown, rfl⟩
    have hp : serverMain P c argv0 opts fs = runServer P c (({} : ServerArgT).lasts opts) fs := by
      rw [serverMain, hargs]
    simp only [hp, if_pos hknown]
    exact runServer_eq hP c (({} : ServerArgT).lasts opts) h
  · have hargs : serverArgT opts = none := by
      cases hargs : serverArgT opts with
      | none => rfl
      | some a => exact absurd ((serverArgT_iff opts a).mp hargs).1 hknown
    have hp : serverMain P c argv0 opts fs = (.seq [serverUsage argv0, .stop (.code 1)], fs) := by
      rw [serverMain, hargs]
    simp only [hp, if_neg hknown]
    refine ⟨rfl, ?_, h⟩
    simp only [serverUsage, Proc.seq, served_print_andThen]
    rfl

end Cse303
