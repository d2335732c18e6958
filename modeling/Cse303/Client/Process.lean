/-
  File:      Cse303/Client/Process.lean
  Subject:   THE CLIENT AS A PROCESS: `main` over `file_exists`, `connect_to_server` and `load_pub`.

  Client/Main.lean leaves open what the calls of `main` answer. Here they are what their code makes
  of the files, of the network, and of the calls that fail; the files may change between the look
  for the key file and its load.

  * **`clientProcess_exit`** -- how the process ends, for every command line and everything around
    it: it is the key file that decides, and the command line; the network does not;
  * **`clientProcess_held`** -- its sockets and its key, over any of its runs: none is closed twice,
    and none is left open by a run that ends with an exit code.
-/
import Cse303.Client.Main
import Cse303.Common.File
import Cse303.Net.Handles

namespace Cse303

variable {K : Type}

/-! ## 1. The process -/

/-- What is around one run of the client. -/
structure ClientCalls (K : Type) where
  /-- `PEM_read_RSAPublicKey` -/
  readPub : List UInt8 → Option K
  /-- the files when `file_exists` looks, and when `load_pub` opens -/
  seen : Fs
  loaded : Fs
  opens : Bool
  reads : Bool
  /-- the two connections -/
  keyConn : ConnectCalls
  conn : ConnectCalls

namespace ClientCalls

def keyRun (c : ClientCalls K) (args : ArgT) : NetRun :=
  connectToServer args.server args.port c.keyConn

def run (c : ClientCalls K) (args : ArgT) : NetRun := connectToServer args.server args.port c.conn

def pubkey (c : ClientCalls K) (args : ArgT) : Option K :=
  (loadPub c.readPub c.opens c.reads args.keyfile c.loaded).val

/-- What the calls of `main` answer. -/
def world (c : ClientCalls K) (args : ArgT) : World K where
  keyfileThere := fileExists args.keyfile c.seen
  keySd := (c.keyRun args).ret.val
  pubkey := c.pubkey args
  sd := (c.run args).ret.val

end ClientCalls

/-- One run of the client. Where the constructor throws, nothing of the world is asked for. -/
def clientProcess (c : ClientCalls K) (argv0 : String) (opts : List Opt) : Client K :=
  clientMain (c.world (({} : ArgT).lasts opts)) argv0 opts

/-! ## 2. How it ends -/

theorem exit_notImplemented_eq (name : String) (asserts : List Bool) :
    (notImplemented name asserts : Client K).exit =
      if asserts.all id = true then none else some .abort := by
  unfold notImplemented
  cases asserts.all id <;> rfl

/-- What a request asserts. -/
structure Asserted (r : Req) (sd : Int) (pubkey : Option K) (user pass arg1 : String) : Prop where
  sd : sd ≠ 0
  pubkey : pubkey ≠ none
  user : user ≠ ""
  pass : pass ≠ ""
  arg1 : r.takesArg = true → arg1 ≠ ""

/-- A request returns if all it asserts holds, and otherwise aborts. -/
theorem exit_body (r : Req) (sd : Int) (pubkey : Option K) (user pass arg1 arg2 : String) :
    (Asserted r sd pubkey user pass arg1 →
      (r.fn.body sd pubkey user pass arg1 arg2).exit = none) ∧
      (¬ Asserted r sd pubkey user pass arg1 →
        (r.fn.body sd pubkey user pass arg1 arg2).exit = some .abort) := by
  have hiff (asserts : List Bool) (name : String)
      (h : asserts.all id = true ↔ Asserted r sd pubkey user pass arg1) :
      (Asserted r sd pubkey user pass arg1 →
        (notImplemented name asserts : Client K).exit = none) ∧
        (¬ Asserted r sd pubkey user pass arg1 →
          (notImplemented name asserts : Client K).exit = some .abort) := by
    rw [exit_notImplemented_eq]
    exact ⟨fun ha => if_pos (h.mpr ha), fun ha => if_neg fun hall => ha (h.mp hall)⟩
  have hall : (sd ≠ 0 ∧ pubkey ≠ none ∧ user ≠ "" ∧ pass ≠ "" ∧
      (r.takesArg = true → arg1 ≠ "")) ↔ Asserted r sd pubkey user pass arg1 :=
    ⟨fun h => ⟨h.1, h.2.1, h.2.2.1, h.2.2.2.1, h.2.2.2.2⟩,
      fun h => ⟨h.sd, h.pubkey, h.user, h.pass, h.arg1⟩⟩
  cases r <;> refine hiff _ _ (Iff.trans ?_ hall) <;>
    simp [Req.takesArg, Nat.pos_iff_ne_zero, Option.isSome_iff_ne_none]

/-- `main` behind the `try`, in its four parts. -/
theorem runArgs_eq (w : World K) {args : ArgT} {r : Req} (h : args.command = r.text) :
    runArgs w args =
      (Proc.emit [.fileExists args.keyfile]).andThen
        ((if w.keyfileThere then .skip else fetchKey w args).andThen
          ((Proc.emit [.loadPub args.keyfile, .connectToServer args.server args.port]).andThen
            ((callReq args w.sd w.pubkey r.fn).andThen
              ⟨[.close w.sd, .rsaFree w.pubkey], some (.code 0)⟩))) := by
  have hmem : (r.text, r.fn) ∈ cmd.zip func := by cases r <;> decide
  unfold runArgs
  rw [dispatch_eq w.sd w.pubkey (by decide) hmem h]
  rfl

/-- What decides over a run that was asked for a request: the key can be fetched as far as that
    goes, or is there; and the request finds what it asserts. -/
structure World.Completes (w : World K) (args : ArgT) (r : Req) : Prop where
  fetched : w.keyfileThere = true ∨ w.keySd ≠ 0 ∧ args.keyfile ≠ ""
  asserted : Asserted r w.sd w.pubkey args.username args.userpass args.arg1

/-- A call through `func` ends as its body does. -/
theorem exit_callReq (args : ArgT) (sd : Int) (pubkey : Option K) (r : Req) :
    (callReq args sd pubkey r.fn).exit =
      (r.fn.body sd pubkey args.username args.userpass args.arg1 args.arg2).exit := by
  unfold callReq
  rw [Proc.seq, Proc.seq, Proc.seq, Proc.andThen_skip]
  rfl

/-- Where fetching the key ends the process, an assertion does. -/
theorem fetchKey_abort {w : World K} {args : ArgT} (h : (fetchKey w args).exit ≠ none) :
    (fetchKey w args).exit = some .abort := by
  have hbody : (reqKey w.keySd args.keyfile : Client K).exit = some .abort := by
    have hno : (reqKey w.keySd args.keyfile : Client K).exit ≠ none :=
      fun hgo => h ((exit_fetchKey w args).mpr ((exit_reqKey _ _).mp hgo))
    rw [reqKey, exit_notImplemented_eq] at hno ⊢
    exact if_neg fun hall => hno (if_pos hall)
  unfold fetchKey
  simp only [Proc.seq]
  rw [Proc.exit_behind rfl, Proc.exit_behind rfl, Proc.andThen_some hbody, hbody]

/-- Fetching the key is the only way for `main` to end before it looks for the request. -/
theorem exit_fetched (w : World K) (args : ArgT) :
    (w.keyfileThere = true ∨ w.keySd ≠ 0 ∧ args.keyfile ≠ "" →
      (if w.keyfileThere then .skip else fetchKey w args : Client K).exit = none) ∧
      (¬ (w.keyfileThere = true ∨ w.keySd ≠ 0 ∧ args.keyfile ≠ "") →
        (if w.keyfileThere then .skip else fetchKey w args : Client K).exit = some .abort) := by
  cases w.keyfileThere with
  | true => exact ⟨fun _ => rfl, fun h => absurd (.inl rfl) h⟩
  | false =>
      have hiff := exit_fetchKey w args
      exact ⟨fun h => hiff.mpr (h.resolve_left Bool.false_ne_true),
        fun h => fetchKey_abort fun hgo => h (.inr (hiff.mp hgo))⟩

/-- **How `main` ends** that was asked for a request. -/
theorem exit_runArgs (w : World K) {args : ArgT} {r : Req} (h : args.command = r.text) :
    (w.Completes args r → (runArgs w args).exit = some (.code 0)) ∧
      (¬ w.Completes args r → (runArgs w args).exit = some .abort) := by
  obtain ⟨hgo, hstop⟩ := exit_fetched w args
  obtain ⟨hreturns, haborts⟩ := exit_body r w.sd w.pubkey args.username args.userpass args.arg1
    args.arg2
  rw [← exit_callReq] at hreturns haborts
  rw [runArgs_eq w h, Proc.exit_behind rfl]
  by_cases hf : w.keyfileThere = true ∨ w.keySd ≠ 0 ∧ args.keyfile ≠ ""
  · rw [Proc.exit_behind (hgo hf), Proc.exit_behind rfl]
    by_cases ha : Asserted r w.sd w.pubkey args.username args.userpass args.arg1
    · rw [Proc.exit_behind (hreturns ha)]
      exact ⟨fun _ => rfl, fun hno => absurd ⟨hf, ha⟩ hno⟩
    · rw [Proc.andThen_some (haborts ha), haborts ha]
      exact ⟨fun hc => absurd hc.asserted ha, fun _ => rfl⟩
  · rw [Proc.andThen_some (hstop hf), hstop hf]
    exact ⟨fun hc => absurd hc.fetched hf, fun _ => rfl⟩

/-- The help text only ends the process by a read past the table. -/
theorem usage_wild {table : List (String × String)} {progname : String} {x : Exit}
    (h : (usage table progname : Client K).exit = some x) : x = .wild := by
  obtain ⟨p, hp, hexit, -⟩ := Proc.exit_seq_some h
  rcases mem_usageParts hp with ⟨ps, rfl⟩ | ⟨title, lo, hi, -, rfl⟩
  · cases hexit
  obtain ⟨q, hq, hexit, -⟩ := Proc.exit_seq_some hexit
  simp only [List.mem_cons, List.not_mem_nil, or_false] at hq
  rcases hq with rfl | rfl | rfl
  · cases hexit
  · obtain ⟨row, hrow, hexit, -⟩ := Proc.exit_seq_some hexit
    obtain ⟨j, -, rfl⟩ := List.mem_map.mp hrow
    obtain ⟨part, hpart, hexit, -⟩ := Proc.exit_seq_some hexit
    simp only [List.mem_cons, List.not_mem_nil, or_false] at hpart
    rcases hpart with rfl | rfl
    · cases hexit
    · cases hget : table[j]? with
      | none =>
          rw [hget] at hexit
          exact (Option.some.inj hexit).symm
      | some row =>
          rw [hget] at hexit
          cases hexit
  · cases hexit

/-- A client that was asked for nothing reads past its table. -/
theorem exit_rejected (w : World K) (argv0 : String) {opts : List Opt}
    (h : ∀ r, ¬ Asks opts r) : (clientMain w argv0 opts).exit = some .wild := by
  rw [clientMain_rejected w argv0 h]
  cases hexit : (usage commands argv0 : Client K).exit with
  | none => exact absurd (usage_exit.mp hexit) (by decide)
  | some x =>
      rw [Proc.andThen_some hexit, hexit]
      exact congrArg some (usage_wild hexit)

/-- The descriptor 0 is the terminal's: `socket` does not return it. -/
structure ClientCalls.NotZero (c : ClientCalls K) : Prop where
  keyConn : c.keyConn.socket ≠ .ok 0
  conn : c.conn.socket ≠ .ok 0

/-- A connection that failed is -1, and that is not 0. -/
theorem connectToServer_ne_zero {hostname : String} {port : Int} {c : ConnectCalls}
    (h : c.socket ≠ .ok 0) : (connectToServer hostname port c).ret.val ≠ 0 := by
  cases connectToServer_makes hostname port c with
  | @returned sd hm hret _ =>
      intro h0
      have hsd : sd = 0 := by omega
      exact h (hsd ▸ hm)
  | dropped _ hret _ => omega
  | none hret _ => omega

/-- **HOW THE CLIENT ENDS**, for every command line and everything around it: with the code 0 if it
    was asked for a request, was given the names of a user, of a key file, and a password, and the
    key was read; and otherwise, if it was asked for a request, by an assertion; and if not, by a
    read past its table. So it never ends with the code 1, and whether it could connect makes no
    difference. -/
theorem clientProcess_exit (c : ClientCalls K) (hc : c.NotZero) (argv0 : String)
    (opts : List Opt) :
    let args := ({} : ArgT).lasts opts
    let done := (fileExists args.keyfile c.seen = true ∨ args.keyfile ≠ "") ∧
      c.pubkey args ≠ none ∧ args.username ≠ "" ∧ args.userpass ≠ ""
    ((∃ r, Asks opts r) → done → (clientProcess c argv0 opts).exit = some (.code 0)) ∧
      ((∃ r, Asks opts r) → ¬ done → (clientProcess c argv0 opts).exit = some .abort) ∧
      ((∀ r, ¬ Asks opts r) → (clientProcess c argv0 opts).exit = some .wild) := by
  intro args done
  have hrun {r : Req} (h : Asks opts r) :
      clientProcess c argv0 opts = runArgs (c.world args) args := by
    unfold clientProcess clientMain
    rw [(argT_iff opts args).mpr ⟨⟨r, h⟩, rfl⟩]
  have hiff {r : Req} (h : Asks opts r) : (c.world args).Completes args r ↔ done := by
    constructor
    · rintro ⟨hf, ha⟩
      exact ⟨hf.imp id And.right, ha.pubkey, ha.user, ha.pass⟩
    · rintro ⟨hf, hkey, huser, hpass⟩
      exact ⟨hf.imp id fun hname => ⟨connectToServer_ne_zero hc.keyConn, hname⟩,
        connectToServer_ne_zero hc.conn, hkey, huser, hpass, h.arg1.mpr⟩
  refine ⟨fun ⟨r, hr⟩ hd => ?_, fun ⟨r, hr⟩ hd => ?_, fun hno => exit_rejected _ argv0 hno⟩
  · rw [hrun hr]
    exact (exit_runArgs _ hr.command).1 ((hiff hr).mpr hd)
  · rw [hrun hr]
    exact (exit_runArgs _ hr.command).2 fun hcomp => hd ((hiff hr).mp hcomp)

/-- A client that cannot resolve its server, with a key file of one byte. -/
def unresolved : ClientCalls UInt8 where
  readPub text := text.head?
  seen _ := some [7]
  loaded _ := some [7]
  opens := true
  reads := true
  keyConn := ⟨.error .hostNotFound, .ok 3, .ok (), .ok ()⟩
  conn := ⟨.error .hostNotFound, .ok 3, .ok (), .ok ()⟩

/-- The statement for such a client that registers a user: it ends with the code 0. -/
theorem clientProcess_exit_unresolved :
    (clientProcess unresolved "client" [⟨'k', "key"⟩, ⟨'u', "alice"⟩, ⟨'w', "pw"⟩,
      ⟨'C', "REGISTER"⟩]).exit = some (.code 0) :=
  (clientProcess_exit unresolved ⟨by decide, by decide⟩ "client" _).1
    ⟨.reg, by decide, by decide, by decide, by decide⟩ (by decide)

/-! ## 3. What it opens and closes -/

/-- What the events of the process do to its handles, where `rs` are its connections in order and
    `pubkey` is what it loads. -/
def handleUses (pubkey : Option K) : List NetRun → List (Event K) → List (Use Handle)
  | r :: rs, .connectToServer _ _ :: es => r.handleUses ++ handleUses pubkey rs es
  | rs, .close sd :: es => closeUses sd ++ handleUses pubkey rs es
  | rs, .loadPub _ :: es => loadUses pubkey ++ handleUses pubkey rs es
  | rs, .rsaFree k :: es => freeUses k ++ handleUses pubkey rs es
  | rs, _ :: es => handleUses pubkey rs es
  | _, [] => []

/-- The connections that one run makes. -/
def ClientCalls.runs (c : ClientCalls K) (args : ArgT) : List NetRun :=
  if fileExists args.keyfile c.seen then [c.run args] else [c.keyRun args, c.run args]

/-- Events that use no handle. -/
def Event.idle : Event K → Bool
  | .connectToServer .. | .close _ | .loadPub _ | .rsaFree _ => false
  | _ => true

theorem handleUses_idle (pubkey : Option K) (rs : List NetRun) {es : List (Event K)}
    (h : ∀ e ∈ es, e.idle = true) (es' : List (Event K)) :
    handleUses pubkey rs (es ++ es') = handleUses pubkey rs es' := by
  induction es with
  | nil => rfl
  | cons e es ih =>
      obtain ⟨he, hes⟩ := List.forall_mem_cons.mp h
      rw [List.cons_append, ← ih hes]
      cases e with
      | connectToServer _ _ => cases he
      | close _ => cases he
      | loadPub _ => cases he
      | rsaFree _ => cases he
      | _ => cases rs <;> rfl

@[simp] theorem handleUses_nil (pubkey : Option K) (rs : List NetRun) :
    handleUses pubkey rs [] = [] := by
  cases rs <;> rfl

@[simp] theorem handleUses_close (pubkey : Option K) (rs : List NetRun) (sd : Int)
    (es : List (Event K)) :
    handleUses pubkey rs (.close sd :: es) = closeUses sd ++ handleUses pubkey rs es := by
  cases rs <;> rfl

/-- The functions of requests.cc use no handle, -/
theorem idle_notImplemented (name : String) (asserts : List Bool) :
    ∀ e ∈ (notImplemented name asserts : Client K).events, e.idle = true := by
  intro e he
  obtain ⟨p, hp, he⟩ := Proc.mem_seq he
  simp only [List.mem_cons, List.not_mem_nil, or_false] at hp
  rcases hp with rfl | rfl
  · obtain ⟨piece, rfl⟩ := mem_print he
    rfl
  · split at he <;> cases he

/-- nor does a call of one. -/
theorem idle_callReq (args : ArgT) (sd : Int) (pubkey : Option K) (f : ReqFn) :
    ∀ e ∈ (callReq args sd pubkey f).events, e.idle = true := by
  intro e he
  obtain ⟨p, hp, he⟩ := Proc.mem_seq he
  simp only [List.mem_cons, List.not_mem_nil, or_false] at hp
  rcases hp with rfl | rfl
  · rw [List.mem_singleton.mp he]
    rfl
  · cases f <;> exact idle_notImplemented _ _ e he

/-- The key and the connection of the request, as `main` opens them. -/
theorem held_opens {made : Answer Nat} {run : NetRun} (hrun : MakesOne made run) (args : ArgT)
    (pubkey : Option K) (r : Req) {s : Finset Handle} (hrsa : .rsa ∉ s)
    (hfresh : ∀ sd, made = .ok sd → .sd sd ∉ s) :
    ∃ t, s ⊆ t ∧ (∀ us, Use.held t (closeUses run.ret.val ++ (freeUses pubkey ++ us)) =
        Use.held s us) ∧
      ∀ es, Use.held s (handleUses pubkey [run]
        ([.loadPub args.keyfile, .connectToServer args.server args.port] ++
          ((callReq args run.ret.val pubkey r.fn).events ++ es))) =
        Use.held t (handleUses pubkey [] es) := by
  obtain ⟨t₁, hload, hsub₁, hfresh₁, hfree⟩ := held_load pubkey hrsa
  obtain ⟨t₂, hconn, hsub₂, hclose⟩ := held_close hrun fun sd hm =>
    hfresh₁ (.sd sd) Handle.noConfusion (hfresh sd hm)
  refine ⟨t₂, hsub₁.trans hsub₂, fun us => (hclose _).trans (hfree us), fun es => ?_⟩
  have hidle := idle_callReq args run.ret.val pubkey r.fn
  show Use.held s (loadUses pubkey ++ (run.handleUses ++
    handleUses pubkey [] ((callReq args run.ret.val pubkey r.fn).events ++ es))) = _
  rw [Use.held_append hload, Use.held_append hconn, handleUses_idle pubkey [] hidle]

/-- **From the load of the key on**: the key and the connection are open until `main` returns. -/
theorem held_request {made : Answer Nat} {run : NetRun} (hrun : MakesOne made run) (args : ArgT)
    (pubkey : Option K) (r : Req) {s : Finset Handle} (hrsa : .rsa ∉ s)
    (hfresh : ∀ sd, made = .ok sd → .sd sd ∉ s) :
    let p := (Proc.emit [.loadPub args.keyfile, .connectToServer args.server args.port]).andThen
      ((callReq args run.ret.val pubkey r.fn).andThen
        ⟨[.close run.ret.val, .rsaFree pubkey], some (.code 0)⟩)
    ∃ t, Use.held s (handleUses pubkey [run] p.events) = some t ∧ s ⊆ t ∧
      (p.exit = some (.code 0) → t = s) := by
  intro p
  obtain ⟨t, hsub, hback, hopen⟩ := held_opens hrun args pubkey r hrsa hfresh
  obtain ⟨hreturns, haborts⟩ := exit_body r run.ret.val pubkey args.username args.userpass
    args.arg1 args.arg2
  rw [← exit_callReq] at hreturns haborts
  by_cases ha : Asserted r run.ret.val pubkey args.username args.userpass args.arg1
  · have hevents : p.events = [.loadPub args.keyfile, .connectToServer args.server args.port] ++
        ((callReq args run.ret.val pubkey r.fn).events ++
          [.close run.ret.val, .rsaFree pubkey]) := by
      rw [Proc.events_andThen, Proc.andThen_none (hreturns ha)]
      rfl
    refine ⟨s, ?_, subset_rfl, fun _ => rfl⟩
    rw [hevents, hopen]
    exact (hback []).trans (Use.held_nil s)
  · have hp : p = (Proc.emit _).andThen (callReq args run.ret.val pubkey r.fn) :=
      congrArg (Proc.emit _).andThen (Proc.andThen_some (haborts ha) _)
    refine ⟨t, ?_, hsub, fun hcode => ?_⟩
    · have hlast := hopen []
      rw [List.append_nil] at hlast
      rw [hp, Proc.events_andThen]
      exact hlast.trans (Use.held_nil t)
    · rw [hp, Proc.exit_behind rfl, haborts ha] at hcode
      cases hcode

/-- **The key from the server**: its connection is closed again, if the fetch comes to its end. -/
theorem held_fetch {made : Answer Nat} {keyRun : NetRun} (hrun : MakesOne made keyRun) (w : World K)
    (hsd : w.keySd = keyRun.ret.val) (args : ArgT) (pubkey : Option K) (rs : List NetRun)
    {s : Finset Handle} (hfresh : ∀ sd, made = .ok sd → .sd sd ∉ s) :
    ((fetchKey w args).exit = none → ∀ es,
        Use.held s (handleUses pubkey (keyRun :: rs) ((fetchKey w args).events ++ es)) =
          Use.held s (handleUses pubkey rs es)) ∧
      ((fetchKey w args).exit ≠ none → ∃ t,
        Use.held s (handleUses pubkey (keyRun :: rs) (fetchKey w args).events) = some t ∧
          s ⊆ t) := by
  obtain ⟨t, hconn, hsub, hclose⟩ := held_close hrun hfresh
  have hidle : ∀ e ∈ Event.reqKey w.keySd args.keyfile :: (reqKey w.keySd args.keyfile).events,
      Event.idle (K := K) e = true :=
    List.forall_mem_cons.mpr ⟨rfl, idle_notImplemented _ _⟩
  have hfetch : fetchKey w args = (Proc.emit [.connectToServer args.server args.port,
      .reqKey w.keySd args.keyfile]).andThen
        ((reqKey w.keySd args.keyfile).andThen (.emit [.close w.keySd])) := rfl
  have hopen (es : List (Event K)) :
      Use.held s (handleUses pubkey (keyRun :: rs) (.connectToServer args.server args.port ::
        (.reqKey w.keySd args.keyfile :: (reqKey w.keySd args.keyfile).events ++ es))) =
        Use.held t (handleUses pubkey rs es) := by
    show Use.held s (keyRun.handleUses ++ handleUses pubkey rs _) = _
    rw [Use.held_append hconn, handleUses_idle pubkey rs hidle]
  rw [Ne, exit_fetchKey, ← exit_reqKey (K := K), hfetch]
  constructor
  · intro hexit es
    rw [Proc.andThen_none hexit]
    calc Use.held s (handleUses pubkey (keyRun :: rs) ([.connectToServer args.server args.port,
          .reqKey w.keySd args.keyfile] ++ ((reqKey w.keySd args.keyfile).events ++
            [.close w.keySd]) ++ es))
        = Use.held t (handleUses pubkey rs (.close w.keySd :: es)) := by
          rw [List.append_assoc, List.append_assoc]
          exact hopen (.close w.keySd :: es)
      _ = Use.held s (handleUses pubkey rs es) := by
          rw [handleUses_close, hsd, hclose]
  · intro hexit
    obtain ⟨x, hx⟩ := Option.ne_none_iff_exists'.mp hexit
    have hlast := hopen []
    rw [List.append_nil, handleUses_nil, Use.held_nil] at hlast
    rw [Proc.andThen_some hx]
    exact ⟨t, hlast, hsub⟩

/-- A client that is asked for nothing opens nothing. -/
theorem idle_rejected (w : World K) (argv0 : String) {opts : List Opt} (h : ∀ r, ¬ Asks opts r) :
    ∀ e ∈ (clientMain w argv0 opts).events, e.idle = true := by
  rw [clientMain_rejected w argv0 h, Proc.events_andThen]
  intro e he
  rcases List.mem_append.mp he with he | he
  · rcases mem_usage he with ⟨j, -, rfl⟩ | ⟨piece, rfl⟩ <;> rfl
  · split at he <;> cases he

/-- **THE HANDLES OF A CLIENT**, for every command line and everything around it, from what is open
    when it starts: no socket and no key is closed that is not open, or twice; and a run that ends
    with the code 0 leaves nothing open. -/
theorem clientProcess_held (c : ClientCalls K) (argv0 : String) (opts : List Opt)
    {s : Finset Handle} (hrsa : .rsa ∉ s) (hkey : ∀ sd, c.keyConn.socket = .ok sd → .sd sd ∉ s)
    (hconn : ∀ sd, c.conn.socket = .ok sd → .sd sd ∉ s) :
    let args := ({} : ArgT).lasts opts
    let p := clientProcess c argv0 opts
    ∃ t, Use.held s (handleUses (c.pubkey args) (c.runs args) p.events) = some t ∧ s ⊆ t ∧
      (p.exit = some (.code 0) → t = s) := by
  intro args p
  by_cases hasks : ∃ r, Asks opts r
  · obtain ⟨r, hr⟩ := hasks
    have hp : p = runArgs (c.world args) args := by
      show clientMain (c.world args) argv0 opts = _
      unfold clientMain
      rw [(argT_iff opts args).mpr ⟨⟨r, hr⟩, rfl⟩]
    have hrequest := held_request (connectToServer_makes args.server args.port c.conn) args
      (c.pubkey args) r hrsa hconn
    have hfetch := held_fetch (connectToServer_makes args.server args.port c.keyConn)
      (c.world args) rfl args (c.pubkey args) [c.run args] hkey
    rw [hp, runArgs_eq _ hr.command, Proc.events_andThen, Proc.exit_behind rfl]
    show ∃ t, Use.held s (handleUses _ _ (.fileExists args.keyfile :: _)) = some t ∧ _
    unfold ClientCalls.runs
    cases hthere : fileExists args.keyfile c.seen with
    | true =>
        have hw : (c.world args).keyfileThere = true := hthere
        simp only [hw, if_true, Proc.skip_andThen]
        exact hrequest
    | false =>
        have hw : (c.world args).keyfileThere = false := hthere
        simp only [hw, Bool.false_eq_true, if_false]
        cases hexit : (fetchKey (c.world args) args).exit with
        | some x =>
            have hne : (fetchKey (c.world args) args).exit ≠ none := by
              rw [hexit]
              exact (nomatch ·)
            obtain ⟨t, ht, hsub⟩ := hfetch.2 hne
            rw [Proc.andThen_some hexit]
            refine ⟨t, ht, hsub, fun hcode => ?_⟩
            rw [fetchKey_abort hne] at hcode
            cases hcode
        | none =>
            rw [Proc.andThen_none hexit]
            obtain ⟨t, ht, hsub⟩ := hrequest
            exact ⟨t, (hfetch.1 hexit _).trans ht, hsub⟩
  · rw [not_exists] at hasks
    refine ⟨s, ?_, subset_rfl, fun _ => rfl⟩
    have hidle : ∀ e ∈ p.events, e.idle = true := idle_rejected (c.world args) argv0 hasks
    have hnone := handleUses_idle (c.pubkey args) (c.runs args) hidle []
    rw [List.append_nil, handleUses_nil] at hnone
    rw [hnone, Use.held_nil]

/-- The statement for a client that has its key and can connect, with a socket that its first
    connection would have had as well. -/
theorem clientProcess_held_connected :
    let c : ClientCalls UInt8 :=
      { unresolved with conn := ⟨.ok ⟨127, 0, 0, 1⟩, .ok 3, .ok (), .ok ()⟩ }
    let opts : List Opt := [⟨'k', "key"⟩, ⟨'u', "alice"⟩, ⟨'w', "pw"⟩, ⟨'C', "REGISTER"⟩]
    let args := ({} : ArgT).lasts opts
    let p := clientProcess c "client" opts
    ∃ t, Use.held ∅ (handleUses (c.pubkey args) (c.runs args) p.events) = some t ∧ ∅ ⊆ t ∧
      (p.exit = some (.code 0) → t = ∅) := by
  intro c opts
  exact clientProcess_held c "client" opts (Finset.notMem_empty _)
    (fun _ _ => Finset.notMem_empty _) (fun _ _ => Finset.notMem_empty _)

end Cse303
