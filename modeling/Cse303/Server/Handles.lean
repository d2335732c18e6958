/-
  File:      Cse303/Server/Handles.lean
  Subject:   WHAT THE SERVER'S `main` OPENS AND CLOSES, on each of its ways out.

  The private key is loaded first, and its `ContextManager` frees it on every return behind that; the
  listening socket is made late, and closed before the key is freed, since its `ContextManager` is
  destructed first. In between the storage opens the data file, and nothing closes that.

  * `loadAndServe_uses` -- with the key in hand, `main` gives it back at once, or makes the socket;
  * **`serverMain_held`** -- so a start that ends leaves open what was open before it, and the data
    file if it came to open that, wherever it ends and whatever failed; and one that stays has closed
    nothing that it did not open.
-/
import Cse303.Net.Handles
import Cse303.Server.Starts

namespace Cse303

open CInt (toSize)

variable {K : Type}

/-! ## 1. Uses -/

/-- What an event of the process does to its handles, where `sock` is its listening socket. -/
def ServerEvent.uses (sock : NetRun) : ServerEvent K → List (Use Handle)
  | .openData _ => [.opened .file]
  | .serve _ _ _ _ => sock.handleUses
  | .close sd => closeUses sd
  | .rsaFree pri => freeUses (some pri)
  | _ => []

/-- What a process does to them. -/
def ServerProc.uses (sock : NetRun) (p : ServerProc K) : List (Use Handle) :=
  p.events.flatMap (ServerEvent.uses sock)

/-- It has opened the data file. -/
def ServerProc.opensData (p : ServerProc K) : Bool :=
  p.events.any fun
    | .openData _ => true
    | _ => false

/-- The key that a start loads, and its listening socket; of a start that does not come that far
    there is none. -/
def loadedKey (P : Pem K) (c : ServerCalls K) (opts : List Opt) (fs : Fs) : Option K :=
  (serverArgT opts).bind fun args => (initRSA P c.rsa args.keyfile fs).1.val

def listenRun (c : ServerCalls K) (opts : List Opt) : NetRun :=
  createServerSocket (toSize (((serverArgT opts).bind ServerArgT.port).getD c.strayPort)) c.listen

/-- What a start does to its handles. -/
def startUses (P : Pem K) (c : ServerCalls K) (argv0 : String) (opts : List Opt) (fs : Fs) :
    List (Use Handle) :=
  loadUses (loadedKey P c opts fs) ++
    ServerProc.uses (listenRun c opts) (serverMain P c argv0 opts fs).1

section Uses

variable (sock : NetRun)

theorem uses_andThen {p : ServerProc K} (h : p.exit = none) (q : ServerProc K) :
    ServerProc.uses sock (p.andThen q) = ServerProc.uses sock p ++ ServerProc.uses sock q := by
  rw [ServerProc.uses, Proc.andThen_none h, List.flatMap_append]
  rfl

@[simp] theorem uses_print (ps : List Piece) :
    ServerProc.uses sock (serverPrint ps : ServerProc K) = [] := by
  refine List.flatMap_eq_nil_iff.mpr fun e he => ?_
  obtain ⟨p, -, rfl⟩ := List.mem_map.mp he
  rfl

@[simp] theorem uses_print_andThen (ps : List Piece) (q : ServerProc K) :
    ServerProc.uses sock ((serverPrint ps).andThen q) = ServerProc.uses sock q := by
  rw [uses_andThen sock rfl, uses_print]
  rfl

@[simp] theorem uses_emit_andThen (es : List (ServerEvent K)) (q : ServerProc K) :
    ServerProc.uses sock ((Proc.emit es).andThen q) =
      es.flatMap (ServerEvent.uses sock) ++ ServerProc.uses sock q := uses_andThen sock rfl q

theorem opensData_andThen {p : ServerProc K} (h : p.exit = none) (q : ServerProc K) :
    ServerProc.opensData (p.andThen q) = (p.opensData || q.opensData) := by
  rw [ServerProc.opensData, Proc.andThen_none h, List.any_append]
  rfl

@[simp] theorem opensData_print_andThen (ps : List Piece) (q : ServerProc K) :
    ServerProc.opensData ((serverPrint ps).andThen q) = q.opensData := by
  rw [opensData_andThen rfl]
  have hprint : (serverPrint ps : ServerProc K).opensData = false := by
    refine List.any_eq_false.mpr fun e he => ?_
    obtain ⟨p, -, rfl⟩ := List.mem_map.mp he
    exact Bool.false_ne_true
  rw [hprint, Bool.false_or]

@[simp] theorem opensData_emit_andThen (es : List (ServerEvent K)) (q : ServerProc K) :
    ServerProc.opensData ((Proc.emit es).andThen q) =
      (ServerProc.opensData (.emit es) || q.opensData) := opensData_andThen rfl q

/-- From the listening socket on: it is closed, and the key freed, once the pool is shut down. -/
theorem serveKey_uses (c : ServerCalls K) (args : ServerArgT) (port : Int) (pri : K) (pub : Vec) :
    (serveKey c args port pri pub).opensData = false ∧
    ServerProc.uses sock (serveKey c args port pri pub) = sock.handleUses ++
      if c.ends then
        closeUses (createServerSocket (toSize port) c.listen).ret.val ++ freeUses (some pri)
      else [] := by
  unfold serveKey
  simp only [Proc.seq, Proc.andThen_skip, uses_print_andThen, uses_emit_andThen,
    opensData_print_andThen, opensData_emit_andThen]
  cases c.ends with
  | true =>
      simp only [if_true, uses_emit_andThen, uses_print_andThen, opensData_print_andThen,
        opensData_emit_andThen]
      exact ⟨rfl, by simp [ServerEvent.uses, ServerProc.uses, Proc.stop]⟩
  | false => exact ⟨rfl, by simp [ServerEvent.uses, ServerProc.uses, Proc.skip]⟩

/-- **With the key in hand**: it is given back at once, or the socket is made; and the data file is
    not both opened and left behind for the socket. -/
theorem loadAndServe_uses (c : ServerCalls K) (args : ServerArgT) (port : Int) (pri : K) (fs : Fs) :
    let p := loadAndServe c args port pri fs
    (p.exit = some (.code 1) ∧ ServerProc.uses sock p =
        (if p.opensData then [.opened .file] else []) ++ freeUses (some pri)) ∨
      p.exit = (if c.ends then some (.code 0) else none) ∧ p.opensData = false ∧
        ServerProc.uses sock p = sock.handleUses ++
          if c.ends then
            closeUses (createServerSocket (toSize port) c.listen).ret.val ++ freeUses (some pri)
          else [] := by
  intro p
  unfold p loadAndServe
  simp only [Proc.seq, Proc.andThen_skip, exit_print_andThen, uses_print_andThen,
    opensData_print_andThen]
  split
  · exact .inl ⟨rfl, rfl⟩
  · simp only [exit_emit_andThen, uses_emit_andThen, exit_print_andThen, uses_print_andThen,
      opensData_print_andThen, opensData_emit_andThen, storageLoadFile_succeeded]
    cases c.dataThere args.datafile fs with
    | true => exact .inl ⟨rfl, rfl⟩
    | false =>
        obtain ⟨hexit, -⟩ := serveKey_eq c args port pri (loadEntireFile (pubfile args.keyfile)
          (c.pub.calls (pubfile args.keyfile) fs)).ret.val
        obtain ⟨hopens, huses⟩ := serveKey_uses sock c args port pri
          (loadEntireFile (pubfile args.keyfile) (c.pub.calls (pubfile args.keyfile) fs)).ret.val
        exact .inr ⟨hexit, hopens, huses⟩

end Uses

/-! ## 2. The account -/

/-- What is open behind a start that ends. -/
def ServerProc.left (p : ServerProc K) (s : Finset Handle) : Finset Handle :=
  if p.opensData then insert .file s else s

theorem left_subset (p : ServerProc K) (s : Finset Handle) : s ⊆ p.left s := by
  unfold ServerProc.left
  split
  · exact Finset.subset_insert _ _
  · exact subset_rfl

/-- From the load of the key on. -/
theorem held_loadAndServe (c : ServerCalls K) (args : ServerArgT) (port : Int) (k : K) (fs : Fs)
    {s : Finset Handle} (hrsa : .rsa ∉ s) (hfile : .file ∉ s)
    (hsd : ∀ sd, c.listen.socket = .ok sd → .sd sd ∉ s) :
    let sock := createServerSocket (toSize port) c.listen
    let p : ServerProc K := loadAndServe c args port k fs
    ∃ t, Use.held s (loadUses (some k) ++ ServerProc.uses sock p) = some t ∧ s ⊆ t ∧
      (p.opensData = true → p.exit = some (.code 1)) ∧ (p.exit ≠ none → t = p.left s) := by
  intro sock p
  obtain ⟨t₁, hload, hsub₁, hfresh, hfree⟩ := held_load (some k) hrsa
  rw [Use.held_append hload]
  rcases loadAndServe_uses sock c args port k fs with ⟨hexit, huses⟩ | ⟨hexit, hopens, huses⟩
  · have hback := hfree []
    rw [List.append_nil, Use.held_nil] at hback
    rw [huses]
    refine ⟨ServerProc.left p s, ?_, left_subset p s, fun _ => hexit, fun _ => rfl⟩
    unfold ServerProc.left
    cases p.opensData with
    | true =>
        -- the key is freed with the data file open
        have hframe : Use.held (t₁ ∪ {.file}) (freeUses (some k)) = some (s ∪ {.file}) :=
          Use.held_frame hback fun u hu => by
            obtain rfl := List.mem_singleton.mp hu
            exact Finset.notMem_singleton.mpr Handle.noConfusion
        rw [if_pos rfl, if_pos rfl, List.singleton_append,
          Use.held_opened (hfresh .file Handle.noConfusion hfile), Finset.insert_eq,
          Finset.union_comm, hframe, Finset.insert_eq, Finset.union_comm]
    | false => exact hback
  · obtain ⟨t₂, hsock, hsub₂, hclose⟩ := held_close
      (createServerSocket_makes (toSize port) c.listen)
        fun sd h => hfresh (.sd sd) Handle.noConfusion (hsd sd h)
    have hopens : p.opensData = false := hopens
    rw [huses, Use.held_append hsock, ServerProc.left, hopens]
    cases hends : c.ends with
    | true =>
        refine ⟨s, ?_, subset_rfl, Bool.noConfusion, fun _ => rfl⟩
        have hback := hfree []
        rw [List.append_nil] at hback
        rw [if_pos rfl, hclose, hback, Use.held_nil]
    | false =>
        refine ⟨t₂, ?_, hsub₁.trans hsub₂, Bool.noConfusion, fun hne => ?_⟩
        · rw [if_neg Bool.false_ne_true, Use.held_nil]
        · rw [hexit, hends] at hne
          exact absurd rfl hne

/-- **THE HANDLES OF A SERVER**, for every command line, every content of the files and every
    failure, from what is open when it starts: nothing is closed that is not open, or twice; a start
    that ends, wherever that is, leaves open what was open before it, and the data file exactly if it
    came to open that; and one that did, ends with the code 1. -/
theorem serverMain_held (P : Pem K) (c : ServerCalls K) (argv0 : String) (opts : List Opt) (fs : Fs)
    {s : Finset Handle} (hrsa : .rsa ∉ s) (hfile : .file ∉ s)
    (hsd : ∀ sd, c.listen.socket = .ok sd → .sd sd ∉ s) :
    let p : ServerProc K := (serverMain P c argv0 opts fs).1
    ∃ t, Use.held s (startUses P c argv0 opts fs) = some t ∧ s ⊆ t ∧
      (p.opensData = true → p.exit = some (.code 1)) ∧ (p.exit ≠ none → t = p.left s) := by
  intro p
  unfold p startUses loadedKey listenRun serverMain
  cases serverArgT opts with
  | none =>
      dsimp only [Proc.seq, serverUsage, ServerProc.left]
      rw [uses_print_andThen, opensData_print_andThen]
      exact ⟨s, rfl, subset_rfl, Bool.noConfusion, fun _ => rfl⟩
  | some args =>
      unfold runServer ServerProc.left
      simp only [Option.bind_some, Proc.seq, Proc.andThen_skip, uses_print_andThen,
        exit_print_andThen, opensData_print_andThen]
      cases (initRSA P c.rsa args.keyfile fs).1.val with
      | none => exact ⟨s, rfl, subset_rfl, Bool.noConfusion, fun _ => rfl⟩
      | some k => exact held_loadAndServe c args _ k _ hrsa hfile hsd

/-- The statement for a start whose socket cannot be bound, and that ends all the same. -/
theorem serverMain_held_refused :
    let c : ServerCalls UInt8 :=
      { cleanStart 7 with listen := ⟨.ok 3, .ok (), .error (.other 98), .ok ()⟩ }
    Use.held ∅ (startUses dashPem c "server" startOpts fun _ => none) = some ∅ := by
  intro c
  have hfresh : InPhase dashPem (keyBase startOpts) (fun _ => none) .fresh := ⟨rfl, rfl⟩
  have hexit : (serverMain dashPem c "server" startOpts fun _ => none).1.exit = some (.code 0) :=
    (serverMain_eq dashPem_lawful c "server" startOpts hfresh).1
  obtain ⟨t, hheld, -, hdata, hall⟩ := serverMain_held dashPem c "server" startOpts (fun _ => none)
    (Finset.notMem_empty _) (Finset.notMem_empty _) fun sd _ => Finset.notMem_empty (Handle.sd sd)
  rw [hexit] at hdata hall
  rw [hheld, hall (Option.some_ne_none _), ServerProc.left, if_neg fun h => by cases hdata h]

end Cse303
