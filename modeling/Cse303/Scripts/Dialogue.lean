/-
  File:      Cse303/Scripts/Dialogue.lean
  Subject:   WHAT THE TEST SCRIPTS READ FROM THE SERVER (cse303.py), and what the server prints.

  The scripts read the output of the server line by line: two lines for every connection (`after`),
  and two more before the `Server terminated` of a server that is stopped (`await_server`). The
  pool's threads write to the same output, a line for every request that they parse.

  * `after_pair` -- the two lines of a connection pass exactly if they name 127.0.0.1 or 0.0.0.0,
    since no two addresses are written alike;
  * `output_run` -- the output of `accept_client`, at any point of any run: the two lines of each
    connection that was handed over, in order, and the first of the next if it is waiting;
  * `merged_afters_iff` -- no line of a request is read as one of a connection, wherever it stands;
  * **`await_server_iff`** -- so a script that stops the server reads what it expects exactly in the
    runs in which no request was parsed and one failed `accept` was handed over as a connection.
-/
import Mathlib.Data.List.DropRight
import Cse303.Lib.Inet
import Cse303.Lib.Writers
import Cse303.Server.Accept
import Cse303.Server.Main

namespace Cse303

open Writers (Merged merged_singleton)

variable {K : Type}

/-! ## 1. Lines -/

/-- `readline`: up to the line end, which it keeps; of an output that has ended it is empty. -/
def readline : List Char → List Char × List Char
  | [] => ([], [])
  | c :: cs => if c = '\n' then ([c], cs) else (c :: (readline cs).1, (readline cs).2)

/-- `rstrip`, of bytes. -/
def rstrip (line : List Char) : List Char := line.rdropWhile Inet.isspace

/-- `after`: whether the two lines are as expected, and the output behind them. -/
def after (out : List Char) : Bool × List Char :=
  let waiting := readline out
  let connected := readline waiting.2
  (rstrip waiting.1 = "Waiting for a client to connect...".toList &&
    (rstrip connected.1 = "Connected to 127.0.0.1".toList ||
      rstrip connected.1 = "Connected to 0.0.0.0".toList), connected.2)

/-- `after`, once for every connection. -/
def afters : Nat → List Char → Bool × List Char
  | 0, out => (true, out)
  | n + 1, out => ((after out).1 && (afters n (after out).2).1, (afters n (after out).2).2)

theorem readline_line {line : List Char} (h : '\n' ∉ line) (rest : List Char) :
    readline (line ++ '\n' :: rest) = (line ++ ['\n'], rest) := by
  induction line with
  | nil => rfl
  | cons c cs ih =>
      obtain ⟨hc, hcs⟩ := not_or.mp (mt List.mem_cons.mpr h)
      rw [List.cons_append, readline, if_neg (Ne.symm hc), ih hcs]
      rfl

theorem rstrip_newline (line : List Char) : rstrip (line ++ ['\n']) = rstrip line :=
  List.rdropWhile_concat_pos _ _ _ rfl

/-- A line without a blank at its end is as it is when it is stripped. -/
theorem rstrip_concat {line : List Char} {c : Char} (h : Inet.isspace c = false) :
    rstrip (line ++ [c]) = line ++ [c] :=
  List.rdropWhile_concat_neg _ _ _ (by rw [h]; exact Bool.false_ne_true)

theorem rstrip_line {line : List Char} {c : Char} (h : Inet.isspace c = false) :
    rstrip (line ++ [c] ++ ['\n']) = line ++ [c] := by rw [rstrip_newline, rstrip_concat h]

theorem readline_append (out : List Char) : (readline out).1 ++ (readline out).2 = out := by
  induction out with
  | nil => rfl
  | cons c cs ih =>
      rw [readline]
      split
      · rfl
      · exact congrArg (List.cons c) ih

/-- What is stripped of a line are blanks. -/
theorem mem_rstrip {c : Char} {line : List Char} (h : c ∈ line) (hc : Inet.isspace c = false) :
    c ∈ rstrip line := by
  rw [← List.rdropWhile_append_rtakeWhile (p := Inet.isspace) (l := line)] at h
  refine (List.mem_append.mp h).resolve_right fun hblank => ?_
  rw [List.mem_rtakeWhile_imp hblank] at hc
  cases hc

/-- The two lines that pass hold no underscore. -/
theorem after_read {out : List Char} (h : (after out).1 = true) :
    ∃ read, out = read ++ (after out).2 ∧ '_' ∉ read := by
  obtain ⟨hwaiting, hconnected⟩ := Bool.and_eq_true_iff.mp h
  have hblank : Inet.isspace '_' = false := by decide
  refine ⟨(readline out).1 ++ (readline (readline out).2).1, ?_, fun hmem => ?_⟩
  · show out = _ ++ (readline (readline out).2).2
    rw [List.append_assoc, readline_append, readline_append]
  · rcases List.mem_append.mp hmem with hmem | hmem
    · have hline := mem_rstrip hmem hblank
      rw [of_decide_eq_true hwaiting] at hline
      exact absurd hline (by decide)
    · have hline := mem_rstrip hmem hblank
      rcases Bool.or_eq_true_iff.mp hconnected with heq | heq
      · rw [of_decide_eq_true heq] at hline
        exact absurd hline (by decide)
      · rw [of_decide_eq_true heq] at hline
        exact absurd hline (by decide)

theorem afters_read {n : Nat} {out : List Char} (h : (afters n out).1 = true) :
    ∃ read, out = read ++ (afters n out).2 ∧ '_' ∉ read := by
  induction n generalizing out with
  | zero => exact ⟨[], rfl, List.not_mem_nil⟩
  | succ n ih =>
      obtain ⟨hfirst, hrest⟩ := Bool.and_eq_true_iff.mp h
      obtain ⟨read, hout, hread⟩ := after_read hfirst
      obtain ⟨reads, houts, hreads⟩ := ih hrest
      refine ⟨read ++ reads, ?_, fun hmem => (List.mem_append.mp hmem).elim hread hreads⟩
      rw [List.append_assoc]
      exact hout.trans (congrArg (read ++ ·) houts)

/-- Of an output that has not ended, `after` reads something. -/
theorem after_shorter (out : List Char) :
    (after out).2.length ≤ out.length ∧ (out ≠ [] → (after out).2.length < out.length) := by
  have h₁ := congrArg List.length (readline_append out)
  have h₂ := congrArg List.length (readline_append (readline out).2)
  rw [List.length_append] at h₁ h₂
  have hshow : (after out).2 = (readline (readline out).2).2 := rfl
  rw [hshow]
  refine ⟨by omega, ?_⟩
  intro hne
  have hpos : 0 < (readline out).1.length := by
    cases out with
    | nil => exact absurd rfl hne
    | cons c cs =>
        rw [readline]
        split <;> exact Nat.succ_pos _
  omega

theorem afters_shorter {out : List Char} (n : Nat) (h : out ≠ []) :
    (afters (n + 1) out).2.length < out.length := by
  have hle (n : Nat) (out : List Char) : (afters n out).2.length ≤ out.length := by
    induction n generalizing out with
    | zero => exact Nat.le_refl _
    | succ n ih => exact (ih _).trans (after_shorter out).1
  exact (hle n _).trans_lt ((after_shorter out).2 h)

/-! ## 2. The two lines of a connection -/

/-- The address as it stands in memory, its first byte lowest. -/
def inAddr (addr : Nat) : Inet.InAddr :=
  ⟨.ofNat addr, .ofNat (addr / 256), .ofNat (addr / 65536), .ofNat (addr / 16777216)⟩

/-- 127.0.0.1. -/
def loopback : Inet.InAddr := ⟨127, 0, 0, 1⟩

/-- The text of a piece; that of `strerror` is libc's. -/
def Piece.str (strerror : Errno → String) : Piece → String
  | .text s => s
  | .strerror e => strerror e
  | .inetNtop addr => Inet.ntoa (inAddr addr)

/-- What is written to the standard output. -/
def written (strerror : Errno → String) (ps : List Piece) : List Char :=
  ps.flatMap fun p => (p.str strerror).toList

/-- The line of the loop test. -/
def waitingLine : List Piece := [.text "Waiting for a client to connect...\n"]

/-- The line of a connection. -/
def connectedLine (addr : Nat) : List Piece := [.text "Connected to ", .inetNtop addr, .text "\n"]

/-- The address is one of the two that the scripts expect. -/
def Expected (addr : Nat) : Prop := inAddr addr = loopback ∨ inAddr addr = .any

instance (addr : Nat) : Decidable (Expected addr) := inferInstanceAs (Decidable (_ ∨ _))

/-- An address is written without a line end, and with no blank at its end. -/
theorem ntoa_line (x : Inet.InAddr) : ∃ line c, (Inet.ntoa x).toList = line ++ [c] ∧
    Inet.isspace c = false ∧ '\n' ∉ (Inet.ntoa x).toList := by
  have hend : '\n' ∉ (Inet.ntoa x).toList := fun h => absurd (Inet.mem_ntoa h) (by decide)
  rcases List.eq_nil_or_concat (Inet.ntoa x).toList with hnil | ⟨line, c, hc⟩
  · have hdot : '.' ∈ (Inet.ntoa x).toList := by
      simp [Inet.ntoa, List.intercalate, List.intersperse]
    rw [hnil] at hdot
    cases hdot
  · rw [List.concat_eq_append] at hc
    have hmem : c ∈ (Inet.ntoa x).toList := hc ▸ List.mem_concat_self
    exact ⟨line, c, hc, Inet.mem_ntoa hmem, hend⟩

/-- The line of a connection, read and stripped. -/
theorem connected_read (x : Inet.InAddr) (rest : List Char) :
    let l := readline ("Connected to ".toList ++ (Inet.ntoa x).toList ++ '\n' :: rest)
    rstrip l.1 = "Connected to ".toList ++ (Inet.ntoa x).toList ∧ l.2 = rest := by
  obtain ⟨line, c, hc, hblank, hend⟩ := ntoa_line x
  have hline : '\n' ∉ "Connected to ".toList ++ (Inet.ntoa x).toList := by
    intro h
    rcases List.mem_append.mp h with h | h
    · exact absurd h (by decide)
    · exact hend h
  dsimp only
  rw [readline_line hline, hc, ← List.append_assoc]
  exact ⟨rstrip_line hblank, rfl⟩

/-- No two addresses give the same line. -/
theorem connected_iff {x y : Inet.InAddr} : "Connected to ".toList ++ (Inet.ntoa x).toList =
    "Connected to ".toList ++ (Inet.ntoa y).toList ↔ x = y := by
  rw [List.append_cancel_left_eq, String.toList_inj, Inet.ntoa_inj]

/-- **The two lines of a connection** pass exactly if the address is an expected one. -/
theorem after_pair (strerror : Errno → String) (addr : Nat) (rest : List Char) :
    after (written strerror (waitingLine ++ connectedLine addr) ++ rest) =
      (decide (Expected addr), rest) := by
  have hwritten : written strerror (waitingLine ++ connectedLine addr) ++ rest =
      "Waiting for a client to connect...".toList ++ '\n' ::
        ("Connected to ".toList ++ (Inet.ntoa (inAddr addr)).toList ++ '\n' :: rest) := by
    simp [written, waitingLine, connectedLine, Piece.str]
  have hline : '\n' ∉ "Waiting for a client to connect...".toList := by decide
  have hwaiting := readline_line hline
    ("Connected to ".toList ++ (Inet.ntoa (inAddr addr)).toList ++ '\n' :: rest)
  have hstripped : rstrip ("Waiting for a client to connect...".toList ++ ['\n']) =
      "Waiting for a client to connect...".toList := by decide
  have hlocal : "Connected to 127.0.0.1".toList =
      "Connected to ".toList ++ (Inet.ntoa loopback).toList := by decide
  have hany : "Connected to 0.0.0.0".toList =
      "Connected to ".toList ++ (Inet.ntoa .any).toList := by decide
  obtain ⟨hstrip, hrest⟩ := connected_read (inAddr addr) rest
  rw [hwritten, after, hwaiting]
  dsimp only
  rw [hstrip, hrest, hstripped, hlocal, hany]
  simp only [connected_iff, decide_true, Bool.true_and, ← Bool.decide_or]
  rfl

/-! ## 3. The output of `accept_client` -/

/-- The addresses of what a step hands over: of a failure that is tolerated it is all zero. -/
def Act.addrs : Act → List Nat
  | .accept (.ok (_, addr)) => [addr]
  | .readFlag true => [0]
  | _ => []

/-- The address about to be printed. -/
def Pc.pendingAddr : Pc → List Nat
  | .serving _ addr => [addr]
  | _ => []

/-- The line that no connection has followed, if there is one. -/
def Pc.waiting : Pc → List Piece
  | .entry | .loopTest => []
  | .returned r | .awaited r => if r.val then [] else waitingLine
  | _ => waitingLine

/-- **The invariant of the output**: the connections printed so far are those handed over. -/
structure OutputAt (tr : List Act) (x : Server) (done : List Nat) : Prop where
  addrs : tr.flatMap Act.addrs = done ++ x.pc.pendingAddr
  cout : x.cout = done.flatMap (fun addr => waitingLine ++ connectedLine addr) ++ x.pc.waiting

/-- A step that prints and hands over nothing, between two points that wait alike. -/
theorem OutputAt.quiet {tr : List Act} {x y : Server} {a : Act} {addrs : List Nat}
    (h : OutputAt tr x addrs) (ha : a.addrs = []) (hc : y.cout = x.cout)
    (hp : y.pc.pendingAddr = x.pc.pendingAddr) (hw : y.pc.waiting = x.pc.waiting) :
    OutputAt (tr ++ [a]) y addrs := by
  refine ⟨?_, by rw [hc, hw]; exact h.cout⟩
  rw [List.flatMap_append, List.flatMap_singleton, ha, List.append_nil, hp]
  exact h.addrs

/-- **The step lemma**: only the handing over of a connection completes a line. -/
theorem output_step {tr : List Act} {x y : Server} {a : Act} {addrs : List Nat}
    (h : OutputAt tr x addrs) (hs : server.step x a y) : ∃ addrs, OutputAt (tr ++ [a]) y addrs := by
  have hx := h
  obtain ⟨haddrs, hcout⟩ := h
  cases hs with
  | register hpc => exact ⟨addrs, hx.quiet rfl rfl (by rw [hpc]; rfl) (by rw [hpc]; rfl)⟩
  | checkActive hpc _ =>
      rw [hpc] at haddrs hcout
      refine ⟨addrs, ?_, ?_⟩
      · rw [List.flatMap_append, haddrs]
        simp [Act.addrs, Pc.pendingAddr]
      · show x.cout ++ waitingLine = _
        rw [hcout]
        simp [Pc.waiting]
  | checkInactive hpc _ =>
      exact ⟨addrs, hx.quiet rfl rfl (by rw [hpc]; rfl) (by rw [hpc]; rfl)⟩
  | @acceptOk connSd addr hpc _ =>
      rw [hpc] at haddrs hcout
      refine ⟨addrs, ?_, hcout⟩
      rw [List.flatMap_append, haddrs]
      simp [Act.addrs, Pc.pendingAddr]
  | acceptError hpc _ => exact ⟨addrs, hx.quiet rfl rfl (by rw [hpc]; rfl) (by rw [hpc]; rfl)⟩
  | errnoOther hpc _ => exact ⟨addrs, hx.quiet rfl rfl (by rw [hpc]; rfl) (by rw [hpc]; rfl)⟩
  | errnoEinval hpc => exact ⟨addrs, hx.quiet rfl rfl (by rw [hpc]; rfl) (by rw [hpc]; rfl)⟩
  | notSafe hpc _ => exact ⟨addrs, hx.quiet rfl rfl (by rw [hpc]; rfl) (by rw [hpc]; rfl)⟩
  | safe hpc _ =>
      rw [hpc] at haddrs hcout
      refine ⟨addrs, ?_, hcout⟩
      rw [List.flatMap_append, haddrs]
      simp [Act.addrs, Pc.pendingAddr]
  | @service connSd addr hpc =>
      rw [hpc] at haddrs hcout
      refine ⟨addrs ++ [addr], ?_, ?_⟩
      · rw [List.flatMap_append, haddrs]
        simp [Act.addrs, Pc.pendingAddr]
      · show x.cout ++ connectedLine addr = _
        rw [hcout]
        simp [Pc.waiting, List.flatMap_append]
  | awaitShutdown hpc _ =>
      exact ⟨addrs, hx.quiet rfl rfl (by rw [hpc]; rfl) (by rw [hpc]; rfl)⟩
  | deactivate => exact ⟨addrs, hx.quiet rfl rfl rfl rfl⟩
  | handlerStart _ _ => exact ⟨addrs, hx.quiet rfl rfl rfl rfl⟩
  | handlerFlag _ => exact ⟨addrs, hx.quiet rfl rfl rfl rfl⟩
  | handlerShutdown _ => exact ⟨addrs, hx.quiet rfl rfl rfl rfl⟩
  | poolEnd _ _ _ => exact ⟨addrs, hx.quiet rfl rfl rfl rfl⟩

/-- **The run lemma.** -/
theorem output_run {tr : List Act} {y : Server} (h : server.Run .start tr y) :
    ∃ addrs, OutputAt tr y addrs := by
  refine h.traceInvariant (I := fun tr y => ∃ addrs, OutputAt tr y addrs)
    ⟨[], rfl, rfl⟩ ?_
  intro tr x a y _ ⟨addrs, hx⟩ hs
  exact output_step hx hs

/-! ## 4. A server that is stopped -/

/-- The two lines of each connection. -/
def pairs (addrs : List Nat) : List Piece :=
  addrs.flatMap fun addr => waitingLine ++ connectedLine addr

theorem written_append (strerror : Errno → String) (ps qs : List Piece) :
    written strerror (ps ++ qs) = written strerror ps ++ written strerror qs :=
  List.flatMap_append

/-- `after`, for pairs that are all there. -/
theorem afters_pairs (strerror : Errno → String) (addrs : List Nat) (rest : List Char) (n : Nat) :
    afters (addrs.length + n) (written strerror (pairs addrs) ++ rest) =
      (decide (∀ addr ∈ addrs, Expected addr) && (afters n rest).1, (afters n rest).2) := by
  induction addrs with
  | nil => simp [written, pairs]
  | cons addr addrs ih =>
      have hcons : written strerror (pairs (addr :: addrs)) ++ rest =
          written strerror (waitingLine ++ connectedLine addr) ++
            (written strerror (pairs addrs) ++ rest) := by
        rw [pairs, List.flatMap_cons, written_append, List.append_assoc]
        rfl
      rw [hcons, List.length_cons, Nat.succ_add, afters, after_pair]
      dsimp only
      rw [ih]
      simp only [List.forall_mem_cons, Bool.decide_and, Bool.and_assoc]

/-- A pair is not empty. -/
theorem pairs_ne_nil (strerror : Errno → String) {addrs : List Nat} (h : addrs ≠ []) :
    written strerror (pairs addrs) ≠ [] := by
  obtain ⟨addr, addrs, rfl⟩ := List.exists_cons_of_ne_nil h
  simp [written, pairs, waitingLine, Piece.str]

/-- **All pairs are read as expected, and nothing of what follows them**, exactly if there are as
    many as are read and each names an expected address. -/
theorem afters_iff (strerror : Errno → String) (addrs : List Nat) {rest : List Char}
    (hrest : rest ≠ []) (n : Nat) :
    afters n (written strerror (pairs addrs) ++ rest) = (true, rest) ↔
      addrs.length = n ∧ ∀ addr ∈ addrs, Expected addr := by
  rcases Nat.lt_trichotomy n addrs.length with hn | rfl | hn
  · -- too few are read: what is left is longer than `rest`
    have hsplit : written strerror (pairs addrs) ++ rest =
        written strerror (pairs (addrs.take n)) ++
          (written strerror (pairs (addrs.drop n)) ++ rest) := by
      rw [← List.append_assoc, ← written_append, pairs, pairs, pairs, ← List.flatMap_append,
        List.take_append_drop]
    have hlength : (addrs.take n).length + 0 = n := by
      rw [List.length_take]
      omega
    have hread := afters_pairs strerror (addrs.take n)
      (written strerror (pairs (addrs.drop n)) ++ rest) 0
    rw [← hsplit, hlength] at hread
    rw [hread]
    refine iff_of_false ?_ (by omega)
    intro h
    have hnil := List.append_left_eq_self.mp (congrArg Prod.snd h)
    refine pairs_ne_nil strerror ?_ hnil
    rw [Ne, List.drop_eq_nil_iff]
    omega
  · have hread := afters_pairs strerror addrs rest 0
    rw [Nat.add_zero] at hread
    rw [hread]
    simp [afters]
  · -- too many are read: `rest` is read into
    obtain ⟨k, rfl⟩ := Nat.exists_eq_add_of_lt hn
    have hread := afters_pairs strerror addrs rest (k + 1)
    rw [← Nat.add_assoc] at hread
    rw [hread]
    refine iff_of_false ?_ (by omega)
    intro h
    have hshort := afters_shorter k hrest
    rw [congrArg Prod.snd h] at hshort
    exact Nat.lt_irrefl _ hshort

/-- What a step prints an address for: a connection, or a failure that is tolerated. -/
theorem addrs_length (tr : List Act) : (tr.flatMap Act.addrs).length =
    (tr.flatMap Act.accepts).length + tr.count (.readFlag true) := by
  induction tr with
  | nil => rfl
  | cons a tr ih =>
      have hstep : a.addrs.length = a.accepts.length + [a].count (.readFlag true) := by
        cases a with
        | accept r => cases r <;> rfl
        | readFlag b => cases b <;> rfl
        | _ => rfl
      have hcount : (a :: tr).count (.readFlag true) =
          [a].count (.readFlag true) + tr.count (.readFlag true) := by
        rw [← List.count_append]
        rfl
      rw [List.flatMap_cons, List.flatMap_cons, List.length_append, List.length_append, ih, hstep,
        hcount]
      omega

/-- The address of the client that a step accepts. -/
def Act.peers : Act → List Nat
  | .accept (.ok (_, addr)) => [addr]
  | _ => []

/-- The address of a tolerated failure is an expected one. -/
theorem addrs_expected (tr : List Act) : (∀ addr ∈ tr.flatMap Act.addrs, Expected addr) ↔
    ∀ addr ∈ tr.flatMap Act.peers, Expected addr := by
  have hany : Expected 0 := .inr rfl
  have hstep (a : Act) : (∀ addr ∈ a.addrs, Expected addr) ↔ ∀ addr ∈ a.peers, Expected addr := by
    cases a with
    | accept r => cases r <;> exact Iff.rfl
    | readFlag b =>
        cases b with
        | false => exact Iff.rfl
        | true => simpa [Act.addrs, Act.peers] using hany
    | _ => exact Iff.rfl
  constructor
  · intro h addr hmem
    obtain ⟨a, ha, hpeer⟩ := List.mem_flatMap.mp hmem
    exact (hstep a).mp (fun b hb => h b (List.mem_flatMap_of_mem ha hb)) addr hpeer
  · intro h addr hmem
    obtain ⟨a, ha, haddr⟩ := List.mem_flatMap.mp hmem
    exact (hstep a).mpr (fun b hb => h b (List.mem_flatMap_of_mem ha hb)) addr haddr

/-- What `accept_client` has printed when it has returned as it should. -/
theorem graceful_cout {tr : List Act} {y : Server} (h : server.Run .start tr y)
    (hret : y.pc.result = some (.quiet true)) : y.cout = pairs (tr.flatMap Act.addrs) := by
  obtain ⟨done, haddrs, hcout⟩ := output_run h
  obtain ⟨hpending, hwaiting⟩ : y.pc.pendingAddr = [] ∧ y.pc.waiting = [] := by
    cases hpc : y.pc with
    | returned r =>
        rw [hpc] at hret
        obtain rfl := Option.some.inj hret
        exact ⟨rfl, rfl⟩
    | awaited r =>
        rw [hpc] at hret
        obtain rfl := Option.some.inj hret
        exact ⟨rfl, rfl⟩
    | _ =>
        rw [hpc] at hret
        cases hret
  rw [hpending, List.append_nil] at haddrs
  rw [hwaiting, List.append_nil, ← haddrs] at hcout
  exact hcout

/-- What the pool's threads print that run `parse_request` for these descriptors. -/
def parsing (strerror : Errno → String) (pri : K) (pub : Vec) (sds : List Int) :
    List (List Char) :=
  sds.map fun sd => written strerror (parseRequest sd (some pri) pub true).cout

theorem underscore_mem (strerror : Errno → String) (sd : Int) (pri : Option K) (pub : Vec)
    (storage : Bool) : '_' ∈ written strerror (parseRequest sd pri pub storage).cout := by
  simp [written, parseRequest, Piece.str]

/-- **No line of a request is read as one of a connection**, wherever in the lines of the connections
    it stands: all is read as expected exactly if there is none, and the connections are. -/
theorem merged_afters_iff {strerror : Errno → String} {pri : K} {pub : Vec} {addrs : List Nat}
    {sds : List Int} {out : List Char}
    (hout : Merged (written strerror (pairs addrs) :: parsing strerror pri pub sds) out)
    {rest : List Char} (hrest : rest ≠ []) (n : Nat) :
    afters n (out ++ rest) = (true, rest) ↔
      sds = [] ∧ addrs.length = n ∧ ∀ addr ∈ addrs, Expected addr := by
  cases sds with
  | nil =>
      rw [merged_singleton.mp hout, afters_iff strerror addrs hrest]
      exact (and_iff_right rfl).symm
  | cons sd sds =>
      refine iff_of_false (fun h => ?_) (fun h => List.cons_ne_nil sd sds h.1)
      -- what was read is what the threads wrote, and they wrote an underscore
      obtain ⟨read, heq, hread⟩ := afters_read (congrArg Prod.fst h)
      rw [congrArg Prod.snd h] at heq
      have hline := hout.sublist _ (List.mem_cons_of_mem _ List.mem_cons_self)
      exact hread (List.append_cancel_right heq ▸ hline.subset (underscore_mem ..))

/-- **What `await_server` finds**, of every run of the server that `accept_client` returned from as
    it should, and of every merging of its lines with those of the requests that were parsed: a
    script that calls `after` once for each of its connections, and once more before the last line,
    reads what it expects, and stands then before the last lines of `main`, exactly if no request
    was parsed, one failed `accept` was handed over and the clients are local. -/
theorem await_server_iff {tr : List Act} {y : Server} (h : server.Run .start tr y)
    (hret : y.pc = .returned (.quiet true)) (strerror : Errno → String) (pri : K) (pub : Vec)
    (sds : List Int) {out : List Char}
    (hout : Merged (written strerror y.cout :: parsing strerror pri pub sds) out)
    (shutdown : List Char) :
    afters (y.accepted.length + 1) (out ++ (shutdown ++ "Server terminated\n".toList)) =
        (true, shutdown ++ "Server terminated\n".toList) ↔
      sds = [] ∧ tr.count (.readFlag true) = 1 ∧
        ∀ addr ∈ tr.flatMap Act.peers, Expected addr := by
  obtain ⟨-, haccepted⟩ := handed_run h
  rw [graceful_cout h (by rw [hret]; rfl)] at hout
  rw [merged_afters_iff hout (by simp), addrs_length, addrs_expected, haccepted]
  exact and_congr_right' (and_congr_left' (by omega))

/-- One local client, whose request stops the server while it waits again. -/
theorem one_client : ∃ tr y, server.Run .start tr y ∧ y.pc = .returned (.quiet true) ∧
    y.accepted = [4] ∧ (tr.count (.readFlag true) = 1 ∧
      ∀ addr ∈ tr.flatMap Act.peers, Expected addr) ∧
        y.active = false ∧ y.toFlag = 0 ∧ y.toShut = 0 := by
  have h₁ : server.Run .start _ _ := .single (.register rfl)
  have h₂ := h₁.step (.checkActive rfl rfl)
  have h₃ := h₂.step (@ServerStep.acceptOk _ 4 16777343 rfl rfl)
  have h₄ := h₃.step (.service rfl)
  have h₅ := h₄.step (.checkActive rfl rfl)
  have h₆ := h₅.step .deactivate
  have h₇ := h₆.step (.handlerStart (by decide) rfl)
  have h₈ := h₇.step (.handlerFlag rfl)
  have h₉ := h₈.step (.handlerShutdown rfl)
  have h₁₀ := h₉.step (.acceptError rfl fun _ => rfl)
  have h₁₁ := h₁₀.step (.errnoEinval rfl)
  have h₁₂ := h₁₁.step (.safe rfl rfl)
  have h₁₃ := h₁₂.step (.service rfl)
  have h₁₄ := h₁₃.step (.checkInactive rfl rfl)
  exact ⟨_, _, h₁₄, rfl, rfl, by decide, rfl, rfl, rfl⟩

/-- The statement for that client. -/
theorem await_server_one : ∃ tr y, server.Run .start tr y ∧ y.accepted = [4] ∧
    afters 2 (written (fun _ => "") y.cout ++ ([] ++ "Server terminated\n".toList)) =
      (true, [] ++ "Server terminated\n".toList) := by
  obtain ⟨tr, y, h, hret, haccepted, hread, -⟩ := one_client
  have hiff := await_server_iff h hret (fun _ => "") (7 : UInt8) Vec.empty []
    (merged_singleton.mpr rfl) []
  rw [haccepted] at hiff
  exact ⟨tr, y, h, haccepted, hiff.mpr ⟨rfl, hread⟩⟩

end Cse303
