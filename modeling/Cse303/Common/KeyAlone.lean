/-
  File:      Cse303/Common/KeyAlone.lean
  Subject:   ONE SERVER STARTED WITH NO OTHER IN BETWEEN: `init_RSA` call by call (KeyRace.lean), and
             `initRSA` at one stroke (KeyFiles.lean), are the same.

  * `Calls.acts` -- the calls that `initRSA` makes, for given outcomes of them;
  * `alone_cons` and the lemmas behind it -- what a start at one point of `init_RSA` may still do, an
    equivalence for each point, from the last to the first;
  * **`race_alone`** -- the calls up to the return are those of `initRSA` for some outcomes, and leave
    what it leaves.
-/
import Cse303.Common.KeyRace

namespace Cse303

variable {K : Type}

/-! ## 1. The calls of `initRSA` -/

/-- The key that `RSA_generate_key_ex` comes to. -/
def Calls.generates (c : Calls K) : Option K :=
  if c.bnNew && c.bnSetWord && c.rsaNew then c.generate else none

/-- The calls of a start from the `fopen` of `basename.pri` on. -/
def Calls.writeActs (P : Pem K) (c : Calls K) (rsa : K) : List (RaceAct K) :=
  if c.openPri = false then [.openPri rsa false, .closePub rsa []]
  else
    let taken := streams P rsa c.writePub c.writePri
    [.openPri rsa true, .write rsa c.writePub c.writePri, .closePri rsa (cut c.flushPri taken.2),
      .closePub rsa (cut c.flushPub taken.1)]

/-- Those of `generate_rsa_key_files`. -/
def Calls.generateActs (P : Pem K) (c : Calls K) : List (RaceAct K) :=
  match c.generates with
  | none => [.generate none]
  | some rsa =>
    .generate (some rsa) ::
      if c.openPub = false then [.openPub rsa false] else .openPub rsa true :: c.writeActs P rsa

/-- **The calls that `initRSA` makes**, with what they answer. -/
def Calls.acts (P : Pem K) (c : Calls K) (basename : String) (fs : Fs) : List (RaceAct K) :=
  let load : RaceAct K := .load (initRSA P c basename fs).1.val
  .statPub (fs (pubfile basename)).isSome :: .statPri (fs (prifile basename)).isSome ::
    match (fs (pubfile basename)).isSome, (fs (prifile basename)).isSome with
    | false, false => c.generateActs P ++ [load]
    | true, true => [load]
    | _, _ => []

/-! ## 2. Call by call -/

/-- The start `p` makes these calls, with nobody in between, and has returned. -/
def Alone (P : Pem K) (basename : String) (p : Nat) (x : Race K) (as : List (RaceAct K))
    (y : Race K) : Prop :=
  (race P basename).Run x (as.map (Prod.mk p)) y ∧ ∃ r, y.pc p = .done r

/-- A start that comes to no key. -/
def noKeyCalls : Calls K :=
  ⟨true, true, true, none, true, true, none, none, none, none, true, true⟩

section Alone

variable {P : Pem K} {basename : String} {p : Nat} {x y : Race K} {as : List (RaceAct K)}

/-- A start that has not returned makes a call, and goes on behind it. -/
theorem alone_cons (h : ∀ r, x.pc p ≠ .done r) :
    Alone P basename p x as y ↔
      ∃ a z as', as = a :: as' ∧ RaceStep P basename x (p, a) z ∧ Alone P basename p z as' y := by
  constructor
  · intro hrun
    obtain ⟨hrun, r, hdone⟩ := hrun
    cases as with
    | nil =>
        obtain rfl := hrun.nil_eq
        exact absurd hdone (h r)
    | cons a as' =>
        rw [List.map_cons, Lts.run_cons] at hrun
        obtain ⟨z, hs, hrun⟩ := hrun
        exact ⟨a, z, as', rfl, hs, hrun, r, hdone⟩
  · intro hrun
    obtain ⟨a, z, as', rfl, hs, hrun, r, hdone⟩ := hrun
    rw [Alone, List.map_cons, Lts.run_cons]
    exact ⟨⟨z, hs, hrun⟩, r, hdone⟩

/-- One that has returned makes none. -/
theorem alone_done {r : Option K} (h : x.pc p = .done r) :
    Alone P basename p x as y ↔ as = [] ∧ y = x := by
  constructor
  · intro hrun
    obtain ⟨hrun, -⟩ := hrun
    cases as with
    | nil => exact ⟨rfl, hrun.nil_eq⟩
    | cons a as' =>
        rw [List.map_cons, Lts.run_cons] at hrun
        obtain ⟨z, hs, -⟩ := hrun
        cases hs <;> simp_all
  · intro hall
    obtain ⟨rfl, rfl⟩ := hall
    exact ⟨.start, r, h⟩

/-- What `load_pri` returns, `ok` being false for a call that fails of itself. -/
def loaded (P : Pem K) (basename : String) (ok : Bool) (fs : Fs) : Option K :=
  if ok then (fs (prifile basename)).bind P.readPri else none

theorem loadPri_val (c : Calls K) (fs : Fs) :
    (loadPri P c (prifile basename) fs).val = loaded P basename (c.openRead && c.read) fs := by
  unfold loadPri loaded
  cases fs (prifile basename) with
  | none => simp
  | some text =>
      cases c.openRead with
      | false => rfl
      | true =>
          cases c.read with
          | false => rfl
          | true => cases hrsa : P.readPri text <;> simp [hrsa]

/-- `load_pri`. -/
theorem alone_loading (h : x.pc p = .loading) :
    Alone P basename p x as y ↔ ∃ ok, as = [.load (loaded P basename ok x.fs)] ∧
      y = x.goto p (.done (loaded P basename ok x.fs)) x.fs := by
  rw [alone_cons (by simp [h])]
  constructor
  · intro hall
    obtain ⟨a, z, as', rfl, hs, hrun⟩ := hall
    cases hs with
    | @load _ r ok _ hr =>
        obtain ⟨rfl, rfl⟩ := (alone_done (goto_same ..)).mp hrun
        exact ⟨ok, by rw [hr]; rfl, by rw [hr]; rfl⟩
    | _ hpc => cases h.symm.trans hpc
  · intro hall
    obtain ⟨ok, rfl, rfl⟩ := hall
    exact ⟨_, _, [], rfl, .load h rfl, (alone_done (goto_same ..)).mpr ⟨rfl, rfl⟩⟩

/-- The close of `basename.pub`. -/
theorem alone_closingPub {rsa : K} {pub : List UInt8} (h : x.pc p = .closingPub rsa pub) :
    Alone P basename p x as y ↔ ∃ flush as', as = .closePub rsa (cut flush pub) :: as' ∧
      Alone P basename p (x.goto p .loading (x.fs.flush (pubfile basename) (cut flush pub)))
        as' y := by
  rw [alone_cons (by simp [h])]
  constructor
  · intro hall
    obtain ⟨a, z, as', rfl, hs, hrun⟩ := hall
    cases hs with
    | @closePub _ rsa' pub' flush hpc =>
        obtain ⟨rfl, rfl⟩ := StartPc.closingPub.inj (h.symm.trans hpc)
        exact ⟨flush, as', rfl, hrun⟩
    | _ hpc => cases h.symm.trans hpc
  · intro hall
    obtain ⟨flush, as', rfl, hrun⟩ := hall
    exact ⟨_, _, as', rfl, .closePub h, hrun⟩

/-- That of `basename.pri`. -/
theorem alone_closingPri {rsa : K} {pub pri : List UInt8} (h : x.pc p = .closingPri rsa pub pri) :
    Alone P basename p x as y ↔ ∃ flush as', as = .closePri rsa (cut flush pri) :: as' ∧
      Alone P basename p
        (x.goto p (.closingPub rsa pub) (x.fs.flush (prifile basename) (cut flush pri))) as' y := by
  rw [alone_cons (by simp [h])]
  constructor
  · intro hall
    obtain ⟨a, z, as', rfl, hs, hrun⟩ := hall
    cases hs with
    | @closePri _ rsa' pub' pri' flush hpc =>
        obtain ⟨rfl, rfl, rfl⟩ := StartPc.closingPri.inj (h.symm.trans hpc)
        exact ⟨flush, as', rfl, hrun⟩
    | _ hpc => cases h.symm.trans hpc
  · intro hall
    obtain ⟨flush, as', rfl, hrun⟩ := hall
    exact ⟨_, _, as', rfl, .closePri h, hrun⟩

/-- The two writes. -/
theorem alone_writing {rsa : K} (h : x.pc p = .writing rsa) :
    Alone P basename p x as y ↔ ∃ writePub writePri as', as = .write rsa writePub writePri :: as' ∧
      Alone P basename p (x.goto p (.closingPri rsa (streams P rsa writePub writePri).1
        (streams P rsa writePub writePri).2) x.fs) as' y := by
  rw [alone_cons (by simp [h])]
  constructor
  · intro hall
    obtain ⟨a, z, as', rfl, hs, hrun⟩ := hall
    cases hs with
    | @write _ rsa' writePub writePri hpc =>
        obtain rfl := StartPc.writing.inj (h.symm.trans hpc)
        exact ⟨writePub, writePri, as', rfl, hrun⟩
    | _ hpc => cases h.symm.trans hpc
  · intro hall
    obtain ⟨writePub, writePri, as', rfl, hrun⟩ := hall
    exact ⟨_, _, as', rfl, .write h, hrun⟩

/-- A stream on an empty file. -/
theorem flush_empty {fs : Fs} {name : String} (h : fs name = some []) (text : List UInt8) :
    fs.flush name text = fs.write name text := by
  rw [Fs.flush, h, Option.map_some, Writers.overlay_nil]
  rfl

theorem write_write (fs : Fs) (name : String) (text text' : List UInt8) :
    (fs.write name text).write name text' = fs.write name text' := Function.update_idem ..

/-- Both streams, on the files that were just truncated. -/
theorem flush_both (fs : Fs) (basename : String) (pub pri : List UInt8) :
    (((fs.write (pubfile basename) []).write (prifile basename) []).flush (prifile basename)
        pri).flush (pubfile basename) pub =
      (((fs.write (pubfile basename) []).write (prifile basename) []).write (prifile basename)
        pri).write (pubfile basename) pub := by
  have hne := pubfile_ne_prifile basename
  rw [flush_empty (Fs.write_same ..), flush_empty]
  rw [Fs.write_other _ _ hne, Fs.write_other _ _ hne, Fs.write_same]

/-- From the `fopen` of `basename.pri` on. -/
theorem alone_openingPri {rsa : K} {fs : Fs} (h : x.pc p = .openingPri rsa)
    (hfs : x.fs = fs.write (pubfile basename) []) :
    Alone P basename p x as y ↔ ∃ c : Calls K, c.creates = some rsa ∧ ∃ as',
      as = c.writeActs P rsa ++ as' ∧ Alone P basename p (x.goto p .loading
        (generateRsaKeyFiles P c (pubfile basename) (prifile basename) fs).2) as' y := by
  rw [alone_cons (by simp [h])]
  constructor
  · intro hall
    obtain ⟨a, z, as', rfl, hs, hrun⟩ := hall
    cases hs with
    | @openPriFails _ rsa' hpc =>
        obtain rfl := StartPc.openingPri.inj (h.symm.trans hpc)
        obtain ⟨flush, as', rfl, hclosed⟩ := (alone_closingPub (goto_same ..)).mp hrun
        let c : Calls K := { cleanCalls rsa with openPri := false }
        refine ⟨c, rfl, as', by rw [cut_nil]; rfl, ?_⟩
        rw [generate_some (c := c) rfl, if_pos rfl]
        rw [cut_nil, goto_fs, hfs, flush_empty (Fs.write_same ..), write_write,
          goto_goto] at hclosed
        exact hclosed
    | @openPri _ rsa' hpc =>
        obtain rfl := StartPc.openingPri.inj (h.symm.trans hpc)
        obtain ⟨writePub, writePri, as', rfl, hwritten⟩ := (alone_writing (goto_same ..)).mp hrun
        obtain ⟨flushPri, as', rfl, hpri⟩ := (alone_closingPri (goto_same ..)).mp hwritten
        obtain ⟨flushPub, as', rfl, hpub⟩ := (alone_closingPub (goto_same ..)).mp hpri
        let c : Calls K := { cleanCalls rsa with
          writePub := writePub, writePri := writePri, flushPub := flushPub, flushPri := flushPri }
        refine ⟨c, rfl, as', rfl, ?_⟩
        rw [generate_some (c := c) rfl, if_neg Bool.noConfusion]
        simp only [goto_fs, goto_goto, hfs, flush_both] at hpub
        exact hpub
    | _ hpc => cases h.symm.trans hpc
  · intro hall
    obtain ⟨c, hc, as', rfl, hrun⟩ := hall
    rw [generate_some hc] at hrun
    unfold Calls.writeActs
    by_cases hpri : c.openPri = false
    · rw [if_pos hpri] at hrun ⊢
      refine ⟨_, _, _, rfl, .openPriFails h, (alone_closingPub (goto_same ..)).mpr
        ⟨none, as', rfl, ?_⟩⟩
      rw [cut_nil, goto_fs, hfs, flush_empty (Fs.write_same ..), write_write, goto_goto]
      exact hrun
    · rw [if_neg hpri] at hrun ⊢
      refine ⟨_, _, _, rfl, .openPri h, (alone_writing (goto_same ..)).mpr ⟨_, _, _, rfl, ?_⟩⟩
      refine (alone_closingPri (goto_same ..)).mpr ⟨_, _, rfl, ?_⟩
      refine (alone_closingPub (goto_same ..)).mpr ⟨_, _, rfl, ?_⟩
      simp only [goto_fs, goto_goto, hfs, flush_both]
      exact hrun

/-- What creates `basename.pub` has generated a key. -/
theorem creates_eq (c : Calls K) :
    c.creates = if c.openPub = false then none else c.generates := by
  unfold Calls.creates Calls.generates
  cases c.openPub <;> simp

/-- **`generate_rsa_key_files`**, on files that are not there. -/
theorem alone_generating (h : x.pc p = .generating) :
    Alone P basename p x as y ↔ ∃ (c : Calls K) (as' : _), as = c.generateActs P ++ as' ∧
      Alone P basename p (x.goto p .loading
        (generateRsaKeyFiles P c (pubfile basename) (prifile basename) x.fs).2) as' y := by
  rw [alone_cons (by simp [h])]
  constructor
  · intro hall
    obtain ⟨a, z, as', rfl, hs, hrun⟩ := hall
    cases hs with
    | generateFails _ =>
        exact ⟨noKeyCalls, as', rfl, hrun⟩
    | @generate _ rsa _ =>
        obtain ⟨a, z, as', rfl, hs, hopened⟩ := (alone_cons (by simp)).mp hrun
        have hpc : (x.goto p (.openingPub rsa) x.fs).pc p = .openingPub rsa := goto_same ..
        cases hs with
        | @openPubFails _ rsa' hpc' =>
            obtain rfl := StartPc.openingPub.inj (hpc.symm.trans hpc')
            rw [goto_goto] at hopened
            exact ⟨{ cleanCalls rsa with openPub := false }, as', rfl, hopened⟩
        | @openPub _ rsa' hpc' =>
            obtain rfl := StartPc.openingPub.inj (hpc.symm.trans hpc')
            rw [goto_goto, goto_fs] at hopened
            obtain ⟨c, hc, as', rfl, hclosed⟩ := (alone_openingPri (goto_same ..) rfl).mp hopened
            rw [goto_goto] at hclosed
            refine ⟨c, as', ?_, hclosed⟩
            obtain ⟨hnew, hset, hrsa, hopen, hgen⟩ := creates_some hc
            simp [Calls.generateActs, Calls.generates, hnew, hset, hrsa, hopen, hgen]
        | _ hpc' => cases hpc.symm.trans hpc'
    | _ hpc => cases h.symm.trans hpc
  · intro hall
    obtain ⟨c, as', rfl, hrun⟩ := hall
    have hcreates := creates_eq c
    unfold Calls.generateActs
    cases hgen : c.generates with
    | none =>
        rw [hgen, ite_self] at hcreates
        rw [(generate_none hcreates _ _ x.fs).1] at hrun
        exact ⟨_, _, _, rfl, .generateFails h, hrun⟩
    | some rsa =>
        rw [hgen] at hcreates
        refine ⟨_, _, _, rfl, .generate h, (alone_cons (by simp)).mpr ?_⟩
        by_cases hopen : c.openPub = false
        · rw [if_pos hopen] at hcreates ⊢
          rw [(generate_none hcreates _ _ x.fs).1] at hrun
          refine ⟨_, _, _, rfl, .openPubFails (goto_same ..), ?_⟩
          rw [goto_goto]
          exact hrun
        · rw [if_neg hopen] at hcreates ⊢
          refine ⟨_, _, _, rfl, .openPub (goto_same ..), ?_⟩
          rw [goto_goto]
          refine (alone_openingPri (goto_same ..) rfl).mpr ⟨c, hcreates, as', rfl, ?_⟩
          rw [goto_goto]
          exact hrun

/-- One file without the other: the start has returned. -/
theorem alone_one (as₀ : List (RaceAct K)) (r : Option K) :
    (∃ as', as = as₀ ++ as' ∧ Alone P basename p (x.goto p (.done r) x.fs) as' y) ↔
      ∃ _ : Calls K, as = as₀ ∧ y = x.goto p (.done r) x.fs := by
  constructor
  · intro hall
    obtain ⟨as', rfl, hrun⟩ := hall
    obtain ⟨rfl, rfl⟩ := (alone_done (goto_same ..)).mp hrun
    exact ⟨noKeyCalls, List.append_nil _, rfl⟩
  · intro hall
    obtain ⟨c, rfl, rfl⟩ := hall
    exact ⟨[], (List.append_nil _).symm, (alone_done (goto_same ..)).mpr ⟨rfl, rfl⟩⟩

/-- Where the two `stat`s lead. -/
def StartPc.behindStats : Bool → Bool → StartPc K
  | false, false => .generating
  | true, true => .loading
  | _, _ => .done none

/-- The second `stat`. -/
theorem alone_statPri {b : Bool} (h : x.pc p = .statPri b) :
    Alone P basename p x as y ↔ ∃ as', as = .statPri (x.fs (prifile basename)).isSome :: as' ∧
      Alone P basename p (x.goto p (.behindStats b (x.fs (prifile basename)).isSome) x.fs)
        as' y := by
  rw [alone_cons (by simp [h])]
  constructor
  · intro hall
    obtain ⟨a, z, as', rfl, hs, hrun⟩ := hall
    cases hs with
    | neither hpc hpri | both hpc hpri =>
        obtain rfl := StartPc.statPri.inj (h.symm.trans hpc)
        rw [hpri]
        exact ⟨as', rfl, hrun⟩
    | @one _ b' hpc hpri =>
        obtain rfl := StartPc.statPri.inj (h.symm.trans hpc)
        rw [hpri]
        exact ⟨as', rfl, by cases b <;> exact hrun⟩
    | _ hpc => cases h.symm.trans hpc
  · intro hall
    obtain ⟨as', rfl, hrun⟩ := hall
    cases b <;> cases hpri : (x.fs (prifile basename)).isSome <;> rw [hpri] at hrun
    · exact ⟨_, _, as', rfl, .neither h hpri, hrun⟩
    · exact ⟨_, _, as', rfl, .one h hpri, hrun⟩
    · exact ⟨_, _, as', rfl, .one h hpri, hrun⟩
    · exact ⟨_, _, as', rfl, .both h hpri, hrun⟩

/-- The first. -/
theorem alone_idle (h : x.pc p = .idle) :
    Alone P basename p x as y ↔ ∃ as', as = .statPub (x.fs (pubfile basename)).isSome :: as' ∧
      Alone P basename p (x.goto p (.statPri (x.fs (pubfile basename)).isSome) x.fs) as' y := by
  rw [alone_cons (by simp [h])]
  constructor
  · intro hall
    obtain ⟨a, z, as', rfl, hs, hrun⟩ := hall
    cases hs with
    | statPub _ => exact ⟨as', rfl, hrun⟩
    | _ hpc => cases h.symm.trans hpc
  · intro hall
    obtain ⟨as', rfl, hrun⟩ := hall
    exact ⟨_, _, as', rfl, .statPub h, hrun⟩

/-- Both of them. -/
theorem alone_stats (h : x.pc p = .idle) :
    Alone P basename p x as y ↔ ∃ as', as = .statPub (x.fs (pubfile basename)).isSome ::
      .statPri (x.fs (prifile basename)).isSome :: as' ∧ Alone P basename p
        (x.goto p (.behindStats (x.fs (pubfile basename)).isSome
          (x.fs (prifile basename)).isSome) x.fs) as' y := by
  rw [alone_idle h]
  constructor
  · intro hall
    obtain ⟨as', rfl, hrun⟩ := hall
    obtain ⟨as', rfl, hstat⟩ := (alone_statPri (goto_same ..)).mp hrun
    rw [goto_goto] at hstat
    exact ⟨as', rfl, hstat⟩
  · intro hall
    obtain ⟨as', rfl, hrun⟩ := hall
    refine ⟨_, rfl, (alone_statPri (goto_same ..)).mpr ⟨as', rfl, ?_⟩⟩
    rw [goto_goto]
    exact hrun

/-! ## 3. The whole start -/

/-- **A START THAT NOBODY INTERRUPTS** does what `initRSA` does: the calls it may make up to its
    return are those of `initRSA` for some outcome of each; and for every outcome it leaves the same
    files behind and returns the same. -/
theorem race_alone (h : x.pc p = .idle) :
    Alone P basename p x as y ↔ ∃ c : Calls K, as = c.acts P basename x.fs ∧
      y = x.goto p (.done (initRSA P c basename x.fs).1.val) (initRSA P c basename x.fs).2 := by
  rw [alone_stats h]
  unfold Calls.acts initRSA
  cases (x.fs (pubfile basename)).isSome <;> cases (x.fs (prifile basename)).isSome
  · simp only [loadPri_val]
    constructor
    · intro hall
      obtain ⟨as', rfl, hrun⟩ := hall
      obtain ⟨c, as', rfl, hgen⟩ := (alone_generating (goto_same ..)).mp hrun
      obtain ⟨ok, rfl, rfl⟩ := (alone_loading (goto_same ..)).mp hgen
      refine ⟨{ c with openRead := ok, read := true }, ?_, ?_⟩
      · simp only [Bool.and_true]
        rfl
      · simp only [Bool.and_true, goto_goto]
        rfl
    · intro hall
      obtain ⟨c, rfl, rfl⟩ := hall
      refine ⟨_, rfl, (alone_generating (goto_same ..)).mpr ⟨c, _, rfl, ?_⟩⟩
      refine (alone_loading (goto_same ..)).mpr ⟨c.openRead && c.read, rfl, ?_⟩
      rw [goto_goto, goto_goto]
      rfl
  · exact alone_one [.statPub false, .statPri true] none
  · exact alone_one [.statPub true, .statPri false] none
  · simp only [loadPri_val]
    constructor
    · intro hall
      obtain ⟨as', rfl, hrun⟩ := hall
      obtain ⟨ok, rfl, rfl⟩ := (alone_loading (goto_same ..)).mp hrun
      refine ⟨{ noKeyCalls with openRead := ok, read := true }, ?_, ?_⟩
      · simp only [Bool.and_true]
        rfl
      · simp only [Bool.and_true, goto_goto]
        rfl
    · intro hall
      obtain ⟨c, rfl, rfl⟩ := hall
      refine ⟨_, rfl, (alone_loading (goto_same ..)).mpr ⟨c.openRead && c.read, rfl, ?_⟩⟩
      rw [goto_goto]
      rfl

/-- The first start of all. -/
theorem race_alone_first : ∃ as y, Alone dashPem "server" 0 (.start fun _ => none) as y ∧
    y.pc 0 = .done (some 7) ∧ y.fs (pubfile "server") = some [7] := by
  have hkey : (initRSA dashPem (cleanCalls 7) "server" fun _ => none).1.val = some 7 := by decide
  exact ⟨_, _, (race_alone rfl).mpr ⟨cleanCalls 7, rfl, rfl⟩,
    (goto_same ..).trans (congrArg _ hkey), by decide⟩

end Alone

end Cse303
