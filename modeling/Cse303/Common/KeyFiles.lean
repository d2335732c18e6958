/-
  File:      Cse303/Common/KeyFiles.lean
  Subject:   `init_RSA` (crypto.cc): THE TWO KEY FILES OF A SERVER, one start of it.

  A start looks whether `basename.pub` and `basename.pri` exist, generates both if neither does, and
  loads the private one. Every library call on the way may fail; `Calls` says how those of one start
  come out. OpenSSL's texts and its reader of private keys are a parameter (`Pem`), with what the
  code relies on in `Pem.Lawful`; `stat` answers whether a file is there.

  * `Phase` -- what the two files amount to: not there, a complete private key with what got out of
    its public part, or a state that no start loads a key from or repairs;
  * `initRSA_phase` -- one start takes the files from phase to phase as `Phase.next` says, and
    returns the key of the phase it ends in, if there is one and it can be read.
-/
import Cse303.Common.Err
import Mathlib.Logic.Function.Basic
import Mathlib.Data.List.Basic
import Mathlib.Data.List.Infix

namespace Cse303

/-! ## 1. The library -/

/-- A file system: the content of each file there is. -/
abbrev Fs := String → Option (List UInt8)

/-- The content of a file, once it is opened for writing or written. -/
def Fs.write (fs : Fs) (name : String) (text : List UInt8) : Fs :=
  Function.update fs name (some text)

@[simp] theorem Fs.write_same (fs : Fs) (name : String) (text : List UInt8) :
    fs.write name text name = some text := Function.update_self ..

theorem Fs.write_other (fs : Fs) {name name' : String} (text : List UInt8) (h : name' ≠ name) :
    fs.write name text name' = fs name' := Function.update_of_ne h ..

/-- The texts of keys `K`: `PEM_write_RSAPublicKey`, `PEM_write_RSAPrivateKey`, and what
    `PEM_read_RSAPrivateKey` makes of a text. -/
structure Pem (K : Type) where
  pubText : K → List UInt8
  priText : K → List UInt8
  readPri : List UInt8 → Option K

/-- What the code relies on: the complete encoding of a private key is read as that key, and nothing
    is read from an empty file. -/
structure Pem.Reads {K : Type} (P : Pem K) : Prop where
  read_complete : ∀ k, P.readPri (P.priText k) = some k
  empty : P.readPri [] = none

/-- Nor is anything read from a part of an encoding, without its END line. -/
structure Pem.Lawful {K : Type} (P : Pem K) : Prop extends P.Reads where
  part : ∀ k n, n < (P.priText k).length → P.readPri ((P.priText k).take n) = none

/-- How the calls of one start come out. -/
structure Calls (K : Type) where
  bnNew : Bool
  bnSetWord : Bool
  rsaNew : Bool
  /-- `RSA_generate_key_ex`: the new key -/
  generate : Option K
  openPub : Bool
  openPri : Bool
  /-- `PEM_write_RSAPublicKey`: `some n` for a failure with `n` bytes in the stream -/
  writePub : Option Nat
  writePri : Option Nat
  /-- the flush in `fclose`: `some n` for a failure behind `n` bytes -/
  flushPub : Option Nat
  flushPri : Option Nat
  /-- the `fopen` of `load_pri` -/
  openRead : Bool
  /-- `PEM_read_RSAPrivateKey` does not fail of itself -/
  read : Bool

variable {K : Type}

/-- What a call gets out of a text: all of it, or what it got out before it failed. -/
def cut (fails : Option Nat) (text : List UInt8) : List UInt8 :=
  match fails with
  | none => text
  | some n => text.take n

/-- It got out all of it. -/
def covers (fails : Option Nat) (text : List UInt8) : Bool :=
  match fails with
  | none => true
  | some n => decide (text.length ≤ n)

theorem cut_covers {fails : Option Nat} {text : List UInt8} (h : covers fails text = true) :
    cut fails text = text := by
  cases fails with
  | none => rfl
  | some n => exact List.take_of_length_le (of_decide_eq_true h)

theorem cut_front (fails : Option Nat) (text : List UInt8) : cut fails text <+: text := by
  cases fails with
  | none => exact List.prefix_rfl
  | some n => exact List.take_prefix n text

@[simp] theorem cut_nil (fails : Option Nat) : cut fails [] = [] := by
  cases fails with
  | none => rfl
  | some n => exact List.take_nil

/-! ## 2. The code -/

/-- What the two streams take: a failed write of the public key is the last. -/
def streams (P : Pem K) (rsa : K) : Option Nat → Option Nat → List UInt8 × List UInt8
  | some n, _ => ((P.pubText rsa).take n, [])
  | none, writePri => (P.pubText rsa, cut writePri (P.priText rsa))

/-- `generate_rsa_key_files`. The two `FILE`s are closed on every way out, the private one first. -/
def generateRsaKeyFiles (P : Pem K) (c : Calls K) (pub pri : String) (fs : Fs) : Ret Bool × Fs :=
  let cout : List Piece :=
    [.text "Generating RSA keys as (", .text pub, .text ", ", .text pri, .text ")\n"]
  let fail (msg : String) (fs : Fs) : Ret Bool × Fs :=
    (⟨false, cout ++ (err false [.text msg]).cout⟩, fs)
  if c.bnNew = false then fail "Error in BN_new()" fs
  else if c.bnSetWord = false then fail "Error in BN_set_word()" fs
  else if c.rsaNew = false then fail "Error in RSA_new()" fs
  else
    match c.generate with
    | none => fail "Error in RSA_genreate_key_ex()" fs
    | some rsa =>
      -- create or truncate the files
      if c.openPub = false then fail "Error opening public key file for output" fs
      else
        let fs := fs.write pub []
        if c.openPri = false then fail "Error opening private key file for output" fs
        else
          let fs := fs.write pri []
          let taken := streams P rsa c.writePub c.writePri
          let fs := (fs.write pri (cut c.flushPri taken.2)).write pub (cut c.flushPub taken.1)
          match c.writePub, c.writePri with
          | some _, _ => fail "Error writing public key" fs
          | none, some _ => fail "Error writing private key" fs
          | none, none => (⟨true, cout⟩, fs)

/-- `load_pri`. -/
def loadPri (P : Pem K) (c : Calls K) (filename : String) (fs : Fs) : Ret (Option K) :=
  match fs filename with
  | none => err none [.text "Error opening private key file"]
  | some text =>
    if c.openRead = false then err none [.text "Error opening private key file"]
    else
      match if c.read then P.readPri text else none with
      | none => err none [.text "Error reading public key file"]
      | some rsa => .quiet (some rsa)

/-- `basename + ".pub"`, `basename + ".pri"`. -/
def pubfile (basename : String) : String := basename ++ ".pub"
def prifile (basename : String) : String := basename ++ ".pri"

/-- `init_RSA`: what the generator returned is not looked at. -/
def initRSA (P : Pem K) (c : Calls K) (basename : String) (fs : Fs) : Ret (Option K) × Fs :=
  match (fs (pubfile basename)).isSome, (fs (prifile basename)).isSome with
  | false, false =>
    let g := generateRsaKeyFiles P c (pubfile basename) (prifile basename) fs
    let r := loadPri P c (prifile basename) g.2
    (⟨r.val, g.1.cout ++ r.cout⟩, g.2)
  | true, false => (err none [.text "Error: cannot find ", .text basename, .text ".pri"], fs)
  | false, true => (err none [.text "Error: cannot find ", .text basename, .text ".pub"], fs)
  | true, true => (loadPri P c (prifile basename) fs, fs)

theorem pubfile_ne_prifile (basename : String) : pubfile basename ≠ prifile basename :=
  fun h => absurd ((String.append_right_inj basename).mp h) (by decide)

/-! ## 3. What the two files amount to -/

/-- The state of the key pair; `pub` is what is there of the public part. -/
inductive Phase (K : Type) where
  | fresh
  | ready (k : K) (pub : List UInt8)
  | broken
  deriving DecidableEq, Repr

/-- **The files are in a phase.** -/
def InPhase (P : Pem K) (basename : String) (fs : Fs) : Phase K → Prop
  | .fresh => fs (pubfile basename) = none ∧ fs (prifile basename) = none
  | .ready k pub => fs (pubfile basename) = some pub ∧ fs (prifile basename) = some (P.priText k)
  | .broken => (fs (pubfile basename)).isSome = true ∧
      ∀ text, fs (prifile basename) = some text → P.readPri text = none

/-- The key for which a start creates `basename.pub`: nothing failed up to its `fopen`. -/
def Calls.creates (c : Calls K) : Option K :=
  if c.bnNew && c.bnSetWord && c.rsaNew && c.openPub then c.generate else none

/-- A start that created `basename.pub` completes `basename.pri`: no later call failed, or the write
    of the private key alone, with its whole text in the stream; and the flush gets that out. -/
def Calls.completes (P : Pem K) (c : Calls K) (k : K) : Bool :=
  c.openPri && c.writePub.isNone && covers c.writePri (P.priText k) &&
    covers c.flushPri (P.priText k)

/-- **What a start makes of a phase.** -/
def Phase.next (P : Pem K) (c : Calls K) : Phase K → Phase K
  | .fresh =>
    match c.creates with
    | none => .fresh
    | some k => if c.completes P k then .ready k (cut c.flushPub (P.pubText k)) else .broken
  | .ready k pub => .ready k pub
  | .broken => .broken

/-- What is there of the public part. -/
def Phase.pub : Phase K → List UInt8
  | .ready _ pub => pub
  | _ => []

/-- The key that can be had in a phase, by a start whose reading calls succeed. -/
def Phase.key (c : Calls K) : Phase K → Option K
  | .ready k _ => if c.openRead && c.read then some k else none
  | _ => none

/-- A complete private key stays, or comes from the start itself, with what that wrote of the public
    part. -/
theorem next_ready {P : Pem K} {c : Calls K} {ph : Phase K} {k : K} {pub : List UInt8}
    (h : ph.next P c = .ready k pub) :
    ph = .ready k pub ∨
      c.creates = some k ∧ c.completes P k = true ∧ pub = cut c.flushPub (P.pubText k) := by
  cases ph with
  | fresh =>
      unfold Phase.next at h
      cases hc : c.creates with
      | none =>
          rw [hc] at h
          cases h
      | some k' =>
          simp only [hc] at h
          split at h
          · rename_i hall
            obtain ⟨rfl, rfl⟩ := Phase.ready.inj h
            exact .inr ⟨rfl, hall, rfl⟩
          · cases h
  | ready k' pub' => exact .inl h
  | broken => cases h

/-! ## 4. One start -/

theorem creates_some {c : Calls K} {k : K} (h : c.creates = some k) :
    c.bnNew = true ∧ c.bnSetWord = true ∧ c.rsaNew = true ∧ c.openPub = true ∧
      c.generate = some k := by
  unfold Calls.creates at h
  split at h
  · rename_i hall
    simp only [Bool.and_eq_true] at hall
    exact ⟨hall.1.1.1, hall.1.1.2, hall.1.2, hall.2, h⟩
  · cases h

/-- **A start that does not create `basename.pub`** leaves the files as they were. -/
theorem generate_none {P : Pem K} {c : Calls K} (h : c.creates = none) (pub pri : String)
    (fs : Fs) :
    (generateRsaKeyFiles P c pub pri fs).2 = fs ∧
      (generateRsaKeyFiles P c pub pri fs).1.val = false := by
  unfold generateRsaKeyFiles
  by_cases h₁ : c.bnNew = false
  · rw [if_pos h₁]
    exact ⟨rfl, rfl⟩
  by_cases h₂ : c.bnSetWord = false
  · rw [if_neg h₁, if_pos h₂]
    exact ⟨rfl, rfl⟩
  by_cases h₃ : c.rsaNew = false
  · rw [if_neg h₁, if_neg h₂, if_pos h₃]
    exact ⟨rfl, rfl⟩
  rw [if_neg h₁, if_neg h₂, if_neg h₃]
  cases hgen : c.generate with
  | none => exact ⟨rfl, rfl⟩
  | some k =>
      by_cases h₄ : c.openPub = false
      · simp [h₄]
      · have hall : c.creates = some k := by
          simp only [Bool.not_eq_false] at h₁ h₂ h₃ h₄
          simp only [Calls.creates, h₁, h₂, h₃, h₄, hgen, Bool.and_self, if_true]
        rw [h] at hall
        cases hall

/-- A start that does create it: what it leaves. -/
theorem generate_some {P : Pem K} {c : Calls K} {k : K} (h : c.creates = some k)
    (pub pri : String) (fs : Fs) :
    (generateRsaKeyFiles P c pub pri fs).2 =
      if c.openPri = false then fs.write pub []
      else
        (((fs.write pub []).write pri []).write pri
          (cut c.flushPri (streams P k c.writePub c.writePri).2)).write pub
            (cut c.flushPub (streams P k c.writePub c.writePri).1) := by
  obtain ⟨h₁, h₂, h₃, h₄, hgen⟩ := creates_some h
  unfold generateRsaKeyFiles
  simp only [h₁, h₂, h₃, h₄, hgen, Bool.true_eq_false, if_false]
  by_cases h₅ : c.openPri = false
  · simp only [if_pos h₅]
  · simp only [if_neg h₅]
    cases c.writePub with
    | some n => rfl
    | none => cases c.writePri <;> rfl

/-- Such a start wrote the public part without a failure. -/
theorem writePub_of_completes {P : Pem K} {c : Calls K} {k : K} (h : c.completes P k = true) :
    c.writePub = none := by
  simp only [Calls.completes, Bool.and_eq_true, Option.isNone_iff_eq_none] at h
  exact h.1.1.2

/-- Behind both `fopen`s, the writes and the flush decide. -/
theorem completes_eq (P : Pem K) (c : Calls K) (k : K) (h : c.openPri = true) :
    c.completes P k =
      (c.writePub.isNone && covers c.writePri (P.priText k) && covers c.flushPri (P.priText k)) := by
  rw [Calls.completes, h, Bool.true_and]

section Phase

variable {P : Pem K} (hP : P.Lawful)
include hP

/-- What two calls get out of an encoding is a key only if both get out all of it. -/
theorem readPri_cut {k : K} {fails fails' : Option Nat}
    (h : (covers fails (P.priText k) && covers fails' (P.priText k)) = false) :
    P.readPri (cut fails' (cut fails (P.priText k))) = none := by
  have hfront : cut fails' (cut fails (P.priText k)) <+: P.priText k :=
    (cut_front fails' _).trans (cut_front fails _)
  rw [List.prefix_iff_eq_take.mp hfront]
  refine hP.part k _ (Nat.lt_of_not_le fun hlen => ?_)
  have hfirst : (P.priText k).length ≤ (cut fails (P.priText k)).length :=
    hlen.trans (cut_front fails' _).length_le
  have hall : cut fails (P.priText k) = P.priText k :=
    (cut_front fails _).eq_of_length_le hfirst
  rw [hall] at hlen
  have hcovers {n : Option Nat} (h : (P.priText k).length ≤ (cut n (P.priText k)).length) :
      covers n (P.priText k) = true := by
    cases n with
    | none => rfl
    | some n =>
        rw [cut, List.length_take] at h
        exact decide_eq_true (h.trans (Nat.min_le_left _ _))
  rw [hcovers hfirst, hcovers hlen] at h
  cases h

/-- **The phase a start leaves behind that created `basename.pub`.** -/
theorem generate_phase {c : Calls K} {k : K} (h : c.creates = some k) {basename : String} {fs : Fs}
    (hpri : fs (prifile basename) = none) :
    InPhase P basename (generateRsaKeyFiles P c (pubfile basename) (prifile basename) fs).2
      (if c.completes P k then .ready k (cut c.flushPub (P.pubText k)) else .broken) := by
  have hne := pubfile_ne_prifile basename
  rw [generate_some h]
  by_cases h₅ : c.openPri = false
  · have hnot : c.completes P k = false := by simp [Calls.completes, h₅]
    rw [if_pos h₅, hnot]
    show InPhase P basename (fs.write (pubfile basename) []) .broken
    refine ⟨by rw [Fs.write_same]; rfl, fun text htext => ?_⟩
    rw [Fs.write_other _ _ hne.symm, hpri] at htext
    cases htext
  · rw [if_neg h₅, completes_eq P c k (Bool.not_eq_false _ ▸ h₅)]
    cases h₆ : c.writePub with
    | some n =>
        show InPhase P basename (Fs.write _ (pubfile basename) _) .broken
        refine ⟨by rw [Fs.write_same]; rfl, fun text htext => ?_⟩
        rw [Fs.write_other _ _ hne.symm, Fs.write_same] at htext
        rw [← Option.some.inj htext]
        show P.readPri (cut c.flushPri []) = none
        rw [cut_nil]
        exact hP.empty
    | none =>
        have htaken : streams P k none c.writePri =
            (P.pubText k, cut c.writePri (P.priText k)) := rfl
        rw [htaken, Option.isNone_none, Bool.true_and]
        by_cases hall : (covers c.writePri (P.priText k) && covers c.flushPri (P.priText k)) = true
        · rw [if_pos hall]
          rw [Bool.and_eq_true] at hall
          refine ⟨Fs.write_same .., ?_⟩
          rw [Fs.write_other _ _ hne.symm, Fs.write_same, cut_covers hall.1, cut_covers hall.2]
        · rw [if_neg hall]
          refine ⟨by rw [Fs.write_same]; rfl, fun text htext => ?_⟩
          rw [Fs.write_other _ _ hne.symm, Fs.write_same] at htext
          rw [← Option.some.inj htext]
          exact readPri_cut hP (Bool.not_eq_true _ ▸ hall)

/-- What a start loads in a phase. -/
theorem loadPri_phase (c : Calls K) {basename : String} {fs : Fs} {ph : Phase K}
    (h : InPhase P basename fs ph) : (loadPri P c (prifile basename) fs).val = ph.key c := by
  unfold loadPri
  cases ph with
  | fresh =>
      rw [h.2]
      rfl
  | ready k pub =>
      rw [h.2]
      by_cases hopen : c.openRead = false
      · simp [Phase.key, hopen]
      · by_cases hread : c.read = true
        · simp [Phase.key, hopen, hread, hP.read_complete]
        · simp [Phase.key, hopen, hread]
  | broken =>
      cases htext : fs (prifile basename) with
      | none => rfl
      | some text =>
          have hnone : (if c.read then P.readPri text else none) = none := by
            rw [h.2 text htext]
            split <;> rfl
          by_cases hopen : c.openRead = false
          · simp [Phase.key, hopen]
          · simp [Phase.key, hopen, hnone]

/-- **ONE START**, in terms of phases: where it leaves the files, and what it returns. -/
theorem initRSA_phase (c : Calls K) {basename : String} {fs : Fs} {ph : Phase K}
    (h : InPhase P basename fs ph) :
    InPhase P basename (initRSA P c basename fs).2 (ph.next P c) ∧
      (initRSA P c basename fs).1.val = (ph.next P c).key c := by
  unfold initRSA
  cases ph with
  | fresh =>
      rw [h.1, h.2]
      have hphase : InPhase P basename
          (generateRsaKeyFiles P c (pubfile basename) (prifile basename) fs).2
          (Phase.next P c .fresh) := by
        unfold Phase.next
        cases hc : c.creates with
        | none =>
            rw [(generate_none hc _ _ fs).1]
            exact h
        | some k => exact generate_phase hP hc h.2
      exact ⟨hphase, loadPri_phase hP c hphase⟩
  | ready k pub =>
      rw [h.1, h.2]
      exact ⟨h, loadPri_phase hP c h⟩
  | broken =>
      rw [h.1]
      cases htext : fs (prifile basename) with
      | none => exact ⟨h, rfl⟩
      | some text => exact ⟨h, loadPri_phase hP c h⟩

end Phase

/-! ## 5. The public part, at a client -/

/-- `load_pub`, with what `PEM_read_RSAPublicKey` makes of a text; `opens` and `reads` are false for
    an `fopen` and a read that fail of themselves. -/
def loadPub (readPub : List UInt8 → Option K) (opens reads : Bool) (filename : String) (fs : Fs) :
    Ret (Option K) :=
  match fs filename with
  | none => err none [.text "Error opening public key file"]
  | some text =>
    if opens = false then err none [.text "Error opening public key file"]
    else
      match if reads then readPub text else none with
      | none => err none [.text "Error reading public key file"]
      | some rsa => .quiet (some rsa)

end Cse303
