/-
  File:      Cse303/Common/KeyRace.lean
  Subject:   SEVERAL SERVERS STARTED AT ONCE: `init_RSA` (crypto.cc), call by call, in any
             interleaving.

  Any number of processes run `init_RSA` with one basename. A process finds out with two `stat`s
  that it is the first, and another may find the same before either has created a file. The text of
  a key is shorter than a `FILE`'s buffer, so each stream is written out when it is closed, as far as
  the flush comes: the private one first, since its `ContextManager` is destructed first.

  * `race_file` -- each of the two files is what its writers made of it (Lib/Writers);
  * **`race_key`** -- so a key that a start returns was generated by one of them, and was completely
    written: no start reads a torn file, whatever the interleaving;
  * **`race_pair_iff`** -- once no start has a file open, the two files are a pair exactly if the
    key whose start closed `basename.pri` last is that whose start closed `basename.pub` last.
-/
import Cse303.Common.KeyBootstrap
import Cse303.Lib.Lts
import Cse303.Lib.Writers

namespace Cse303

open Writers (Ev overlay)

variable {K : Type}

/-! ## 1. The starts -/

/-- Where a start is in `init_RSA`. -/
inductive StartPc (K : Type) where
  | idle
  /-- the first `stat` is done -/
  | statPri (pubExists : Bool)
  | generating
  | openingPub (rsa : K)
  | openingPri (rsa : K)
  | writing (rsa : K)
  /-- on the way out of the generator, with what the streams took -/
  | closingPri (rsa : K) (pub pri : List UInt8)
  | closingPub (rsa : K) (pub : List UInt8)
  /-- at `load_pri` -/
  | loading
  | done (r : Option K)

/-- The files, and where each start is. -/
structure Race (K : Type) where
  fs : Fs
  pc : Nat → StartPc K

/-- The start `p` goes on, and leaves the files as given. -/
def Race.goto (x : Race K) (p : Nat) (pc : StartPc K) (fs : Fs) : Race K :=
  ⟨fs, Function.update x.pc p pc⟩

@[simp] theorem goto_fs (x : Race K) (p : Nat) (pc : StartPc K) (fs : Fs) :
    (x.goto p pc fs).fs = fs := rfl

@[simp] theorem goto_same (x : Race K) (p : Nat) (pc : StartPc K) (fs : Fs) :
    (x.goto p pc fs).pc p = pc := Function.update_self ..

theorem goto_other (x : Race K) {p q : Nat} (pc : StartPc K) (fs : Fs) (h : q ≠ p) :
    (x.goto p pc fs).pc q = x.pc q := Function.update_of_ne h ..

@[simp] theorem goto_goto (x : Race K) (p : Nat) (pc pc' : StartPc K) (fs fs' : Fs) :
    (x.goto p pc fs).goto p pc' fs' = x.goto p pc' fs' := by simp [Race.goto]

/-- The calls, with what they answered. -/
inductive RaceAct (K : Type) where
  | statPub (pubExists : Bool)
  | statPri (priExists : Bool)
  /-- up to `RSA_generate_key_ex`; none if one of the calls failed -/
  | generate (rsa : Option K)
  | openPub (rsa : K) (ok : Bool)
  | openPri (rsa : K) (ok : Bool)
  /-- the two writes: `some n` for a failure with `n` bytes taken -/
  | write (rsa : K) (pub pri : Option Nat)
  | closePri (rsa : K) (text : List UInt8)
  | closePub (rsa : K) (text : List UInt8)
  | load (r : Option K)
  deriving DecidableEq

/-- A stream is closed: what its flush gets out goes to the front of the file. -/
def Fs.flush (fs : Fs) (name : String) (text : List UInt8) : Fs :=
  Function.update fs name ((fs name).map (overlay text))

inductive RaceStep (P : Pem K) (basename : String) :
    Race K → Nat × RaceAct K → Race K → Prop where
  | statPub {x : Race K} {p : Nat} (h : x.pc p = .idle) :
      RaceStep P basename x (p, .statPub (x.fs (pubfile basename)).isSome)
        (x.goto p (.statPri (x.fs (pubfile basename)).isSome) x.fs)
  | neither {x : Race K} {p : Nat} (h : x.pc p = .statPri false)
      (hpri : (x.fs (prifile basename)).isSome = false) :
      RaceStep P basename x (p, .statPri false) (x.goto p .generating x.fs)
  | both {x : Race K} {p : Nat} (h : x.pc p = .statPri true)
      (hpri : (x.fs (prifile basename)).isSome = true) :
      RaceStep P basename x (p, .statPri true) (x.goto p .loading x.fs)
  -- one file without the other is an error
  | one {x : Race K} {p : Nat} {b : Bool} (h : x.pc p = .statPri b)
      (hpri : (x.fs (prifile basename)).isSome = !b) :
      RaceStep P basename x (p, .statPri !b) (x.goto p (.done none) x.fs)
  /- `generate_rsa_key_files`, whose result is not looked at -/
  | generateFails {x : Race K} {p : Nat} (h : x.pc p = .generating) :
      RaceStep P basename x (p, .generate none) (x.goto p .loading x.fs)
  | generate {x : Race K} {p : Nat} {rsa : K} (h : x.pc p = .generating) :
      RaceStep P basename x (p, .generate (some rsa)) (x.goto p (.openingPub rsa) x.fs)
  | openPubFails {x : Race K} {p : Nat} {rsa : K} (h : x.pc p = .openingPub rsa) :
      RaceStep P basename x (p, .openPub rsa false) (x.goto p .loading x.fs)
  | openPub {x : Race K} {p : Nat} {rsa : K} (h : x.pc p = .openingPub rsa) :
      RaceStep P basename x (p, .openPub rsa true)
        (x.goto p (.openingPri rsa) (x.fs.write (pubfile basename) []))
  | openPriFails {x : Race K} {p : Nat} {rsa : K} (h : x.pc p = .openingPri rsa) :
      RaceStep P basename x (p, .openPri rsa false) (x.goto p (.closingPub rsa []) x.fs)
  | openPri {x : Race K} {p : Nat} {rsa : K} (h : x.pc p = .openingPri rsa) :
      RaceStep P basename x (p, .openPri rsa true)
        (x.goto p (.writing rsa) (x.fs.write (prifile basename) []))
  | write {x : Race K} {p : Nat} {rsa : K} {pub pri : Option Nat} (h : x.pc p = .writing rsa) :
      RaceStep P basename x (p, .write rsa pub pri)
        (x.goto p (.closingPri rsa (streams P rsa pub pri).1 (streams P rsa pub pri).2) x.fs)
  | closePri {x : Race K} {p : Nat} {rsa : K} {pub pri : List UInt8} {flush : Option Nat}
      (h : x.pc p = .closingPri rsa pub pri) :
      RaceStep P basename x (p, .closePri rsa (cut flush pri))
        (x.goto p (.closingPub rsa pub) (x.fs.flush (prifile basename) (cut flush pri)))
  | closePub {x : Race K} {p : Nat} {rsa : K} {pub : List UInt8} {flush : Option Nat}
      (h : x.pc p = .closingPub rsa pub) :
      RaceStep P basename x (p, .closePub rsa (cut flush pub))
        (x.goto p .loading (x.fs.flush (pubfile basename) (cut flush pub)))
  /- `load_pri`; `ok` is false for an `fopen` or a read that fails of itself -/
  | load {x : Race K} {p : Nat} {r : Option K} {ok : Bool} (h : x.pc p = .loading)
      (hr : r = if ok then (x.fs (prifile basename)).bind P.readPri else none) :
      RaceStep P basename x (p, .load r) (x.goto p (.done r) x.fs)

/-- The starts as a transition system. -/
def race (P : Pem K) (basename : String) : Lts (Race K) (Nat × RaceAct K) := ⟨RaceStep P basename⟩

/-- No start has begun. -/
def Race.start (fs : Fs) : Race K := ⟨fs, fun _ => .idle⟩

/-! ## 2. Each of the two files -/

inductive KeyFile where
  | pub
  | pri
  deriving DecidableEq, Repr

def KeyFile.name (basename : String) : KeyFile → String
  | .pub => pubfile basename
  | .pri => prifile basename

/-- The complete text of a key. -/
def KeyFile.text (P : Pem K) : KeyFile → K → List UInt8
  | .pub => P.pubText
  | .pri => P.priText

/-- What a call does to the file: the writers go by their keys. -/
def KeyFile.event : KeyFile → RaceAct K → Option (Ev K UInt8)
  | .pub, .openPub rsa true => some (.trunc rsa)
  | .pub, .closePub rsa text => some (.flush rsa text)
  | .pri, .openPri rsa true => some (.trunc rsa)
  | .pri, .closePri rsa text => some (.flush rsa text)
  | _, _ => none

/-- What was done to it. -/
def KeyFile.events (f : KeyFile) (tr : List (Nat × RaceAct K)) : List (Ev K UInt8) :=
  tr.filterMap fun a => f.event a.2

/-- A start has it open. -/
def KeyFile.isOpen : KeyFile → StartPc K → Bool
  | .pub, .openingPri _ => true
  | .pub, .closingPub _ _ => true
  | _, .writing _ => true
  | _, .closingPri _ _ _ => true
  | _, _ => false

theorem events_snoc (f : KeyFile) (tr : List (Nat × RaceAct K)) (a : Nat × RaceAct K) :
    f.events (tr ++ [a]) = f.events tr ++ (f.event a.2).toList := by
  rw [KeyFile.events, List.filterMap_append]
  cases h : f.event a.2 <;> simp [KeyFile.events, h]

section File

variable {P : Pem K} {basename : String} {x y : Race K} {p : Nat} {a : RaceAct K}

/-- **The step lemma of the files**: a file changes by what its writers do, -/
theorem file_step (f : KeyFile) (h : RaceStep P basename x (p, a) y) :
    y.fs (f.name basename) =
      Writers.content (x.fs (f.name basename)) (f.event a).toList := by
  have hne := pubfile_ne_prifile basename
  cases h with
  | openPub _ =>
      cases f with
      | pub => exact Fs.write_same ..
      | pri => exact Fs.write_other _ _ hne.symm
  | openPri _ =>
      cases f with
      | pub => exact Fs.write_other _ _ hne
      | pri => exact Fs.write_same ..
  | closePri _ =>
      cases f with
      | pub => exact Function.update_of_ne hne ..
      | pri => exact Function.update_self ..
  | closePub _ =>
      cases f with
      | pub => exact Function.update_self ..
      | pri => exact Function.update_of_ne hne.symm ..
  | _ => cases f <;> rfl

/-- and a start that opens it keeps it open up to its close. -/
theorem open_step (f : KeyFile) (h : RaceStep P basename x (p, a) y) :
    (∀ rsa, f.event a = some (.trunc rsa) → f.isOpen (y.pc p) = true) ∧
      (f.event a = none → f.isOpen (x.pc p) = true → f.isOpen (y.pc p) = true) := by
  cases h <;> rw [goto_same] <;> refine ⟨?_, ?_⟩ <;> cases f <;>
    simp only [KeyFile.event, KeyFile.isOpen, *] <;> simp

/-- It has opened it before it closes it. -/
theorem opened_step (f : KeyFile) (h : RaceStep P basename x (p, a) y) :
    (f.isOpen (y.pc p) = true →
        f.isOpen (x.pc p) = true ∨ ∃ rsa, f.event a = some (.trunc rsa)) ∧
      ∀ rsa text, f.event a = some (.flush rsa text) → f.isOpen (x.pc p) = true := by
  cases h <;> rw [goto_same] <;> refine ⟨?_, ?_⟩ <;> cases f <;>
    simp only [KeyFile.event, KeyFile.isOpen, *] <;> simp

/-- The other starts stay where they are. -/
theorem race_other (h : RaceStep P basename x (p, a) y) {q : Nat} (hq : q ≠ p) :
    y.pc q = x.pc q := by
  cases h <;> exact goto_other _ _ _ hq

end File

/-- **The run lemma of the files**: each is what its writers made of it; and where a start opened it
    last, a start has it open. -/
theorem race_file {P : Pem K} {basename : String} {fs : Fs} {tr : List (Nat × RaceAct K)}
    {y : Race K} (h : (race P basename).Run (.start fs) tr y) (f : KeyFile) :
    y.fs (f.name basename) = Writers.content (fs (f.name basename)) (f.events tr) ∧
      ∀ rsa, (f.events tr).getLast? = some (.trunc rsa) → ∃ q, f.isOpen (y.pc q) = true := by
  refine h.traceInvariant (I := fun tr y =>
    y.fs (f.name basename) = Writers.content (fs (f.name basename)) (f.events tr) ∧
      ∀ rsa, (f.events tr).getLast? = some (.trunc rsa) → ∃ q, f.isOpen (y.pc q) = true)
    ⟨rfl, fun rsa hlast => by cases hlast⟩ ?_
  intro tr x ⟨p, a⟩ y _ ⟨hfile, hopen⟩ hs
  obtain ⟨htrunc, hkeep⟩ := open_step f hs
  refine ⟨?_, ?_⟩
  · rw [file_step f hs, hfile, events_snoc, Writers.content_append]
  · intro rsa hlast
    rw [events_snoc] at hlast
    cases hev : f.event a with
    | none =>
        rw [hev, Option.toList_none, List.append_nil] at hlast
        obtain ⟨q, hq⟩ := hopen rsa hlast
        by_cases hqp : q = p
        · subst hqp
          exact ⟨q, hkeep hev hq⟩
        · exact ⟨q, by rw [race_other hs hqp]; exact hq⟩
    | some e =>
        rw [hev, Option.toList_some, List.getLast?_concat] at hlast
        exact ⟨p, htrunc rsa (hev.trans hlast)⟩

/-- A file that a start has open, or had, is there. -/
theorem race_exists {P : Pem K} {basename : String} {fs : Fs} {tr : List (Nat × RaceAct K)}
    {y : Race K} (h : (race P basename).Run (.start fs) tr y) (f : KeyFile) :
    (∀ q, f.isOpen (y.pc q) = true → (y.fs (f.name basename)).isSome = true) ∧
      (f.events tr ≠ [] → (y.fs (f.name basename)).isSome = true) := by
  refine h.traceInvariant (I := fun tr y =>
    (∀ q, f.isOpen (y.pc q) = true → (y.fs (f.name basename)).isSome = true) ∧
      (f.events tr ≠ [] → (y.fs (f.name basename)).isSome = true))
    ⟨fun q hq => (by cases f <;> cases hq), fun hne => absurd rfl hne⟩ ?_
  intro tr x ⟨p, a⟩ y _ ⟨hopen, hevents⟩ hs
  obtain ⟨hopened, hflush⟩ := opened_step f hs
  have hfile := file_step f hs
  have htrunc {rsa : K} (hev : f.event a = some (.trunc rsa)) :
      (y.fs (f.name basename)).isSome = true := by
    rw [hfile, hev]
    rfl
  have hkeep (hx : (x.fs (f.name basename)).isSome = true) :
      (y.fs (f.name basename)).isSome = true := hfile ▸ Writers.content_isSome hx _
  refine ⟨fun q hq => ?_, fun hne => ?_⟩
  · by_cases hqp : q = p
    · subst hqp
      rcases hopened hq with hx | ⟨rsa, hev⟩
      · exact hkeep (hopen q hx)
      · exact htrunc hev
    · rw [race_other hs hqp] at hq
      exact hkeep (hopen q hq)
  · cases hev : f.event a with
    | none =>
        rw [events_snoc, hev, Option.toList_none, List.append_nil] at hne
        exact hkeep (hevents hne)
    | some e =>
        cases e with
        | trunc rsa => exact htrunc hev
        | flush rsa text => exact hkeep (hopen p (hflush rsa text hev))

/-! ## 3. The keys that are returned -/

/-- The reader stops at the END line: what begins with a complete encoding is read as that key. -/
structure Pem.Front (P : Pem K) : Prop extends P.Reads where
  front : ∀ k text, P.priText k <+: text → P.readPri text = some k

/-- Every stream of the file that was closed had taken the complete text: no write failed, nor did
    an `fopen` behind the one of `basename.pub`. -/
def KeyFile.Complete (f : KeyFile) (P : Pem K) (tr : List (Nat × RaceAct K)) : Prop :=
  ∀ rsa text, .flush rsa text ∈ f.events tr → text = f.text P rsa

/-- The key that a start has in hand. -/
def StartPc.key : StartPc K → Option K
  | .openingPub rsa => some rsa
  | .openingPri rsa => some rsa
  | .writing rsa => some rsa
  | .closingPri rsa _ _ => some rsa
  | .closingPub rsa _ => some rsa
  | _ => none

section Key

variable {P : Pem K} {basename : String} {x y : Race K} {p : Nat} {a : RaceAct K} {rsa : K}

/-- A start has the key in hand that it generated, -/
theorem key_step (h : RaceStep P basename x (p, a) y) (hy : (y.pc p).key = some rsa) :
    (x.pc p).key = some rsa ∨ a = .generate (some rsa) := by
  cases h with
  | @generate _ k _ =>
      rw [goto_same] at hy
      exact .inr (congrArg _ hy)
  | openPub hpc | openPriFails hpc | openPri hpc | write hpc | closePri hpc =>
      rw [goto_same] at hy
      rw [hpc]
      exact .inl hy
  | _ =>
      rw [goto_same] at hy
      cases hy

/-- and writes it. -/
theorem close_step {text : List UInt8} (h : RaceStep P basename x (p, .closePri rsa text) y) :
    (x.pc p).key = some rsa := by
  cases h with
  | closePri hpc =>
      rw [hpc]
      rfl

/-- What a start returns is what the file holds then. -/
theorem done_step (h : RaceStep P basename x (p, a) y) (hy : y.pc p = .done (some rsa)) :
    (x.fs (prifile basename)).bind P.readPri = some rsa := by
  cases h with
  | @load _ r ok _ hr =>
      rw [goto_same] at hy
      rw [StartPc.done.inj hy] at hr
      cases ok with
      | false => cases hr
      | true => exact hr.symm
  | _ =>
      rw [goto_same] at hy
      cases hy

theorem mem_events {tr : List (Nat × RaceAct K)} {text : List UInt8}
    (h : .flush rsa text ∈ KeyFile.pri.events tr) : ∃ q, (q, .closePri rsa text) ∈ tr := by
  obtain ⟨⟨q, a⟩, hmem, hev⟩ := List.mem_filterMap.mp h
  cases a with
  | closePri k t =>
      obtain ⟨rfl, rfl⟩ := Ev.flush.inj (Option.some.inj hev)
      exact ⟨q, hmem⟩
  | openPri k ok => cases ok <;> cases hev
  | _ => cases hev

end Key

variable {P : Pem K} {basename : String} {fs : Fs} {tr : List (Nat × RaceAct K)} {y : Race K}

/-- Keys in hand and keys written were generated by the same start. -/
theorem race_generated (h : (race P basename).Run (.start fs) tr y) :
    (∀ q rsa, (y.pc q).key = some rsa → (q, .generate (some rsa)) ∈ tr) ∧
      ∀ q rsa text, (q, .closePri rsa text) ∈ tr → (q, .generate (some rsa)) ∈ tr := by
  refine h.traceInvariant (I := fun tr y =>
    (∀ q rsa, (y.pc q).key = some rsa → (q, .generate (some rsa)) ∈ tr) ∧
      ∀ q rsa text, (q, .closePri rsa text) ∈ tr → (q, .generate (some rsa)) ∈ tr)
    ⟨fun _ _ => (nomatch ·), fun _ _ _ => (nomatch ·)⟩ ?_
  intro tr x ⟨p, a⟩ y _ ⟨hkey, hclosed⟩ hs
  refine ⟨fun q rsa hy => ?_, fun q rsa text hmem => ?_⟩
  · by_cases hq : q = p
    · subst hq
      rcases key_step hs hy with hx | rfl
      · exact List.mem_append_left _ (hkey q rsa hx)
      · exact List.mem_concat_self
    · rw [race_other hs hq] at hy
      exact List.mem_append_left _ (hkey q rsa hy)
  · rcases List.mem_append.mp hmem with hmem | hmem
    · exact List.mem_append_left _ (hclosed q rsa text hmem)
    · obtain ⟨rfl, rfl⟩ := Prod.mk.inj (List.mem_singleton.mp hmem)
      exact List.mem_append_left _ (hkey q rsa (close_step hs))

/-- What the file of the private key reads as at any point: a key that was completely written. -/
theorem read_closed (hP : P.Front) (hnone : fs (prifile basename) = none)
    (h : (race P basename).Run (.start fs) tr y) (hcomplete : KeyFile.pri.Complete P tr) {rsa : K}
    (hread : (y.fs (prifile basename)).bind P.readPri = some rsa) :
    ∃ q, (q, .closePri rsa (P.priText rsa)) ∈ tr := by
  obtain ⟨text, htext, hrsa⟩ := Option.bind_eq_some_iff.mp hread
  have hfile := (race_file h .pri).1
  have hcontent : Writers.content none (KeyFile.pri.events tr) = some text := by
    rw [← hnone, ← htext]
    exact hfile.symm
  rcases Writers.content_front hcontent with rfl | ⟨k, written, hflush, hfront⟩
  · rw [hP.empty] at hrsa
    cases hrsa
  · have hwritten : written = P.priText k := hcomplete k written hflush
    rw [hwritten] at hflush hfront
    rw [hP.front k text hfront] at hrsa
    rw [← Option.some.inj hrsa]
    exact mem_events hflush

/-- **NO START RETURNS A TORN KEY**, in any run of any number of starts on files that were not
    there: what it returns was generated by one of them and completely written to the file, as long
    as no start that writes fails halfway. -/
theorem race_key (hP : P.Front) (hnone : fs (prifile basename) = none)
    (h : (race P basename).Run (.start fs) tr y) (hcomplete : KeyFile.pri.Complete P tr) {p : Nat}
    {rsa : K} (hdone : y.pc p = .done (some rsa)) :
    ∃ q, (q, .generate (some rsa)) ∈ tr ∧ (q, .closePri rsa (P.priText rsa)) ∈ tr := by
  have hclosed : ∃ q, (q, .closePri rsa (P.priText rsa)) ∈ tr := by
    revert hcomplete p
    refine h.traceInvariant (I := fun tr y => KeyFile.pri.Complete P tr → ∀ {p : Nat},
      y.pc p = .done (some rsa) → ∃ q, (q, .closePri rsa (P.priText rsa)) ∈ tr)
      (fun _ _ hdone => by cases hdone) ?_
    intro tr x ⟨p, a⟩ y hrun hx hs hcomplete q hdone
    have hbefore : KeyFile.pri.Complete P tr := by
      intro k text hmem
      refine hcomplete k text ?_
      rw [events_snoc]
      exact List.mem_append_left _ hmem
    have hmem : ∃ q, (q, .closePri rsa (P.priText rsa)) ∈ tr := by
      by_cases hq : q = p
      · subst hq
        exact read_closed hP hnone hrun hbefore (done_step hs hdone)
      · exact hx hbefore ((race_other hs hq).symm.trans hdone)
    obtain ⟨q, hmem⟩ := hmem
    exact ⟨q, List.mem_append_left _ hmem⟩
  obtain ⟨q, hmem⟩ := hclosed
  exact ⟨q, (race_generated h).2 q rsa _ hmem, hmem⟩

/-- Two keys, each with a text of one byte. -/
def pemBits : Pem Bool where
  pubText b := [if b then 1 else 0]
  priText b := [if b then 1 else 0]
  readPri
    | 0 :: _ => some false
    | 1 :: _ => some true
    | _ => none

theorem pemBits_front : pemBits.Front where
  read_complete k := by cases k <;> rfl
  empty := rfl
  front := by
    rintro k text ⟨rest, rfl⟩
    cases k <;> rfl

/-- Two starts, and no others. -/
def twoStarts (a b : StartPc Bool) (fs : Fs) : Race Bool :=
  ⟨fs, fun
    | 0 => a
    | 1 => b
    | _ => .idle⟩

theorem goto_zero (a b a' : StartPc Bool) (fs fs' : Fs) :
    (twoStarts a b fs).goto 0 a' fs' = twoStarts a' b fs' := by
  refine congrArg (Race.mk fs') (funext fun q => ?_)
  rcases q with _ | _ | q <;> rfl

theorem goto_one (a b b' : StartPc Bool) (fs fs' : Fs) :
    (twoStarts a b fs).goto 1 b' fs' = twoStarts a b' fs' := by
  refine congrArg (Race.mk fs') (funext fun q => ?_)
  rcases q with _ | _ | q <;> rfl

section TwoStarts

variable {a b pc : StartPc Bool} {fs fs' : Fs} {tr : List (Nat × RaceAct Bool)} {x : Race Bool}
  {act : RaceAct Bool}

theorem step_zero (h : (race pemBits "rsa").Run x tr (twoStarts a b fs))
    (hs : RaceStep pemBits "rsa" (twoStarts a b fs) (0, act) ((twoStarts a b fs).goto 0 pc fs')) :
    (race pemBits "rsa").Run x (tr ++ [(0, act)]) (twoStarts pc b fs') := goto_zero .. ▸ h.step hs

theorem step_one (h : (race pemBits "rsa").Run x tr (twoStarts a b fs))
    (hs : RaceStep pemBits "rsa" (twoStarts a b fs) (1, act) ((twoStarts a b fs).goto 1 pc fs')) :
    (race pemBits "rsa").Run x (tr ++ [(1, act)]) (twoStarts a pc fs') := goto_one .. ▸ h.step hs

end TwoStarts

/-- No file is there. -/
def noFiles : Fs := fun _ => none

/-- Both find no file, and the one that closes `basename.pri` last closes `basename.pub` first. -/
def clash : List (Nat × RaceAct Bool) :=
  [(0, .statPub false), (1, .statPub false), (0, .statPri false), (1, .statPri false),
    (0, .generate (some false)), (1, .generate (some true)), (0, .openPub false true),
    (1, .openPub true true), (0, .openPri false true), (1, .openPri true true),
    (0, .write false none none), (1, .write true none none), (0, .closePri false [0]),
    (1, .closePri true [1]), (1, .closePub true [1]), (0, .closePub false [0])]

/-- The files that they leave. -/
def clashFs : Fs :=
  (((((((noFiles.write (pubfile "rsa") []).write (pubfile "rsa") []).write (prifile "rsa") []).write
    (prifile "rsa") []).flush (prifile "rsa") [0]).flush (prifile "rsa") [1]).flush
      (pubfile "rsa") [1]).flush (pubfile "rsa") [0]

theorem clash_run : (race pemBits "rsa").Run (.start noFiles) clash
    (twoStarts .loading .loading clashFs) := by
  have hstart : Race.start noFiles = twoStarts .idle .idle noFiles :=
    congrArg (Race.mk _) (funext fun q => by rcases q with _ | _ | q <;> rfl)
  rw [hstart]
  have h₀ : (race pemBits "rsa").Run (twoStarts .idle .idle noFiles) []
      (twoStarts .idle .idle noFiles) := .start
  have h₁ := step_zero h₀ (.statPub rfl)
  have h₂ := step_one h₁ (.statPub rfl)
  have h₃ := step_zero h₂ (.neither rfl rfl)
  have h₄ := step_one h₃ (.neither rfl rfl)
  have h₅ := step_zero h₄ (@RaceStep.generate _ _ _ _ _ false rfl)
  have h₆ := step_one h₅ (@RaceStep.generate _ _ _ _ _ true rfl)
  have h₇ := step_zero h₆ (.openPub rfl)
  have h₈ := step_one h₇ (.openPub rfl)
  have h₉ := step_zero h₈ (.openPri rfl)
  have h₁₀ := step_one h₉ (.openPri rfl)
  have h₁₁ := step_zero h₁₀ (@RaceStep.write _ _ _ _ _ _ none none rfl)
  have h₁₂ := step_one h₁₁ (@RaceStep.write _ _ _ _ _ _ none none rfl)
  have h₁₃ := step_zero h₁₂ (@RaceStep.closePri _ _ _ _ _ _ _ _ none rfl)
  have h₁₄ := step_one h₁₃ (@RaceStep.closePri _ _ _ _ _ _ _ _ none rfl)
  have h₁₅ := step_one h₁₄ (@RaceStep.closePub _ _ _ _ _ _ _ none rfl)
  exact step_zero h₁₅ (@RaceStep.closePub _ _ _ _ _ _ _ none rfl)

theorem clash_complete (f : KeyFile) : f.Complete pemBits clash := by
  intro rsa text hmem
  cases f with
  | pub =>
      have hmem : Ev.flush rsa text ∈
        [Ev.trunc false, .trunc true, .flush true [1], .flush false [0]] := hmem
      simp only [List.mem_cons, List.not_mem_nil, or_false, reduceCtorEq, false_or,
        Ev.flush.injEq] at hmem
      rcases hmem with ⟨rfl, rfl⟩ | ⟨rfl, rfl⟩ <;> rfl
  | pri =>
      have hmem : Ev.flush rsa text ∈
        [Ev.trunc false, .trunc true, .flush false [0], .flush true [1]] := hmem
      simp only [List.mem_cons, List.not_mem_nil, or_false, reduceCtorEq, false_or,
        Ev.flush.injEq] at hmem
      rcases hmem with ⟨rfl, rfl⟩ | ⟨rfl, rfl⟩ <;> rfl

/-- The statement for a start that loses the race: it returns the other's key. -/
theorem race_key_clash : ∃ tr y, (race pemBits "rsa").Run (.start noFiles) tr y ∧
    y.pc 0 = .done (some true) ∧ (0, .generate (some false)) ∈ tr ∧
      ∃ q, (q, .generate (some true)) ∈ tr ∧ (q, .closePri true [1]) ∈ tr := by
  have hpri : clashFs (prifile "rsa") = some [1] := by
    have hne := (pubfile_ne_prifile "rsa").symm
    simp only [clashFs, Fs.flush, Function.update_self, Function.update_of_ne hne, Fs.write_same]
    rfl
  have hload : RaceStep pemBits "rsa" (twoStarts .loading .loading clashFs) (0, .load (some true))
      ((twoStarts .loading .loading clashFs).goto 0 (.done (some true)) clashFs) := by
    refine @RaceStep.load _ _ _ _ _ _ true rfl ?_
    show some true = (clashFs (prifile "rsa")).bind pemBits.readPri
    rw [hpri]
    rfl
  have hrun := step_zero clash_run hload
  have hcomplete : KeyFile.pri.Complete pemBits (clash ++ [(0, .load (some true))]) := by
    intro rsa text hmem
    rw [events_snoc] at hmem
    exact clash_complete .pri rsa text (by simpa [KeyFile.event] using hmem)
  exact ⟨_, _, hrun, rfl, by decide, race_key (p := 0) pemBits_front rfl hrun hcomplete rfl⟩

/-! ## 4. The pair that is left -/

/-- The reader of each file; that of public keys is a parameter. -/
def KeyFile.read (P : Pem K) (readPub : List UInt8 → Option K) : KeyFile → List UInt8 → Option K
  | .pub => readPub
  | .pri => P.readPri

/-- The key whose start closed the file last. -/
def KeyFile.lastClosed (f : KeyFile) (tr : List (Nat × RaceAct K)) : Option K :=
  match (f.events tr).getLast? with
  | some (.flush rsa _) => some rsa
  | _ => none

/-- No start has a file open. -/
def Race.Settled (y : Race K) : Prop := ∀ (f : KeyFile) (q : Nat), f.isOpen (y.pc q) = false

/-- The two files hold the two parts of one key. -/
def Paired (P : Pem K) (readPub : List UInt8 → Option K) (basename : String) (fs : Fs) : Prop :=
  ∃ rsa, (fs (pubfile basename)).bind readPub = some rsa ∧
    (fs (prifile basename)).bind P.readPri = some rsa

/-- **What a file reads as** when no start has it open. -/
theorem settled_read {readPub : List UInt8 → Option K} {f : KeyFile}
    (hfront : ∀ k text, f.text P k <+: text → f.read P readPub text = some k)
    (hnone : fs (f.name basename) = none) (h : (race P basename).Run (.start fs) tr y)
    (hcomplete : f.Complete P tr) (hsettled : y.Settled) :
    (y.fs (f.name basename)).bind (f.read P readPub) = f.lastClosed tr := by
  obtain ⟨hfile, hopen⟩ := race_file h f
  have hexists := (race_exists h f).2
  rw [hnone] at hfile
  rcases List.eq_nil_or_concat (f.events tr) with hnil | ⟨es, e, hconcat⟩
  · rw [KeyFile.lastClosed, hfile, hnil]
    rfl
  · rw [List.concat_eq_append] at hconcat
    have hlast : (f.events tr).getLast? = some e := by rw [hconcat, List.getLast?_concat]
    cases e with
    | trunc rsa =>
        obtain ⟨q, hq⟩ := hopen rsa hlast
        rw [hsettled f q] at hq
        cases hq
    | flush rsa text =>
        obtain ⟨c, hc⟩ := Option.isSome_iff_exists.mp (hexists (by simp [hconcat]))
        have htext : text = f.text P rsa := hcomplete rsa text (hconcat ▸ List.mem_concat_self)
        have hprefix : text <+: c := Writers.content_flush (hconcat ▸ hfile.symm.trans hc)
        rw [hc, Option.bind_some, hfront rsa c (htext ▸ hprefix), KeyFile.lastClosed, hlast]

/-- **WHEN THE PAIR IS ONE**, for every interleaving of any number of starts on files that were not
    there, once no start has a file open: exactly if the start that closed `basename.pri` last and
    the one that closed `basename.pub` last have the same key. -/
theorem race_pair_iff {readPub : List UInt8 → Option K} (hpri : P.Front)
    (hpub : ∀ k text, P.pubText k <+: text → readPub text = some k)
    (hnone : fs (pubfile basename) = none ∧ fs (prifile basename) = none)
    (h : (race P basename).Run (.start fs) tr y) (hcomplete : ∀ f : KeyFile, f.Complete P tr)
    (hsettled : y.Settled) :
    Paired P readPub basename y.fs ↔
      ∃ rsa, KeyFile.pub.lastClosed tr = some rsa ∧ KeyFile.pri.lastClosed tr = some rsa := by
  have hreadPub : (y.fs (pubfile basename)).bind (KeyFile.pub.read P readPub) = _ :=
    settled_read (f := .pub) hpub hnone.1 h (hcomplete .pub) hsettled
  have hreadPri : (y.fs (prifile basename)).bind (KeyFile.pri.read P readPub) = _ :=
    settled_read (f := .pri) hpri.front hnone.2 h (hcomplete .pri) hsettled
  rw [← hreadPub, ← hreadPri]
  exact Iff.rfl

/-- **Two starts at once can leave the parts of two keys**, with every call successful. -/
theorem race_pair_iff_clash : ∃ tr y, (race pemBits "rsa").Run (.start noFiles) tr y ∧
    y.Settled ∧ ¬ Paired pemBits pemBits.readPri "rsa" y.fs := by
  have hsettled : (twoStarts .loading .loading clashFs).Settled := by
    intro f q
    rcases q with _ | _ | q <;> cases f <;> rfl
  refine ⟨_, _, clash_run, hsettled, ?_⟩
  refine (race_pair_iff pemBits_front pemBits_front.front ⟨rfl, rfl⟩ clash_run clash_complete
    hsettled).not.mpr ?_
  decide

end Cse303
