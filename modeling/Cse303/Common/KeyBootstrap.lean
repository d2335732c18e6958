/-
  File:      Cse303/Common/KeyBootstrap.lean
  Subject:   THE KEY FILES OVER ANY NUMBER OF SERVER STARTS (crypto.cc).

  A history is any sequence of starts, each with its own failing calls, and of steps of others that
  leave the two files alone.

  * `keyFiles_refines`, `files_phase` -- the files do what the phases do, so after a history they are
    in the phase that the starts' failures lead to, one after the other;
  * **`keyPair_kept`** -- a key that a start returns is the one `basename.pub` belongs to, and from
    then on the files and the key stay as they are;
  * `Recovers` -- the failure patterns that leave the next start a way to a key;
  * **`bootstrap_iff`** -- a start without failures returns a key exactly after those; after the
    others no start ever does.
-/
import Cse303.Common.KeyFiles
import Cse303.Lib.Lts

namespace Cse303

variable {K : Type}

/-! ## 1. Histories -/

/-- A start, with how its calls came out and what it returned and printed; or a step of another. -/
inductive KeyAct (K : Type) where
  | start (c : Calls K) (r : Ret (Option K))
  | other

/-- Only `init_RSA` touches the two files. -/
inductive KeyStep (P : Pem K) (basename : String) : Fs → KeyAct K → Fs → Prop where
  | start {fs : Fs} {c : Calls K} :
      KeyStep P basename fs (.start c (initRSA P c basename fs).1) (initRSA P c basename fs).2
  | other {fs fs' : Fs} (hpub : fs' (pubfile basename) = fs (pubfile basename))
      (hpri : fs' (prifile basename) = fs (prifile basename)) :
      KeyStep P basename fs .other fs'

/-- The files over time. -/
def keyFiles (P : Pem K) (basename : String) : Lts Fs (KeyAct K) := ⟨KeyStep P basename⟩

/-- The starts of a history. -/
def starts (tr : List (KeyAct K)) : List (Calls K) :=
  tr.filterMap fun
    | .start c _ => some c
    | .other => none

theorem starts_snoc (tr : List (KeyAct K)) (c : Calls K) (r : Ret (Option K)) :
    starts (tr ++ [.start c r]) = starts tr ++ [c] := by
  rw [starts, List.filterMap_append]
  rfl

theorem starts_other (tr : List (KeyAct K)) : starts (tr ++ [.other]) = starts tr := by
  rw [starts, List.filterMap_append]
  exact List.append_nil _

/-- The phase that a sequence of starts leads to. -/
def phaseAfter (P : Pem K) (ph : Phase K) (cs : List (Calls K)) : Phase K :=
  cs.foldl (fun ph c => ph.next P c) ph

theorem phaseAfter_ready (P : Pem K) (k : K) (pub : List UInt8) (cs : List (Calls K)) :
    phaseAfter P (.ready k pub) cs = .ready k pub := by
  induction cs with
  | nil => rfl
  | cons c cs ih => exact ih

theorem phaseAfter_broken (P : Pem K) (cs : List (Calls K)) :
    phaseAfter P .broken cs = .broken := by
  induction cs with
  | nil => rfl
  | cons c cs ih => exact ih

/-- The files of others do not matter. -/
theorem inPhase_other {P : Pem K} {basename : String} {fs fs' : Fs} {ph : Phase K}
    (h : InPhase P basename fs ph) (hpub : fs' (pubfile basename) = fs (pubfile basename))
    (hpri : fs' (prifile basename) = fs (prifile basename)) : InPhase P basename fs' ph := by
  cases ph with
  | fresh => exact ⟨hpub.trans h.1, hpri.trans h.2⟩
  | ready k pub => exact ⟨hpub.trans h.1, hpri.trans h.2⟩
  | broken => exact ⟨hpub ▸ h.1, fun text htext => h.2 text (hpri ▸ htext)⟩

/-- What the starts do, in terms of phases. -/
inductive PhaseStep (P : Pem K) : Phase K → KeyAct K → Phase K → Prop where
  | start {ph : Phase K} {c : Calls K} {r : Ret (Option K)} (h : r.val = (ph.next P c).key c) :
      PhaseStep P ph (.start c r) (ph.next P c)
  | other {ph : Phase K} : PhaseStep P ph .other ph

/-- The phases over time. -/
def phases (P : Pem K) : Lts (Phase K) (KeyAct K) := ⟨PhaseStep P⟩

/-- The phase a run of phases ends in. -/
theorem phases_run {P : Pem K} {ph ph' : Phase K} {tr : List (KeyAct K)}
    (h : (phases P).Run ph tr ph') : ph' = phaseAfter P ph (starts tr) := by
  induction h with
  | start => rfl
  | step _ hs ih =>
      cases hs with
      | start _ =>
          rw [starts_snoc, phaseAfter, List.foldl_append, ih]
          rfl
      | other =>
          rw [starts_other]
          exact ih

/-- From a phase that no start changes, every start returns what that phase gives. -/
theorem phases_fixed {P : Pem K} {ph ph' : Phase K} {tr : List (KeyAct K)}
    (h : (phases P).Run ph tr ph') (hph : ∀ c, ph.next P c = ph) :
    ph' = ph ∧ ∀ c r, .start c r ∈ tr → r.val = ph.key c := by
  induction h with
  | start => exact ⟨rfl, fun c r hmem => absurd hmem List.not_mem_nil⟩
  | step _ hs ih =>
      obtain ⟨rfl, hres⟩ := ih
      cases hs with
      | @start c r hr =>
          refine ⟨hph c, fun c' r' hmem => ?_⟩
          rcases List.mem_append.mp hmem with hmem | hmem
          · exact hres c' r' hmem
          · obtain ⟨rfl, rfl⟩ := KeyAct.start.inj (List.mem_singleton.mp hmem)
            rw [hr, hph]
      | other =>
          refine ⟨rfl, fun c' r' hmem => ?_⟩
          rcases List.mem_append.mp hmem with hmem | hmem
          · exact hres c' r' hmem
          · cases List.mem_singleton.mp hmem

section History

variable {P : Pem K} (hP : P.Lawful) {basename : String}
include hP

/-- **The files do what the phases do**, start by start. -/
theorem keyFiles_refines : Lts.Refines (keyFiles P basename) (phases P) (InPhase P basename) := by
  intro fs ph a fs' hin hs
  cases hs with
  | @start c =>
      obtain ⟨hin', hval⟩ := initRSA_phase hP c hin
      exact ⟨_, .start hval, hin'⟩
  | other hpub hpri => exact ⟨ph, .other, inPhase_other hin hpub hpri⟩

/-- **The phase after a history.** -/
theorem files_phase {fs fs' : Fs} {tr : List (KeyAct K)}
    (h : (keyFiles P basename).Run fs tr fs') (ph : Phase K) (h0 : InPhase P basename fs ph) :
    InPhase P basename fs' (phaseAfter P ph (starts tr)) := by
  obtain ⟨ph', hrun, hin⟩ := h.refine (keyFiles_refines hP) h0
  exact phases_run hrun ▸ hin

/-- What the starts of a history return, once the files are complete or can no longer be. -/
theorem results_phase {fs fs' : Fs} {ph : Phase K} {tr : List (KeyAct K)}
    (h : (keyFiles P basename).Run fs tr fs') (h0 : InPhase P basename fs ph)
    (hph : ∀ c, ph.next P c = ph) :
    InPhase P basename fs' ph ∧ ∀ c r, .start c r ∈ tr → r.val = ph.key c := by
  obtain ⟨ph', hrun, hin⟩ := h.refine (keyFiles_refines hP) h0
  obtain ⟨rfl, hres⟩ := phases_fixed hrun hph
  exact ⟨hin, hres⟩

end History

/-! ## 2. The pair is kept -/

/-- A key comes from a complete private key alone. -/
theorem key_some {ph : Phase K} {c : Calls K} {k : K} (h : ph.key c = some k) :
    ∃ pub, ph = .ready k pub := by
  cases ph with
  | ready k' pub =>
      simp only [Phase.key] at h
      split at h
      · exact ⟨pub, by rw [Option.some.inj h]⟩
      · cases h
  | fresh => cases h
  | broken => cases h

/-- What there is of a public part, a start of the history wrote. -/
theorem phaseAfter_pub {P : Pem K} {cs : List (Calls K)} {k : K} {pub : List UInt8}
    (h : phaseAfter P .fresh cs = .ready k pub) :
    ∃ c ∈ cs, c.creates = some k ∧ c.completes P k = true ∧
      pub = cut c.flushPub (P.pubText k) := by
  induction cs using List.reverseRecOn with
  | nil => cases h
  | append_singleton cs c ih =>
      rw [phaseAfter, List.foldl_append] at h
      rcases next_ready h with h | h
      · obtain ⟨c', hmem, hall⟩ := ih h
        exact ⟨c', List.mem_append_left _ hmem, hall⟩
      · exact ⟨c, List.mem_concat_self, h⟩

/-- **THE KEY PAIR OVER RESTARTS**, where a public part that was written without a failure is in the
    file once it is closed: when a start returns a key, `basename.pub` holds the complete public part
    of it; and later starts leave both files as they are and return that key or none. -/
theorem keyPair_kept {P : Pem K} (hP : P.Lawful) {basename : String} {fs₀ fs fs' : Fs}
    (hpub : fs₀ (pubfile basename) = none) (hpri : fs₀ (prifile basename) = none)
    {tr : List (KeyAct K)} (h : (keyFiles P basename).Run fs₀ tr fs) {c : Calls K}
    {r : Ret (Option K)} (hs : (keyFiles P basename).step fs (.start c r) fs')
    (hflush : ∀ c' ∈ starts (tr ++ [.start c r]), c'.writePub = none → c'.flushPub = none) {k : K}
    (hr : r.val = some k) :
    fs' (pubfile basename) = some (P.pubText k) ∧
      ∀ tr' fs'', (keyFiles P basename).Run fs' tr' fs'' →
        fs'' (pubfile basename) = fs' (pubfile basename) ∧
          fs'' (prifile basename) = fs' (prifile basename) ∧
          ∀ c' r' k', .start c' r' ∈ tr' → r'.val = some k' → k' = k := by
  have hphase := files_phase hP (h.step hs) .fresh ⟨hpub, hpri⟩
  have hone := initRSA_phase hP c (files_phase hP h .fresh ⟨hpub, hpri⟩)
  cases hs with
  | start =>
      obtain ⟨pub, hready⟩ := key_some (hone.2.symm.trans hr)
      have hafter : phaseAfter P .fresh (starts (tr ++ [.start c (initRSA P c basename fs).1])) =
          .ready k pub := by
        rw [starts_snoc, phaseAfter, List.foldl_append]
        exact hready
      rw [hafter] at hphase
      obtain ⟨c', hmem, -, hall, htext⟩ := phaseAfter_pub hafter
      rw [hflush c' hmem (writePub_of_completes hall)] at htext
      refine ⟨hphase.1.trans (congrArg some htext), fun tr' fs'' h' => ?_⟩
      obtain ⟨hin, hres⟩ := results_phase hP h' hphase fun _ => rfl
      refine ⟨hin.1.trans hphase.1.symm, hin.2.trans hphase.2.symm, fun c' r' k' hmem hr' => ?_⟩
      obtain ⟨pub', hkey⟩ := key_some ((hres c' r' hmem).symm.trans hr')
      exact (Phase.ready.inj hkey).1.symm

/-- Keys of one byte: the public text is the byte, the private one has a dash on either side. -/
def dashPem : Pem UInt8 where
  pubText k := [k]
  priText k := [45, k, 45]
  readPri
    | [45, k, 45] => some k
    | _ => none

theorem dashPem_lawful : dashPem.Lawful where
  read_complete _ := rfl
  empty := rfl
  part k n hn := by
    have hlen : n < 3 := hn
    rcases n with _ | _ | _ | n
    · rfl
    · rfl
    · rfl
    · omega

/-- A start without failures, for a given new key. -/
def cleanCalls (k : K) : Calls K :=
  ⟨true, true, true, some k, true, true, none, none, none, none, true, true⟩

/-- The statement for the first start of a server, which comes to the key 7. -/
theorem keyPair_kept_first :
    let fs' := (initRSA dashPem (cleanCalls 7) "server" fun _ => none).2
    fs' (pubfile "server") = some [7] ∧
      ∀ tr' fs'', (keyFiles dashPem "server").Run fs' tr' fs'' →
        fs'' (pubfile "server") = fs' (pubfile "server") ∧
          fs'' (prifile "server") = fs' (prifile "server") ∧
          ∀ c' r' k', .start c' r' ∈ tr' → r'.val = some k' → k' = 7 :=
  keyPair_kept dashPem_lawful rfl rfl .start .start
    (fun c' hmem _ => (by rw [List.mem_singleton.mp hmem]; rfl)) (by decide)

/-! ## 3. The way back to a key -/

/-- No call of the start fails. -/
structure Calls.Clean (c : Calls K) : Prop where
  bnNew : c.bnNew = true
  bnSetWord : c.bnSetWord = true
  rsaNew : c.rsaNew = true
  generate : c.generate ≠ none
  openPub : c.openPub = true
  openPri : c.openPri = true
  writePub : c.writePub = none
  writePri : c.writePri = none
  flushPub : c.flushPub = none
  flushPri : c.flushPri = none
  openRead : c.openRead = true
  read : c.read = true

/-- **The failures that leave a way back**: the first start that gets as far as creating
    `basename.pub` completes the pair. -/
def Recovers (P : Pem K) : List (Calls K) → Prop
  | [] => True
  | c :: cs =>
    match c.creates with
    | none => Recovers P cs
    | some k => c.completes P k = true

theorem recovers_iff (P : Pem K) (cs : List (Calls K)) :
    phaseAfter P .fresh cs ≠ .broken ↔ Recovers P cs := by
  induction cs with
  | nil => exact ⟨fun _ => trivial, fun _ => (nomatch ·)⟩
  | cons c cs ih =>
      show phaseAfter P (Phase.next P c .fresh) cs ≠ .broken ↔ _
      unfold Recovers Phase.next
      cases c.creates with
      | none => exact ih
      | some k =>
          by_cases hc : c.completes P k = true
          · simp only [hc, if_true, phaseAfter_ready]
            exact ⟨fun _ => trivial, fun _ => (nomatch ·)⟩
          · simp only [hc, Bool.false_eq_true, if_false, phaseAfter_broken]
            exact ⟨fun h => absurd rfl h, fun h => h.elim⟩

/-- The files can only be broken by a start that had a key to write. -/
theorem exists_key {P : Pem K} {cs : List (Calls K)} (h : ¬ Recovers P cs) : Nonempty K := by
  induction cs with
  | nil => exact absurd trivial h
  | cons c cs ih =>
      unfold Recovers at h
      cases hc : c.creates with
      | none =>
          rw [hc] at h
          exact ih h
      | some k => exact ⟨k⟩

theorem cleanCalls_clean (k : K) : (cleanCalls k).Clean :=
  ⟨rfl, rfl, rfl, (nomatch ·), rfl, rfl, rfl, rfl, rfl, rfl, rfl, rfl⟩

/-- What a start without failures returns. -/
theorem key_clean (P : Pem K) {c : Calls K} (hc : c.Clean) (ph : Phase K) :
    (ph.next P c).key c ≠ none ↔ ph ≠ .broken := by
  have hread : (c.openRead && c.read) = true := by rw [hc.openRead, hc.read]; rfl
  cases ph with
  | ready k pub => simp [Phase.next, Phase.key, hread]
  | broken => simp [Phase.next, Phase.key]
  | fresh =>
      obtain ⟨k, hk⟩ := Option.ne_none_iff_exists'.mp hc.generate
      have hcreates : c.creates = some k := by
        simp [Calls.creates, hc.bnNew, hc.bnSetWord, hc.rsaNew, hc.openPub, hk]
      have hcompletes : c.completes P k = true := by
        simp [Calls.completes, covers, hc.openPri, hc.writePub, hc.writePri, hc.flushPri]
      simp [Phase.next, Phase.key, hcreates, hcompletes, hread]

/-- A generator that returned false changed the files exactly if it had created `basename.pub`. -/
theorem generate_kept_iff {P : Pem K} (hP : P.Lawful) {basename : String} {fs : Fs}
    (hpub : fs (pubfile basename) = none) (hpri : fs (prifile basename) = none) (c : Calls K) :
    (generateRsaKeyFiles P c (pubfile basename) (prifile basename) fs).2 = fs ↔
      c.creates = none := by
  constructor
  · intro hsame
    cases hc : c.creates with
    | none => rfl
    | some k =>
        have hin := generate_phase hP hc hpri
        rw [hsame] at hin
        split at hin
        · exact absurd (hpub.symm.trans hin.1) (nomatch ·)
        · have hsome := hin.1
          rw [hpub] at hsome
          cases hsome
  · intro hc
    exact (generate_none hc _ _ fs).1

/-- **THE BOOTSTRAP OF THE KEY FILES**, from none: after a history of starts, a start without
    failures returns a key exactly if the failures so far leave a way back; if they do not, no
    later start ever returns one; and what makes the difference is whether a generator that
    returned false had already created a file. -/
theorem bootstrap_iff {P : Pem K} (hP : P.Lawful) {basename : String} {fs₀ fs : Fs}
    (hpub : fs₀ (pubfile basename) = none) (hpri : fs₀ (prifile basename) = none)
    {tr : List (KeyAct K)} (h : (keyFiles P basename).Run fs₀ tr fs) :
    ((∀ c, c.Clean → (initRSA P c basename fs).1.val ≠ none) ↔ Recovers P (starts tr)) ∧
      (¬ Recovers P (starts tr) → ∀ tr' fs', (keyFiles P basename).Run fs tr' fs' →
        ∀ c r, .start c r ∈ tr' → r.val = none) ∧
      ∀ c, (generateRsaKeyFiles P c (pubfile basename) (prifile basename) fs₀).2 = fs₀ ↔
        c.creates = none := by
  have hphase := files_phase hP h .fresh ⟨hpub, hpri⟩
  refine ⟨⟨fun hall => ?_, fun hrec c hc => ?_⟩, fun hrec tr' fs' h' c r hmem => ?_,
    generate_kept_iff hP hpub hpri⟩
  · by_contra hrec
    obtain ⟨k⟩ := exists_key hrec
    have hclean := cleanCalls_clean k
    have hval := hall _ hclean
    rw [(initRSA_phase hP _ hphase).2] at hval
    exact hrec ((recovers_iff P _).mp ((key_clean P hclean _).mp hval))
  · rw [(initRSA_phase hP c hphase).2]
    exact (key_clean P hc _).mpr ((recovers_iff P _).mpr hrec)
  · have hbroken : phaseAfter P .fresh (starts tr) = .broken := by
      by_contra hne
      exact hrec ((recovers_iff P _).mp hne)
    rw [hbroken] at hphase
    exact (results_phase hP h' hphase fun _ => rfl).2 c r hmem

/-- The statement behind a start whose `RSA_new` failed. -/
theorem bootstrap_iff_fresh :
    let c₀ : Calls UInt8 := { cleanCalls 7 with rsaNew := false }
    let fs := (initRSA dashPem c₀ "server" fun _ => none).2
    ((∀ c, c.Clean → (initRSA dashPem c "server" fs).1.val ≠ none) ↔ Recovers dashPem [c₀]) ∧
      (¬ Recovers dashPem [c₀] → ∀ tr' fs', (keyFiles dashPem "server").Run fs tr' fs' →
        ∀ c r, .start c r ∈ tr' → r.val = none) ∧
      ∀ c, (generateRsaKeyFiles dashPem c (pubfile "server") (prifile "server") fun _ => none).2 =
          (fun _ => none) ↔ c.creates = none :=
  bootstrap_iff dashPem_lawful rfl rfl (.single .start)

/-- **One failed `fopen` of `basename.pri`** leaves `basename.pub` behind alone, and no start comes
    to a key again. -/
theorem bootstrap_blocked :
    ¬ ∀ tr fs, (keyFiles dashPem "server").Run (fun _ => none) tr fs →
      ∀ c, c.Clean → (initRSA dashPem c "server" fs).1.val ≠ none := by
  intro hall
  have hstep : (keyFiles dashPem "server").step (fun _ => none) _ _ :=
    .start (c := { cleanCalls 7 with openPri := false })
  exact hall _ _ (.single hstep) _ (cleanCalls_clean 7) (by decide)

end Cse303
