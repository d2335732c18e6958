/-
  File:      Cse303/Common/Aes.lean
  Subject:   AES KEYS AND CONTEXTS (crypto.cc): made, reset, reclaimed.

  A context is an object of OpenSSL, known by its pointer. `create_aes_context` makes one, names
  its cipher, and gives it a key; `reset_aes_context` gives it one again; `reclaim_aes_context`
  frees it. OpenSSL is a parameter: its functions over a state of its own (`Evp`), where any of them
  may fail, and what its manual says of them (`Evp.Lawful`), seen through the contexts that a state
  has (`Ctxs`).

  * `keyIv_created` -- a key that `create_aes_key` returns is read within its bounds; a part of it
    for which `RAND_bytes` answered -1 is zero, since only 0 is taken for a failure;
  * **`contexts_held`** -- over any run, allocated are the contexts that the caller has, and one for
    each `create_aes_context` that failed behind its first call: these are never freed;
  * **`context_ready_iff`** -- a context stays ready as long as no reset of it fails; after the
    first that does, all do.
-/
import Cse303.Common.File
import Cse303.Lib.Lts
import Mathlib.Data.Finset.Basic

namespace Cse303

open CInt

/-! ## 1. Keys -/

def aesKeysize : Nat := 32
def aesIvsize : Nat := 16

/-- An answer of `RAND_bytes`, and the bytes it stored if that was 1. -/
structure Rand where
  ret : Int
  bytes : Nat → UInt8

/-- The `n` bytes of a new vector behind the call. -/
def Rand.store (r : Rand) (n : Nat) : List UInt8 :=
  if r.ret = 1 then (List.range n).map r.bytes else List.replicate n 0

@[simp] theorem Rand.store_length (r : Rand) (n : Nat) : (r.store n).length = n := by
  unfold Rand.store
  split <;> simp

/-- `create_aes_key`: the second call is made if the first did not answer 0. -/
def createAesKey (key iv : Rand) : Ret Vec :=
  if key.ret = 0 ∨ iv.ret = 0 then err .empty [.text "Error in RAND_bytes()"]
  else .quiet ⟨key.store aesKeysize ++ iv.store aesIvsize, by simp [aesKeysize, aesIvsize]⟩

/-- A key comes back exactly if no answer was 0, and has its 48 bytes then. -/
theorem createAesKey_size (key iv : Rand) :
    (createAesKey key iv).val.size = if key.ret = 0 ∨ iv.ret = 0 then 0 else 48 := by
  unfold createAesKey
  split <;> simp [Vec.size, Vec.empty, aesKeysize, aesIvsize]

/-- What OpenSSL reads at `key.data()` and at `key.data() + AES_KEYSIZE`; none if the vector is
    shorter than that. -/
def keyIv (key : Vec) : Option (List UInt8 × List UInt8) :=
  if aesKeysize + aesIvsize ≤ key.size then
    some (key.bytes.take aesKeysize, (key.bytes.drop aesKeysize).take aesIvsize)
  else none

/-- A created key, as the cipher gets it. -/
theorem keyIv_created {key iv : Rand} (h : key.ret ≠ 0 ∧ iv.ret ≠ 0) :
    keyIv (createAesKey key iv).val = some (key.store aesKeysize, iv.store aesIvsize) := by
  have hno : ¬ (key.ret = 0 ∨ iv.ret = 0) := not_or.mpr h
  have hsize := createAesKey_size key iv
  rw [if_neg hno] at hsize
  have hbytes : (createAesKey key iv).val.bytes = key.store aesKeysize ++ iv.store aesIvsize := by
    rw [createAesKey, if_neg hno]
    rfl
  have hkey : (key.store aesKeysize).length = aesKeysize := key.store_length _
  have hiv : (iv.store aesIvsize).length ≤ aesIvsize := Nat.le_of_eq (iv.store_length _)
  have hlong : aesKeysize + aesIvsize ≤ (createAesKey key iv).val.size := Nat.le_of_eq hsize.symm
  rw [keyIv, if_pos hlong, hbytes, List.take_left' hkey,
    List.drop_left' hkey, List.take_of_length_le hiv]

/-! ## 2. OpenSSL -/

/-- The functions of OpenSSL that are called, over its state `L`. -/
structure Evp (L : Type) where
  /-- `EVP_CIPHER_CTX_new` -/
  new : L → Option Nat × L
  /-- `EVP_CipherInit_ex(ctx, EVP_aes_256_cbc(), 0, 0, 0, encrypt)` -/
  initCipher : (ctx : Nat) → (encrypt : Bool) → L → Bool × L
  /-- `EVP_CipherInit_ex(ctx, nullptr, nullptr, key, iv, encrypt)` -/
  initKey : (ctx : Nat) → (key iv : List UInt8) → (encrypt : Bool) → L → Bool × L
  keyLength : (ctx : Nat) → L → Nat
  ivLength : (ctx : Nat) → L → Nat
  cleanup : (ctx : Nat) → L → L
  free : (ctx : Nat) → L → L
  /-- `ERR_error_string(ERR_get_error(), 0)` -/
  error : L → String × L

/-- An `EVP_CIPHER_CTX`. -/
inductive Ctx where
  /-- it has no cipher -/
  | blank
  /-- it has its cipher -/
  | typed (encrypt : Bool)
  /-- and a key -/
  | keyed (key iv : List UInt8) (encrypt : Bool)
  deriving DecidableEq

/-- The contexts that are allocated. -/
abbrev Ctxs := Nat → Option Ctx

def Ctxs.set (cs : Ctxs) (ctx : Nat) (c : Option Ctx) : Ctxs := Function.update cs ctx c

@[simp] theorem set_same (cs : Ctxs) (ctx : Nat) (c : Option Ctx) : cs.set ctx c ctx = c :=
  Function.update_self ..

theorem set_other (cs : Ctxs) {ctx ctx' : Nat} (c : Option Ctx) (h : ctx' ≠ ctx) :
    cs.set ctx c ctx' = cs ctx' := Function.update_of_ne h ..

@[simp] theorem set_set (cs : Ctxs) (ctx : Nat) (c c' : Option Ctx) :
    (cs.set ctx c).set ctx c' = cs.set ctx c' := Function.update_idem ..

/-- **What the manual says**, where `view` is what a state of OpenSSL has of contexts: a new context
    was not allocated, and is without a cipher; a call for a context leaves the others as they are; a
    key can only be set where there is a cipher; a failed call may leave its context in any state;
    `EVP_CIPHER_CTX_cleanup` clears all of it but the context itself, and `EVP_CIPHER_CTX_free` the
    context too. -/
structure Evp.Lawful {L : Type} (E : Evp L) (view : L → Ctxs) : Prop where
  new_none : ∀ l, (E.new l).1 = none → view (E.new l).2 = view l
  new_some : ∀ l ctx, (E.new l).1 = some ctx →
    view l ctx = none ∧ view (E.new l).2 = (view l).set ctx (some .blank)
  initCipher_ok : ∀ ctx encrypt l, (view l ctx).isSome = true →
    (E.initCipher ctx encrypt l).1 = true →
      view (E.initCipher ctx encrypt l).2 = (view l).set ctx (some (.typed encrypt))
  initCipher_fails : ∀ ctx encrypt l, (view l ctx).isSome = true →
    (E.initCipher ctx encrypt l).1 = false →
      ∃ c, view (E.initCipher ctx encrypt l).2 = (view l).set ctx (some c)
  initKey_ok : ∀ ctx key iv encrypt l, (view l ctx).isSome = true →
    (E.initKey ctx key iv encrypt l).1 = true → view l ctx ≠ some .blank ∧
      view (E.initKey ctx key iv encrypt l).2 = (view l).set ctx (some (.keyed key iv encrypt))
  initKey_fails : ∀ ctx key iv encrypt l, (view l ctx).isSome = true →
    (E.initKey ctx key iv encrypt l).1 = false →
      ∃ c, view (E.initKey ctx key iv encrypt l).2 = (view l).set ctx (some c)
  cleanup : ∀ ctx l, (view l ctx).isSome = true →
    view (E.cleanup ctx l) = (view l).set ctx (some .blank)
  free : ∀ ctx l, (view l ctx).isSome = true → view (E.free ctx l) = (view l).set ctx none
  error : ∀ l, view (E.error l).2 = view l

/-! ## 3. The code -/

variable {L : Type}

/-- `create_aes_context`; none where OpenSSL is made to read past the end of `key`. `c` cleans up on
    exit unless it was disabled. -/
def createAesContext (E : Evp L) (key : Vec) (encrypt : Bool) (l : L) :
    Option (Ret (Option Nat) × L) :=
  let ctx := E.new l
  match ctx.1 with
  | none =>
    let e := E.error ctx.2
    some (err none [.text "Error: OpenSSL couldn't create context: ", .text e.1], e.2)
  | some p =>
    let c : ContextManager L := { action := E.cleanup p }
    let fail (msg : String) (l : L) : Ret (Option Nat) × L :=
      let e := E.error l
      (err none [.text msg, .text e.1], c.destruct e.2)
    let init := E.initCipher p encrypt ctx.2
    if init.1 = false then some (fail "Error: OpenSSL couldn't initialize context: " init.2)
    else if E.keyLength p init.2 ≠ aesKeysize ∨ E.ivLength p init.2 ≠ aesIvsize then
      some (fail "Error: OpenSSL couldn't initialize context: " init.2)
    else
      match keyIv key with
      | none => none
      | some (k, iv) =>
        let initKey := E.initKey p k iv encrypt init.2
        if initKey.1 = false then some (fail "Error: OpenSSL couldn't re-init context: " initKey.2)
        else
          let c := c.disable
          some (.quiet (some p), c.destruct initKey.2)

/-- `reset_aes_context`; none as above. The error is asked for behind the cleanup. -/
def resetAesContext (E : Evp L) (ctx : Nat) (key : Vec) (encrypt : Bool) (l : L) :
    Option (Ret Bool × L) :=
  match keyIv key with
  | none => none
  | some (k, iv) =>
    let initKey := E.initKey ctx k iv encrypt l
    if initKey.1 = false then
      let e := E.error (E.cleanup ctx initKey.2)
      some (err false [.text "Error: OpenSSL couldn't re-init context: ", .text e.1], e.2)
    else some (.quiet true, initKey.2)

/-- `reclaim_aes_context`. -/
def reclaimAesContext (E : Evp L) (ctx : Nat) (l : L) : L := E.free ctx l

/-! ## 4. One call -/

section Call

variable {E : Evp L} {view : L → Ctxs} (hE : E.Lawful view)
include hE

/-- **What a creation leaves**: no context, one that is cleaned up and not returned, or one that is
    ready and returned. -/
inductive Creates (E : Evp L) (view : L → Ctxs) (l : L) (r : Ret (Option Nat) × L) : Prop where
  | none (hnew : (E.new l).1 = .none) (hret : r.1.val = .none) (hview : view r.2 = view l)
  | left {ctx : Nat} (hnew : (E.new l).1 = some ctx) (hret : r.1.val = .none)
      (hview : view r.2 = (view l).set ctx (some .blank))
  | made {ctx : Nat} {key iv : List UInt8} {encrypt : Bool} (hnew : (E.new l).1 = some ctx)
      (hret : r.1.val = some ctx) (hview : view r.2 = (view l).set ctx (some (.keyed key iv encrypt)))

theorem createAesContext_creates {key : Vec} {encrypt : Bool} {l : L} {r : Ret (Option Nat) × L}
    (h : createAesContext E key encrypt l = some r) : Creates E view l r := by
  unfold createAesContext at h
  cases hnew : (E.new l).1 with
  | none =>
      simp only [hnew] at h
      rw [← Option.some.inj h]
      exact .none hnew rfl ((hE.error _).trans (hE.new_none l hnew))
  | some p =>
      simp only [hnew] at h
      obtain ⟨-, hmade⟩ := hE.new_some l p hnew
      have hthere {l' : L} {c : Ctx} (hl : view l' = (view l).set p (some c)) :
          (view l' p).isSome = true := by
        rw [hl, set_same]
        rfl
      -- a failure behind the first call: the context is cleaned up
      have hleft {l' : L} {c : Ctx} (msg : String) (hl : view l' = (view l).set p (some c)) :
          Creates E view l (err .none [.text msg, .text (E.error l').1],
            E.cleanup p (E.error l').2) := by
        have herror := (hE.error l').trans hl
        refine .left hnew rfl ?_
        rw [hE.cleanup p _ (hthere herror), herror, set_set]
      by_cases hinit : (E.initCipher p encrypt (E.new l).2).1 = false
      · rw [if_pos hinit] at h
        obtain ⟨c, hc⟩ := hE.initCipher_fails p encrypt _ (hthere hmade) hinit
        rw [← Option.some.inj h]
        exact hleft _ (hc.trans (by rw [hmade, set_set]))
      · rw [if_neg hinit] at h
        have hinit : (E.initCipher p encrypt (E.new l).2).1 = true := Bool.not_eq_false _ ▸ hinit
        have htyped := (hE.initCipher_ok p encrypt _ (hthere hmade) hinit).trans
          (by rw [hmade, set_set])
        split at h
        · rw [← Option.some.inj h]
          exact hleft _ htyped
        · cases hkey : keyIv key with
          | none =>
              rw [hkey] at h
              cases h
          | some kiv =>
              simp only [hkey] at h
              split at h
              · rename_i hfails
                obtain ⟨c, hc⟩ := hE.initKey_fails p kiv.1 kiv.2 encrypt _ (hthere htyped) hfails
                rw [← Option.some.inj h]
                exact hleft _ (hc.trans (by rw [htyped, set_set]))
              · rename_i hok
                have hok := Bool.not_eq_false _ ▸ hok
                obtain ⟨-, hkeyed⟩ := hE.initKey_ok p kiv.1 kiv.2 encrypt _ (hthere htyped) hok
                rw [← Option.some.inj h]
                exact .made hnew rfl (hkeyed.trans (by rw [htyped, set_set]))

/-- What a reset leaves: the context is cleaned up or ready, and the others are as they were. -/
theorem resetAesContext_cases {ctx : Nat} {key : Vec} {encrypt : Bool} {l : L} {r : Ret Bool × L}
    (hthere : (view l ctx).isSome = true) (h : resetAesContext E ctx key encrypt l = some r) :
    ∃ c, view r.2 = (view l).set ctx (some c) ∧ (r.1.val = false ∧ c = .blank ∨
      r.1.val = true ∧ (∃ k iv, c = .keyed k iv encrypt) ∧ view l ctx ≠ some .blank) := by
  unfold resetAesContext at h
  cases hkey : keyIv key with
  | none =>
      rw [hkey] at h
      cases h
  | some kiv =>
      simp only [hkey] at h
      by_cases hinit : (E.initKey ctx kiv.1 kiv.2 encrypt l).1 = false
      · rw [if_pos hinit] at h
        obtain ⟨c, hc⟩ := hE.initKey_fails ctx kiv.1 kiv.2 encrypt l hthere hinit
        have hafter : (view (E.initKey ctx kiv.1 kiv.2 encrypt l).2 ctx).isSome = true := by
          rw [hc, set_same]
          rfl
        rw [← Option.some.inj h]
        exact ⟨.blank, (hE.error _).trans ((hE.cleanup ctx _ hafter).trans (by rw [hc, set_set])),
          .inl ⟨rfl, rfl⟩⟩
      · rw [if_neg hinit] at h
        obtain ⟨htyped, hkeyed⟩ := hE.initKey_ok ctx kiv.1 kiv.2 encrypt l hthere
          (Bool.not_eq_false _ ▸ hinit)
        rw [← Option.some.inj h]
        exact ⟨_, hkeyed, .inr ⟨rfl, ⟨_, _, rfl⟩, htyped⟩⟩

end Call

/-! ## 5. A process -/

/-- OpenSSL, and the contexts that the caller was given and has not reclaimed. -/
structure AesState (L : Type) where
  lib : L
  given : Finset Nat

inductive AesAct where
  /-- what `EVP_CIPHER_CTX_new` made, and what was returned -/
  | create (made r : Option Nat)
  | reset (ctx : Nat) (r : Bool)
  | reclaim (ctx : Nat)
  deriving DecidableEq

/-- What the caller is given by a creation. -/
def giveCtx (given : Finset Nat) : Option Nat → Finset Nat
  | none => given
  | some ctx => insert ctx given

/-- The caller uses what it was given, and keys that are as long as OpenSSL reads. -/
inductive AesStep (E : Evp L) : AesState L → AesAct → AesState L → Prop where
  | create {x : AesState L} {key : Vec} {encrypt : Bool} {r : Ret (Option Nat) × L}
      (hr : createAesContext E key encrypt x.lib = some r) :
      AesStep E x (.create (E.new x.lib).1 r.1.val) ⟨r.2, giveCtx x.given r.1.val⟩
  | reset {x : AesState L} {ctx : Nat} {key : Vec} {encrypt : Bool} {r : Ret Bool × L}
      (h : ctx ∈ x.given) (hr : resetAesContext E ctx key encrypt x.lib = some r) :
      AesStep E x (.reset ctx r.1.val) ⟨r.2, x.given⟩
  | reclaim {x : AesState L} {ctx : Nat} (h : ctx ∈ x.given) :
      AesStep E x (.reclaim ctx) ⟨reclaimAesContext E ctx x.lib, x.given.erase ctx⟩

/-- Any use of the functions by a caller that reclaims what it has, and once. -/
def aes (E : Evp L) : Lts (AesState L) AesAct := ⟨AesStep E⟩

/-- The context that a creation leaves allocated and does not return. -/
def AesAct.leaks : AesAct → List Nat
  | .create made none => made.toList
  | _ => []

/-- **The account of the contexts**, of which `leaked` were never returned: allocated are these and
    the caller's; no one twice. -/
structure AccountAt (leaked : List Nat) (cs : Ctxs) (given : Finset Nat) : Prop where
  allocated : ∀ ctx, (cs ctx).isSome = true ↔ ctx ∈ given ∨ ctx ∈ leaked
  nodup : leaked.Nodup
  apart : ∀ ctx ∈ leaked, ctx ∉ given

section Account

variable {leaked : List Nat} {cs : Ctxs} {given : Finset Nat} {ctx : Nat}

/-- Nothing is allocated. -/
theorem account_start (h : ∀ ctx, cs ctx = none) : AccountAt [] cs ∅ :=
  ⟨fun ctx => by simp [h], List.nodup_nil, fun ctx hctx => absurd hctx List.not_mem_nil⟩

/-- A new context is neither the caller's nor leaked. -/
theorem AccountAt.fresh (h : AccountAt leaked cs given) (hctx : cs ctx = none) :
    ctx ∉ given ∧ ctx ∉ leaked := by
  have hno := (h.allocated ctx).not.mp (by simp [hctx])
  exact not_or.mp hno

/-- It stays behind, -/
theorem AccountAt.leak (h : AccountAt leaked cs given) (hctx : cs ctx = none) (c : Ctx) :
    AccountAt (leaked ++ [ctx]) (cs.set ctx (some c)) given := by
  obtain ⟨hgiven, hleaked⟩ := h.fresh hctx
  refine ⟨fun d => ?_, ?_, fun d hd => ?_⟩
  · by_cases hd : d = ctx
    · simp [hd]
    · have hold := h.allocated d
      rw [set_other _ _ hd]
      simpa [hd] using hold
  · refine List.nodup_append.mpr ⟨h.nodup, List.nodup_singleton _, fun d hd e he => ?_⟩
    intro hde
    rw [hde, List.mem_singleton.mp he] at hd
    exact hleaked hd
  · rcases List.mem_append.mp hd with hd | hd
    · exact h.apart d hd
    · rw [List.mem_singleton.mp hd]
      exact hgiven

/-- or is the caller's; -/
theorem AccountAt.give (h : AccountAt leaked cs given) (hctx : cs ctx = none) (c : Ctx) :
    AccountAt leaked (cs.set ctx (some c)) (insert ctx given) := by
  obtain ⟨-, hleaked⟩ := h.fresh hctx
  refine ⟨fun d => ?_, h.nodup, fun d hd hgiven => ?_⟩
  · by_cases hd : d = ctx
    · simp [hd]
    · have hold := h.allocated d
      rw [set_other _ _ hd]
      simpa [hd] using hold
  · rcases Finset.mem_insert.mp hgiven with rfl | hgiven
    · exact hleaked hd
    · exact h.apart d hd hgiven

/-- which may change it -/
theorem AccountAt.change (h : AccountAt leaked cs given) (hmem : ctx ∈ given) (c : Ctx) :
    AccountAt leaked (cs.set ctx (some c)) given := by
  refine ⟨fun d => ?_, h.nodup, h.apart⟩
  by_cases hd : d = ctx
  · simp [hd, hmem]
  · rw [set_other _ _ hd]
    exact h.allocated d

/-- and reclaim it. -/
theorem AccountAt.reclaim (h : AccountAt leaked cs given) (hmem : ctx ∈ given) :
    AccountAt leaked (cs.set ctx none) (given.erase ctx) := by
  refine ⟨fun d => ?_, h.nodup, fun d hd hgiven => h.apart d hd (Finset.mem_of_mem_erase hgiven)⟩
  by_cases hd : d = ctx
  · have hapart : ctx ∉ leaked := fun hleaked => h.apart ctx hleaked hmem
    simp [hd, hapart]
  · have hold := h.allocated d
    rw [set_other _ _ hd]
    simpa [hd] using hold

/-- What the caller has is allocated. -/
theorem AccountAt.there (h : AccountAt leaked cs given) (hmem : ctx ∈ given) :
    (cs ctx).isSome = true := (h.allocated ctx).mpr (.inl hmem)

end Account

section Run

variable {E : Evp L} {view : L → Ctxs} (hE : E.Lawful view)
include hE

/-- **The step lemma of the account.** -/
theorem account_step {leaked : List Nat} {x y : AesState L} {a : AesAct}
    (h : AccountAt leaked (view x.lib) x.given) (hs : (aes E).step x a y) :
    AccountAt (leaked ++ a.leaks) (view y.lib) y.given := by
  cases hs with
  | @create key encrypt r hr =>
      cases createAesContext_creates hE hr with
      | none hnew hret hview =>
          rw [hret, hview]
          show AccountAt (leaked ++ (E.new x.lib).1.toList) _ x.given
          rw [hnew, Option.toList_none, List.append_nil]
          exact h
      | @left ctx hnew hret hview =>
          rw [hret, hview]
          show AccountAt (leaked ++ (E.new x.lib).1.toList) _ x.given
          rw [hnew]
          exact h.leak (hE.new_some _ _ hnew).1 _
      | @made ctx key iv encrypt hnew hret hview =>
          rw [hret, hview]
          show AccountAt (leaked ++ []) _ (insert ctx x.given)
          rw [List.append_nil]
          exact h.give (hE.new_some _ _ hnew).1 _
  | @reset ctx key encrypt r hmem hr =>
      obtain ⟨c, hview, -⟩ := resetAesContext_cases hE (h.there hmem) hr
      show AccountAt (leaked ++ []) (view r.2) x.given
      rw [List.append_nil, hview]
      exact h.change hmem c
  | @reclaim ctx hmem =>
      show AccountAt (leaked ++ []) (view (E.free ctx x.lib)) _
      rw [List.append_nil, hE.free ctx _ (h.there hmem)]
      exact h.reclaim hmem

/-- **THE CONTEXTS OF A PROCESS**, at any point of any run from none: allocated are those that it
    has, and one for each creation that failed behind `EVP_CIPHER_CTX_new`. -/
theorem contexts_held {l : L} (h0 : ∀ ctx, view l ctx = none) {tr : List AesAct} {x : AesState L}
    (h : (aes E).Run ⟨l, ∅⟩ tr x) :
    AccountAt (tr.flatMap AesAct.leaks) (view x.lib) x.given := by
  have hstart : AccountAt (([] : List AesAct).flatMap AesAct.leaks) (view l) ∅ := account_start h0
  refine h.traceInvariant
    (I := fun tr x => AccountAt (tr.flatMap AesAct.leaks) (view x.lib) x.given) hstart ?_
  intro tr x a y _ hx hs
  rw [List.flatMap_append, List.flatMap_singleton]
  exact account_step hE hx hs

end Run

/-- An OpenSSL of which every function but the setting of a key succeeds, that as `answers` says. -/
structure SmallEvp where
  ctxs : Ctxs
  next : Nat
  answers : List Bool

def smallEvp : Evp SmallEvp where
  new l :=
    if l.ctxs l.next = none then
      (some l.next, ⟨l.ctxs.set l.next (some .blank), l.next + 1, l.answers⟩)
    else (none, l)
  initCipher ctx encrypt l := (true, { l with ctxs := l.ctxs.set ctx (some (.typed encrypt)) })
  initKey ctx key iv encrypt l :=
    if l.ctxs ctx = some .blank ∨ l.answers.headD true = false then
      (false, { l with answers := l.answers.tail })
    else
      (true, ⟨l.ctxs.set ctx (some (.keyed key iv encrypt)), l.next, l.answers.tail⟩)
  keyLength _ _ := aesKeysize
  ivLength _ _ := aesIvsize
  cleanup ctx l := { l with ctxs := l.ctxs.set ctx (some .blank) }
  free ctx l := { l with ctxs := l.ctxs.set ctx none }
  error l := ("error:00000000:lib(0)::reason(0)", l)

theorem smallEvp_lawful : smallEvp.Lawful SmallEvp.ctxs where
  new_none l h := by
    simp only [smallEvp] at h ⊢
    split at h
    · cases h
    · rename_i hno
      rw [if_neg hno]
  new_some l ctx h := by
    simp only [smallEvp] at h ⊢
    split at h
    · rename_i hfree
      obtain rfl := Option.some.inj h
      rw [if_pos hfree]
      exact ⟨hfree, rfl⟩
    · cases h
  initCipher_ok _ _ _ _ _ := rfl
  initCipher_fails _ _ _ _ h := by cases h
  initKey_ok ctx key iv encrypt l _ h := by
    simp only [smallEvp] at h ⊢
    split at h
    · cases h
    · rename_i hok
      rw [if_neg hok]
      exact ⟨(not_or.mp hok).1, rfl⟩
  initKey_fails ctx key iv encrypt l hthere h := by
    simp only [smallEvp] at h ⊢
    split at h
    · rename_i hfails
      obtain ⟨c, hc⟩ := Option.isSome_iff_exists.mp hthere
      rw [if_pos hfails]
      exact ⟨c, (Function.update_eq_self_iff.mpr hc.symm).symm⟩
    · cases h
  cleanup _ _ _ := rfl
  free _ _ _ := rfl
  error _ := rfl

/-- A key of 48 bytes. -/
def key48 : Vec := (createAesKey ⟨1, fun _ => 7⟩ ⟨1, fun _ => 9⟩).val

/-- The statement for a context whose key is refused, and one that is made. -/
theorem contexts_held_refused : ∃ tr x, (aes smallEvp).Run ⟨⟨fun _ => none, 7, [false]⟩, ∅⟩ tr x ∧
    x.given = {8} ∧ tr.flatMap AesAct.leaks = [7] ∧
    AccountAt (tr.flatMap AesAct.leaks) x.lib.ctxs x.given := by
  have h₁ : (aes smallEvp).Run ⟨⟨fun _ => none, 7, [false]⟩, ∅⟩ _ _ :=
    .single (@AesStep.create _ _ _ key48 true _ rfl)
  have h₂ := h₁.step (@AesStep.create _ _ _ key48 true _ rfl)
  exact ⟨_, _, h₂, rfl, rfl, contexts_held smallEvp_lawful (fun _ => rfl) h₂⟩

/-! ## 6. A context that is reset -/

/-- The context has a cipher and a key. -/
def Ctxs.Ready (cs : Ctxs) (ctx : Nat) : Prop :=
  ∃ key iv encrypt, cs ctx = some (.keyed key iv encrypt)

/-- What a call says about a reset of the context. -/
def AesAct.resetOf (ctx : Nat) : AesAct → Option Bool
  | .reset ctx' r => if ctx' = ctx then some r else none
  | _ => none

/-- The results of its resets. -/
def resets (ctx : Nat) (tr : List AesAct) : List Bool := tr.filterMap (AesAct.resetOf ctx)

theorem resets_snoc (ctx : Nat) (tr : List AesAct) (a : AesAct) :
    resets ctx (tr ++ [a]) = resets ctx tr ++ (a.resetOf ctx).toList := by
  rw [resets, List.filterMap_append]
  cases h : a.resetOf ctx <;> simp [resets, h]

/-- What a run leaves of a context: `n` resets succeeded, and then `m` failed. -/
structure ResetsAt (ctx : Nat) (tr : List AesAct) (cs : Ctxs) (n m : Nat) : Prop where
  results : resets ctx tr = List.replicate n true ++ List.replicate m false
  ready : m = 0 → cs.Ready ctx
  blank : 0 < m → cs ctx = some .blank

section Ready

variable {E : Evp L} {view : L → Ctxs} (hE : E.Lawful view)
include hE

/-- **The step lemma**: a context that is not reclaimed changes by its own resets only. -/
theorem ready_step {leaked : List Nat} {x y : AesState L} {a : AesAct} {ctx : Nat} {c : Ctx}
    (hx : AccountAt leaked (view x.lib) x.given) (hc : view x.lib ctx = some c)
    (ha : a ≠ .reclaim ctx) (hs : (aes E).step x a y) :
    a.resetOf ctx = none ∧ view y.lib ctx = some c ∨
      a.resetOf ctx = some false ∧ view y.lib ctx = some .blank ∨
        a.resetOf ctx = some true ∧ c ≠ .blank ∧ (view y.lib).Ready ctx := by
  cases hs with
  | @create key encrypt r hr =>
      refine .inl ⟨rfl, ?_⟩
      have hother {d : Nat} (hnew : (E.new x.lib).1 = some d) : ctx ≠ d := by
        rintro rfl
        rw [(hE.new_some _ _ hnew).1] at hc
        cases hc
      cases createAesContext_creates hE hr with
      | none _ _ hview => exact hview ▸ hc
      | left hnew _ hview => exact hview ▸ (set_other _ _ (hother hnew)).trans hc
      | made hnew _ hview => exact hview ▸ (set_other _ _ (hother hnew)).trans hc
  | @reset d key encrypt r hmem hr =>
      obtain ⟨c', hview, hcases⟩ := resetAesContext_cases hE (hx.there hmem) hr
      by_cases hd : d = ctx
      · subst hd
        have hreset : (AesAct.reset d r.1.val).resetOf d = some r.1.val := if_pos rfl
        have hset : view r.2 d = some c' := by rw [hview, set_same]
        rw [hreset]
        rcases hcases with ⟨hret, rfl⟩ | ⟨hret, ⟨k, iv, rfl⟩, hne⟩
        · exact .inr (.inl ⟨congrArg some hret, hset⟩)
        · exact .inr (.inr ⟨congrArg some hret, fun h => hne (h ▸ hc), _, _, _, hset⟩)
      · refine .inl ⟨if_neg hd, ?_⟩
        show view r.2 ctx = some c
        rw [hview, set_other _ _ (Ne.symm hd), hc]
  | @reclaim d hmem =>
      have hd : ctx ≠ d := fun hd => ha (hd ▸ rfl)
      refine .inl ⟨rfl, ?_⟩
      show view (E.free d x.lib) ctx = some c
      rw [hE.free d _ (hx.there hmem), set_other _ _ hd, hc]

/-- One step more. -/
theorem resets_step {leaked : List Nat} {x y : AesState L} {a : AesAct} {ctx : Nat}
    {tr : List AesAct} {n m : Nat} (hx : AccountAt leaked (view x.lib) x.given)
    (h : ResetsAt ctx tr (view x.lib) n m) (ha : a ≠ .reclaim ctx) (hs : (aes E).step x a y) :
    ∃ n m, ResetsAt ctx (tr ++ [a]) (view y.lib) n m := by
  obtain ⟨hresults, hready, hblank⟩ := h
  rcases Nat.eq_zero_or_pos m with rfl | hm
  · obtain ⟨key, iv, encrypt, hc⟩ := hready rfl
    rw [List.replicate_zero, List.append_nil] at hresults
    rcases ready_step hE hx hc ha hs with ⟨hreset, hy⟩ | ⟨hreset, hy⟩ | ⟨hreset, -, hy⟩
    · refine ⟨n, 0, ?_, fun _ => ⟨key, iv, encrypt, hy⟩, fun h => absurd h (Nat.lt_irrefl 0)⟩
      rw [resets_snoc, hreset, hresults]
      rfl
    · refine ⟨n, 1, ?_, fun h => absurd h Nat.one_ne_zero, fun _ => hy⟩
      rw [resets_snoc, hreset, hresults]
      rfl
    · refine ⟨n + 1, 0, ?_, fun _ => hy, fun h => absurd h (Nat.lt_irrefl 0)⟩
      rw [resets_snoc, hreset, hresults, List.replicate_succ']
      exact (List.append_nil _).symm
  · have hc := hblank hm
    have hno : ¬ m = 0 := by omega
    rcases ready_step hE hx hc ha hs with ⟨hreset, hy⟩ | ⟨hreset, hy⟩ | ⟨-, hne, -⟩
    · refine ⟨n, m, ?_, fun h => absurd h hno, fun _ => hy⟩
      rw [resets_snoc, hreset, hresults]
      exact List.append_nil _
    · refine ⟨n, m + 1, ?_, fun h => absurd h (Nat.succ_ne_zero m), fun _ => hy⟩
      rw [resets_snoc, hreset, hresults, List.replicate_succ', List.append_assoc]
      rfl
    · exact absurd rfl hne

/-- **A CONTEXT THAT IS RESET**, in any run as long as it is not reclaimed, and whatever happens to
    others: its resets succeed up to some point and fail from there, and it is ready exactly as long
    as none has failed. So a failed reset cannot be made good by another. -/
theorem context_ready_iff {leaked : List Nat} {tr : List AesAct} {x y : AesState L} {ctx : Nat}
    (hx : AccountAt leaked (view x.lib) x.given) (h : (aes E).Run x tr y)
    (hready : (view x.lib).Ready ctx) (hkept : .reclaim ctx ∉ tr) :
    ∃ n m, resets ctx tr = List.replicate n true ++ List.replicate m false ∧
      ((view y.lib).Ready ctx ↔ m = 0) := by
  have hrun : (∃ leaked, AccountAt leaked (view y.lib) y.given) ∧
      (.reclaim ctx ∉ tr → ∃ n m, ResetsAt ctx tr (view y.lib) n m) := by
    refine h.traceInvariant
      (I := fun tr y => (∃ leaked, AccountAt leaked (view y.lib) y.given) ∧
        (.reclaim ctx ∉ tr → ∃ n m, ResetsAt ctx tr (view y.lib) n m))
      ⟨⟨_, hx⟩, fun _ => ⟨0, 0, rfl, fun _ => hready, fun h => absurd h (Nat.lt_irrefl 0)⟩⟩ ?_
    intro tr x a y _ hall hs
    obtain ⟨⟨leaked, haccount⟩, hresets⟩ := hall
    refine ⟨⟨_, account_step hE haccount hs⟩, fun hkept => ?_⟩
    obtain ⟨htr, ha⟩ := not_or.mp (mt List.mem_append.mpr hkept)
    obtain ⟨n, m, hat⟩ := hresets htr
    exact resets_step hE haccount hat
      (fun hreclaim => ha (hreclaim ▸ List.mem_singleton_self _)) hs
  obtain ⟨n, m, hresults, hyes, hblank⟩ := hrun.2 hkept
  refine ⟨n, m, hresults, fun hy => ?_, hyes⟩
  obtain ⟨key, iv, encrypt, hy⟩ := hy
  refine Nat.eq_zero_of_not_pos fun hm => ?_
  rw [hblank hm] at hy
  cases hy

end Ready

/-- The statement for a reset that fails, and one behind it with the same key. -/
theorem context_ready_iff_failed : ∃ x tr y, (aes smallEvp).Run x tr y ∧ x.lib.ctxs.Ready 7 ∧
    resets 7 tr = [false, false] ∧
    ∃ n m, resets 7 tr = List.replicate n true ++ List.replicate m false ∧
      (y.lib.ctxs.Ready 7 ↔ m = 0) := by
  let made : Ctx := .keyed (key48.bytes.take 32) ((key48.bytes.drop 32).take 16) true
  have hx : AccountAt [] (Ctxs.set (fun _ => none) 7 (some made)) (insert 7 ∅) :=
    (account_start fun _ => rfl).give rfl made
  have h₁ : (aes smallEvp).Run ⟨⟨Ctxs.set (fun _ => none) 7 (some made), 8, [false, true]⟩, {7}⟩
      _ _ := .single (@AesStep.reset _ _ _ _ key48 true _ (Finset.mem_singleton_self 7) rfl)
  have h₂ := h₁.step (@AesStep.reset _ _ _ _ key48 true _ (Finset.mem_singleton_self 7) rfl)
  have hready : Ctxs.Ready (Ctxs.set (fun _ => none) 7 (some made)) 7 := ⟨_, _, _, rfl⟩
  exact ⟨_, _, _, h₂, hready, rfl,
    context_ready_iff smallEvp_lawful hx h₂ hready (by simp)⟩

end Cse303
