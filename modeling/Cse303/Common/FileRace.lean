/-
  File:      Cse303/Common/FileRace.lean
  Subject:   A FILE THAT IS REWRITTEN WHILE IT IS LOADED: `load_entire_file` and `write_file`
             (file.cc), call by call, in any interleaving.

  One process rewrites a file of content `old` with `new`: its `fopen` truncates, and the bytes
  reach the file in any portions. Another loads it: `stat`, `fopen`, and an `fread` that reads the
  file in any portions until it meets the end or has the byte too much.

  * `load_alone`, `write_alone` -- without the other each does what `loadEntireFile` and `writeFile`
    do;
  * `rewrite_run` -- the bytes read so far: a front part of `old`, and behind it bytes of `new` at
    their places;
  * **`load_during_iff`** -- so the loads that are possible are, exactly: none, `old`, a front part
    of `new`, and, if `new` is not shorter, `old` up to some point and `new` from there.
-/
import Cse303.Common.File
import Cse303.Lib.Lts

namespace Cse303

/-! ## 1. The two processes -/

/-- Where the load is. -/
inductive ReaderPc where
  | start
  /-- `stat` has answered -/
  | opening (size : OffT)
  /-- in `fread`, with the bytes stored so far -/
  | reading (size : OffT) (got : List UInt8)
  | done (r : List UInt8)
  deriving DecidableEq

/-- The file, as far as it is rewritten, and the load. -/
structure Rewrite where
  opened : Bool
  /-- how many bytes of `new` have reached the file -/
  out : Nat
  reader : ReaderPc
  deriving DecidableEq

inductive RewriteAct where
  | truncate
  | write (n : Nat)
  | stat (size : OffT)
  | fopen
  | read (n : Nat)
  | ends
  | fails
  deriving DecidableEq

variable (filename : String) (old new : List UInt8)

/-- The content of the file. -/
def Rewrite.file (x : Rewrite) : List UInt8 := if x.opened then new.take x.out else old

inductive RewriteStep : Rewrite → RewriteAct → Rewrite → Prop where
  /- `write_file`: a write that fails just stops -/
  | truncate {x : Rewrite} (h : x.opened = false) :
      RewriteStep x .truncate { x with opened := true, out := 0 }
  | write {x : Rewrite} {n : Nat} (h : x.opened = true) (hn : x.out + n ≤ new.length) :
      RewriteStep x (.write n) { x with out := x.out + n }
  /- `load_entire_file` -/
  | stat {x : Rewrite} {size : OffT} (h : x.reader = .start)
      (hs : (x.file old new).length = size) :
      RewriteStep x (.stat size) { x with reader := .opening size }
  | fopen {x : Rewrite} {size : OffT} (h : x.reader = .opening size) :
      RewriteStep x .fopen { x with reader := .reading size [] }
  | read {x : Rewrite} {size : OffT} {got : List UInt8} {n : Nat} (h : x.reader = .reading size got)
      (hn : got.length + n ≤ (x.file old new).length) (hroom : got.length + n ≤ size + 1) :
      RewriteStep x (.read n)
        { x with reader := .reading size (got ++ ((x.file old new).drop got.length).take n) }
  -- the end of the file, or the byte too much: the rest of the code sees what `fread` stored
  | ends {x : Rewrite} {size : OffT} {got : List UInt8} (h : x.reader = .reading size got)
      (hend : (x.file old new).length ≤ got.length ∨ got.length = size + 1) :
      RewriteStep x .ends
        { x with reader := .done (loadEntireFile filename (.seen size got)).ret.val.bytes }
  -- a call fails
  | fails {x : Rewrite} (h : ∀ r, x.reader ≠ .done r) :
      RewriteStep x .fails { x with reader := .done [] }

/-- The two as a transition system. -/
def rewrite : Lts Rewrite RewriteAct := ⟨RewriteStep filename old new⟩

/-- Neither has begun. -/
def Rewrite.start : Rewrite := ⟨false, 0, .start⟩

/-! ## 2. What is read -/

variable {filename old new}

/-- Bytes of a part of `new` are those of `new`. -/
theorem portion {a n out : Nat} (h : a + n ≤ (new.take out).length) :
    ((new.take out).drop a).take n = (new.drop a).take n := by
  rw [List.length_take] at h
  rw [List.drop_take, List.take_take]
  exact congrArg (fun m => (new.drop a).take m) (by omega)

/-- A further portion, behind bytes of `new` from `k` on. -/
theorem portion_behind {k a n : Nat} (hk : k ≤ a) (ha : a ≤ new.length) :
    (new.take a).drop k ++ (new.drop a).take n = (new.take (a + n)).drop k := by
  rw [List.take_add, List.drop_append_of_le_length]
  rw [List.length_take]
  omega

/-- **The bytes read so far**: the first `k` are of `old`, the others of `new`; these only when the
    file was opened for writing, and only so many as had reached it. -/
structure Mixed (old new : List UInt8) (x : Rewrite) (got : List UInt8) (k : Nat) : Prop where
  le_old : k ≤ old.length
  le_got : k ≤ got.length
  eq : got = old.take k ++ (new.take got.length).drop k
  unopened : x.opened = false → got.length = k
  behind : k < got.length → got.length ≤ x.out

/-- What a load can return. -/
def Possible (old new r : List UInt8) : Prop :=
  r = [] ∨ r.length < 4294967296 ∧ (r = old ∨ r <+: new ∨
    old.length ≤ new.length ∧ ∃ k ≤ old.length, r = old.take k ++ (new.take old.length).drop k)

/-- The reader, at each of its points. -/
def ReaderPc.Holds (old new : List UInt8) (x : Rewrite) : ReaderPc → Prop
  | .start => True
  | .opening size => (size : Nat) = old.length ∨ x.opened = true
  | .reading size got =>
    ∃ k, Mixed old new x got k ∧ ((size : Nat) = old.length ∨ k = 0 ∧ x.opened = true)
  | .done r => Possible old new r

/-- **The invariant.** -/
structure Rewrite.Inv (old new : List UInt8) (x : Rewrite) : Prop where
  out_le : x.out ≤ new.length
  reader : x.reader.Holds old new x

section Step

variable {x : Rewrite} {size : OffT} {got : List UInt8} {k n : Nat}

/-- Before the truncation the next bytes are of `old`, -/
theorem Mixed.read_old (h : Mixed old new x got k) (hclosed : x.opened = false)
    (hn : got.length + n ≤ old.length) (y : Rewrite) :
    Mixed old new y (got ++ (old.drop got.length).take n) (k + n) := by
  have hk := h.unopened hclosed
  have hlength : (got ++ (old.drop got.length).take n).length = k + n := by
    rw [List.length_append, List.length_take, List.length_drop]
    omega
  have hgot : got = old.take k := by
    have heq := h.eq
    rwa [hk, List.drop_take_self, List.append_nil] at heq
  refine ⟨by omega, by omega, ?_, fun _ => hlength, by omega⟩
  rw [hlength, List.drop_take_self, List.append_nil, List.take_add, ← hgot, hk]

/-- behind it of `new`. -/
theorem Mixed.read_new (h : Mixed old new x got k) (hn : got.length + n ≤ x.out)
    (hout : x.out ≤ new.length) (y : Rewrite) (hy : y.opened = true) (hle : x.out ≤ y.out) :
    Mixed old new y (got ++ (new.drop got.length).take n) k := by
  have hgot := h.le_got
  have hlength : (got ++ (new.drop got.length).take n).length = got.length + n := by
    rw [List.length_append, List.length_take, List.length_drop]
    omega
  refine ⟨h.le_old, by omega, ?_, fun hno => absurd hy (by simp [hno]), by omega⟩
  rw [hlength, ← portion_behind hgot (by omega), ← List.append_assoc]
  exact congrArg (· ++ (new.drop got.length).take n) h.eq

/-- **What a load returns** that read these bytes. -/
theorem Mixed.possible (h : Mixed old new x got k) (hsize : (size : Nat) = old.length ∨ k = 0)
    (hout : x.out ≤ new.length) :
    Possible old new (loadEntireFile filename (.seen size got)).ret.val.bytes := by
  rw [load_val]
  by_cases hall : got.length = size ∧ (size : Nat) < 4294967296
  · rw [if_pos hall]
    have heq := h.eq
    have hle := h.le_old
    refine .inr ⟨by omega, ?_⟩
    rcases hsize with hsize | rfl
    · have hlength : got.length = old.length := hall.1.trans hsize
      rw [hlength] at heq
      rcases Nat.lt_or_ge k got.length with hk | hk
      · have hbehind := h.behind hk
        exact .inr (.inr ⟨by omega, k, hle, heq⟩)
      · have hk : k = old.length := by omega
        rw [hk, List.take_length, List.drop_take_self, List.append_nil] at heq
        exact .inl heq
    · exact .inr (.inl (heq ▸ List.take_prefix _ _))
  · rw [if_neg hall]
    exact .inl rfl

/-- The writer changes nothing for the reader: what was read of `new` is there. -/
theorem ReaderPc.Holds.writer {pc : ReaderPc} {y : Rewrite} (h : pc.Holds old new x)
    (hy : y.opened = true) (hout : x.opened = false ∨ x.out ≤ y.out) : pc.Holds old new y := by
  cases pc with
  | start => trivial
  | opening size => exact .inr hy
  | reading size got =>
      obtain ⟨k, hmixed, hsize⟩ := h
      refine ⟨k, ⟨hmixed.le_old, hmixed.le_got, hmixed.eq, fun hno => ?_, fun hk => ?_⟩,
        hsize.imp_right fun h => ⟨h.1, hy⟩⟩
      · rw [hy] at hno
        cases hno
      · rcases hout with hclosed | hle
        · exact absurd (hmixed.unopened hclosed) (Nat.ne_of_gt hk)
        · exact (hmixed.behind hk).trans hle
  | done r => exact h

end Step

/-- **The step lemma.** -/
theorem rewrite_step {x y : Rewrite} {a : RewriteAct} (h : x.Inv old new)
    (hs : (rewrite filename old new).step x a y) : y.Inv old new := by
  obtain ⟨hout, hreader⟩ := h
  cases hs with
  | truncate hclosed => exact ⟨Nat.zero_le _, hreader.writer rfl (.inl hclosed)⟩
  | @write n hopen hn => exact ⟨hn, hreader.writer hopen (.inr (Nat.le_add_right _ _))⟩
  | @stat size hpc hsize =>
      refine ⟨hout, ?_⟩
      by_cases hopen : x.opened = true
      · exact .inr hopen
      · rw [Rewrite.file, if_neg hopen] at hsize
        exact .inl hsize.symm
  | @fopen size hpc =>
      refine ⟨hout, ?_⟩
      rw [hpc] at hreader
      exact ⟨0, ⟨Nat.zero_le _, Nat.le_refl _, by simp, fun _ => rfl,
        fun hlt => absurd hlt (Nat.lt_irrefl _)⟩, hreader.imp_right fun h => ⟨rfl, h⟩⟩
  | @read size got n hpc hn _ =>
      refine ⟨hout, ?_⟩
      rw [hpc] at hreader
      obtain ⟨k, hmixed, hsize⟩ := hreader
      by_cases hopen : x.opened = true
      · have hfile : x.file old new = new.take x.out := if_pos hopen
        rw [hfile] at hn
        have hle : got.length + n ≤ x.out := hn.trans (List.length_take_le _ _)
        rw [hfile, portion hn]
        exact ⟨k, hmixed.read_new hle hout _ hopen (Nat.le_refl _), hsize⟩
      · have hclosed : x.opened = false := Bool.not_eq_true _ ▸ hopen
        have hfile : x.file old new = old := if_neg hopen
        rw [hfile] at hn ⊢
        refine ⟨k + n, hmixed.read_old hclosed hn _, hsize.imp_right fun h => ?_⟩
        exact absurd h.2 hopen
  | @ends size got hpc _ =>
      refine ⟨hout, ?_⟩
      rw [hpc] at hreader
      obtain ⟨k, hmixed, hsize⟩ := hreader
      exact hmixed.possible (hsize.imp_right And.left) hout
  | fails _ => exact ⟨hout, .inl rfl⟩

/-- **The run lemma.** -/
theorem rewrite_run {tr : List RewriteAct} {y : Rewrite}
    (h : (rewrite filename old new).Run .start tr y) : y.Inv old new :=
  h.invariant ⟨Nat.zero_le _, trivial⟩ fun _ _ _ hx hs => rewrite_step hx hs

/-! ## 3. What can be read -/

section Runs

variable {x : Rewrite} {c : List UInt8} {n : OffT}

/-- A load that nobody interrupts does what `loadEntireFile` does. -/
theorem load_alone (hpc : x.reader = .start) (hc : x.file old new = c) (hsize : c.length = n) :
    (rewrite filename old new).Run x [.stat n, .fopen, .read n, .ends]
      { x with reader := .done (loadEntireFile filename (.seen n c)).ret.val.bytes } := by
  have h₁ : (rewrite filename old new).Run x _ _ := .single (.stat hpc (hc ▸ hsize))
  have h₂ := h₁.step (.fopen rfl)
  have hn : ([] : List UInt8).length + n ≤ (x.file old new).length := by
    rw [hc, List.length_nil]
    omega
  have hread : RewriteStep filename old new { x with reader := .reading n [] } (.read n)
      { x with reader := .reading n ([] ++ ((x.file old new).drop 0).take n) } :=
    .read rfl hn (by rw [List.length_nil]; omega)
  rw [hc, List.drop_zero, List.take_of_length_le (Nat.le_of_eq hsize), List.nil_append] at hread
  have h₃ := h₂.step hread
  exact h₃.step (.ends rfl (.inl (Nat.le_of_eq (congrArg List.length hc))))

/-- Of a file that 32 bits can count it returns the content. -/
theorem load_alone_whole (hpc : x.reader = .start) (hc : x.file old new = c)
    (h32 : c.length < 4294967296) :
    ∃ tr, (rewrite filename old new).Run x tr { x with reader := .done c } := by
  have hrun : (rewrite filename old new).Run x _ _ :=
    load_alone (n := ⟨c.length, by omega⟩) hpc hc rfl
  rw [load_val, if_pos ⟨rfl, h32⟩] at hrun
  exact ⟨_, hrun⟩

/-- The file is opened for writing, and `m` bytes of `new` get out. -/
theorem write_some {m : Nat} (hclosed : x.opened = false) (hm : m ≤ new.length) :
    (rewrite filename old new).Run x [.truncate, .write m]
      { x with opened := true, out := m } := by
  have hwrite : RewriteStep filename old new { x with opened := true, out := 0 } (.write m)
      { x with opened := true, out := 0 + m } := .write rfl (by rwa [Nat.zero_add])
  rw [Nat.zero_add] at hwrite
  have htruncate : (rewrite filename old new).Run x _ _ := .single (.truncate hclosed)
  exact htruncate.step hwrite

/-- A `write_file` that nobody interrupts leaves what `writeFile` leaves, whatever fails. -/
theorem write_alone {data : Vec} {skip : SizeT} {w : WriteCalls} (beyond : Nat → UInt8) (fs : Fs)
    (hopen : w.fopen = true) (hskip : (skip : Nat) ≤ data.size) :
    ∃ tr y, (rewrite filename old (data.bytes.drop skip)).Run .start tr y ∧ y.reader = .start ∧
      (writeFile filename data skip w beyond fs).fs filename =
        some (y.file old (data.bytes.drop skip)) := by
  obtain ⟨text, hfs, hfront⟩ := writeFile_front filename beyond fs hopen hskip
  refine ⟨_, _, write_some rfl hfront.length_le, rfl, ?_⟩
  rw [hfs, Rewrite.file, if_pos rfl, ← List.prefix_iff_eq_take.mp hfront]

end Runs

/-- A load that is overtaken by the rewriting, `k` bytes from the front. -/
theorem load_overtaken {k : Nat} (h32 : old.length < 4294967296) (hle : old.length ≤ new.length)
    (hk : k ≤ old.length) : ∃ tr y, (rewrite filename old new).Run .start tr y ∧
      y.reader = .done (old.take k ++ (new.take old.length).drop k) := by
  have hfront : (old.take k).length = k := List.length_take_of_le hk
  have hrest : ((new.take old.length).drop k).length = old.length - k := by
    rw [List.length_drop, List.length_take_of_le hle]
  have hgot : (old.take k ++ (new.take old.length).drop k).length = old.length := by
    rw [List.length_append, hfront, hrest]
    omega
  have hsize : old.length < 9223372036854775808 := by omega
  -- `k` bytes before the truncation
  have hstat : (rewrite filename old new).Run .start _ _ :=
    .single (@RewriteStep.stat _ _ _ _ ⟨old.length, hsize⟩ rfl rfl)
  have hread : RewriteStep filename old new ⟨false, 0, .reading ⟨old.length, hsize⟩ []⟩ (.read k)
      ⟨false, 0, .reading ⟨old.length, hsize⟩ ([] ++ (old.drop 0).take k)⟩ :=
    .read rfl (by simpa [Rewrite.file]) (by simp; omega)
  rw [List.drop_zero, List.nil_append] at hread
  have hbefore := (hstat.step (.fopen rfl)).step hread
  -- the others behind it, up to the end that the file has then
  have hwrite := hbefore.trans (write_some rfl hle)
  have hreadNew : RewriteStep filename old new
      ⟨true, old.length, .reading ⟨old.length, hsize⟩ (old.take k)⟩ (.read (old.length - k))
      ⟨true, old.length, .reading ⟨old.length, hsize⟩
        (old.take k ++ ((new.take old.length).drop (old.take k).length).take (old.length - k))⟩ :=
    .read rfl (by simp [Rewrite.file, hfront]; omega) (by simp [hfront]; omega)
  rw [hfront, List.take_of_length_le (Nat.le_of_eq hrest)] at hreadNew
  have hend : (new.take old.length).length ≤
      (old.take k ++ (new.take old.length).drop k).length := by
    rw [hgot, List.length_take_of_le hle]
  have hends := (hwrite.step hreadNew).step (.ends rfl (.inl hend))
  rw [load_val, if_pos ⟨hgot, h32⟩] at hends
  exact ⟨_, _, hends, rfl⟩

/-- **WHAT A LOAD CAN RETURN** while the file is rewritten, for every content and new content: each
    of these in some interleaving, and nothing else in any. So of the sizes that 32 bits can count,
    a load mixes the two contents only if the new one is not shorter. -/
theorem load_during_iff (filename : String) (old new r : List UInt8) :
    (∃ tr y, (rewrite filename old new).Run .start tr y ∧ y.reader = .done r) ↔
      Possible old new r := by
  constructor
  · intro ⟨tr, y, hrun, hdone⟩
    have hreader := (rewrite_run hrun).reader
    rw [hdone] at hreader
    exact hreader
  · intro h
    rcases h with rfl | ⟨h32, rfl | hfront | ⟨hle, k, hk, rfl⟩⟩
    · exact ⟨_, _, .single (.fails (nofun)), rfl⟩
    · have hload : ∃ tr, (rewrite filename r new).Run .start tr _ := load_alone_whole rfl rfl h32
      obtain ⟨tr, hrun⟩ := hload
      exact ⟨tr, _, hrun, rfl⟩
    · have hwrite : (rewrite filename old new).Run .start _ _ :=
        write_some rfl hfront.length_le
      have hfile : Rewrite.file old new ⟨true, r.length, .start⟩ = r :=
        (List.prefix_iff_eq_take.mp hfront).symm
      obtain ⟨tr, hload⟩ := load_alone_whole rfl hfile h32
      exact ⟨_, _, hwrite.trans hload, rfl⟩
    · rw [List.length_append, List.length_take_of_le hk, List.length_drop,
        List.length_take_of_le hle] at h32
      exact load_overtaken (by omega) hle hk

end Cse303
