/-
  File:      Cse303/Common/File.lean
  Subject:   `load_entire_file` AND `write_file` (file.cc): FILES AS VECTORS, and the round trip.

  `load_entire_file` sizes its vector by `stat` and asks `fread` for one byte more, so that the end
  of the file shows. `write_file` hands `data` from `skip` on to `fwrite` and leaves the `fclose` to
  a `ContextManager`. What the calls answer is an input (`LoadCalls`, `WriteCalls`): `stat` and
  `fread` may see two different files, and every call may fail. There is memory for every vector.

  * `load_val` -- what a load returns, in one equation: the content, or the empty vector;
  * **`loadEntireFile_iff`** -- a load is right for the sizes and contents without a byte too much,
    and within the 32 bits it counts in;
  * `writeFile_opened` -- what a write leaves: the stream, the region handed to `fwrite`, the file;
  * **`writeFile_iff`** -- a write is right if `skip` is within the data, the flush loses nothing
    and a reader can count the file.
-/
import Cse303.Lib.CInt
import Cse303.Lib.Stdio
import Cse303.Common.KeyFiles
import Mathlib.Data.List.GetD

namespace Cse303

open CInt Stdio

/-! ## 1. Vectors and handles -/

/-- A size that `stat` reports: an `off_t`, and not negative. -/
abbrev OffT := Fin 9223372036854775808

/-- A `size_t`. -/
abbrev SizeT := Fin 18446744073709551616

/-- A `vector<uint8_t>`, of at most `max_size()` bytes. -/
@[ext] structure Vec where
  bytes : List UInt8
  size_lt : bytes.length < 9223372036854775808
  deriving DecidableEq

namespace Vec

def size (v : Vec) : Nat := v.bytes.length

/-- `{}`. -/
def empty : Vec := ⟨[], by decide⟩

/-- `vector(n)`: `n` zero bytes. -/
def zeros (n : OffT) : Vec := ⟨List.replicate n 0, by simp⟩

/-- The vector once `got` was stored through `data()`: what lies past its end is not in it. -/
def store (v : Vec) (got : List UInt8) : Vec :=
  ⟨(got ++ v.bytes.drop got.length).take v.size,
    Nat.lt_of_le_of_lt (List.length_take_le _ _) v.size_lt⟩

@[simp] theorem size_zeros (n : OffT) : (zeros n).size = n := List.length_replicate

@[simp] theorem size_store (v : Vec) (got : List UInt8) : (v.store got).size = v.size := by
  simp only [store, size, List.length_take, List.length_append, List.length_drop]
  omega

theorem length_drop (v : Vec) (n : Nat) : (v.bytes.drop n).length = v.size - n := List.length_drop

/-- Bytes for the whole vector take its place. -/
theorem store_full {v : Vec} {got : List UInt8} (h : got.length = v.size) :
    (v.store got).bytes = got := by
  have hrest : v.bytes.drop got.length = [] := List.drop_of_length_le (Nat.le_of_eq h.symm)
  simp only [store, hrest, List.append_nil, ← h, List.take_length]

end Vec

/-- `ContextManager`: the cleanup of a scope, over what it works on. -/
structure ContextManager (σ : Type) where
  action : σ → σ
  enabled : Bool := true

/-- `~ContextManager`. -/
def ContextManager.destruct {σ : Type} (m : ContextManager σ) (s : σ) : σ :=
  if m.enabled then m.action s else s

/-- `disable`. -/
def ContextManager.disable {σ : Type} (m : ContextManager σ) : ContextManager σ :=
  { m with enabled := false }

/-! ## 2. `load_entire_file` -/

/-- `file_exists`. -/
def fileExists (filename : String) (fs : Fs) : Bool := (fs filename).isSome

/-- What the calls of one load answer. -/
structure LoadCalls where
  /-- `stat`: `st_size`, or a failure -/
  stat : Option OffT
  fopen : Bool
  /-- what the file holds when `fread` runs -/
  content : List UInt8
  /-- `some n`: the device fails behind `n` bytes -/
  readFails : Option Nat
  deriving DecidableEq

/-- `stat` and `fread` succeed, on what may be two versions of the file. -/
def LoadCalls.seen (size : OffT) (content : List UInt8) : LoadCalls :=
  ⟨some size, true, content, none⟩

/-- `fread(.., 1, count, f)` and then `feof(f)`: only a read that meets the end sets the flag. -/
def fread (l : LoadCalls) (count : Nat) : List UInt8 × Bool :=
  match l.readFails with
  | none => (l.content.take count, decide (l.content.length < count))
  | some n => (l.content.take (min n count), false)

/-- A load: what it returned, and the bytes that `fread` stored through `res.data()`. -/
structure LoadRun where
  ret : Ret Vec
  stored : List UInt8
  deriving DecidableEq

/-- `load_entire_file`. Closing the file changes nothing that is looked at. -/
def loadEntireFile (filename : String) (l : LoadCalls) : LoadRun :=
  let notFound : Ret Vec := err .empty [.text "File ", .text filename, .text " not found"]
  match l.stat with
  | none => ⟨notFound, []⟩
  | some size =>
    if l.fopen = false then ⟨notFound, []⟩
    else
      let res := Vec.zeros size
      -- one byte more than `res` has
      let got := fread l (toSize (size + 1))
      let res := res.store got.1
      let recd := toUnsigned got.1.length
      if recd ≠ res.size ∨ got.2 = false then
        ⟨err .empty [.text "Incorrect number of bytes read from ", .text filename], got.1⟩
      else ⟨.quiet res, got.1⟩

/-- A load that gets to its `fread`, and to the end of that. -/
theorem load_seen (filename : String) (size : OffT) (content : List UInt8) :
    loadEntireFile filename (.seen size content) =
      let got := content.take (size + 1)
      if toUnsigned got.length ≠ size ∨ decide (content.length < size + 1) = false then
        ⟨err .empty [.text "Incorrect number of bytes read from ", .text filename], got⟩
      else ⟨.quiet ((Vec.zeros size).store got), got⟩ := by
  have hcount : toSize (size + 1) = size + 1 := by
    have hlt := size.isLt
    exact toSize_natCast (n := size + 1) (by omega)
  simp only [loadEntireFile, LoadCalls.seen, Bool.true_eq_false, if_false, fread, hcount,
    Vec.size_store, Vec.size_zeros]

/-- When it is taken for good. -/
theorem load_accepts (size : OffT) (content : List UInt8) :
    ¬ (toUnsigned (content.take (size + 1)).length ≠ size ∨
        decide (content.length < size + 1) = false) ↔
      content.length = size ∧ (size : Nat) < 4294967296 := by
  constructor
  · intro h
    have hrecd : toUnsigned (content.take (size + 1)).length = size :=
      Classical.not_not.mp fun hne => h (.inl hne)
    have hend : content.length < size + 1 :=
      of_decide_eq_true (Bool.not_eq_false _ ▸ fun hno => h (.inr hno))
    -- nothing is cut off, and the 32 bits only make a count smaller
    rw [List.take_of_length_le (Nat.le_of_lt hend)] at hrecd
    have hle := toUnsigned_le content.length
    have hlen : content.length = size := by omega
    rw [hlen] at hrecd
    exact ⟨hlen, toUnsigned_eq_self.mp hrecd⟩
  · rintro ⟨hlen, h32⟩ h
    rw [List.take_of_length_le (by omega), hlen] at h
    rcases h with hrecd | hend
    · exact hrecd (toUnsigned_eq_self.mpr h32)
    · exact absurd (Nat.lt_succ_self _) (of_decide_eq_false hend)

/-- The bytes stored by a load that gets to its `fread`. -/
theorem load_stored (filename : String) (size : OffT) (content : List UInt8) :
    (loadEntireFile filename (.seen size content)).stored = content.take (size + 1) := by
  rw [load_seen]
  dsimp only
  split <;> rfl

/-- **What it returns.** -/
theorem load_val (filename : String) (size : OffT) (content : List UInt8) :
    (loadEntireFile filename (.seen size content)).ret.val.bytes =
      if content.length = size ∧ (size : Nat) < 4294967296 then content else [] := by
  rw [load_seen]
  dsimp only
  by_cases h : content.length = size ∧ (size : Nat) < 4294967296
  · rw [if_neg ((load_accepts size content).mpr h), if_pos h, List.take_of_length_le (by omega)]
    exact Vec.store_full (h.1.trans (Vec.size_zeros size).symm)
  · rw [if_neg h, if_pos (Classical.not_not.mp fun hno => h ((load_accepts size content).mp hno))]
    rfl

/-- A load in which a call failed returns the empty vector. -/
theorem load_failed (filename : String) {l : LoadCalls}
    (h : l.stat = none ∨ l.fopen = false ∨ l.readFails.isSome = true) :
    (loadEntireFile filename l).ret.val = .empty := by
  unfold loadEntireFile
  cases hstat : l.stat with
  | none => rfl
  | some size =>
      by_cases hopen : l.fopen = false
      · simp [hopen]
      · rw [hstat] at h
        rcases h with h | h | h
        · cases h
        · exact absurd h hopen
        · obtain ⟨n, hn⟩ := Option.isSome_iff_exists.mp h
          simp [hopen, fread, hn]

/-- **Nothing but the whole content is ever returned**: whatever the calls answer, a load returns
    the empty vector, or what the file held when it was read. -/
theorem load_whole_or_empty (filename : String) (l : LoadCalls) :
    (loadEntireFile filename l).ret.val = .empty ∨
      (loadEntireFile filename l).ret.val.bytes = l.content := by
  by_cases hfail : l.stat = none ∨ l.fopen = false ∨ l.readFails.isSome = true
  · exact .inl (load_failed filename hfail)
  · obtain ⟨stat, fopen, content, readFails⟩ := l
    cases stat with
    | none => exact absurd (.inl rfl) hfail
    | some size =>
        cases fopen with
        | false => exact absurd (.inr (.inl rfl)) hfail
        | true =>
            cases readFails with
            | some n => exact absurd (.inr (.inr rfl)) hfail
            | none =>
                have hval := load_val filename size content
                by_cases h : content.length = size ∧ (size : Nat) < 4294967296
                · rw [if_pos h] at hval
                  exact .inr hval
                · rw [if_neg h] at hval
                  exact .inl (Vec.ext hval)

/-- **What a load should do**, of any size and any content. -/
structure LoadsExactly (filename : String) (size : OffT) (content : List UInt8) : Prop where
  /-- `fread` stores no more than there is room for -/
  inside : (loadEntireFile filename (.seen size content)).stored.length ≤ size
  whole : content.length = size →
    (loadEntireFile filename (.seen size content)).ret.val.bytes = content
  /-- a content of another length is not returned, not even a part of it -/
  nothing : content.length ≠ size →
    (loadEntireFile filename (.seen size content)).ret.val.bytes = []

/-- **`load_entire_file` is right** of exactly the files that were not longer when they were read
    than when `stat` saw them, and, if they were not shorter either, are counted by 32 bits. -/
theorem loadEntireFile_iff (filename : String) (size : OffT) (content : List UInt8) :
    LoadsExactly filename size content ↔
      content.length ≤ size ∧ (content.length = size → (size : Nat) < 4294967296) := by
  have hstored := load_stored filename size content
  have hval := load_val filename size content
  constructor
  · intro h
    have hinside := h.inside
    rw [hstored, List.length_take] at hinside
    refine ⟨by omega, fun hlen => Classical.byContradiction fun hno => ?_⟩
    -- a file of 2^32 bytes or more is refused, and is not the empty one
    rw [if_neg fun h' => hno h'.2, h.whole hlen] at hval
    rw [hval, List.length_nil] at hlen
    omega
  · rintro ⟨hle, h32⟩
    refine ⟨?_, fun hlen => ?_, fun hne => ?_⟩
    · rw [hstored, List.length_take]
      omega
    · rw [hval, if_pos ⟨hlen, h32 hlen⟩]
    · rw [hval, if_neg fun h => hne h.1]

/-- A file that was empty for `stat` and has one byte when it is read: `fread` stores it, in a
    vector that has no room for it. -/
theorem loadEntireFile_not_exact : ¬ LoadsExactly "a" 0 [65] := by
  intro h
  exact absurd h.inside (by rw [load_stored]; decide)

/-! ## 3. `write_file` -/

/-- What the calls of one write answer. -/
structure WriteCalls where
  fopen : Bool
  /-- what `fwrite` takes, and what of it reaches the file before `fclose` -/
  moves : List Move
  /-- how many of the bytes still held the flush in `fclose` gets out -/
  flushed : Nat
  deriving DecidableEq

/-- The bytes handed to `fwrite`: `count` of them, from `data.data() + start`. -/
structure Region where
  start : Nat
  count : Nat
  deriving DecidableEq

/-- The memory from `data.data() + start` on: the vector, and whatever lies `beyond` it. -/
def memory (data : Vec) (beyond : Nat → UInt8) (start i : Nat) : UInt8 :=
  data.bytes.getD (start + i) (beyond (start + i))

/-- `fclose`, of a stream that was written: false for a flush that failed. -/
def fclose (flushed : Nat) (f : OStream UInt8) : OStream UInt8 × Bool :=
  (f.drain flushed, decide (f.held.length ≤ flushed))

/-- A write: what it returned, what it handed to `fwrite`, and the files behind it. -/
structure WriteRun where
  ret : Ret Bool
  handed : Option Region
  fs : Fs

/-- `write_file`. The difference is a `size_t`; the result is fixed before the destructor runs. -/
def writeFile (filename : String) (data : Vec) (skip : SizeT) (w : WriteCalls)
    (beyond : Nat → UInt8) (fs : Fs) : WriteRun :=
  if w.fopen = false then
    ⟨err false [.text "Unable to open '", .text filename, .text "' for writing"], none, fs⟩
  else
    -- "wb" truncates
    let f : OStream UInt8 := .empty
    -- what fclose returns is thrown away
    let closer : ContextManager (OStream UInt8) := { action := fun f => (fclose w.flushed f).1 }
    let count := toSize ((data.size : Int) - (skip : Nat))
    let wrote := f.write (memory data beyond skip) count 0 w.moves
    let ret :=
      if wrote.2 ≠ count then
        err false [.text "Incorrect number of bytes written to ", .text filename]
      else .quiet true
    let f := closer.destruct wrote.1
    ⟨ret, some ⟨skip, count⟩, fs.write filename f.file⟩

/-- The memory within the vector. -/
theorem memory_inside (data : Vec) (beyond : Nat → UInt8) {skip n : Nat}
    (h : skip + n ≤ data.size) :
    (List.range' 0 n).map (memory data beyond skip) = (data.bytes.drop skip).take n := by
  have hsize : data.size = data.bytes.length := rfl
  refine List.ext_getElem ?_ fun i h₁ h₂ => ?_
  · simp only [List.length_map, List.length_range', List.length_take, List.length_drop]
    omega
  · have hi : i < n := by simpa using h₁
    simp only [List.getElem_map, List.getElem_range', List.getElem_take, List.getElem_drop, memory]
    rw [Nat.zero_add, Nat.one_mul, List.getD_eq_getElem _ _ (by omega)]

/-- **What a write leaves** whose `skip` is within the data: the stream before its `fclose`, the
    region handed over, and the file. -/
theorem writeFile_opened (filename : String) {data : Vec} {skip : SizeT} {w : WriteCalls}
    (beyond : Nat → UInt8) (fs : Fs) (hopen : w.fopen = true) (hskip : (skip : Nat) ≤ data.size) :
    ∃ f : OStream UInt8,
      f.taken = (data.bytes.drop skip).take (total w.moves) ∧
      f.held.length = heldAfter (data.size - skip) 0 0 w.moves ∧
      writeFile filename data skip w beyond fs =
        ⟨if total w.moves < data.size - skip then
            err false [.text "Incorrect number of bytes written to ", .text filename]
          else .quiet true,
          some ⟨skip, data.size - skip⟩, fs.write filename (f.drain w.flushed).file⟩ := by
  have hsize : data.size < 9223372036854775808 := data.size_lt
  have hcount : toSize ((data.size : Int) - (skip : Nat)) = data.size - skip := by
    rw [← Int.ofNat_sub hskip]
    exact toSize_natCast (by omega)
  obtain ⟨n, hn, htaken⟩ :=
    write_spec (memory data beyond skip) (data.size - skip) .empty 0 w.moves
  have hmin := write_count (memory data beyond skip) .empty (Nat.zero_le (data.size - skip)) w.moves
  refine ⟨(OStream.empty.write (memory data beyond skip) (data.size - skip) 0 w.moves).1,
    ?_, ?_, ?_⟩
  · have hlen := data.length_drop skip
    have hmemory : (List.range' 0 n).map (memory data beyond skip) =
        (data.bytes.drop skip).take n := memory_inside data beyond (by omega)
    rw [htaken, OStream.taken_empty, List.nil_append, hmemory]
    rw [hn, Nat.zero_add, Nat.zero_add] at hmin
    rw [hmin, ← hlen, ← List.take_eq_take_min]
  · exact write_held (memory data beyond skip) (data.size - skip) .empty 0 w.moves
  · unfold writeFile
    rw [if_neg (by simp [hopen])]
    simp only [hcount]
    by_cases hshort : total w.moves < data.size - skip
    · rw [if_pos hshort, if_pos (by omega)]
      rfl
    · rw [if_neg hshort, if_neg (by omega)]
      rfl

/-- **The other files**: a write touches none. -/
theorem writeFile_other (filename : String) (data : Vec) (skip : SizeT) (w : WriteCalls)
    (beyond : Nat → UInt8) (fs : Fs) {name : String} (h : name ≠ filename) :
    (writeFile filename data skip w beyond fs).fs name = fs name := by
  unfold writeFile
  by_cases hopen : w.fopen = false
  · rw [if_pos hopen]
  · rw [if_neg hopen]
    exact Fs.write_other fs _ h

/-- **What a write within the data can leave in the file**, whatever fails: a front part of the
    bytes it was to write. -/
theorem writeFile_front (filename : String) {data : Vec} {skip : SizeT} {w : WriteCalls}
    (beyond : Nat → UInt8) (fs : Fs) (hopen : w.fopen = true) (hskip : (skip : Nat) ≤ data.size) :
    ∃ text, (writeFile filename data skip w beyond fs).fs filename = some text ∧
      text <+: data.bytes.drop skip := by
  obtain ⟨f, htaken, -, hrun⟩ := writeFile_opened filename beyond fs hopen hskip
  refine ⟨(f.drain w.flushed).file, ?_, ?_⟩
  · rw [hrun]
    exact Fs.write_same ..
  · exact (f.file_drain_front w.flushed).trans (htaken ▸ List.take_prefix _ _)

/-- When a write within the data returns true. -/
theorem writeFile_true (filename : String) {data : Vec} {skip : SizeT} {w : WriteCalls}
    (beyond : Nat → UInt8) (fs : Fs) (hopen : w.fopen = true) (hskip : (skip : Nat) ≤ data.size) :
    (writeFile filename data skip w beyond fs).ret.val = true ↔
      data.size - skip ≤ total w.moves := by
  obtain ⟨f, -, -, hrun⟩ := writeFile_opened filename beyond fs hopen hskip
  rw [hrun]
  by_cases hshort : total w.moves < data.size - skip
  · rw [if_pos hshort]
    exact ⟨(nomatch ·), fun hle => absurd hshort (Nat.not_lt.mpr hle)⟩
  · rw [if_neg hshort]
    exact ⟨fun _ => Nat.not_lt.mp hshort, fun _ => rfl⟩

/-- And when its file then is whole: when the flush gets out what is held. -/
theorem writeFile_whole (filename : String) {data : Vec} {skip : SizeT} {w : WriteCalls}
    (beyond : Nat → UInt8) (fs : Fs) (hopen : w.fopen = true) (hskip : (skip : Nat) ≤ data.size)
    (hfull : data.size - skip ≤ total w.moves) :
    (writeFile filename data skip w beyond fs).fs filename = some (data.bytes.drop skip) ↔
      heldAfter (data.size - skip) 0 0 w.moves ≤ w.flushed := by
  obtain ⟨f, htaken, hheld, hrun⟩ := writeFile_opened filename beyond fs hopen hskip
  have hlen := data.length_drop skip
  rw [List.take_of_length_le (hlen ▸ hfull)] at htaken
  rw [hrun, ← hheld, ← htaken]
  show fs.write filename (f.drain w.flushed).file filename = some f.taken ↔ _
  rw [Fs.write_same, Option.some.injEq]
  exact OStream.file_drain_eq

/-- A `skip` past the end of the data wraps: `fwrite` is handed nearly 2^64 bytes. -/
theorem writeFile_wraps (filename : String) {data : Vec} {skip : SizeT} {w : WriteCalls}
    (beyond : Nat → UInt8) (fs : Fs) (hopen : w.fopen = true) (hskip : data.size < skip) :
    (writeFile filename data skip w beyond fs).handed =
      some ⟨skip, data.size + 18446744073709551616 - skip⟩ := by
  have hlt := skip.isLt
  have hcount := toSize_of_neg (x := (data.size : Int) - (skip : Nat)) (by omega) (by omega)
  have hwrap : toSize ((data.size : Int) - (skip : Nat)) =
      data.size + 18446744073709551616 - skip := by omega
  unfold writeFile
  rw [if_neg (by simp [hopen]), hwrap]

/-- **What a write should do**, whatever its calls answer. -/
structure WritesExactly (filename : String) (data : Vec) (skip : SizeT) (w : WriteCalls)
    (beyond : Nat → UInt8) (fs : Fs) : Prop where
  /-- `fwrite` is handed only bytes of `data` -/
  inside : ∀ r, (writeFile filename data skip w beyond fs).handed = some r →
    r.start + r.count ≤ data.size
  /-- true means that the file holds `data` without its first `skip` bytes -/
  whole : (writeFile filename data skip w beyond fs).ret.val = true →
    (writeFile filename data skip w beyond fs).fs filename = some (data.bytes.drop skip)
  /-- and that a load of the file as it was left returns them -/
  reload : (writeFile filename data skip w beyond fs).ret.val = true → ∀ text : Vec,
    (writeFile filename data skip w beyond fs).fs filename = some text.bytes →
    (loadEntireFile filename (.seen ⟨text.size, text.size_lt⟩ text.bytes)).ret.val.bytes =
      data.bytes.drop skip

/-- A write whose `fopen` failed does what it should: nothing. -/
theorem writesExactly_unopened (filename : String) (data : Vec) (skip : SizeT) {w : WriteCalls}
    (beyond : Nat → UInt8) (fs : Fs) (hopen : w.fopen = false) :
    WritesExactly filename data skip w beyond fs := by
  have hrun : writeFile filename data skip w beyond fs = ⟨err false [.text "Unable to open '",
      .text filename, .text "' for writing"], none, fs⟩ := if_pos hopen
  refine ⟨fun r hr => ?_, fun htrue => ?_, fun htrue => ?_⟩
  · rw [hrun] at hr
    cases hr
  · rw [hrun] at htrue
    cases htrue
  · rw [hrun] at htrue
    cases htrue

/-- **`write_file` is right** exactly if its `fopen` fails, or `skip` is within the data and, when
    `fwrite` takes all of it, the flush in `fclose` gets all of the rest out and a reader counts the
    file in 32 bits. -/
theorem writeFile_iff (filename : String) (data : Vec) (skip : SizeT) (w : WriteCalls)
    (beyond : Nat → UInt8) (fs : Fs) :
    WritesExactly filename data skip w beyond fs ↔
      (w.fopen = true → (skip : Nat) ≤ data.size ∧
        (data.size - skip ≤ total w.moves →
          heldAfter (data.size - skip) 0 0 w.moves ≤ w.flushed ∧
            data.size - skip < 4294967296)) := by
  have hlen := data.length_drop skip
  constructor
  · intro h hopen
    have hskip : (skip : Nat) ≤ data.size := by
      refine Nat.not_lt.mp fun hlt => ?_
      have hinside := h.inside _ (writeFile_wraps filename beyond fs hopen hlt)
      dsimp only at hinside
      omega
    refine ⟨hskip, fun hfull => ?_⟩
    have htrue := (writeFile_true filename beyond fs hopen hskip).mpr hfull
    have hfile := h.whole htrue
    refine ⟨(writeFile_whole filename beyond fs hopen hskip hfull).mp hfile,
      Nat.not_le.mp fun h32 => ?_⟩
    -- so long a file is loaded as the empty one
    have hsize : data.size < 9223372036854775808 := data.size_lt
    have hload := h.reload htrue ⟨data.bytes.drop skip, by omega⟩ hfile
    rw [load_val, if_neg fun h' => absurd (hlen ▸ h'.2) (Nat.not_lt.mpr h32)] at hload
    rw [← hload, List.length_nil] at hlen
    omega
  · intro h
    cases hopen : w.fopen with
    | false => exact writesExactly_unopened filename data skip beyond fs hopen
    | true =>
        obtain ⟨hskip, hfull⟩ := h hopen
        have htrue := writeFile_true filename beyond fs hopen hskip
        have hwhole := fun hle => writeFile_whole filename beyond fs hopen hskip hle
        refine ⟨fun r hr => ?_, fun hret => ?_, fun hret text htext => ?_⟩
        · obtain ⟨f, -, -, hrun⟩ := writeFile_opened filename beyond fs hopen hskip
          rw [hrun] at hr
          cases hr
          show (skip : Nat) + (data.size - skip) ≤ data.size
          omega
        · have hle := htrue.mp hret
          exact (hwhole hle).mpr (hfull hle).1
        · have hle := htrue.mp hret
          have hbytes : text.bytes = data.bytes.drop skip :=
            Option.some.inj (htext.symm.trans ((hwhole hle).mpr (hfull hle).1))
          have h32 : text.size < 4294967296 := by
            rw [Vec.size, hbytes, hlen]
            exact (hfull hle).2
          rw [load_val, if_pos ⟨rfl, h32⟩, hbytes]

/-- A `skip` one past a vector of one byte hands `fwrite` 2^64 - 1 bytes that are not in it; and
    with nothing to skip, a flush that fails in `fclose` leaves the file empty behind a true. -/
theorem writeFile_not_exact :
    ¬ WritesExactly "a" ⟨[65], by decide⟩ 2 ⟨true, [], 0⟩ (fun _ => 0) (fun _ => none) ∧
      ¬ WritesExactly "a" ⟨[65], by decide⟩ 0 ⟨true, [⟨1, 0⟩], 0⟩ (fun _ => 0) (fun _ => none) := by
  constructor
  · intro h
    exact absurd (h.inside _ (writeFile_wraps "a" _ _ rfl (by decide))) (by decide)
  · intro h
    have hfile := h.whole ((writeFile_true "a" _ _ rfl (by decide)).mpr (by decide))
    exact absurd ((writeFile_whole "a" _ _ rfl (by decide) (by decide)).mp hfile) (by decide)

end Cse303
