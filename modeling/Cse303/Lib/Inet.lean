/-
  File:      Cse303/Lib/Inet.lean
  Subject:   THE DOTTED NOTATION OF IPv4 ADDRESSES, written and read.

  `ntoa` writes the four bytes in decimal. `addr` reads what the C library reads: one to four parts,
  each in decimal, octal or hexadecimal, the last of them filling the bytes that are left; a text
  it cannot read is the address of all ones.

  * `part_octet` -- a byte in decimal is read as itself, since only zero begins with a 0;
  * **`addr_ntoa`** -- so every address is read back, that of all ones among them, and no two are
    written alike.
-/
import Mathlib.Data.List.TakeWhile
import Mathlib.Tactic.Common

namespace Inet

/-- An IPv4 address, its bytes in the order of the network. -/
structure InAddr where
  a : UInt8
  b : UInt8
  c : UInt8
  d : UInt8
  deriving DecidableEq, Repr

/-- `INADDR_ANY`. -/
def InAddr.any : InAddr := ⟨0, 0, 0, 0⟩

/-- `INADDR_NONE`. -/
def InAddr.none : InAddr := ⟨255, 255, 255, 255⟩

/-- The address of a number of 32 bits. -/
def InAddr.ofNat (n : Nat) : InAddr :=
  ⟨.ofNat (n / 16777216), .ofNat (n / 65536), .ofNat (n / 256), .ofNat n⟩

/-! ## 1. Written -/

/-- A byte in decimal, without zeros in front. -/
def octet (n : UInt8) : List Char :=
  let n := n.toNat
  if n < 10 then [n.digitChar]
  else if n < 100 then [(n / 10).digitChar, (n % 10).digitChar]
  else [(n / 100).digitChar, (n / 10 % 10).digitChar, (n % 10).digitChar]

/-- `inet_ntoa`. -/
def ntoa (x : InAddr) : String :=
  String.ofList (['.'].intercalate [octet x.a, octet x.b, octet x.c, octet x.d])

/-! ## 2. Read -/

/-- A digit of base 16 or below. -/
def digit (c : Char) : Option Nat :=
  if c.isDigit then some (c.toNat - '0'.toNat)
  else if 'a' ≤ c ∧ c ≤ 'f' then some (c.toNat - 'a'.toNat + 10)
  else if 'A' ≤ c ∧ c ≤ 'F' then some (c.toNat - 'A'.toNat + 10)
  else none

/-- The rest of a number in a base, behind the digits that make `n`. -/
def number (base : Nat) : Nat → List Char → Option Nat
  | n, [] => some n
  | n, c :: cs =>
    match digit c with
    | none => none
    | some d => if d < base then number base (base * n + d) cs else none

/-- A part: `strtoul` with base 0, of a text that begins with a digit and is a number to its end. -/
def part : List Char → Option Nat
  | '0' :: 'x' :: c :: cs => number 16 0 (c :: cs)
  | '0' :: 'X' :: c :: cs => number 16 0 (c :: cs)
  | '0' :: cs => number 8 0 cs
  | c :: cs => if c.isDigit then number 10 0 (c :: cs) else none
  | [] => none

/-- The number that one to four parts stand for. -/
def value : List Nat → Option Nat
  | [v] => if v < 4294967296 then some v else none
  | [a, v] => if a < 256 ∧ v < 16777216 then some (a * 16777216 + v) else none
  | [a, b, v] =>
    if a < 256 ∧ b < 256 ∧ v < 65536 then some (a * 16777216 + b * 65536 + v) else none
  | [a, b, c, v] =>
    if a < 256 ∧ b < 256 ∧ c < 256 ∧ v < 256 then
      some (a * 16777216 + b * 65536 + c * 256 + v)
    else none
  | _ => none

/-- `isspace`. -/
def isspace (c : Char) : Bool := c == ' ' || (9 ≤ c.toNat && c.toNat ≤ 13)

/-- `inet_addr`: white space may follow the address. -/
def addr (s : String) : InAddr :=
  match (((s.toList.takeWhile (!isspace ·)).splitOn '.').mapM part).bind value with
  | none => .none
  | some n => .ofNat n

/-! ## 3. Every address is read back -/

/-- What is relied on of the ten digits. -/
theorem digits_all : ∀ k : Fin 10, digit (Nat.digitChar k) = some (k : Nat) ∧
    (Nat.digitChar k).isDigit = true ∧ (Nat.digitChar k = '0' → (k : Nat) = 0) ∧
    Nat.digitChar k ≠ '.' ∧ isspace (Nat.digitChar k) = false := by
  decide

theorem digit_digitChar {k : Nat} (h : k < 10) : digit k.digitChar = some k :=
  (digits_all ⟨k, h⟩).1

/-- A digit in front of a number. -/
theorem number_cons {k : Nat} (h : k < 10) (n : Nat) (cs : List Char) :
    number 10 n (k.digitChar :: cs) = number 10 (10 * n + k) cs := by
  rw [number, digit_digitChar h]
  exact if_pos h

/-- A part whose first digit is not 0 is decimal. -/
theorem part_decimal {k : Nat} (h : k < 10) (hk : k ≠ 0) (cs : List Char) :
    part (k.digitChar :: cs) = number 10 k cs := by
  obtain ⟨-, hdigit, hzero, -⟩ := digits_all ⟨k, h⟩
  rw [part]
  · rw [if_pos hdigit, number_cons h, Nat.mul_zero, Nat.zero_add]
  all_goals
    intros
    exact hk (hzero ‹_›)

/-- **A byte in decimal is read as itself.** -/
theorem part_octet (n : UInt8) : part (octet n) = some n.toNat := by
  have hlt := n.toNat_lt
  unfold octet
  generalize n.toNat = n at hlt ⊢
  dsimp only
  by_cases h₁ : n < 10
  · rw [if_pos h₁]
    by_cases h₀ : n = 0
    · rw [h₀]
      rfl
    · rw [part_decimal h₁ h₀, number]
  · by_cases h₂ : n < 100
    · rw [if_neg h₁, if_pos h₂, part_decimal (by omega) (by omega), number_cons (by omega), number]
      exact congrArg some (by omega)
    · rw [if_neg h₁, if_neg h₂, part_decimal (by omega) (by omega), number_cons (by omega),
        number_cons (by omega), number]
      exact congrArg some (by omega)

/-- It has neither a dot nor a blank in it. -/
theorem mem_octet {n : UInt8} {c : Char} (h : c ∈ octet n) : c ≠ '.' ∧ isspace c = false := by
  have hdigit {k : Nat} (hk : k < 10) (h : c = k.digitChar) : c ≠ '.' ∧ isspace c = false :=
    h ▸ (digits_all ⟨k, hk⟩).2.2.2
  have hlt := n.toNat_lt
  unfold octet at h
  dsimp only at h
  split at h
  · exact hdigit ‹_› (List.mem_singleton.mp h)
  split at h
  · simp only [List.mem_cons, List.not_mem_nil, or_false] at h
    rcases h with h | h <;> exact hdigit (by omega) h
  · simp only [List.mem_cons, List.not_mem_nil, or_false] at h
    rcases h with h | h | h <;> exact hdigit (by omega) h

/-- The number of four bytes, and its bytes. -/
theorem ofNat_bytes (x : InAddr) :
    InAddr.ofNat (x.a.toNat * 16777216 + x.b.toNat * 65536 + x.c.toNat * 256 + x.d.toNat) = x := by
  obtain ⟨a, b, c, d⟩ := x
  have ha := a.toNat_lt
  have hb := b.toNat_lt
  have hc := c.toNat_lt
  have hd := d.toNat_lt
  simp only [InAddr.ofNat, InAddr.mk.injEq, ← UInt8.toNat_inj, UInt8.toNat_ofNat']
  refine ⟨?_, ?_, ?_, ?_⟩ <;> omega

/-- Nor is there a blank in an address. -/
theorem mem_ntoa {x : InAddr} {c : Char} (h : c ∈ (ntoa x).toList) : isspace c = false := by
  rw [ntoa, String.toList_ofList] at h
  simp only [List.intercalate, List.intersperse, List.flatten_cons, List.flatten_nil,
    List.mem_append, List.mem_singleton, List.not_mem_nil, or_false] at h
  rcases h with h | rfl | h | rfl | h | rfl | h
  · exact (mem_octet h).2
  · rfl
  · exact (mem_octet h).2
  · rfl
  · exact (mem_octet h).2
  · rfl
  · exact (mem_octet h).2

/-- **An address is read back as it was written.** -/
theorem addr_ntoa (x : InAddr) : addr (ntoa x) = x := by
  have hblank : ∀ c ∈ ['.'].intercalate [octet x.a, octet x.b, octet x.c, octet x.d],
      (!isspace c) = true := by
    intro c hc
    rw [mem_ntoa (x := x) (by rwa [ntoa, String.toList_ofList])]
    rfl
  have hsplit : (['.'].intercalate [octet x.a, octet x.b, octet x.c, octet x.d]).splitOn '.' =
      [octet x.a, octet x.b, octet x.c, octet x.d] := by
    refine List.splitOn_intercalate '.' ?_ (by simp)
    intro l hl hdot
    simp only [List.mem_cons, List.not_mem_nil, or_false] at hl
    rcases hl with rfl | rfl | rfl | rfl <;> exact (mem_octet hdot).1 rfl
  have hvalue : value [x.a.toNat, x.b.toNat, x.c.toNat, x.d.toNat] =
      some (x.a.toNat * 16777216 + x.b.toNat * 65536 + x.c.toNat * 256 + x.d.toNat) :=
    if_pos ⟨x.a.toNat_lt, x.b.toNat_lt, x.c.toNat_lt, x.d.toNat_lt⟩
  unfold addr ntoa
  rw [String.toList_ofList, List.takeWhile_eq_self_iff.mpr hblank, hsplit]
  simp only [List.mapM_cons, List.mapM_nil, part_octet, Option.bind_eq_bind, Option.bind_some,
    Option.pure_def, hvalue, ofNat_bytes]

/-- So no two addresses are written alike. -/
theorem ntoa_inj {x y : InAddr} : ntoa x = ntoa y ↔ x = y :=
  (Function.LeftInverse.injective addr_ntoa).eq_iff

end Inet
