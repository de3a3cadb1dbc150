import Fos.Lib.Bytes

/-!
# Strings

`lib/string.c`. A function that only reads its string takes the bytes before the terminator; one
that writes works on memory. `long` has 32 bits.
-/

namespace Fos

open Bytes (Mem store8)
open Function (update)

/-! ## Numbers -/

/-- A value as it is stored in a `long`. -/
def toLong (x : Int) : Int := x.bmod 4294967296

/-- `mod + '0'` as a `char`. -/
def digitByte (mod : Int) : UInt8 := .ofNat ((mod + 48) % 256).toNat

/-- The `do` loop of `ltostr`: it stops at the first digit that is zero. The result is the memory
and the index after the last digit. -/
def putDigits (str : Nat) (value : Int) (s : Nat) (m : Mem) : Mem × Nat :=
  let m := store8 m (str + s) (digitByte (value.tmod 10))
  if h : (value.tdiv 10).tmod 10 ≠ 0 then putDigits str (value.tdiv 10) (s + 1) m
  else (m, s + 1)
termination_by value.natAbs
decreasing_by
  have hne : value ≠ 0 := by
    rintro rfl
    exact h rfl
  rw [Int.natAbs_tdiv]
  exact Nat.div_lt_self (Int.natAbs_pos.2 hne) (by decide)

/-- The loop of `ltostr` that swaps the bytes from both ends. -/
def reverseBytes (str : Nat) (start stop : Nat) (m : Mem) : Mem :=
  if start < stop then
    reverseBytes str (start + 1) (stop - 1)
      (store8 (store8 m (str + start) (m (str + stop))) (str + stop) (m (str + start)))
  else m
termination_by stop - start

/-- `ltostr` -/
def ltostr (value : Int) (str : Nat) (m : Mem) : Mem :=
  let neg := decide (value < 0)
  let m := if neg then store8 m str 45 else m
  let value := if neg then toLong (value * -1) else value
  let r := putDigits str value (if neg then 1 else 0) m
  store8 (reverseBytes str (if neg then 1 else 0) (r.2 - 1) r.1) (str + r.2) 0

/-- The value of a digit or a letter. -/
def digitOf (c : UInt8) : Option Int :=
  if 48 ≤ c ∧ c ≤ 57 then some (c.toNat - 48)
  else if 97 ≤ c ∧ c ≤ 122 then some (c.toNat - 97 + 10)
  else if 65 ≤ c ∧ c ≤ 90 then some (c.toNat - 65 + 10)
  else none

/-- The loop of `strtol` over the digits. -/
def strtolDigits (base : Int) : List UInt8 → Int → Int × List UInt8
  | [], val => (val, [])
  | c :: cs, val =>
    match digitOf c with
    | none => (val, c :: cs)
    | some dig =>
      if base ≤ dig then (val, c :: cs)
      else strtolDigits base cs (toLong (toLong (val * base) + dig))

/-- The sign: whether it is a minus, and what follows it. -/
def strtolSign : List UInt8 → Bool × List UInt8
  | 43 :: cs => (false, cs)
  | 45 :: cs => (true, cs)
  | cs => (false, cs)

/-- The prefix: the base, and what follows it. -/
def strtolBase (base : Int) (cs : List UInt8) : Int × List UInt8 :=
  if (base = 0 ∨ base = 16) ∧ cs.take 2 = [48, 120] then (16, cs.drop 2)
  else if base = 0 ∧ cs.take 1 = [48] then (8, cs.drop 1)
  else if base = 0 then (10, cs)
  else (base, cs)

/-- `strtol`, with what `*endptr` points to. -/
def strtol (cs : List UInt8) (base : Int) : Int × List UInt8 :=
  let sign := strtolSign (cs.dropWhile fun c => c == 32 || c == 9)
  let pre := strtolBase base sign.2
  let r := strtolDigits pre.1 pre.2 0
  (if sign.1 then toLong (-r.1) else r.1, r.2)

/-! ## Splitting -/

/-- `strchr`: the index of the first `c`. -/
def strchr : List UInt8 → UInt8 → Option Nat
  | [], _ => none
  | d :: ds, c => if d = c then some 0 else (strchr ds c).map (· + 1)

/-- `MAX_ARGUMENTS` -/
abbrev maxArguments : Nat := 16

/-- An entry of `argv` is set; it has to lie in the array. -/
def setArgument (argv : Nat → Nat) (i p : Nat) : Option (Nat → Nat) :=
  if i < maxArguments then some (update argv i p) else none

/-- The loop of `strsplit` that trims. `n` bounds its rounds. -/
def trimSplitChars (splitChars : List UInt8) : Nat → Nat → Mem → Option (Nat × Mem)
  | 0, _, _ => none
  | n + 1, string, m =>
    if m string ≠ 0 ∧ (strchr splitChars (m string)).isSome then
      trimSplitChars splitChars n (string + 1) (store8 m string 0)
    else some (string, m)

/-- The loop of `strsplit` that scans past an argument. -/
def scanArgument (splitChars : List UInt8) (m : Mem) : Nat → Nat → Option Nat
  | 0, _ => none
  | n + 1, string =>
    if m string ≠ 0 ∧ ¬ (strchr splitChars (m string)).isSome then
      scanArgument splitChars m n (string + 1)
    else some string

/-- What `strsplit` returns and leaves behind. -/
structure Split where
  ret : Int
  argc : Nat
  argv : Nat → Nat
  mem : Mem

/-- The outer loop of `strsplit`. -/
def splitLoop (splitChars : List UInt8) (fuel : Nat) :
    Nat → Nat → Nat → (Nat → Nat) → Mem → Option Split
  | 0, _, _, _, _ => none
  | n + 1, string, argc, argv, m => do
    let (string, m) ← trimSplitChars splitChars fuel string m
    if m string = 0 then
      let argv ← setArgument argv argc 0
      return ⟨1, argc, argv, m⟩
    else if argc = maxArguments - 1 then return ⟨0, argc, argv, m⟩
    else do
      let argv ← setArgument argv argc string
      let string ← scanArgument splitChars m fuel string
      splitLoop splitChars fuel n string (argc + 1) argv m

/-- `strsplit`. No loop takes more than `fuel` rounds. -/
def strsplit (fuel string : Nat) (splitChars : List UInt8) (argv : Nat → Nat) (m : Mem) :
    Option Split := do
  let argv ← setArgument argv 0 0
  splitLoop splitChars fuel fuel string 0 argv m

end Fos
