import Fos.Lib.Bytes
import Fos.Lib.Copy
import Fos.Mmu

/-!
# Moving memory

`memcpy` and `memmove` of `lib/string.c`. Only `memmove` looks at where its arguments lie: it
copies backwards where a copy upwards would run into its source.
-/

namespace Fos

open Bytes (Mem)

def memcpy (dst src n : Nat) (m : Mem) : Mem := Copy.up dst src n m

def memmove (dst src n : Nat) (m : Mem) : Mem :=
  if src < dst ∧ dst < u32 (src + n) then Copy.down dst src n m else Copy.up dst src n m

variable {dst src n : Nat}

/-- `memmove` moves the bytes as they were, if the end of its source does not wrap where it is
compared. In two ranges of the address space it does not. -/
theorem memmove_eq_moved (hsrc : dst ≤ src ∨ src + n < 4294967296) (m : Mem) :
    memmove dst src n m = Copy.moved dst src n m := by
  unfold memmove
  by_cases hle : dst ≤ src
  · rw [if_neg (by omega)]
    exact Copy.up_eq_moved (by omega)
  · rw [u32_of_lt (hsrc.resolve_left hle)]
    split
    · exact Copy.down_eq_moved (by omega)
    · exact Copy.up_eq_moved (by omega)

/-- `memcpy` does where its destination does not begin inside its source, -/
theorem memcpy_eq_moved (h : ¬ (src < dst ∧ dst < src + n)) (m : Mem) :
    memcpy dst src n m = Copy.moved dst src n m :=
  Copy.up_eq_moved (by omega)

/-- and nowhere else: there it repeats the bytes before the destination. -/
theorem memcpy_repeats (h1 : src < dst) (h2 : dst < src + n) :
    memcpy dst src n (fun a => if a = dst then 1 else 0) (dst + (dst - src)) ≠
      Copy.moved dst src n (fun a => if a = dst then 1 else 0) (dst + (dst - src)) := by
  unfold memcpy
  rw [Copy.up_repeats h1 (by omega), Nat.mod_self, Nat.add_zero, if_neg (by omega),
    Copy.moved_of_mem (by omega) (by omega), if_pos (by omega)]
  decide

/-- **Overlapping moves.** `memmove` copies the bytes as they were wherever its two ranges lie, and
`memcpy` agrees with it exactly when the destination does not begin inside the source. -/
theorem memmove_memcpy (hsrc : dst ≤ src ∨ src + n < 4294967296) :
    (∀ m a, memmove dst src n m a =
      if dst ≤ a ∧ a < dst + n then m (src + (a - dst)) else m a) ∧
    ((∀ m, memcpy dst src n m = memmove dst src n m) ↔ ¬ (src < dst ∧ dst < src + n)) := by
  constructor
  · intro m a
    rw [memmove_eq_moved hsrc]
    rfl
  · constructor
    · intro hall hin
      apply memcpy_repeats hin.1 hin.2
      rw [hall, memmove_eq_moved hsrc]
    · intro hnot m
      rw [memcpy_eq_moved hnot, memmove_eq_moved hsrc]

/-- A move of four bytes by one. -/
theorem memmove_memcpy_four : memmove 101 100 4 (fun a => .ofNat a) 103 = 102 := by
  have h := (@memmove_memcpy 101 100 4 (by decide)).1 (fun a => .ofNat a) 103
  rw [h]
  rfl

end Fos
