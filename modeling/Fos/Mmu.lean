import Mathlib.Data.Nat.Bitwise
import Mathlib.Tactic.NormNum

/-!
# Addresses, page-table words and the memory map

The constants of `inc/mmu.h` and `inc/memlayout.h` and the macros over them. Addresses, sizes and
table words are 32-bit unsigned integers, kept as `Nat` with an explicit `u32` where the C
arithmetic can wrap.
-/

namespace Fos

/-! ## 32-bit arithmetic -/

/-- The value a `uint32` holds after an operation with exact result `n`. -/
@[irreducible] def u32 (n : Nat) : Nat := n % 4294967296

theorem u32_lt (n : Nat) : u32 n < 4294967296 := by
  unfold u32; exact Nat.mod_lt _ (by decide)

theorem u32_of_lt {n : Nat} (h : n < 4294967296) : u32 n = n := by
  unfold u32; exact Nat.mod_eq_of_lt h

/-- `a - b` on `uint32` operands. -/
def u32Sub (a b : Nat) : Nat := u32 (a + 4294967296 - b)

theorem u32Sub_of_le {a b : Nat} (h : b ≤ a) (ha : a < 4294967296) : u32Sub a b = a - b := by
  unfold u32Sub u32; omega

/-! ## Memory layout -/

/-- `PAGE_SIZE`. -/
abbrev pageSize : Nat := 4096

abbrev kernelBase : Nat := 0xF0000000
abbrev kernelHeapStart : Nat := 0xF6000000
abbrev kernelHeapMax : Nat := 0xFFFFF000
abbrev kernelStackTop : Nat := 0xEFC00000
abbrev userLimit : Nat := 0xEF800000
abbrev userTop : Nat := 0xEEC00000
abbrev ustackTop : Nat := 0xEEBFE000
abbrev userHeapStart : Nat := 0x80000000
abbrev userHeapMax : Nat := 0xC0000000
abbrev userPagesWsStart : Nat := userHeapMax

/-- `USTACKBOTTOM`: the product `sizeof(struct WorkingSetElement) * USER_TOP` of
`USER_PAGES_WS_MAX` wraps, so the mirror window is `0x31000` bytes long. -/
abbrev ustackBottom : Nat := 0xC0031000

/-- `sizeof(struct WorkingSetElement)`. -/
abbrev sizeofWorkingSetElement : Nat := 12

example : userPagesWsStart + u32 (sizeofWorkingSetElement * userTop) / pageSize = ustackBottom := by
  decide +kernel

/-- `ROUNDDOWN(a, n)`. -/
def rounddown (a n : Nat) : Nat := a - a % n

/-- `ROUNDUP(a, n)`: the sum `a + n - 1` is taken in 32 bits. -/
@[irreducible] def roundup (a n : Nat) : Nat := rounddown (u32 (a + n - 1)) n

theorem roundup_mod (a : Nat) : roundup a pageSize % pageSize = 0 := by
  unfold roundup rounddown u32 pageSize; omega

theorem roundup_lt (a : Nat) : roundup a pageSize < 4294967296 := by
  unfold roundup rounddown u32 pageSize; omega

/-- Below the last page the rounding does not wrap. -/
theorem le_roundup {a : Nat} (h : a ≤ 4294963200) : a ≤ roundup a pageSize := by
  unfold roundup rounddown u32 pageSize; omega

/-- Rounding a second time changes nothing. -/
theorem roundup_roundup (a : Nat) : roundup (roundup a pageSize) pageSize = roundup a pageSize := by
  unfold roundup rounddown u32 pageSize; omega

/-! ## Page-table words -/

abbrev permPresent : Nat := 0x001
abbrev permWriteable : Nat := 0x002
abbrev permUser : Nat := 0x004
abbrev permModified : Nat := 0x040

/-- `PPN(la)`, the page number of an address and the frame number of an entry. -/
def ppn (la : Nat) : Nat := la / 4096

/-- `PDX(la)`. -/
def pdx (la : Nat) : Nat := la / 4194304 % 1024

/-- `PTX(la)`. -/
def ptx (la : Nat) : Nat := la / 4096 % 1024

/-- `EXTRACT_ADDRESS(entry)`, that is `entry & ~0xFFF`. -/
def extractAddress (entry : Nat) : Nat := entry / 4096 * 4096

/-- `CONSTRUCT_ENTRY(phys_frame_address, permissions)`. -/
def constructEntry (physFrameAddress permissions : Nat) : Nat := physFrameAddress ||| permissions

/-- `(entry & PERM_PRESENT) == PERM_PRESENT`. -/
def present (entry : Nat) : Prop := entry &&& permPresent = permPresent

instance (entry : Nat) : Decidable (present entry) := by unfold present; infer_instance

/-- `entry & PERM_MODIFIED`, read as a truth value. -/
def modified (entry : Nat) : Prop := entry &&& permModified ≠ 0

instance (entry : Nat) : Decidable (modified entry) := by unfold modified; infer_instance

/-- `entry | permissions` -/
def setPerm (entry permissions : Nat) : Nat := entry ||| permissions

/-- `entry & ~permissions` -/
def clearPerm (entry permissions : Nat) : Nat := entry - (entry &&& permissions)

theorem present_iff (entry : Nat) : present entry ↔ entry % 2 = 1 := by
  unfold present permPresent
  rw [Nat.and_one_is_mod]

theorem not_present_zero : ¬ present 0 := by decide

theorem present_ne_zero {e : Nat} (h : present e) : e ≠ 0 := by
  rintro rfl
  exact not_present_zero h

theorem constructEntry_eq {f p : Nat} (hp : p < 4096) :
    constructEntry (f * 4096) p = f * 4096 + p := by
  unfold constructEntry
  have h := Nat.two_pow_add_eq_or_of_lt (i := 12) (b := p) (by simpa using hp) f
  have h2 : (2 : Nat) ^ 12 * f = f * 4096 := by norm_num [Nat.mul_comm]
  rw [h2] at h
  exact h.symm

/-- The permission words the kernel builds entries from have the present bit and fit the low
twelve bits. -/
theorem perm_or_present {perm : Nat} (hp : perm < 4096) :
    perm ||| permPresent < 4096 ∧ (perm ||| permPresent) % 2 = 1 := by
  refine ⟨Nat.or_lt_two_pow (n := 12) hp (by decide), ?_⟩
  have := Nat.and_one_is_mod (perm ||| permPresent)
  rw [← this, Nat.and_or_distrib_right]
  unfold permPresent
  rw [Nat.and_one_is_mod]
  rcases Nat.mod_two_eq_zero_or_one perm with h | h <;> rw [h] <;> decide

theorem ppn_constructEntry {f perm : Nat} (hp : perm < 4096) :
    ppn (constructEntry (f * 4096) (perm ||| permPresent)) = f := by
  have := (perm_or_present hp).1
  rw [constructEntry_eq this]
  unfold ppn; omega

theorem present_constructEntry {f perm : Nat} (hp : perm < 4096) :
    present (constructEntry (f * 4096) (perm ||| permPresent)) := by
  have := perm_or_present hp
  rw [constructEntry_eq this.1, present_iff]
  omega

theorem ppn_extractAddress (e : Nat) : ppn (extractAddress e) = ppn e := by
  unfold ppn extractAddress; omega

theorem extractAddress_eq_iff (e f : Nat) : extractAddress e = f * 4096 ↔ ppn e = f := by
  unfold extractAddress ppn; omega

/-! ## Permission bits -/

theorem and_modified (e : Nat) : e &&& permModified = if e / 64 % 2 = 1 then 64 else 0 := by
  have h := Nat.and_two_pow e 6
  rw [show (2 : Nat) ^ 6 = 64 by norm_num, Nat.testBit_eq_decide_div_mod_eq,
    show (2 : Nat) ^ 6 = 64 by norm_num] at h
  unfold permModified
  rw [show (0x040 : Nat) = 64 by norm_num, h]
  split
  case isTrue hc => simp [hc]
  case isFalse hc => simp [hc]

theorem modified_iff (e : Nat) : modified e ↔ e / 64 % 2 = 1 := by
  unfold modified
  rw [and_modified]
  split
  case isTrue hc => exact iff_of_true (by decide) hc
  case isFalse hc => exact iff_of_false (fun h => h rfl) hc

theorem modified_setPerm (e : Nat) : modified (setPerm e permModified) := by
  unfold modified setPerm
  rw [Nat.and_or_distrib_right, Nat.and_self]
  intro h
  exact absurd (Nat.or_eq_zero_iff.1 h).2 (by decide)

theorem present_setPerm (e : Nat) : present (setPerm e permModified) ↔ present e := by
  unfold present setPerm
  rw [Nat.and_or_distrib_right, show permModified &&& permPresent = 0 by decide, Nat.or_zero]

theorem ppn_setPerm (e : Nat) {perm : Nat} (hp : perm < 4096) : ppn (setPerm e perm) = ppn e := by
  have h := Nat.shiftRight_or_distrib (i := 12) (a := e) (b := perm)
  simp only [Nat.shiftRight_eq_div_pow, show (2 : Nat) ^ 12 = 4096 by norm_num,
    Nat.div_eq_of_lt hp, Nat.or_zero] at h
  exact h

theorem clearPerm_modified (e : Nat) :
    clearPerm e permModified = if e / 64 % 2 = 1 then e - 64 else e := by
  unfold clearPerm
  rw [and_modified]
  split <;> rfl

theorem not_modified_clearPerm (e : Nat) : ¬ modified (clearPerm e permModified) := by
  rw [modified_iff, clearPerm_modified]
  split <;> omega

theorem present_clearPerm (e : Nat) : present (clearPerm e permModified) ↔ present e := by
  rw [present_iff, present_iff, clearPerm_modified]
  split <;> omega

theorem ppn_clearPerm (e : Nat) : ppn (clearPerm e permModified) = ppn e := by
  unfold ppn
  rw [clearPerm_modified]
  split <;> omega

theorem setPerm_modified (e : Nat) :
    setPerm e permModified = if e / 64 % 2 = 1 then e else e + 64 := by
  unfold setPerm permModified
  rw [show (0x040 : Nat) = 2 ^ 6 by norm_num]
  split
  case isTrue hc =>
    refine Nat.eq_of_testBit_eq fun i => ?_
    rw [Nat.testBit_or, Nat.testBit_two_pow]
    by_cases hi : 6 = i
    · subst hi
      rw [Nat.testBit_eq_decide_div_mod_eq, hc]
      rfl
    · rw [decide_eq_false hi, Bool.or_false]
  case isFalse hc =>
    -- the bits above, the bit itself and the bits below
    have hlow : e % 64 < 2 ^ 6 := by norm_num; omega
    have hsplit : e = 2 ^ 7 * (e / 128) + e % 64 := by norm_num; omega
    have h1 := Nat.two_pow_add_eq_or_of_lt (i := 7) (b := e % 64) (by norm_num; omega) (e / 128)
    have h2 := Nat.two_pow_add_eq_or_of_lt (i := 7) (b := e % 64 + 2 ^ 6) (by norm_num; omega)
      (e / 128)
    rw [← Nat.or_two_pow_eq_add_of_lt hlow, ← Nat.or_assoc, ← h1, ← hsplit,
      Nat.or_two_pow_eq_add_of_lt hlow, ← Nat.add_assoc, ← hsplit] at h2
    rw [← h2]

/-- Clearing the modified bit undoes setting it. -/
theorem clearPerm_setPerm (e : Nat) :
    clearPerm (setPerm e permModified) permModified = clearPerm e permModified := by
  rw [clearPerm_modified, clearPerm_modified, setPerm_modified]
  by_cases hc : e / 64 % 2 = 1
  · simp only [if_pos hc]
  · rw [if_neg hc, if_neg hc, if_pos (by omega)]
    omega

end Fos
