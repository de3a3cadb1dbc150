import Mathlib.Logic.Function.Basic
import Mathlib.Tactic.Common

/-!
# Copying cell by cell

Two loops copy `n` cells of a memory, one upwards and one downwards. Where the ranges overlap, only
one of them copies what was there before.
-/

namespace Copy

open Function (update)

variable {α : Type}

/-- From the first cell on. -/
def up (dst src : Nat) : Nat → (Nat → α) → Nat → α
  | 0, m => m
  | n + 1, m => up (dst + 1) (src + 1) n (update m dst (m src))

/-- From the last cell back. -/
def down (dst src : Nat) : Nat → (Nat → α) → Nat → α
  | 0, m => m
  | n + 1, m => down dst src n (update m (dst + n) (m (src + n)))

/-- The cells as they were, moved. -/
def moved (dst src n : Nat) (m : Nat → α) : Nat → α :=
  fun a => if dst ≤ a ∧ a < dst + n then m (src + (a - dst)) else m a

section

variable {dst src n a : Nat} {m : Nat → α}

theorem moved_of_mem (h1 : dst ≤ a) (h2 : a < dst + n) :
    moved dst src n m a = m (src + (a - dst)) :=
  if_pos ⟨h1, h2⟩

theorem moved_of_not (h : a < dst ∨ dst + n ≤ a) : moved dst src n m a = m a :=
  if_neg (by omega)

theorem up_of_not (h : a < dst ∨ dst + n ≤ a) : up dst src n m a = m a := by
  induction n generalizing dst src m with
  | zero => rfl
  | succ n ih =>
    rw [up, ih (by omega)]
    exact Function.update_of_ne (by omega) ..

/-- A copy upwards is right unless it runs into its own source. -/
theorem up_eq_moved (h : dst ≤ src ∨ src + n ≤ dst) : up dst src n m = moved dst src n m := by
  induction n generalizing dst src m with
  | zero =>
    funext a
    rw [up, moved_of_not (by omega)]
  | succ n ih =>
    funext a
    rw [up, ih (by omega)]
    by_cases ha : dst + 1 ≤ a ∧ a < dst + 1 + n
    · rw [moved_of_mem ha.1 ha.2, moved_of_mem (by omega) (by omega)]
      -- the cell just written is not read any more
      rw [Function.update_of_ne (by omega)]
      congr 1
      omega
    · rw [moved_of_not (by omega)]
      by_cases hd : a = dst
      · rw [hd, Function.update_self, moved_of_mem (by omega) (by omega),
          Nat.sub_self, Nat.add_zero]
      · rw [Function.update_of_ne hd, moved_of_not (by omega)]

theorem down_eq_moved (h : src ≤ dst ∨ dst + n ≤ src) : down dst src n m = moved dst src n m := by
  induction n generalizing m with
  | zero =>
    funext a
    rw [down, moved_of_not (by omega)]
  | succ n ih =>
    funext a
    rw [down, ih (by omega)]
    by_cases ha : dst ≤ a ∧ a < dst + n
    · rw [moved_of_mem ha.1 ha.2, moved_of_mem (by omega) (by omega)]
      exact Function.update_of_ne (by omega) ..
    · rw [moved_of_not (by omega)]
      by_cases hd : a = dst + n
      · rw [hd, Function.update_self, moved_of_mem (by omega) (by omega), Nat.add_sub_cancel_left]
      · rw [Function.update_of_ne hd, moved_of_not (by omega)]

/-- One that does repeats the cells between the two beginnings. -/
theorem up_repeats (h : src < dst) {i : Nat} (hi : i < n) :
    up dst src n m (dst + i) = m (src + i % (dst - src)) := by
  induction n generalizing dst src m i with
  | zero => omega
  | succ n ih =>
    cases i with
    | zero =>
      rw [up, up_of_not (by omega), Nat.add_zero, Function.update_self, Nat.zero_mod, Nat.add_zero]
    | succ i =>
      have hd : dst + 1 - (src + 1) = dst - src := by omega
      have hlt : i % (dst - src) < dst - src := Nat.mod_lt _ (by omega)
      rw [up, show dst + (i + 1) = dst + 1 + i by omega, ih (by omega) (by omega), hd]
      by_cases hlast : i % (dst - src) + 1 = dst - src
      · -- the turn comes to the first cell again
        have hmod : (i + 1) % (dst - src) = 0 := by
          rw [← Nat.mod_add_mod, hlast, Nat.mod_self]
        rw [show src + 1 + i % (dst - src) = dst by omega, Function.update_self, hmod, Nat.add_zero]
      · have hmod : (i + 1) % (dst - src) = i % (dst - src) + 1 := by
          rw [← Nat.mod_add_mod, Nat.mod_eq_of_lt (by omega)]
        rw [Function.update_of_ne (by omega), hmod]
        congr 1
        omega

end

end Copy
