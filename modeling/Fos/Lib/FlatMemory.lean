import Mathlib.Logic.Function.Basic
import Mathlib.Tactic.Common

/-!
# Flat memory

A memory maps addresses to values, some of which are not known. A sequence of accesses is consistent
with a memory when every read of a known address answers the value that was written there last, or
the first value of the address when nothing was written to it.
-/

namespace FlatMemory

open Function (update)

variable {α ν : Type}

/-- Memory with the values that are known. -/
abbrev Mem (α ν : Type) : Type := α → Option ν

/-- A read with its answer, or a write. -/
inductive Access (α ν : Type)
  | read (a : α) (v : ν)
  | write (a : α) (v : ν)

variable [DecidableEq α]

/-- The memory after an access. -/
def Access.apply (m : Mem α ν) : Access α ν → Mem α ν
  | .read _ _ => m
  | .write a v => update m a (some v)

/-- The answer of a read is the known value. -/
def Access.Agrees (m : Mem α ν) : Access α ν → Prop
  | .read a v => ∀ w, m a = some w → v = w
  | .write _ _ => True

/-- The memory after a sequence of accesses. -/
def replay : Mem α ν → List (Access α ν) → Mem α ν
  | m, [] => m
  | m, x :: l => replay (x.apply m) l

def Consistent : Mem α ν → List (Access α ν) → Prop
  | _, [] => True
  | m, x :: l => x.Agrees m ∧ Consistent (x.apply m) l

/-- The last value that a sequence of accesses writes to `a`. -/
def lastWritten (a : α) : List (Access α ν) → Option ν
  | [] => none
  | .read _ _ :: l => lastWritten a l
  | .write b v :: l => (lastWritten a l).or (if b = a then some v else none)

variable {m : Mem α ν} {l k : List (Access α ν)} {x : Access α ν} {a : α} {v w : ν}

theorem replay_append : replay m (l ++ k) = replay (replay m l) k := by
  induction l generalizing m with
  | nil => rfl
  | cons x l ih => exact ih

theorem consistent_append : Consistent m (l ++ k) ↔ Consistent m l ∧ Consistent (replay m l) k := by
  induction l generalizing m with
  | nil => simp [Consistent, replay]
  | cons x l ih => simp [Consistent, replay, ih, and_assoc]

/-- One more access. -/
theorem consistent_concat : Consistent m (l ++ [x]) ↔ Consistent m l ∧ x.Agrees (replay m l) := by
  simp [consistent_append, Consistent]

/-- The memory holds what was written last. -/
theorem replay_apply : replay m l a = (lastWritten a l).or (m a) := by
  induction l generalizing m with
  | nil => rfl
  | cons x l ih =>
    cases x with
    | read b v => exact ih
    | write b v =>
      show replay (update m b (some v)) l a =
        ((lastWritten a l).or (if b = a then some v else none)).or (m a)
      rw [ih, Option.or_assoc]
      by_cases hba : b = a
      · subst hba
        simp
      · rw [Function.update_of_ne (Ne.symm hba), if_neg hba, Option.none_or]

/-- **A read in a consistent sequence** answers the value written last, or the first one. -/
theorem Consistent.read (h : Consistent m (l ++ .read a v :: k)) :
    (∀ w, lastWritten a l = some w → v = w) ∧
      (lastWritten a l = none → ∀ w, m a = some w → v = w) := by
  have hread := (consistent_append.1 h).2.1
  have heq := replay_apply (m := m) (l := l) (a := a)
  constructor
  · intro w hw
    apply hread w
    rw [heq, hw, Option.some_or]
  · intro hnone w hw
    apply hread w
    rw [heq, hnone, Option.none_or, hw]

end FlatMemory
