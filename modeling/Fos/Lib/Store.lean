import Mathlib.Logic.Function.Basic

/-!
# Stores with unwritten entries

A store maps keys to values. An entry may exist before anything was written to it; what it holds
then is not said. These are the three updates, and what they do to their own key and to the others.
-/

namespace Store

open Function (update)

variable {κ ν : Type} [DecidableEq κ] {k l : κ} {v : ν}

/-- The contents of a store: no entry, an entry that was not written, or a value. -/
abbrev Contents (κ ν : Type) : Type := κ → Option (Option ν)

/-- The entry holds `v` from now on. -/
def put (m : Contents κ ν) (k : κ) (v : ν) : Contents κ ν := update m k (some (some v))

/-- The entry exists from now on, and keeps what it holds. -/
def touch (m : Contents κ ν) (k : κ) : Contents κ ν := update m k (some ((m k).getD none))

/-- The entry is gone. -/
def erase (m : Contents κ ν) (k : κ) : Contents κ ν := update m k none

variable (m : Contents κ ν)

@[simp] theorem put_self : put m k v k = some (some v) := Function.update_self _ _ _

@[simp] theorem erase_self : erase m k k = none := Function.update_self _ _ _

@[simp] theorem touch_self : touch m k k = some ((m k).getD none) := Function.update_self _ _ _

theorem put_of_ne (h : l ≠ k) : put m k v l = m l := Function.update_of_ne h _ _

theorem touch_of_ne (h : l ≠ k) : touch m k l = m l := Function.update_of_ne h _ _

theorem erase_of_ne (h : l ≠ k) : erase m k l = m l := Function.update_of_ne h _ _

/-- Touching an entry that holds a value changes nothing. -/
theorem touch_of_some {o : Option ν} (h : m k = some o) : touch m k = m := by
  unfold touch
  rw [h, Option.getD_some, ← h, Function.update_eq_self]

end Store
