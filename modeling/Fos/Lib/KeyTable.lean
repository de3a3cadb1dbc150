import Mathlib.Logic.Function.Basic

/-!
# Tables of named entries

A table of `n` entries, each vacant or in use under a key. A key is looked up by a scan that returns
the first entry with it, and a new key goes to the first vacant entry. The rules say what entering
and erasing a key does to the other lookups.
-/

namespace KeyTable

open Function (update)

variable {K : Type} {n i j : Nat} {key : Nat → Option K} {k l : K}

/-- The first entry with the key. -/
def lookup [DecidableEq K] (n : Nat) (key : Nat → Option K) (k : K) : Option Nat :=
  (List.range n).find? fun i => key i = some k

/-- The first vacant entry. -/
def vacant (n : Nat) (key : Nat → Option K) : Option Nat :=
  (List.range n).find? fun i => (key i).isNone

theorem vacant_eq_some : vacant n key = some i ↔
    i < n ∧ key i = none ∧ ∀ j < i, key j ≠ none := by
  unfold vacant
  rw [List.find?_range_eq_some, List.mem_range]
  simp only [Option.isNone_iff_eq_none, Bool.not_eq_true', Option.isNone_eq_false_iff,
    Option.isSome_iff_ne_none]
  exact and_left_comm

theorem vacant_eq_none : vacant n key = none ↔ ∀ i < n, key i ≠ none := by
  unfold vacant
  rw [List.find?_range_eq_none]
  simp only [Bool.not_eq_true', Option.isNone_eq_false_iff, Option.isSome_iff_ne_none]

section

variable [DecidableEq K]

theorem lookup_eq_some : lookup n key k = some i ↔
    i < n ∧ key i = some k ∧ ∀ j < i, key j ≠ some k := by
  unfold lookup
  rw [List.find?_range_eq_some, List.mem_range]
  simp only [decide_eq_true_eq, Bool.not_eq_true', decide_eq_false_iff_not]
  exact and_left_comm

theorem lookup_eq_none : lookup n key k = none ↔ ∀ i < n, key i ≠ some k := by
  unfold lookup
  rw [List.find?_range_eq_none]
  simp only [Bool.not_eq_true', decide_eq_false_iff_not, ne_eq]

/-! ## Entering a key -/

/-- A key entered at a vacant entry does not disturb the other keys. -/
theorem lookup_enter_of_ne (hvac : key i = none) (hne : l ≠ k) :
    lookup n (update key i (some k)) l = lookup n key l := by
  unfold lookup
  congr 1
  funext j
  by_cases hj : j = i
  · subst hj
    simp [hvac, hne.symm]
  · simp [hj]

/-- Entering a key at a vacant entry keeps every lookup that succeeds exactly when the key is not
found behind that entry. -/
theorem lookup_enter_iff (hvac : key i = none) (hi : i < n) :
    (∀ l j, lookup n key l = some j → lookup n (update key i (some k)) l = some j) ↔
      ∀ j, lookup n key k = some j → j < i := by
  constructor
  · intro hall j hj
    have hnew := lookup_eq_some.1 (hall k j hj)
    -- if the first entry of the key lay behind `i`, the new one would hide it
    have hji : j ≠ i := by
      rintro rfl
      rw [(lookup_eq_some.1 hj).2.1] at hvac
      cases hvac
    by_contra hlt
    exact hnew.2.2 i (by omega) (by simp)
  · intro hbefore l j hj
    by_cases hl : l = k
    · subst hl
      have hlt := hbefore j hj
      obtain ⟨h1, h2, h3⟩ := lookup_eq_some.1 hj
      rw [lookup_eq_some]
      refine ⟨h1, ?_, fun m hm => ?_⟩
      · rw [Function.update_of_ne (Nat.ne_of_lt hlt)]
        exact h2
      · rw [Function.update_of_ne (by omega)]
        exact h3 m hm
    · rw [lookup_enter_of_ne hvac hl]
      exact hj

end

/-! ## Distinct keys -/

/-- No two entries have the same key. -/
def Distinct (n : Nat) (key : Nat → Option K) : Prop :=
  ∀ i < n, ∀ j < n, ∀ k, key i = some k → key j = some k → i = j

theorem Distinct.erase (h : Distinct n key) : Distinct n (update key i none) := by
  intro a ha b hb l hka hkb
  by_cases hai : a = i
  · subst hai
    simp at hka
  · by_cases hbi : b = i
    · subst hbi
      simp at hkb
    · rw [Function.update_of_ne hai] at hka
      rw [Function.update_of_ne hbi] at hkb
      exact h a ha b hb l hka hkb

section

variable [DecidableEq K]

theorem Distinct.lookup (h : Distinct n key) (hi : i < n) (hk : key i = some k) :
    lookup n key k = some i := by
  rw [lookup_eq_some]
  refine ⟨hi, hk, fun j hj hkj => ?_⟩
  have := h i hi j (Nat.lt_trans hj hi) k hk hkj
  omega

theorem Distinct.enter (h : Distinct n key) (hnone : KeyTable.lookup n key k = none) :
    Distinct n (update key i (some k)) := by
  rw [lookup_eq_none] at hnone
  intro a ha b hb l hka hkb
  by_cases hai : a = i <;> by_cases hbi : b = i
  · rw [hai, hbi]
  · subst hai
    rw [Function.update_self] at hka
    rw [Function.update_of_ne hbi] at hkb
    cases hka
    exact absurd hkb (hnone b hb)
  · subst hbi
    rw [Function.update_self] at hkb
    rw [Function.update_of_ne hai] at hka
    cases hkb
    exact absurd hka (hnone a ha)
  · rw [Function.update_of_ne hai] at hka
    rw [Function.update_of_ne hbi] at hkb
    exact h a ha b hb l hka hkb

end

end KeyTable
