import Mathlib.Data.List.Nodup
import Mathlib.Data.Set.Basic
import Mathlib.Logic.Function.Basic
import Mathlib.Logic.ExistsUnique

/-!
# Pools of exclusive units

A pool hands out its units from a free list, and each unit handed out is kept in one slot of a
table; a slot that holds `0` holds no unit. `Exact` says that every unit of the pool is in one
place, and the rules say what filling and clearing a slot do to it.
-/

namespace SlotPool

open Function (update)

variable {ι α : Type} [Zero α] {pool : Set α} {m : ι → α} {free : List α} {a : α} {i j : ι}

/-- The units of `pool` are in `free` or in one slot of `m`, and in one place only. -/
structure Exact (pool : Set α) (m : ι → α) (free : List α) : Prop where
  zero : (0 : α) ∉ pool
  inPool : ∀ i, m i ≠ 0 → m i ∈ pool
  inj : ∀ i j, m i ≠ 0 → m i = m j → i = j
  nodup : free.Nodup
  freePool : ∀ a ∈ free, a ∈ pool
  free_iff : ∀ a ∈ pool, a ∈ free ↔ ∀ i, m i ≠ a

theorem Exact.empty (hz : (0 : α) ∉ pool) (hn : free.Nodup) (hf : ∀ a, a ∈ free ↔ a ∈ pool)
    (hm : ∀ i, m i = 0) : Exact pool m free where
  zero := hz
  inPool i hi := absurd (hm i) hi
  inj i _ hi := absurd (hm i) hi
  nodup := hn
  freePool a ha := (hf a).1 ha
  free_iff a ha := by
    constructor
    · intro _ i hi
      rw [hm i] at hi
      exact hz (hi ▸ ha)
    · exact fun _ => (hf a).2 ha

theorem Exact.notFree (h : Exact pool m free) (hi : m i ≠ 0) : m i ∉ free := fun hf =>
  (h.free_iff _ (h.inPool i hi)).1 hf i rfl

theorem Exact.ne_zero (h : Exact pool m free) (ha : a ∈ pool) : a ≠ 0 := by
  rintro rfl
  exact h.zero ha

/-- A unit of the pool is in one place. -/
theorem Exact.place [DecidableEq α] (h : Exact pool m free) (ha : a ∈ pool) :
    (free.count a = 1 ∧ ∀ i, m i ≠ a) ∨ (a ∉ free ∧ ∃! i, m i = a) := by
  by_cases hf : a ∈ free
  · exact .inl ⟨List.count_eq_one_of_mem h.nodup hf, (h.free_iff a ha).1 hf⟩
  · have hsome : ∃ i, m i = a := by
      by_contra hnone
      exact hf ((h.free_iff a ha).2 fun i hi => hnone ⟨i, hi⟩)
    obtain ⟨i, rfl⟩ := hsome
    refine .inr ⟨hf, i, rfl, fun j hj => ?_⟩
    exact h.inj j i (by rw [hj]; exact h.ne_zero ha) hj

section

variable [DecidableEq ι]

/-- The head of the free list goes into an empty slot. -/
theorem Exact.take (h : Exact pool m (a :: free)) (hi : m i = 0) :
    Exact pool (update m i a) free := by
  have hap : a ∈ pool := h.freePool a List.mem_cons_self
  -- what is free is in no slot
  have hnot : ∀ j, m j ≠ a := (h.free_iff a hap).1 List.mem_cons_self
  have hnodup := List.nodup_cons.1 h.nodup
  refine ⟨h.zero, fun j hj => ?_, fun j k hj hjk => ?_, hnodup.2,
    fun b hb => h.freePool b (.tail _ hb), fun b hb => ?_⟩
  · by_cases hji : j = i
    · rw [hji, Function.update_self]
      exact hap
    · rw [Function.update_of_ne hji] at hj ⊢
      exact h.inPool j hj
  · by_cases hji : j = i
    · by_cases hki : k = i
      · rw [hji, hki]
      · rw [hji, Function.update_self, Function.update_of_ne hki] at hjk
        exact absurd hjk.symm (hnot k)
    · rw [Function.update_of_ne hji] at hj hjk
      by_cases hki : k = i
      · rw [hki, Function.update_self] at hjk
        exact absurd hjk (hnot j)
      · rw [Function.update_of_ne hki] at hjk
        exact h.inj j k hj hjk
  · have hiff := h.free_iff b hb
    rw [List.mem_cons] at hiff
    by_cases hba : b = a
    · subst hba
      refine iff_of_false hnodup.1 fun hall => hall i (Function.update_self _ _ _)
    · rw [show b ∈ free ↔ ∀ j, m j ≠ b by
        rw [← hiff]; exact ⟨.inr, fun hc => hc.resolve_left hba⟩]
      constructor
      · intro hall j
        by_cases hji : j = i
        · rw [hji, Function.update_self]
          exact Ne.symm hba
        · rw [Function.update_of_ne hji]
          exact hall j
      · intro hall j
        by_cases hji : j = i
        · rw [hji, hi]
          exact (h.ne_zero hb).symm
        · have := hall j
          rwa [Function.update_of_ne hji] at this

/-- The unit of a slot goes back to the free list. -/
theorem Exact.give (h : Exact pool m free) (hi : m i ≠ 0) :
    Exact pool (update m i 0) (m i :: free) := by
  -- no other slot holds what is given back
  have hother : ∀ j, j ≠ i → m j ≠ m i := fun j hji he => hji (h.inj i j hi he.symm).symm
  refine ⟨h.zero, fun j hj => ?_, fun j k hj hjk => ?_, List.nodup_cons.2 ⟨h.notFree hi, h.nodup⟩,
    fun b hb => ?_, fun b hb => ?_⟩
  · by_cases hji : j = i
    · rw [hji, Function.update_self] at hj
      exact absurd rfl hj
    · rw [Function.update_of_ne hji] at hj ⊢
      exact h.inPool j hj
  · by_cases hji : j = i
    · rw [hji, Function.update_self] at hj
      exact absurd rfl hj
    · rw [Function.update_of_ne hji] at hj hjk
      by_cases hki : k = i
      · rw [hki, Function.update_self] at hjk
        exact absurd hjk hj
      · rw [Function.update_of_ne hki] at hjk
        exact h.inj j k hj hjk
  · rcases List.mem_cons.1 hb with rfl | hb
    · exact h.inPool i hi
    · exact h.freePool b hb
  · rw [List.mem_cons, h.free_iff b hb]
    constructor
    · rintro (rfl | hall) j
      · by_cases hji : j = i
        · rw [hji, Function.update_self]
          exact Ne.symm hi
        · rw [Function.update_of_ne hji]
          exact hother j hji
      · by_cases hji : j = i
        · rw [hji, Function.update_self]
          exact (h.ne_zero hb).symm
        · rw [Function.update_of_ne hji]
          exact hall j
    · intro hall
      by_cases hbi : b = m i
      · exact .inl hbi
      · refine .inr fun j => ?_
        by_cases hji : j = i
        · rw [hji]
          exact Ne.symm hbi
        · have := hall j
          rwa [Function.update_of_ne hji] at this

/-- Clearing an empty slot changes nothing. -/
theorem Exact.clear (h : Exact pool m free) (hi : m i = 0) : Exact pool (update m i 0) free := by
  rwa [← hi, Function.update_eq_self]

end

end SlotPool
