import Mathlib.Data.List.Basic
import Mathlib.Logic.Function.Basic
import Mathlib.Tactic.Common

/-!
# First in, first out

A cache with a capacity, kept as a queue: an element that comes in is appended, and the first one
goes out when the cache is full. A circular array holds such a queue when it is read from the index
of the next entry on.
-/

namespace Fifo

open Function (update)

variable {α : Type}

/-! ## The queue -/

/-- What goes out when `a` comes in, and the queue afterwards. -/
def enter (cap : Nat) (q : List α) (a : α) : Option α × List α :=
  if q.length < cap then (none, q ++ [a]) else (q.head?, q.tail ++ [a])

/-- References are served one by one. The result lists the misses, each with what went out for it,
and the queue at the end. -/
def serve [DecidableEq α] (cap : Nat) : List α → List α → List (α × Option α) × List α
  | q, [] => ([], q)
  | q, a :: l =>
    if a ∈ q then serve cap q l
    else ((a, (enter cap q a).1) :: (serve cap (enter cap q a).2 l).1, (serve cap (enter cap q a).2 l).2)

section

variable [DecidableEq α] {cap : Nat} {q : List α} {a : α} {l k : List α}

/-- References after references. -/
theorem serve_append : serve cap q (l ++ k) =
    ((serve cap q l).1 ++ (serve cap (serve cap q l).2 k).1, (serve cap (serve cap q l).2 k).2) := by
  induction l generalizing q with
  | nil => simp [serve]
  | cons b l ih =>
    by_cases hb : b ∈ q
    · simp [serve, hb, ih]
    · simp [serve, hb, ih]

theorem serve_hit (h : a ∈ (serve cap q l).2) : serve cap q (l ++ [a]) = serve cap q l := by
  simp [serve_append, serve, h]

theorem serve_miss (h : a ∉ (serve cap q l).2) : serve cap q (l ++ [a]) =
    ((serve cap q l).1 ++ [(a, (enter cap (serve cap q l).2 a).1)],
      (enter cap (serve cap q l).2 a).2) := by
  simp [serve_append, serve, h]

end

/-! ## The circular array -/

/-- The elements of a circular array of `n` entries, read from entry `i` on. -/
def ring (n : Nat) (slot : Nat → Option α) (i : Nat) : List α :=
  (List.range n).filterMap fun j => slot ((i + j) % n)

/-- The elements behind entry `i`. -/
def behind (n : Nat) (slot : Nat → Option α) (i : Nat) : List α :=
  (List.range (n - 1)).filterMap fun j => slot ((i + 1 + j) % n)

section

variable {n i : Nat} {slot : Nat → Option α} {x : Option α} {a : α}

/-- Entry `i` comes first. -/
theorem ring_eq (hi : i < n) : ring n slot i = (slot i).toList ++ behind n slot i := by
  obtain ⟨m, rfl⟩ : ∃ m, n = m + 1 := ⟨n - 1, by omega⟩
  have hrest : (List.range m).filterMap ((fun j => slot ((i + j) % (m + 1))) ∘ Nat.succ) =
      behind (m + 1) slot i := by
    apply List.filterMap_congr
    intro j _
    rw [Function.comp_apply, show i + Nat.succ j = i + 1 + j by omega]
  unfold ring
  rw [List.range_succ_eq_map, List.filterMap_cons, List.filterMap_map, hrest, Nat.add_zero,
    Nat.mod_eq_of_lt hi]
  cases slot i <;> rfl

/-- Once entry `i` is overwritten and the next one is the first, it comes last. -/
theorem ring_update (hi : i < n) :
    ring n (update slot i x) ((i + 1) % n) = behind n slot i ++ x.toList := by
  obtain ⟨m, rfl⟩ : ∃ m, n = m + 1 := ⟨n - 1, by omega⟩
  have hidx : ∀ j, ((i + 1) % (m + 1) + j) % (m + 1) = (i + 1 + j) % (m + 1) := by
    intro j
    rw [Nat.mod_add_mod]
  have hlast : (i + 1 + m) % (m + 1) = i := by
    rw [show i + 1 + m = i + (m + 1) by omega, Nat.add_mod_right, Nat.mod_eq_of_lt hi]
  unfold ring behind
  rw [List.range_succ, List.filterMap_append, Nat.add_sub_cancel]
  have hsame : ∀ j ∈ List.range m, update slot i x (((i + 1) % (m + 1) + j) % (m + 1)) =
      slot ((i + 1 + j) % (m + 1)) := by
    intro j hj
    have hjm := List.mem_range.1 hj
    rw [hidx, Function.update_of_ne]
    -- between one and `m` places behind entry `i` is another entry
    intro hc
    by_cases hwrap : i + 1 + j < m + 1
    · rw [Nat.mod_eq_of_lt hwrap] at hc
      omega
    · rw [Nat.mod_eq_sub_mod (by omega), Nat.mod_eq_of_lt (by omega)] at hc
      omega
  congr 1
  · exact List.filterMap_congr hsame
  · rw [List.filterMap_cons, hidx, hlast, Function.update_self]
    cases x <;> rfl

theorem mem_ring (hi : i < n) : a ∈ ring n slot i ↔ ∃ j < n, slot j = some a := by
  unfold ring
  rw [List.mem_filterMap]
  constructor
  · rintro ⟨j, -, hj⟩
    exact ⟨_, Nat.mod_lt _ (by omega), hj⟩
  · rintro ⟨j, hj, ha⟩
    -- entry `j` is met after `j - i` steps, going around
    refine ⟨(j + n - i) % n, List.mem_range.2 (Nat.mod_lt _ (by omega)), ?_⟩
    rw [Nat.add_mod_mod,
      show i + (j + n - i) = j + n by omega, Nat.add_mod_right, Nat.mod_eq_of_lt hj]
    exact ha

/-- The queue is full when no entry is free. -/
theorem length_ring_lt (hi : i < n) : (ring n slot i).length < n ↔ ∃ j < n, slot j = none := by
  have hle : (ring n slot i).length ≤ n := by
    have h := List.length_filterMap_le (fun j => slot ((i + j) % n)) (List.range n)
    rw [List.length_range] at h
    exact h
  -- the reading is full length exactly if no slot is empty
  have hfull : (ring n slot i).length = n ↔ ∀ j < n, (slot j).isSome := by
    have h := List.filterMap_length_eq_length (f := fun j => slot ((i + j) % n)) (l := List.range n)
    rw [List.length_range] at h
    unfold ring
    rw [h]
    constructor
    · intro hall j hj
      have hlt : (j + n - i) % n < n := Nat.mod_lt _ (by omega)
      have hsome := hall _ (List.mem_range.2 hlt)
      rw [Nat.add_mod_mod, show i + (j + n - i) = j + n by omega, Nat.add_mod_right,
        Nat.mod_eq_of_lt hj] at hsome
      exact hsome
    · intro hall j _
      exact hall _ (Nat.mod_lt _ (by omega))
  constructor
  · intro hlt
    by_contra hnone
    apply Nat.ne_of_lt hlt
    rw [hfull]
    intro j hj
    cases hslot : slot j with
    | none => exact absurd ⟨j, hj, hslot⟩ hnone
    | some a => rfl
  · rintro ⟨j, hj, hnone⟩
    apply Nat.lt_of_le_of_ne hle
    intro heq
    have hsome := hfull.1 heq j hj
    rw [hnone] at hsome
    cases hsome

/-- **An element comes in** at a free entry of an array that is not full, or in place of the first
element of a full one. -/
theorem enter_ring (hi : i < n) (h : slot i = none ∨ ∀ j < n, slot j ≠ none) :
    enter n (ring n slot i) a = (slot i, ring n (update slot i (some a)) ((i + 1) % n)) := by
  rw [ring_update hi, enter]
  rcases h with hfree | hfull
  · rw [if_pos ((length_ring_lt hi).2 ⟨i, hi, hfree⟩), ring_eq hi, hfree]
    rfl
  · rw [if_neg fun hlt => ?_, ring_eq hi]
    · cases hslot : slot i with
      | none => exact absurd hslot (hfull i hi)
      | some b => rfl
    · obtain ⟨j, hj, hnone⟩ := (length_ring_lt hi).1 hlt
      exact hfull j hj hnone

end

end Fifo
