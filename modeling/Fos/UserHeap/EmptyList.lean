import Fos.UserHeap.Accounting

/-!
# `free` on an empty free list

`Coalescing_heap_user` looks at the first and the last free block before it asks whether there is
one. Once the whole user heap is taken, a `free` follows a null pointer.
-/

namespace Fos

open Relation (ReflTransGen)
open Prog (final ok_of_value)

/-- `free` follows no null pointer. -/
def FreeSafe (h : UHeap) (va : Nat) : Prop := ∀ t, free va h ≠ .error .fault t

/-- One call of the library, of any kind and size. -/
def UserHeapStep (h h' : UHeap) : Prop := ∃ (c : UserCall) (va : Nat), c.run h = .ok va h'

section

variable {h : UHeap} {va : Nat} {take : BlockInfo}

theorem insertSortedUser_some {l : List BlockInfo} (hl : l ≠ []) (elem : BlockInfo) :
    ∃ l', insertSortedUser l elem = some l' := by
  unfold insertSortedUser insertSorted
  rw [List.head?_eq_some_head hl, List.getLast?_eq_some_getLast hl]
  dsimp only
  split
  · exact ⟨_, rfl⟩
  · split
    · exact ⟨_, rfl⟩
    · exact ⟨_, rfl⟩

/-- Coalescing fails on the empty list only. -/
theorem coalescingUser_none : h.coalescing take = none ↔ h.blockInfoFreeListUser = [] := by
  unfold UHeap.coalescing
  dsimp only
  constructor
  · intro hnone
    by_contra hl
    obtain ⟨l', hins⟩ := insertSortedUser_some hl take
    rw [List.head?_eq_some_head hl, List.getLast?_eq_some_getLast hl] at hnone
    dsimp only at hnone
    rw [hins, Option.map_some] at hnone
    split at hnone
    · cases hnone
    · split at hnone
      · split at hnone <;> cases hnone
      · split at hnone <;> cases hnone
  · intro hl
    rw [hl]
    rfl

/-- **`free` follows no null pointer** exactly where the free list has a block or no taken block
starts at the address. -/
theorem free_safe_iff (h : UHeap) (va : Nat) : FreeSafe h va ↔
    h.blockInfoFreeListUser ≠ [] ∨ ∀ b ∈ h.blockInfoTakenListUser, b.startVa ≠ va := by
  unfold FreeSafe
  cases hfirst : firstWhere (fun bi => decide (bi.startVa = va)) h.blockInfoTakenListUser with
  | none =>
    have hnone : ∀ b ∈ h.blockInfoTakenListUser, b.startVa ≠ va := by
      simpa using firstWhere_none.1 hfirst
    refine iff_of_true (fun t ht => ?_) (.inr hnone)
    rw [free, Prog.get_bind_apply, hfirst] at ht
    cases ht
  | some bi =>
    obtain ⟨hlist, hstart, -⟩ := firstWhere_some hfirst
    have hmem : bi.elem ∈ h.blockInfoTakenListUser := by
      rw [hlist]
      simp [Place.list]
    have hdead : ¬ ∀ b ∈ h.blockInfoTakenListUser, b.startVa ≠ va :=
      fun hall => hall _ hmem (of_decide_eq_true hstart)
    rw [or_iff_left hdead]
    set g : UHeap := { h with blockInfoTakenListUser := bi.removed } with hg
    have hlists : g.coalescing bi.elem = none ↔ h.blockInfoFreeListUser = [] := coalescingUser_none
    rw [← not_iff_not, not_not, ← hlists]
    cases hco : g.coalescing bi.elem with
    | none =>
      refine iff_of_true (fun hsafe => hsafe h ?_) rfl
      rw [free, Prog.get_bind_apply, hfirst]
      dsimp only
      rw [← hg, hco]
      rfl
    | some h' =>
      refine iff_of_false (fun hbad => hbad fun t ht => ?_) (by simp)
      rw [free, Prog.get_bind_apply, hfirst] at ht
      dsimp only at ht
      rw [← hg, hco] at ht
      cases ht

end

/-- After `malloc(USER_HEAP_MAX - USER_HEAP_START)` there is nothing left, and `free` of that block
follows the null pointer. -/
theorem free_null : ¬ ∀ h : UHeap, ReflTransGen UserHeapStep UHeap.initial h →
    ∀ va, FreeSafe h va := by
  intro hall
  have hrun : (UserCall.malloc 0x40000000).run UHeap.initial = .ok 0x80000000
      (final (malloc 0x40000000 UHeap.initial)) := ok_of_value (by decide +kernel)
  have hsafe := hall _ (.single ⟨_, _, hrun⟩) 0x80000000
  rw [free_safe_iff] at hsafe
  have hbad : ¬ ((final (malloc 0x40000000 UHeap.initial)).blockInfoFreeListUser ≠ [] ∨
      ∀ b ∈ (final (malloc 0x40000000 UHeap.initial)).blockInfoTakenListUser,
        b.startVa ≠ 0x80000000) := by
    decide +kernel
  exact hbad hsafe

end Fos
