import Fos.KernelHeap

/-!
# The block lists of the kernel heap

What the searches find, and what carving a free block and coalescing do to the addresses that the
two block lists describe. `Heap.Partition` is the invariant: the blocks of both lists together
tile the kernel heap.
-/

namespace Fos

/-! ## Searching -/

/-- The updated `before` is the old one or the block at hand. -/
theorem nextFitBefore_cases {before : Option (Place BlockInfo)} {bi : Place BlockInfo}
    {P : Place BlockInfo → Prop} (hb : ∀ b ∈ before, P b) (hbi : P bi) :
    P (nextFitBefore before bi) := by
  unfold nextFitBefore
  cases before with
  | none => exact hbi
  | some b =>
    dsimp only
    split
    · exact hbi
    · exact hb b rfl

/-- Whatever `nextFitSearch` finds is a large enough block of the list. -/
theorem nextFitSearch_some {size lastVa : Nat} {l seen rest : List BlockInfo}
    {before : Option (Place BlockInfo)} {q : Place BlockInfo} (hl : l = seen ++ rest)
    (hb : ∀ b ∈ before, l = b.list ∧ size ≤ b.elem.size)
    (h : nextFitSearch size lastVa seen rest before = some q) : l = q.list ∧
    size ≤ q.elem.size := by
  induction rest generalizing seen before with
  | nil => exact hb q h
  | cons bi rest ih =>
    have hl' : l = (seen ++ [bi]) ++ rest := by rw [hl]; simp
    have hplace : l = (⟨seen, bi, rest⟩ : Place BlockInfo).list := hl
    unfold nextFitSearch at h
    by_cases hs : bi.size ≥ size
    · rw [if_pos hs] at h
      by_cases hv : bi.startVa ≥ lastVa
      · rw [if_pos hv] at h
        cases h
        exact ⟨hplace, hs⟩
      · rw [if_neg hv] at h
        refine ih hl' ?_ h
        intro b hmem
        cases hmem
        exact nextFitBefore_cases (P := fun b => l = b.list ∧ size ≤ b.elem.size) hb ⟨hplace, hs⟩
    · rw [if_neg hs] at h
      exact ih hl' hb h

/-! ## The partition -/

/-- A block is a run of whole pages of the kernel heap. -/
abbrev BlockInfo.WF (b : BlockInfo) : Prop := b.Within kernelHeapStart kernelHeapMax

/-- The blocks of the two lists tile the kernel heap. -/
abbrev Heap.Partition (h : Heap) : Prop :=
  BlockPartition kernelHeapStart kernelHeapMax h.blockInfoFreeList h.blockInfoTakenList

theorem kernelHeapMax_lt : kernelHeapMax < 4294967296 := by decide

/-- Coalescing joins the block with its free neighbours, and the cursor stays or goes back to it. -/
structure Coalesced (h h' : Heap) (take : BlockInfo) (X Y : List BlockInfo) (m : BlockInfo) : Prop
    extends Joined h.blockInfoFreeList h'.blockInfoFreeList take X Y m where
  taken : h'.blockInfoTakenList = h.blockInfoTakenList
  strategy : h'.strategy = h.strategy
  cursor : h'.lastVaInKheap = h.lastVaInKheap ∨
    h.strategy = .nextFit ∧ h'.lastVaInKheap = take.startVa

theorem coalescing_cases {h h' : Heap} {take : BlockInfo} (hc : h.coalescing take = some h') :
    ∃ X Y m, Coalesced h h' take X Y m := by
  set lo := h.blockInfoFreeList.takeWhile (fun curr => curr.startVa ≤ take.startVa) with hlo
  set hi := h.blockInfoFreeList.dropWhile (fun curr => curr.startVa ≤ take.startVa) with hhi
  have hl : lo ++ hi = h.blockInfoFreeList := List.takeWhile_append_dropWhile
  unfold Heap.coalescing at hc
  dsimp only at hc
  rw [← hlo, ← hhi] at hc
  cases hjoin : joinBetween lo hi take with
  | some r =>
    obtain ⟨free, ids⟩ := r
    rw [hjoin] at hc
    cases hc
    obtain ⟨X, Y, m, hj⟩ := joinBetween_some hjoin
    rw [hl] at hj
    exact ⟨X, Y, m, hj, rfl, rfl, .inl rfl⟩
  | none =>
    rw [hjoin] at hc
    obtain ⟨free, hfree, rfl⟩ := Option.map_eq_some_iff.1 hc
    refine ⟨[], h.blockInfoFreeList, take, .of_insertSorted hfree, rfl, rfl, ?_⟩
    dsimp only
    split
    case isTrue hn => exact .inr ⟨hn.1, rfl⟩
    case isFalse => exact .inl rfl

end Fos
