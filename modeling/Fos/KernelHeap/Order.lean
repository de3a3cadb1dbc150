import Fos.BlockOrder
import Fos.KernelHeap.Runs

/-!
# The order of the free list

Under first fit and next fit alike the free list stays in address order with no empty block and no
two blocks that meet, as long as every request asks for at least one page after rounding.
-/

namespace Fos

open Prog (bind_eq_ok ok_inj)

section

variable {s s' : Kern} {size va : Nat}

/-- `Coalescing_heap` keeps the free list in order. -/
theorem coalescing_order {h h' : Heap} {take : BlockInfo} (ho : FreeOrder h.blockInfoFreeList)
    (hfits : Fits take h.blockInfoFreeList) (hw : NoWrap (take :: h.blockInfoFreeList))
    (hc : h.coalescing take = some h') : FreeOrder h'.blockInfoFreeList := by
  obtain ⟨lo, hi, hl, hcut⟩ := hfits.cut ho
  have hw' : NoWrap (lo ++ take :: hi) := by
    intro b hb
    apply hw
    rw [hl]
    simpa [or_left_comm, or_comm, or_assoc] using hb
  -- the search for the place stops at the cut
  obtain ⟨ht, hd⟩ := hcut.takeWhile (p := fun curr => decide (curr.startVa ≤ take.startVa))
    (fun b hb => by simpa using Nat.le_of_lt hb) (fun b hb => by simpa using hb)
  unfold Heap.coalescing at hc
  dsimp only at hc
  rw [hl, ht, hd] at hc
  cases hj : joinBetween lo hi take with
  | some r =>
    obtain ⟨free, ids⟩ := r
    rw [hj] at hc
    cases hc
    exact hcut.joinBetween_some hw' hj
  | none =>
    rw [hj] at hc
    dsimp only at hc
    by_cases hne : lo ++ hi = []
    · rw [hne] at hc
      cases hc
    · rw [hcut.insertSorted hne, Option.map_some] at hc
      cases hc
      exact hcut.joinBetween_none hw' hj

theorem roundup_pos (h1 : 1 ≤ size) (h2 : size ≤ 4294963200) : 0 < roundup size pageSize := by
  have := le_roundup h2
  omega

/-- The kernel heap with the free list in order and no empty taken block. -/
structure OrderInv (s : Kern) : Prop where
  heap : HeapInv s
  order : FreeOrder s.heap.blockInfoFreeList
  taken : ∀ b ∈ s.heap.blockInfoTakenList, 0 < b.size

/-- `kmalloc` under a fitting strategy: nothing is found, or the front of a free block is taken. -/
theorem OrderInv.kmalloc (hi : OrderInv s) (hfit : s.heap.Fits) (h1 : 1 ≤ size)
    (h2 : size ≤ 4294963200) (h : Fos.kmalloc size s = .ok va s') :
    OrderInv s' ∧ s'.heap.strategy = s.heap.strategy ∧
      ((va = 0 ∧ s' = s) ∨ ∃ (b : BlockInfo) (found : Place BlockInfo), b.startVa = va ∧
        b.size = roundup size pageSize ∧ s.heap.Allocated s'.heap found b) := by
  obtain ⟨hheap, hst⟩ := kmalloc_heapInv hi.heap hfit h
  rcases kmallocWith_ok (fun _ _ _ => hi.heap.mapPages_heap hfit) h with
    ⟨rfl, rfl⟩ | ⟨b, h', ha, hsize, rfl, h₁, s₁, -, rfl⟩
  · exact ⟨hi, rfl, .inl ⟨rfl, rfl⟩⟩
  · cases ha with
    | cont rest hcont =>
      -- the continuous strategy is not the one in force
      rcases hfit with hf | hf <;> rw [hf] at hcont <;> cases hcont
    | fit found _ ha =>
      refine ⟨⟨hheap, ?_, ?_⟩, hst, .inr ⟨b, found, rfl, hsize, ha⟩⟩
      · show FreeOrder h'.blockInfoFreeList
        rw [ha.free']
        refine carved_order ?_ ?_ ha.fits
        · rw [← ha.free]
          exact hi.order
        · rw [← ha.free]
          exact hi.heap.part.noWrap kernelHeapMax_lt fun b hb => List.mem_append_left _ hb
      · intro c hc
        rcases List.mem_cons.1 (ha.taken.mem_iff.1 hc) with rfl | hc
        · rw [hsize]
          exact roundup_pos h1 h2
        · exact hi.taken c hc

/-- `kfree`: no taken block starts at the address, or the first one that does is coalesced. -/
theorem OrderInv.kfree (hi : OrderInv s) (h : Fos.kfree va s = .ok () s') :
    OrderInv s' ∧ s'.heap.strategy = s.heap.strategy ∧
      (((∀ b ∈ s.heap.blockInfoTakenList, b.startVa ≠ va) ∧ s' = s) ∨
        ∃ b rest, b.startVa = va ∧ s.heap.blockInfoTakenList.Perm (b :: rest) ∧
          s'.heap.blockInfoTakenList = rest ∧
          ({ s.heap with blockInfoTakenList := rest } : Heap).coalescing b = some s'.heap) := by
  obtain ⟨hheap, hst⟩ := kfree_heapInv hi.heap h
  rcases kfree_ok h with ⟨hnone, rfl⟩ | ⟨bi, s₁, h', -, hlist, hstart, hun, hc, rfl⟩
  · exact ⟨hi, rfl, .inl ⟨hnone, rfl⟩⟩
  · have hperm : s.heap.blockInfoTakenList.Perm (bi.elem :: bi.removed) := by
      rw [hlist]
      exact List.perm_middle
    have hbwf : bi.elem.WF := hi.heap.part.wf _ (by simp [hperm.mem_iff])
    have hsub : bi.elem.pages ⊆ takenPages s.heap.blockInfoTakenList := by
      rw [takenPages_perm hperm]
      exact Set.subset_union_right
    -- the pages are unmapped before the lists are touched
    have hheap₁ := (hi.heap.map.unmapPages hbwf hsub hun).2
    rw [hheap₁] at hc
    have hpos : 0 < bi.elem.size := hi.taken _ (by simp [hperm.mem_iff])
    obtain ⟨X, Y, m, hco⟩ := coalescing_cases hc
    have htaken : h'.blockInfoTakenList = bi.removed := hco.taken
    refine ⟨⟨hheap, ?_, ?_⟩, hst, .inr ⟨bi.elem, bi.removed, hstart, hperm, htaken, hc⟩⟩
    · refine coalescing_order ?_ ?_ ?_ hc
      · exact hi.order
      · exact hi.heap.part.fits hi.order hperm hpos
      · refine hi.heap.part.noWrap kernelHeapMax_lt fun b hb => ?_
        rcases List.mem_cons.1 hb with rfl | hb
        · simp [hperm.mem_iff]
        · exact List.mem_append_left _ hb
    · intro c hc'
      have hmem : c ∈ bi.removed := by
        rw [← htaken]
        exact hc'
      exact hi.taken c (by simp [hperm.mem_iff, hmem])

/-- Boot leaves one free block and two taken ones. -/
theorem orderInv_boot {c : BootConfig} (h : fosInitialize (initializePaging c) = .ok () s)
    (st : KHeapPlacementStrategy) : OrderInv (setStrategy st s) := by
  obtain ⟨hboot, hi⟩ := fosInitialize_heapInv h
  refine ⟨hi.setStrategy st, ?_, ?_⟩
  · show FreeOrder s.heap.blockInfoFreeList
    rw [hboot]
    refine ⟨?_, List.pairwise_singleton _ _⟩
    intro b hb
    rw [List.mem_singleton.1 hb]
    decide
  · show ∀ b ∈ s.heap.blockInfoTakenList, 0 < b.size
    rw [hboot]
    simp [bootHeap]

/-- Two taken blocks that start together are one. -/
theorem OrderInv.start_inj (hi : OrderInv s) {b c : BlockInfo}
    (hb : b ∈ s.heap.blockInfoTakenList) (hc : c ∈ s.heap.blockInfoTakenList)
    (he : b.startVa = c.startVa) : b = c :=
  BlockPartition.start_inj hi.heap.part hi.taken hb hc he

end

end Fos
