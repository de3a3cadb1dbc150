import Fos.KernelHeap.Blocks
import Fos.KernelHeap.Pages

/-!
# What a call of the kernel heap did

Inversion of `kmalloc` and `kfree`: from the result of a call that returned, the block it was about
and the block lists it left.
-/

namespace Fos

open Prog (bind_eq_ok ok_inj)

/-! ## kmalloc -/

/-- An allocation from the free block `found`: `b` is the front of `found`, carved off and entered
among the taken blocks. -/
structure Heap.Allocated (h h' : Heap) (found : Place BlockInfo) (b : BlockInfo) : Prop where
  free : h.blockInfoFreeList = found.list
  fits : b.size ≤ found.elem.size
  start : b.startVa = found.elem.startVa
  aligned : b.size % 4096 = 0
  free' : h'.blockInfoFreeList = found.carved b.size
  taken : h'.blockInfoTakenList.Perm (b :: h.blockInfoTakenList)
  strategy : h'.strategy = h.strategy
  cursor : h'.lastVaInKheap = u32 (h.lastVaInKheap + b.size) ∨ h'.lastVaInKheap = b.startVa

/-- The strategy searches the free list. -/
def Heap.Fits (h : Heap) : Prop := h.strategy = .firstFit ∨ h.strategy = .nextFit

/-- What `kmalloc` did to the block lists for the new block `b`. -/
inductive Heap.Alloc (h h' : Heap) (b : BlockInfo) : Prop
  | fit (found : Place BlockInfo) (hfit : h.Fits) (ha : h.Allocated h' found b)
  | cont (rest : List Nat) (hst : h.strategy = .contAlloc) (hstart : b.startVa = h.lastVaInKheap)
      (hsize : b.size ≤ u32Sub kernelHeapMax h.lastVaInKheap) (haligned : b.size % 4096 = 0)
      (hfree : h.freeBlocks = b.id :: rest)
      (h' : h' = { (h.advance b.size).insertTaken b with freeBlocks := rest })

theorem Heap.Alloc.taken {h h' : Heap} {b : BlockInfo} (ha : h.Alloc h' b) :
    h'.blockInfoTakenList.Perm (b :: h.blockInfoTakenList) := by
  cases ha with
  | fit found hfit ha => exact ha.taken
  | cont rest hst hstart hsize haligned hfree h' => rw [h']; exact .refl _

theorem Heap.Alloc.strategy {h h' : Heap} {b : BlockInfo} (ha : h.Alloc h' b) :
    h'.strategy = h.strategy := by
  cases ha with
  | fit found hfit ha => exact ha.strategy
  | cont rest hst hstart hsize haligned hfree h' => rw [h']; rfl

/-- Where `kmalloc` looks for `size` bytes: a large enough free block, or the cursor. -/
def Heap.Source (h : Heap) (start size : Nat) : Prop :=
  match h.strategy with
  | .contAlloc => start = h.lastVaInKheap ∧ size ≤ u32Sub kernelHeapMax h.lastVaInKheap
  | .firstFit | .nextFit => ∃ found : Place BlockInfo, h.blockInfoFreeList = found.list ∧
      size ≤ found.elem.size ∧ start = found.elem.startVa
  | .bestFit | .worstFit => False

theorem Heap.Alloc.source {h h' : Heap} {b : BlockInfo} (ha : h.Alloc h' b) :
    h.Source b.startVa b.size := by
  cases ha with
  | fit found hfit ha =>
    have hs : ∃ found : Place BlockInfo, h.blockInfoFreeList = found.list ∧
        b.size ≤ found.elem.size ∧ b.startVa = found.elem.startVa :=
      ⟨found, ha.free, ha.fits, ha.start⟩
    rcases hfit with hst | hst <;> rw [Heap.Source, hst] <;> exact hs
  | cont rest hst hstart hsize =>
    rw [Heap.Source, hst]
    exact ⟨hstart, hsize⟩

theorem kAllocateBlock_ok {s s' : Kern} {id : Nat} (h : kAllocateBlock s = .ok id s') :
    ∃ rest, s.heap.freeBlocks = id :: rest ∧ s' = s.setHeap { s.heap with freeBlocks := rest } := by
  rw [kAllocateBlock, Prog.get_bind_apply] at h
  cases hl : s.heap.freeBlocks with
  | nil => rw [hl] at h; cases h
  | cons id' rest =>
    rw [hl] at h
    cases h
    exact ⟨rest, rfl, rfl⟩

section

variable {mapFrame : Nat → Nat → Nat → K Unit} {size va : Nat} {s s' : Kern}

/-- The pages were mapped from `start` on while the block lists were `h₁`. -/
def MappedFrom (mapFrame : Nat → Nat → Nat → K Unit) (b : BlockInfo) (s s' : Kern) (h' : Heap) :
    Prop :=
  ∃ h₁ s₁, mapPages mapFrame (b.size / pageSize) b.startVa (s.setHeap h₁) = .ok () s₁ ∧
    s' = s₁.setHeap h'

/-- A successful `first_fit_allocation`, if mapping its pages leaves the block lists alone. -/
theorem firstFitAllocation_ok (hst : s.heap.strategy = .firstFit)
    (hkeep : ∀ start h₁ t, s.heap.Source start (roundup size pageSize) →
      mapPages mapFrame (roundup size pageSize / pageSize) start (s.setHeap h₁) = .ok () t →
      t.heap = h₁)
    (h : firstFitAllocation mapFrame size s = .ok va s') :
    (va = 0 ∧ s' = s) ∨ ∃ b h', s.heap.Alloc h' b ∧ b.size = roundup size pageSize ∧
      va = b.startVa ∧ MappedFrom mapFrame b s s' h' := by
  rw [firstFitAllocation, Prog.get_bind_apply] at h
  set size' := roundup size pageSize with hsize
  have hal : size' % 4096 = 0 := roundup_mod size
  cases hf : firstWhere (fun bi => decide (bi.size ≥ size')) s.heap.blockInfoFreeList with
  | none =>
    rw [hf] at h
    cases h
    exact .inl ⟨rfl, rfl⟩
  | some found =>
    rw [hf] at h
    obtain ⟨hlist, hfit, -⟩ := firstWhere_some hf
    have hfit' : size' ≤ found.elem.size := by simpa using hfit
    obtain ⟨_, s₁, hmap, h⟩ := bind_eq_ok.1 h
    -- mapping the pages leaves the lists as they were
    have hheap : s₁.heap = s.heap := by
      refine hkeep found.elem.startVa s.heap s₁ ?_ hmap
      rw [Heap.Source, hst]
      exact ⟨found, hlist, hfit', rfl⟩
    rw [Prog.modify_bind_apply] at h
    obtain ⟨ptr, s₂, halloc, h⟩ := bind_eq_ok.1 h
    obtain ⟨rest, -, rfl⟩ := kAllocateBlock_ok halloc
    rw [Prog.get_bind_apply] at h
    simp only [Kern.setHeap] at h
    cases hins : insertSorted ((s₁.heap.carve found size').advance size').blockInfoTakenList
        ⟨ptr, found.elem.startVa, size'⟩ with
    | none => rw [hins] at h; cases h
    | some taken =>
      rw [hins] at h
      cases h
      refine .inr ⟨⟨ptr, found.elem.startVa, size'⟩, _, .fit found (.inl hst) ?_, rfl, rfl,
        s.heap, s₁, hmap, rfl⟩
      refine ⟨hlist, hfit', rfl, hal, ?_, ?_, ?_, .inl ?_⟩
      · rfl
      · have hperm := insertSorted_perm hins
        rw [Heap.advance, hheap] at hperm
        exact hperm
      · change (s₁.heap.carve found size').strategy = _
        rw [Heap.carve, hheap]
      · change u32 ((s₁.heap.carve found size').lastVaInKheap + size') = _
        rw [Heap.carve, hheap]

/-- A successful `next_fit_allocation`. -/
theorem nextFitAllocation_ok (hst : s.heap.strategy = .nextFit)
    (hkeep : ∀ start h₁ t, s.heap.Source start (roundup size pageSize) →
      mapPages mapFrame (roundup size pageSize / pageSize) start (s.setHeap h₁) = .ok () t →
      t.heap = h₁)
    (h : nextFitAllocation mapFrame size s = .ok va s') :
    (va = 0 ∧ s' = s) ∨ ∃ b h', s.heap.Alloc h' b ∧ b.size = roundup size pageSize ∧
      va = b.startVa ∧ MappedFrom mapFrame b s s' h' := by
  rw [nextFitAllocation, Prog.get_bind_apply] at h
  set size' := roundup size pageSize with hsize
  have hal : size' % 4096 = 0 := roundup_mod size
  cases hf : nextFitSearch size' s.heap.lastVaInKheap [] s.heap.blockInfoFreeList none with
  | none =>
    rw [hf] at h
    cases h
    exact .inl ⟨rfl, rfl⟩
  | some found =>
    obtain ⟨hlist, hfit⟩ := nextFitSearch_some (l := s.heap.blockInfoFreeList) rfl (by simp) hf
    rw [hf] at h
    -- the cursor and the lists are written before the pages are mapped
    replace h : (set _ >>= _ : K Nat) s = _ := h
    rw [Prog.set_bind_apply] at h
    obtain ⟨_, s₁, hmap, h⟩ := bind_eq_ok.1 h
    have hheap := hkeep found.elem.startVa _ s₁ (by
      rw [Heap.Source, hst]
      exact ⟨found, hlist, hfit, rfl⟩) hmap
    obtain ⟨ptr, s₂, halloc, h⟩ := bind_eq_ok.1 h
    obtain ⟨rest, -, rfl⟩ := kAllocateBlock_ok halloc
    cases h
    refine .inr ⟨⟨ptr, found.elem.startVa, size'⟩, _, .fit found (.inr hst) ?_, rfl, rfl,
      _, s₁, hmap, rfl⟩
    refine ⟨hlist, hfit, rfl, hal, ?_, ?_, ?_, .inr ?_⟩
    · change s₁.heap.blockInfoFreeList = _
      rw [hheap]
      rfl
    · change (_ :: s₁.heap.blockInfoTakenList).Perm _
      rw [hheap]
      exact .refl _
    · change s₁.heap.strategy = _
      rw [hheap]
      rfl
    · change s₁.heap.lastVaInKheap = _
      rw [hheap]

/-- A successful `cont_allocation`. -/
theorem contAllocation_ok (hst : s.heap.strategy = .contAlloc)
    (hkeep : ∀ start h₁ t, s.heap.Source start (roundup size pageSize) →
      mapPages mapFrame (roundup size pageSize / pageSize) start (s.setHeap h₁) = .ok () t →
      t.heap = h₁)
    (h : contAllocation mapFrame size s = .ok va s') :
    (va = 0 ∧ s' = s) ∨ ∃ b h', s.heap.Alloc h' b ∧ b.size = roundup size pageSize ∧
      va = b.startVa ∧ MappedFrom mapFrame b s s' h' := by
  rw [contAllocation, Prog.get_bind_apply, Prog.ite_run] at h
  set size' := roundup size pageSize with hsize
  have hal : size' % 4096 = 0 := roundup_mod size
  split at h
  case isFalse =>
    cases h
    exact .inl ⟨rfl, rfl⟩
  case isTrue hle =>
    obtain ⟨_, s₁, hmap, h⟩ := bind_eq_ok.1 h
    -- mapping the pages leaves the lists as they were
    have hheap : s₁.heap = s.heap := by
      refine hkeep s.heap.lastVaInKheap s.heap s₁ ?_ hmap
      rw [Heap.Source, hst]
      exact ⟨rfl, hle⟩
    rw [Prog.get_bind_apply, Prog.modify_bind_apply] at h
    obtain ⟨ptr, s₂, halloc, h⟩ := bind_eq_ok.1 h
    obtain ⟨rest, hfree, rfl⟩ := kAllocateBlock_ok halloc
    cases h
    simp only [Kern.setHeap, Heap.advance] at hfree
    rw [hheap] at hfree
    refine .inr ⟨⟨ptr, s.heap.lastVaInKheap, size'⟩, _, .cont rest hst rfl hle hal hfree rfl, rfl,
      ?_, s.heap, s₁, hmap, ?_⟩
    · rw [hheap]
    · simp only [Kern.setHeap, Heap.advance, Heap.insertTaken]
      rw [hheap]

/-- **A successful `kmalloc`.** It found no room and changed nothing, or it entered a block of the
requested size and mapped its pages. -/
theorem kmallocWith_ok
    (hkeep : ∀ start h₁ t, s.heap.Source start (roundup size pageSize) →
      mapPages mapFrame (roundup size pageSize / pageSize) start (s.setHeap h₁) = .ok () t →
      t.heap = h₁)
    (h : kmallocWith mapFrame size s = .ok va s') :
    (va = 0 ∧ s' = s) ∨ ∃ b h', s.heap.Alloc h' b ∧ b.size = roundup size pageSize ∧
      va = b.startVa ∧ MappedFrom mapFrame b s s' h' := by
  rw [kmallocWith, Prog.get_bind_apply] at h
  cases hst : s.heap.strategy <;> rw [hst] at h
  case contAlloc => exact contAllocation_ok hst hkeep h
  case firstFit => exact firstFitAllocation_ok hst hkeep h
  case nextFit => exact nextFitAllocation_ok hst hkeep h
  case bestFit | worstFit =>
    cases h
    exact .inl ⟨rfl, rfl⟩

end

/-! ## kfree -/

/-- A `kfree` that returns either finds no block or gives the first block that starts there back. -/
theorem kfree_ok {s s' : Kern} {va : Nat} (h : kfree va s = .ok () s') :
    ((∀ b ∈ s.heap.blockInfoTakenList, b.startVa ≠ va) ∧ s' = s) ∨
    ∃ (bi : Place BlockInfo) (s₁ : Kern) (h' : Heap),
      firstWhere (fun bi => decide (bi.startVa = va)) s.heap.blockInfoTakenList = some bi ∧
      s.heap.blockInfoTakenList = bi.list ∧ bi.elem.startVa = va ∧
      unmapPages (bi.elem.size / pageSize) bi.elem.startVa s = .ok () s₁ ∧
      { s₁.heap with blockInfoTakenList := bi.removed }.coalescing bi.elem = some h' ∧
      s' = s₁.setHeap h' := by
  rw [kfree, Prog.get_bind_apply] at h
  cases hf : firstWhere (fun bi => decide (bi.startVa = va)) s.heap.blockInfoTakenList with
  | none =>
    rw [hf] at h
    cases h
    exact .inl ⟨by simpa using firstWhere_none.1 hf, rfl⟩
  | some bi =>
    rw [hf] at h
    obtain ⟨hlist, hstart, -⟩ := firstWhere_some hf
    have hstart' : bi.elem.startVa = va := by simpa using hstart
    obtain ⟨_, s₁, hun, h⟩ := bind_eq_ok.1 h
    rw [Prog.get_bind_apply] at h
    rw [← hstart'] at hun
    -- with no free block `Coalescing_heap` does not come back
    cases hc : { s₁.heap with blockInfoTakenList := bi.removed }.coalescing bi.elem with
    | none => rw [hc] at h; cases h
    | some h' =>
      rw [hc] at h
      cases h
      exact .inr ⟨bi, s₁, h', rfl, hlist, hstart', hun, hc, rfl⟩

end Fos
