import Fos.KernelHeap.Order

/-!
# First fit on the kernel heap

Under `FIRSTFIT` the free list stays in address order with no empty block and no two blocks that
meet, so it lists the maximal gaps of the heap and `kmalloc` takes the lowest one that is large
enough.
-/

namespace Fos

open Relation (ReflTransGen)
open Prog (bind_eq_ok ok_inj)
open Gaps (Ordered MaxRun)

/-! ## One call -/

section

variable {s s' : Kern} {size va : Nat}

/-- What `first_fit_allocation` returns is decided by the search alone. -/
theorem firstFitAllocation_found {mapFrame : Nat → Nat → Nat → K Unit}
    (h : firstFitAllocation mapFrame size s = .ok va s') :
    (firstWhere (fun bi => decide (bi.size ≥ roundup size pageSize)) s.heap.blockInfoFreeList =
        none ∧ va = 0 ∧ s' = s) ∨
      ∃ found, firstWhere (fun bi => decide (bi.size ≥ roundup size pageSize))
        s.heap.blockInfoFreeList = some found ∧ va = found.elem.startVa := by
  rw [firstFitAllocation, Prog.get_bind_apply] at h
  cases hf : firstWhere (fun bi => decide (bi.size ≥ roundup size pageSize))
      s.heap.blockInfoFreeList with
  | none =>
    rw [hf] at h
    obtain ⟨rfl, rfl⟩ := ok_inj.1 h
    exact .inl ⟨rfl, rfl, rfl⟩
  | some found =>
    rw [hf] at h
    obtain ⟨_, s₁, -, h⟩ := bind_eq_ok.1 h
    rw [Prog.modify_bind_apply] at h
    obtain ⟨ptr, s₂, -, h⟩ := bind_eq_ok.1 h
    rw [Prog.get_bind_apply] at h
    -- the state after the mapping no longer matters: only the address is returned
    cases hins : insertSorted s₂.heap.blockInfoTakenList
        ⟨ptr, found.elem.startVa, roundup size pageSize⟩ with
    | none => rw [hins] at h; cases h
    | some taken =>
      rw [hins] at h
      obtain ⟨rfl, -⟩ := ok_inj.1 h
      exact .inr ⟨found, rfl, rfl⟩

/-! ## Runs -/

/-- The kernel heap invariant under first fit: the free list is in order and no block is empty. -/
structure FirstFitInv (s : Kern) : Prop where
  heap : HeapInv s
  order : FreeOrder s.heap.blockInfoFreeList
  taken : ∀ b ∈ s.heap.blockInfoTakenList, 0 < b.size
  strategy : s.heap.strategy = .firstFit

theorem FirstFitInv.toOrder (hi : FirstFitInv s) : OrderInv s := ⟨hi.heap, hi.order, hi.taken⟩

theorem OrderInv.firstFit (hi : OrderInv s) (hst : s.heap.strategy = .firstFit) : FirstFitInv s :=
  ⟨hi.heap, hi.order, hi.taken, hst⟩

theorem FirstFitInv.kmalloc (hi : FirstFitInv s) (h1 : 1 ≤ size) (h2 : size ≤ 4294963200)
    (h : Fos.kmalloc size s = .ok va s') : FirstFitInv s' := by
  obtain ⟨hi', hst, -⟩ := hi.toOrder.kmalloc (.inl hi.strategy) h1 h2 h
  exact hi'.firstFit (hst.trans hi.strategy)

theorem FirstFitInv.kfree (hi : FirstFitInv s) (h : Fos.kfree va s = .ok () s') :
    FirstFitInv s' := by
  obtain ⟨hi', hst, -⟩ := hi.toOrder.kfree h
  exact hi'.firstFit (hst.trans hi.strategy)

/-- One call under first fit. -/
inductive FirstFitStep : Kern → Kern → Prop
  | kmalloc {s s' : Kern} {size va : Nat} (h1 : 1 ≤ size) (h2 : size ≤ 2 ^ 32 - 4096)
      (h : kmalloc size s = .ok va s') : FirstFitStep s s'
  | kfree {s s' : Kern} {va : Nat} (h : kfree va s = .ok () s') : FirstFitStep s s'

theorem FirstFitStep.inv (hi : FirstFitInv s) (h : FirstFitStep s s') : FirstFitInv s' := by
  cases h with
  | kmalloc h1 h2 h => exact hi.kmalloc h1 h2 h
  | kfree h => exact hi.kfree h

theorem firstFitInv_boot {c : BootConfig} (h : fosInitialize (initializePaging c) = .ok () s) :
    FirstFitInv (setStrategy .firstFit s) := (orderInv_boot h .firstFit).firstFit rfl

/-! ## The lowest gap -/

/-- The addresses of the kernel heap that no taken block holds. -/
def Kern.unallocated (s : Kern) : Set Nat :=
  Fos.unallocated kernelHeapStart kernelHeapMax s.heap.blockInfoTakenList

/-- First fit as a caller sees it. -/
structure FirstFitOk (s : Kern) : Prop where
  /-- The free list is strictly increasing, without empty blocks and without blocks that meet. -/
  order : FreeOrder s.heap.blockInfoFreeList
  /-- `kmalloc` returns the start of the lowest maximal gap that is large enough, and `NULL`
  exactly when no run of unallocated pages is. -/
  kmalloc : ∀ size va s', 1 ≤ size → size ≤ 2 ^ 32 - 4096 → Fos.kmalloc size s = .ok va s' →
    LowestFit s.unallocated (roundup size pageSize) va ∧ (va = 0 → s' = s)

theorem FirstFitInv.ok (hi : FirstFitInv s) : FirstFitOk s := by
  refine ⟨hi.order, fun size va s' h1 h2 h => ?_⟩
  have hk : firstFitAllocation (mapFrameWith (createPageTableWith kmallocNested) .boot) size s =
      .ok va s' := by
    rw [← h, Fos.kmalloc, kmallocWith, Prog.get_bind_apply, hi.strategy]
  have hcases := firstFitAllocation_found hk
  have hva := hi.heap.part.lowestFit hi.order (by decide) (roundup_pos h1 h2)
    (hcases.imp (fun h => ⟨h.1, h.2.1⟩) id)
  refine ⟨hva, fun h0 => ?_⟩
  rcases hcases with ⟨-, -, rfl⟩ | ⟨found, hsome, rfl⟩
  · rfl
  · have := (hi.heap.part.found_within (firstWhere_some hsome).1).start_le
    unfold kernelHeapStart at this
    omega

end

/-- **First fit takes the lowest maximal gap.** In every state that `kmalloc` and `kfree` reach from
boot under `FIRSTFIT`, the free list is in order and lists the maximal gaps, and a `kmalloc` takes
the lowest one that is large enough; it returns `NULL` exactly when there is none, and then nothing
has changed. -/
theorem firstFit_lowest {c : BootConfig} {s₀ s : Kern}
    (hboot : fosInitialize (initializePaging c) = .ok () s₀)
    (hrun : ReflTransGen FirstFitStep (setStrategy .firstFit s₀) s) : FirstFitOk s :=
  (Prog.invariant (I := FirstFitInv) (firstFitInv_boot hboot) (fun _ _ hi h => h.inv hi) hrun).ok

theorem firstFit_lowest_small :
    FirstFitOk (Prog.final (kmalloc 5000 (setStrategy .firstFit smallBoot))) :=
  firstFit_lowest smallBoot_ok <| .tail .refl <|
    .kmalloc (by decide) (by decide) (Prog.ok_of_value (a := 0xF6004000) (by decide +kernel))

end Fos
