import Fos.Boot

/-!
# Runs of the kernel heap

Runs of `kmalloc` and `kfree` from boot, with the strategy commands in between. Under first fit and
next fit the two block lists stay a partition of the kernel heap.
-/

namespace Fos

open Relation (ReflTransGen)
open Cover (Tiles range)

/-! ## First fit and next fit -/

/-- `setKHeapPlacementStrategyCONTALLOC()` and its siblings. -/
def setStrategy (st : KHeapPlacementStrategy) (s : Kern) : Kern :=
  s.setHeap { s.heap with strategy := st }

/-- One call: `kmalloc` under first fit or next fit, `kfree` of any address, or a switch between
the two strategies. -/
inductive FitStep : Kern → Kern → Prop
  | kmalloc {s s' : Kern} {size va : Nat} (hfit : s.heap.Fits) (h : kmalloc size s = .ok va s') :
      FitStep s s'
  | kfree {s s' : Kern} {va : Nat} (h : kfree va s = .ok () s') : FitStep s s'
  | setFirstFit (s : Kern) : FitStep s (setStrategy .firstFit s)
  | setNextFit (s : Kern) : FitStep s (setStrategy .nextFit s)

theorem HeapInv.setStrategy {s : Kern} (hi : HeapInv s) (st : KHeapPlacementStrategy) :
    HeapInv (setStrategy st s) :=
  ⟨⟨hi.part.wf, hi.part.tiles⟩, hi.map.congr rfl rfl rfl⟩

theorem FitStep.heapInv {s s' : Kern} (hi : HeapInv s) (h : FitStep s s') : HeapInv s' := by
  cases h with
  | kmalloc hfit h => exact (kmalloc_heapInv hi hfit h).1
  | kfree h => exact (kfree_heapInv hi h).1
  | setFirstFit => exact hi.setStrategy .firstFit
  | setNextFit => exact hi.setStrategy .nextFit

/-- The blocks of both lists that are not empty. -/
def Heap.blocks (h : Heap) : List BlockInfo :=
  (h.blockInfoFreeList ++ h.blockInfoTakenList).filter fun b => b.size ≠ 0

/-- What the block lists and the page tables promise about the kernel heap. -/
structure Partitioned (s : Kern) : Prop where
  /-- The blocks are runs of whole pages. -/
  aligned : ∀ b ∈ s.heap.blocks, b.startVa % pageSize = 0 ∧ b.size % pageSize = 0
  /-- No two blocks share an address. -/
  disjoint : s.heap.blocks.Pairwise fun b c =>
    b.startVa + b.size ≤ c.startVa ∨ c.startVa + c.size ≤ b.startVa
  /-- The blocks cover exactly the kernel heap. -/
  cover : ∀ a, (kernelHeapStart ≤ a ∧ a < kernelHeapMax) ↔
    ∃ b ∈ s.heap.blocks, b.startVa ≤ a ∧ a < b.startVa + b.size
  /-- A page is mapped exactly when it lies in a taken block. -/
  mapped : ∀ a, a % pageSize = 0 → kernelHeapStart ≤ a → a < kernelHeapMax →
    (s.Mapped a ↔ ∃ b ∈ s.heap.blockInfoTakenList, b.startVa ≤ a ∧ a < b.startVa + b.size)
  /-- Two mapped pages have different frames. -/
  frames : ∀ a b, a % pageSize = 0 → kernelHeapStart ≤ a → a < kernelHeapMax →
    b % pageSize = 0 → kernelHeapStart ≤ b → b < kernelHeapMax →
    s.Mapped a → s.Mapped b → s.frameAt a = s.frameAt b → a = b
  /-- `kfree` of an address that starts no taken block changes nothing. -/
  kfree : ∀ va, (∀ b ∈ s.heap.blockInfoTakenList, b.startVa ≠ va) → kfree va s = .ok () s

theorem kfree_of_notStart {s : Kern} {va : Nat}
    (h : ∀ b ∈ s.heap.blockInfoTakenList, b.startVa ≠ va) : kfree va s = .ok () s := by
  have hnone : firstWhere (fun bi => decide (bi.startVa = va)) s.heap.blockInfoTakenList = none :=
    firstWhere_none.2 (by simpa using h)
  rw [kfree, Prog.get_bind_apply, hnone]
  rfl

theorem HeapInv.partitioned {s : Kern} (hi : HeapInv s) : Partitioned s := by
  -- a block of size 0 covers no address, so those are left out
  have hempty : ∀ b ∈ s.heap.blockInfoFreeList ++ s.heap.blockInfoTakenList,
      decide (b.size ≠ 0) = false → b.addrs = ∅ := by
    intro b _ hb
    exact Cover.range_eq_empty_iff.2 (by simpa using hb)
  have htiles : Tiles BlockInfo.addrs s.heap.blocks (addrsBetween kernelHeapStart kernelHeapMax) :=
    hi.part.tiles.filter _ hempty
  have hmem : ∀ b ∈ s.heap.blocks, b.WF ∧ b.size ≠ 0 := by
    intro b hb
    obtain ⟨hb, hne⟩ := List.mem_filter.1 hb
    exact ⟨hi.part.wf b hb, by simpa using hne⟩
  have hpage : ∀ a, a % pageSize = 0 → kernelHeapStart ≤ a → a < kernelHeapMax →
      a = a / 4096 * 4096 ∧ HeapPage (a / 4096) := by
    intro a ha h1 h2
    have hae : a = a / 4096 * 4096 := by unfold pageSize at ha; omega
    exact ⟨hae, heapPage_iff.2 ⟨by omega, by omega⟩⟩
  have hmapped : ∀ a, a % pageSize = 0 → kernelHeapStart ≤ a → a < kernelHeapMax →
      (s.Mapped a ↔ a / 4096 ∈ takenPages s.heap.blockInfoTakenList) := fun a ha h1 h2 =>
    hi.map.present_iff _ (hpage a ha h1 h2).2
  refine ⟨fun b hb => ⟨(hmem b hb).1.start_aligned, (hmem b hb).1.size_aligned⟩, ?_, htiles.2,
    ?_, ?_, fun va hva => kfree_of_notStart hva⟩
  · refine htiles.1.imp_of_mem ?_
    intro b c hb hc hd
    rcases Cover.disjoint_range_iff.1 hd with h | h | h | h
    · exact absurd h (hmem b hb).2
    · exact absurd h (hmem c hc).2
    · exact .inl h
    · exact .inr h
  · intro a ha h1 h2
    rw [hmapped a ha h1 h2, takenPages]
    have hae := (hpage a ha h1 h2).1
    simp only [BlockInfo.pages, BlockInfo.addrs, Set.mem_ofPred_eq, Cover.mem_range, ← hae]
  · intro a b ha h1 h2 hb h3 h4 hma hmb he
    have hpe := hi.map.inj _ ((hmapped a ha h1 h2).1 hma) _ ((hmapped b hb h3 h4).1 hmb) he
    rw [(hpage a ha h1 h2).1, (hpage b hb h3 h4).1, hpe]

/-- **The kernel heap stays partitioned.** In every state that `kmalloc` under first fit and next
fit, `kfree` and switches between the two strategies reach from boot, the block lists tile the
kernel heap and the page tables map exactly the taken blocks, to distinct frames. -/
theorem kernelHeap_partitioned {c : BootConfig} {s₀ s : Kern}
    (hboot : fosInitialize (initializePaging c) = .ok () s₀) (hrun : ReflTransGen FitStep s₀ s) :
    Partitioned s :=
  (Prog.invariant (I := HeapInv) (fosInitialize_heapInv hboot).2
    (fun _ _ hi hst => hst.heapInv hi) hrun).partitioned

theorem kernelHeap_partitioned_small :
    Partitioned (Prog.final (kmalloc 5000 (setStrategy .firstFit smallBoot))) :=
  kernelHeap_partitioned smallBoot_ok <| .tail (.tail .refl (.setFirstFit _)) <|
    .kmalloc (.inl rfl) (Prog.ok_of_value (a := 0xF6004000) (by decide +kernel))

end Fos
