import Fos.BlockList
import Fos.Frames

/-!
# The kernel heap

`kern/kheap.c`: `kmalloc` with its three placement strategies, `kfree` and the coalescing of free
blocks. `Block_info_free_list` and `Block_info_taken_list` are lists of descriptors; the
descriptors in neither list are in `free_blocks`.
-/

namespace Fos

/-! ## Block lists -/

def Kern.setHeap (s : Kern) (h : Heap) : Kern := { s with heap := h }

/-- The free block `found` gives up its first `size` bytes; once empty it moves to `free_blocks`. -/
def Heap.carve (h : Heap) (found : Place BlockInfo) (size : Nat) : Heap :=
  { h with
    blockInfoFreeList := found.carved size
    freeBlocks :=
      if (found.elem.carved size).size = 0 then found.elem.id :: h.freeBlocks else h.freeBlocks }

/-- `LIST_INSERT_HEAD(&Block_info_taken_list, ptr)` -/
def Heap.insertTaken (h : Heap) (b : BlockInfo) : Heap :=
  { h with blockInfoTakenList := b :: h.blockInfoTakenList }

/-- `Coalescing_heap`: `take` joins its free neighbours. Under next fit the cursor goes back to a
block that joins none. The result is `none` when `insert_sorted` follows a null pointer. -/
def Heap.coalescing (h : Heap) (take : BlockInfo) : Option Heap :=
  let lo := h.blockInfoFreeList.takeWhile fun curr => curr.startVa ≤ take.startVa
  let hi := h.blockInfoFreeList.dropWhile fun curr => curr.startVa ≤ take.startVa
  match joinBetween lo hi take with
  | some (free, ids) => some { h with blockInfoFreeList := free, freeBlocks := ids ++ h.freeBlocks }
  | none =>
    (insertSorted h.blockInfoFreeList take).map fun free =>
      { h with
        blockInfoFreeList := free
        lastVaInKheap :=
          if h.strategy = .nextFit ∧ take.startVa < h.lastVaInKheap then take.startVa
          else h.lastVaInKheap }

/-! ## Allocation -/

/-- `k_allocate_block` -/
def kAllocateBlock : K Nat := do
  let s ← get
  match s.heap.freeBlocks with
  | [] => throw (.panic "Error no free blocks !!!!")
  | id :: rest =>
    set (s.setHeap { s.heap with freeBlocks := rest })
    return id

section

variable (mapFrame : Nat → Nat → Nat → K Unit)

/-- The loop that gives `n` pages from `tmp` up a fresh frame each. -/
def mapPages : Nat → Nat → K Unit
  | 0, _ => return ()
  | n + 1, tmp => do
    let fi ← allocateFrame
    mapFrame fi tmp permWriteable
    mapPages n (u32 (tmp + pageSize))

theorem mapPages_succ (n tmp : Nat) :
    mapPages mapFrame (n + 1) tmp = (do
      let fi ← allocateFrame
      mapFrame fi tmp permWriteable
      mapPages mapFrame n (u32 (tmp + pageSize))) := rfl

/-- `last_va_in_kheap += size` -/
def Heap.advance (h : Heap) (size : Nat) : Heap :=
  { h with lastVaInKheap := u32 (h.lastVaInKheap + size) }

/-- `cont_allocation` -/
def contAllocation (size : Nat) : K Nat := do
  let size := roundup size pageSize
  let s ← get
  if size ≤ u32Sub kernelHeapMax s.heap.lastVaInKheap then do
    mapPages mapFrame (size / pageSize) s.heap.lastVaInKheap
    let tmp := (← get).heap.lastVaInKheap
    modify fun s => s.setHeap (s.heap.advance size)
    let ptr ← kAllocateBlock
    modify fun s => s.setHeap (s.heap.insertTaken ⟨ptr, tmp, size⟩)
    return tmp
  else return 0

/-- `first_fit_allocation` -/
def firstFitAllocation (size : Nat) : K Nat := do
  let size := roundup size pageSize
  match firstWhere (fun bi => bi.size ≥ size) (← get).heap.blockInfoFreeList with
  | none => return 0
  | some found => do
    let tmp := found.elem.startVa
    mapPages mapFrame (size / pageSize) tmp
    modify fun s => s.setHeap ((s.heap.carve found size).advance size)
    let ptr ← kAllocateBlock
    let s ← get
    match insertSorted s.heap.blockInfoTakenList ⟨ptr, tmp, size⟩ with
    | none => throw .fault
    | some taken => do
      set (s.setHeap { s.heap with blockInfoTakenList := taken })
      return tmp

/-- The update of `before` in `next_fit_allocation`: the block with the lower start. -/
def nextFitBefore (before : Option (Place BlockInfo)) (bi : Place BlockInfo) : Place BlockInfo :=
  match before with
  | none => bi
  | some b => if b.elem.startVa ≥ bi.elem.startVa then bi else b

/-- The search loop of `next_fit_allocation`: the first large enough block that starts at or after
the cursor ends the loop as `after`, and among the large enough blocks seen before it `before` is
one with the lowest start. -/
def nextFitSearch (size lastVa : Nat) :
    List BlockInfo → List BlockInfo → Option (Place BlockInfo) → Option (Place BlockInfo)
  | _, [], before => before
  | seen, bi :: rest, before =>
    if bi.size ≥ size then
      if bi.startVa ≥ lastVa then some ⟨seen, bi, rest⟩
      else
        nextFitSearch size lastVa (seen ++ [bi]) rest (some (nextFitBefore before ⟨seen, bi, rest⟩))
    else nextFitSearch size lastVa (seen ++ [bi]) rest before

/-- `next_fit_allocation`: the block is carved and the cursor moved before the pages are mapped. -/
def nextFitAllocation (size : Nat) : K Nat := do
  let size := roundup size pageSize
  let s ← get
  match nextFitSearch size s.heap.lastVaInKheap [] s.heap.blockInfoFreeList none with
  | none => return 0
  | some found => do
    let tmp := found.elem.startVa
    set (s.setHeap { s.heap.carve found size with lastVaInKheap := tmp })
    mapPages mapFrame (size / pageSize) tmp
    let ptr ← kAllocateBlock
    modify fun s => s.setHeap (s.heap.insertTaken ⟨ptr, tmp, size⟩)
    return tmp

/-- `kmalloc`: the dispatch on the placement strategy. -/
def kmallocWith (size : Nat) : K Nat := do
  match (← get).heap.strategy with
  | .contAlloc => contAllocation mapFrame size
  | .firstFit => firstFitAllocation mapFrame size
  | .nextFit => nextFitAllocation mapFrame size
  | .bestFit | .worstFit => return 0

end

/-! ## Page tables from the heap -/

/-- `create_page_table`: the new table is entered into the directory before it is cleared. -/
def createPageTableWith (kmalloc : Nat → K Nat) (dir : DirPtr) (va : Nat) : K TablePtr := do
  let add ← kmalloc pageSize
  if add = 0 then throw (.panic "No enough memory")
  else do
    let pa ← kheapPhysicalAddress add
    writePde dir (pdx va) (constructEntry pa (permUser ||| permWriteable ||| permPresent))
    zeroWords add 1024
    return .heap add

/-- A `kmalloc` called by `create_page_table` for `kmalloc` itself. Were a table missing here too,
the calls would nest without end at the same address until the kernel stack is used up. -/
def kmallocNested : Nat → K Nat := kmallocWith (mapFrameWith (fun _ _ => throw .fault) .boot)

/-- `kmalloc`. It maps its pages in `ptr_page_directory`, where every kernel-heap address has a
table from boot on. -/
def kmalloc : Nat → K Nat := kmallocWith (mapFrameWith (createPageTableWith kmallocNested) .boot)

/-- `create_page_table` -/
def createPageTable : DirPtr → Nat → K TablePtr := createPageTableWith kmalloc

/-- `map_frame` -/
def mapFrame : DirPtr → Nat → Nat → Nat → K Unit := mapFrameWith createPageTable

/-! ## Release -/

/-- The loop of `kfree` that unmaps `n` pages from `tmp` up. -/
def unmapPages : Nat → Nat → K Unit
  | 0, _ => return ()
  | n + 1, tmp => do
    unmapFrame .boot tmp
    unmapPages n (u32 (tmp + pageSize))

theorem unmapPages_succ (n tmp : Nat) :
    unmapPages (n + 1) tmp = (do
      unmapFrame .boot tmp
      unmapPages n (u32 (tmp + pageSize))) := rfl

/-- `kfree`: an address that starts no taken block is ignored. -/
def kfree (virtualAddress : Nat) : K Unit := do
  match firstWhere (fun bi => bi.startVa = virtualAddress) (← get).heap.blockInfoTakenList with
  | none => return ()
  | some bi => do
    unmapPages (bi.elem.size / pageSize) virtualAddress
    let s ← get
    match { s.heap with blockInfoTakenList := bi.removed }.coalescing bi.elem with
    | none => throw .fault
    | some h => set (s.setHeap h)

end Fos
