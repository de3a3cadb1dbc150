import Fos.KernelHeap.Partition

/-!
# Boot

The state `FOS_initialize` leaves: `initialize_kernel_VM` builds the static page tables,
`initialize_paging` the frame list and the block lists, and the tables of shared objects and of
semaphores are the first two kernel-heap allocations.
-/

namespace Fos

open Prog (bind_eq_ok ok_inj)
open Cover (mult Tiles range mem_range)

/-! ## The machine -/

/-- What boot depends on: the size of physical memory, where the loader and `boot_allocate_space`
put things, and what memory and disk hold. -/
structure BootConfig where
  numberOfFrames : Nat
  /-- The first frame after the kernel image and the boot allocations. -/
  imageEnd : Nat
  directoryFrame : Nat
  tableFrame : Nat → Nat
  stackFrame : Nat
  envsFrame : Nat
  envsPages : Nat
  ram : Nat → Nat → Nat
  diskWords : Nat → Nat → Nat
  extended_le : 256 ≤ imageEnd
  image_le : imageEnd ≤ 24576
  image_fits : imageEnd ≤ numberOfFrames
  frames_le : numberOfFrames ≤ 1048576
  envs_fit : envsPages ≤ 1024

/-- `boot_map_range`: `n` pages from `page` on map the frames from `frame` on. -/
def bootMapRange (page n frame perm : Nat) (table : Nat → Nat) : Nat → Nat := fun p =>
  if page ≤ p ∧ p < page + n then entryOf (frame + (p - page)) perm else table p

/-- The kernel part of the page tables after `initialize_kernel_VM`: the kernel stack, the array of
environments at `UENVS`, and the image at `KERNEL_BASE`. -/
def initializeKernelTable (c : BootConfig) : Nat → Nat :=
  bootMapRange 0xF0000 c.imageEnd 0 permWriteable <|
  bootMapRange 0xEEC00 c.envsPages c.envsFrame permUser <|
  bootMapRange 0xEFBF8 8 c.stackFrame permWriteable fun _ => 0

/-- The boot directory. `VPT` and `UVPT` list the directory itself. -/
def initializeKernelDirectory (c : BootConfig) : Nat → Nat := fun i =>
  if i = pdx 0xEF400000 then entryOf c.directoryFrame permUser
  else if i = pdx 0xEFC00000 then entryOf c.directoryFrame permWriteable
  else if i = pdx userTop then entryOf (c.tableFrame i) (permUser ||| permWriteable)
  else if i = pdx userLimit ∨ pdx kernelBase ≤ i ∧ i < 1024 then
    entryOf (c.tableFrame i) permWriteable
  else 0

/-- `Max_number_of_blocks` -/
def maxNumberOfBlocks : Nat := 1000000

/-- `PAGES_PER_FILE` -/
def pagesPerFile : Nat := 133120

/-- The frames after `initialize_paging`: the first three, the I/O hole and the image are in use,
the rest are free. -/
def initialFrames (c : BootConfig) : Frames where
  numberOfFrames := c.numberOfFrames
  info f := if f < 3 ∨ 160 ≤ f ∧ f < c.imageEnd then ⟨1, 0⟩ else initializeFrameInfo
  freeFrameList := insertHeads c.imageEnd (c.numberOfFrames - c.imageEnd) (insertHeads 3 157 [])

/-- The block lists after `initialize_paging`: one free block, after the room of the two tables. -/
def initialHeap : Heap where
  blockInfoFreeList :=
    [⟨maxNumberOfBlocks - 1, kernelHeapStart + 0x4000, kernelHeapMax - (kernelHeapStart + 0x4000)⟩]
  blockInfoTakenList := []
  freeBlocks := insertHeads 0 (maxNumberOfBlocks - 1) []
  lastVaInKheap := kernelHeapStart
  strategy := .contAlloc

def emptyEnv : Env := ⟨0, 0, 0, 0, [], 0, 0⟩

def emptyShare : Share := ⟨0, [], 0, 0, 0, false, 0⟩

/-- Physical memory after the loop of `initialize_paging` over `ptr_zero_page` and `ptr_temp_page`.
The pointers are to bytes, so the 1024 rounds clear a quarter of frames 1 and 2. -/
def clearedPages (ram : Nat → Nat → Nat) : Nat → Nat → Nat := fun f i =>
  if (f = 1 ∨ f = 2) ∧ i < 256 then 0 else ram f i

/-- The state after `initialize_paging`. -/
def initializePaging (c : BootConfig) : Kern where
  frames := initialFrames c
  ram := clearedPages c.ram
  kernelDirectory := initializeKernelDirectory c
  kernelTable := initializeKernelTable c
  heap := initialHeap
  disk := ⟨insertHeads 1 (pagesPerFile - 1) [], c.diskWords⟩
  envs := fun _ => emptyEnv
  shares := ⟨0, fun _ => emptyShare, true⟩

/-! ## The two tables -/

/-- `sizeof(struct Share)` and `sizeof(struct Semaphore)`. -/
abbrev sizeofShare : Nat := 84
abbrev sizeofSemaphore : Nat := 92

/-- `n` cleared records, each marked empty. -/
def clearedShares (n : Nat) : Shares := ⟨n, fun _ => { emptyShare with empty := true }, false⟩

def Kern.setShares (s : Kern) (sh : Shares) : Kern := { s with shares := sh }

/-- `create_shares_array` -/
def createSharesArray (n : Nat) : K Unit := do
  let shares ← kmalloc (n * sizeofShare)
  if shares = 0 then
    throw (.panic "Kernel runs out of memory\nCan't create the array of shared objects.")
  else modify fun s => s.setShares (clearedShares n)

/-- `create_semaphores_array` -/
def createSemaphoresArray (n : Nat) : K Unit := do
  let semaphores ← kmalloc (n * sizeofSemaphore)
  if semaphores = 0 then
    throw (.panic "Kernel runs out of memory\nCan't create the array of semaphores.")

/-- The part of `FOS_initialize` after `initialize_paging`: `MAX_SHARES` and `MAX_SEMAPHORES` are
what fits in the two initial sizes. -/
def fosInitialize : K Unit := do
  createSharesArray (0x2000 / sizeofShare)
  createSemaphoresArray (0x2000 / sizeofSemaphore)

/-! ## The boot invariant -/

/-- A frame is free at boot exactly when it is base memory past the first three frames, or lies
after the image. -/
theorem mem_initialFrames {c : BootConfig} {f : Nat} :
    f ∈ (initialFrames c).freeFrameList ↔
      (3 ≤ f ∧ f < 160) ∨ (c.imageEnd ≤ f ∧ f < c.numberOfFrames) := by
  have h1 := c.image_fits
  simp only [initialFrames, mem_insertHeads, List.not_mem_nil, or_false]
  omega

theorem nodup_initialFrames (c : BootConfig) : (initialFrames c).freeFrameList.Nodup := by
  have h1 := c.extended_le
  refine nodup_insertHeads (nodup_insertHeads List.nodup_nil (by simp)) ?_
  intro x hx h
  simp only [mem_insertHeads, List.not_mem_nil, or_false] at hx
  omega

/-- No kernel-heap page is mapped before the first allocation. -/
theorem initializeKernelTable_heapPage {c : BootConfig} {p : Nat} (hp : HeapPage p) :
    initializeKernelTable c p = 0 := by
  have h1 := c.image_le
  have h2 := c.envs_fit
  unfold HeapPage at hp
  unfold initializeKernelTable bootMapRange
  rw [if_neg (by omega), if_neg (by omega), if_neg (by omega)]

/-- Nothing below `USER_TOP` is in the kernel tables. -/
theorem initializeKernelTable_user {c : BootConfig} {p : Nat} (hp : p < 977920) :
    initializeKernelTable c p = 0 := by
  unfold initializeKernelTable bootMapRange
  rw [if_neg (by omega), if_neg (by omega), if_neg (by omega)]

theorem initializeKernelDirectory_present {c : BootConfig} {i : Nat}
    (hi : i = 955 ∨ 957 ≤ i ∧ i < 1024) : present (initializeKernelDirectory c i) := by
  have h : ∀ f perm, perm < 4096 → present (entryOf f perm) := fun f perm hp => present_entryOf hp
  unfold initializeKernelDirectory
  rw [show pdx 0xEF400000 = 957 by rfl, show pdx 0xEFC00000 = 959 by rfl,
    show pdx userTop = 955 by rfl, show pdx userLimit = 958 by rfl,
    show pdx kernelBase = 960 by rfl]
  split
  · exact h _ _ (by decide)
  · split
    · exact h _ _ (by decide)
    · split
      · exact h _ _ (by decide)
      · rw [if_pos (by omega)]
        exact h _ _ (by decide)

theorem initializePaging_heapMap (c : BootConfig) : HeapMap ∅ (initializePaging c) := by
  refine ⟨fun i h1 h2 => initializeKernelDirectory_present (by omega), ?_, ?_, ?_,
    nodup_initialFrames c, ?_⟩
  · intro p hp
    change present (initializeKernelTable c p) ↔ _
    rw [initializeKernelTable_heapPage hp]
    simp [not_present_zero]
  · intro p hp _
    exact initializeKernelTable_heapPage hp
  · rintro p ⟨⟩
  · rintro p ⟨⟩

theorem initializePaging_heapMap_taken (c : BootConfig) :
    HeapMap (takenPages initialHeap.blockInfoTakenList) (initializePaging c) := by
  have h : takenPages initialHeap.blockInfoTakenList = ∅ := by
    ext p
    simp [takenPages, initialHeap]
  rw [h]
  exact initializePaging_heapMap c

/-- The block lists between the two allocations of boot. -/
def midHeap : Heap where
  blockInfoFreeList := initialHeap.blockInfoFreeList
  blockInfoTakenList := [⟨maxNumberOfBlocks - 2, kernelHeapStart, 0x2000⟩]
  freeBlocks := insertHeads 0 (maxNumberOfBlocks - 2) []
  lastVaInKheap := kernelHeapStart + 0x2000
  strategy := .contAlloc

/-- The block lists after boot. -/
def bootHeap : Heap where
  blockInfoFreeList :=
    [⟨maxNumberOfBlocks - 1, kernelHeapStart + 0x4000, kernelHeapMax - (kernelHeapStart + 0x4000)⟩]
  blockInfoTakenList :=
    [⟨maxNumberOfBlocks - 3, kernelHeapStart + 0x2000, 0x2000⟩,
      ⟨maxNumberOfBlocks - 2, kernelHeapStart, 0x2000⟩]
  freeBlocks := insertHeads 0 (maxNumberOfBlocks - 3) []
  lastVaInKheap := kernelHeapStart + 0x4000
  strategy := .contAlloc

theorem bootHeap_partition : bootHeap.Partition := by
  refine ⟨?_, ?_⟩
  · intro b hb
    simp only [bootHeap, List.cons_append, List.nil_append, List.mem_cons, List.not_mem_nil,
      or_false] at hb
    rcases hb with rfl | rfl | rfl <;> exact ⟨by decide, by decide, by decide, by decide⟩
  · refine ⟨?_, fun a => ?_⟩
    · simp only [bootHeap, List.cons_append, List.nil_append, List.pairwise_cons, BlockInfo.addrs,
        Cover.disjoint_range_iff]
      simp
    · simp only [bootHeap, addrsBetween, BlockInfo.addrs, mem_range, List.cons_append,
        List.nil_append, List.mem_cons, List.not_mem_nil, or_false, exists_eq_or_imp,
        exists_eq_left, Set.mem_ofPred_eq]
      unfold kernelHeapStart kernelHeapMax
      omega

/-- One allocation of `n` pages at the cursor during boot. -/
theorem kmalloc_boot {s s' : Kern} {size va : Nat} {h : Heap} (hh : s.heap = h)
    (hst : h.strategy = .contAlloc) (hm : HeapMap (takenPages h.blockInfoTakenList) s)
    (hb : (⟨0, h.lastVaInKheap, roundup size pageSize⟩ : BlockInfo).WF)
    (hlast : ∀ b ∈ h.blockInfoTakenList, b.startVa + b.size ≤ h.lastVaInKheap) (hva : va ≠ 0)
    (hk : kmalloc size s = .ok va s') :
    ∃ (b : BlockInfo) (rest : List Nat), b.startVa = h.lastVaInKheap ∧
      b.size = roundup size pageSize ∧ h.freeBlocks = b.id :: rest ∧
      s'.heap = { (h.advance b.size).insertTaken b with freeBlocks := rest } ∧
      HeapMap (takenPages s'.heap.blockInfoTakenList) s' ∧
      s'.frames.freeFrameList.length + b.size / 4096 = s.frames.freeFrameList.length := by
  subst hh
  -- the block starts at the cursor, beyond every block that is taken
  have hdisj : ∀ p ∈ (⟨0, s.heap.lastVaInKheap, roundup size pageSize⟩ : BlockInfo).pages,
      p ∉ takenPages s.heap.blockInfoTakenList := by
    rintro p hp ⟨b, hbm, hpb⟩
    have h1 := hlast b hbm
    have h2 : b.startVa ≤ p * 4096 ∧ p * 4096 < b.startVa + b.size := hpb
    have h3 : s.heap.lastVaInKheap ≤ p * 4096 := hp.1
    omega
  have hcall := kmallocWith_ok (fun start h₁ t hsrc hmap => ?_) hk
  · rcases hcall with ⟨rfl, -⟩ | ⟨b, h', ha, hsize, -, h₁, s₁, hmap, rfl⟩
    · exact absurd rfl hva
    · cases ha with
      -- the strategy at boot is the continuous one
      | fit found hfit => rcases hfit with hf | hf <;> rw [hst] at hf <;> cases hf
      | cont rest _ hstart _ _ hfree heq =>
        subst heq
        have hbe : b.pages =
            (⟨0, s.heap.lastVaInKheap, roundup size pageSize⟩ : BlockInfo).pages := by
          unfold BlockInfo.pages BlockInfo.addrs
          rw [hstart, hsize]
        rw [hstart, hsize] at hmap
        obtain ⟨hm₁, -⟩ := (hm.setHeap h₁).mapPages hb hdisj hmap
        have hlen := (hm.setHeap h₁).mapPages_length hb hdisj hmap
        refine ⟨b, rest, hstart, hsize, hfree, rfl, ?_, hsize ▸ hlen⟩
        change HeapMap (takenPages (b :: s.heap.blockInfoTakenList)) _
        rw [takenPages_perm (.refl _), hbe]
        exact hm₁.setHeap _
  · rw [Heap.Source, hst] at hsrc
    rw [hsrc.1] at hmap
    exact ((hm.setHeap h₁).mapPages hb hdisj hmap).2

/-- Boot leaves the heap invariant behind, and takes four frames. -/
theorem fosInitialize_counted {c : BootConfig} {s : Kern}
    (h : fosInitialize (initializePaging c) = .ok () s) : s.heap = bootHeap ∧ HeapInv s ∧
      s.frames.freeFrameList.length + 4 = (initialFrames c).freeFrameList.length := by
  obtain ⟨_, s₁, hshares, hsems⟩ := bind_eq_ok.1 h
  obtain ⟨va₁, t₁, hk₁, h1⟩ := bind_eq_ok.1 hshares
  obtain ⟨va₂, t₂, hk₂, h2⟩ := bind_eq_ok.1 hsems
  rw [Prog.ite_run] at h1 h2
  split at h1
  case isTrue => cases h1
  case isFalse hva₁ =>
    split at h2
    case isTrue => cases h2
    case isFalse hva₂ =>
      obtain ⟨-, rfl⟩ := ok_inj.1 h1
      obtain ⟨-, rfl⟩ := ok_inj.1 h2
      -- the arrays of shares and of semaphores take two pages each
      have hr₁ : roundup (0x2000 / sizeofShare * sizeofShare) pageSize = 0x2000 := by
        decide +kernel
      have hr₂ : roundup (0x2000 / sizeofSemaphore * sizeofSemaphore) pageSize = 0x2000 := by
        decide +kernel
      obtain ⟨⟨id₁, st₁, sz₁⟩, rest₁, hst₁, hsz₁, hfree₁, hheap₁, hmap₁, hlen₁⟩ :=
        kmalloc_boot (h := initialHeap) rfl rfl (initializePaging_heapMap_taken c)
          (by rw [hr₁]; exact ⟨by decide, by decide, by decide, by decide⟩)
          (by simp [initialHeap]) hva₁ hk₁
      rw [hr₁] at hsz₁
      cases hst₁
      cases hsz₁
      cases hfree₁
      have hmid : (t₁.setShares (clearedShares (0x2000 / sizeofShare))).heap = midHeap := by
        change t₁.heap = _
        rw [hheap₁, Heap.advance, show u32 (initialHeap.lastVaInKheap + 0x2000) =
          kernelHeapStart + 0x2000 by decide +kernel]
        rfl
      have hmap₁' : HeapMap (takenPages midHeap.blockInfoTakenList)
          (t₁.setShares (clearedShares (0x2000 / sizeofShare))) := by
        rw [← hmid]
        exact hmap₁.congr rfl rfl rfl
      obtain ⟨⟨id₂, st₂, sz₂⟩, rest₂, hst₂, hsz₂, hfree₂, hheap₂, hmap₂, hlen₂⟩ :=
        kmalloc_boot hmid rfl hmap₁'
          (by rw [hr₂]; exact ⟨by decide, by decide, by decide, by decide⟩)
          (by simp [midHeap]) hva₂ hk₂
      rw [hr₂] at hsz₂
      cases hst₂
      cases hsz₂
      cases hfree₂
      have hend : t₂.heap = bootHeap := by
        rw [hheap₂, Heap.advance, show u32 (midHeap.lastVaInKheap + 0x2000) =
          kernelHeapStart + 0x4000 by decide +kernel]
        rfl
      refine ⟨hend, ⟨?_, hmap₂⟩, ?_⟩
      · rw [hend]
        exact bootHeap_partition
      · replace hlen₁ : t₁.frames.freeFrameList.length + 2 =
          (initialFrames c).freeFrameList.length := hlen₁
        replace hlen₂ : t₂.frames.freeFrameList.length + 2 =
          t₁.frames.freeFrameList.length := hlen₂
        omega

/-- Boot leaves the heap invariant behind. -/
theorem fosInitialize_heapInv {c : BootConfig} {s : Kern}
    (h : fosInitialize (initializePaging c) = .ok () s) : s.heap = bootHeap ∧ HeapInv s :=
  ⟨(fosInitialize_counted h).1, (fosInitialize_counted h).2.1⟩

/-! ## A small machine -/

/-- A machine with 4 MiB of memory whose kernel image ends at 1 MiB. -/
def smallMachine : BootConfig where
  numberOfFrames := 1024
  imageEnd := 256
  directoryFrame := 200
  tableFrame := fun _ => 201
  stackFrame := 202
  envsFrame := 203
  envsPages := 1
  ram := fun _ _ => 0
  diskWords := fun _ _ => 0
  extended_le := by decide
  image_le := by decide
  image_fits := by decide
  frames_le := by decide
  envs_fit := by decide

/-- Its state after boot. -/
def smallBoot : Kern := Prog.final (fosInitialize (initializePaging smallMachine))

theorem smallBoot_ok : fosInitialize (initializePaging smallMachine) = .ok () smallBoot :=
  Prog.ok_of_value (by decide +kernel)

end Fos
