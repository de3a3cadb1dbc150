import Mathlib.Logic.Function.Basic
import Fos.Lib.Prog
import Fos.Mmu

/-!
# The kernel state

The globals of `kern/memory_manager.c`, `kern/file_manager.c` and `kern/shared_memory_manager.c`
that the memory manager reads and writes. A kernel call is a `K`: it returns, or it stops because
it would follow a null or unmapped pointer, or because it calls `panic`.
-/

namespace Fos

/-! ## Records -/

/-- `struct Frame_Info`. A `struct Frame_Info *` is the number of its frame. -/
structure FrameInfo where
  references : Nat
  va : Nat
  deriving DecidableEq, Repr

/-- `initialize_frame_info` clears the record. -/
def initializeFrameInfo : FrameInfo := ⟨0, 0⟩

/-- `struct Block_Info`: the descriptor `blocks_info[id]`. -/
structure BlockInfo where
  id : Nat
  startVa : Nat
  size : Nat
  deriving DecidableEq, Repr

/-- `_KHeapPlacementStrategy`. -/
inductive KHeapPlacementStrategy
  | contAlloc
  | firstFit
  | bestFit
  | nextFit
  | worstFit
  deriving DecidableEq, Repr

/-- `struct WorkingSetElement`. -/
structure WorkingSetElement where
  virtualAddress : Nat
  empty : Bool
  deriving DecidableEq, Repr

/-- `struct Env`, the part that the memory manager uses. The page directories are kernel-heap
addresses; `ptrPageWorkingSet` holds the elements of the array at `pageWorkingSetVa`. -/
structure Env where
  envPageDirectory : Nat
  diskEnvPgdir : Nat
  pageWSMaxSize : Nat
  pageWorkingSetVa : Nat
  ptrPageWorkingSet : List WorkingSetElement
  pageLastWSIndex : Nat
  tableLastWSIndex : Nat

/-- `struct Share`. A C string is the list of its bytes before the terminating null. -/
structure Share where
  ownerID : Nat
  name : List UInt8
  size : Nat
  references : Nat
  isWritable : Nat
  empty : Bool
  framesStorage : Nat

/-! ## The state -/

/-- The physical frames: `number_of_frames`, `frames_info` and `free_frame_list`. -/
structure Frames where
  numberOfFrames : Nat
  info : Nat → FrameInfo
  freeFrameList : List Nat

/-- The globals of `kern/kheap.c`. -/
structure Heap where
  blockInfoFreeList : List BlockInfo
  blockInfoTakenList : List BlockInfo
  freeBlocks : List Nat
  lastVaInKheap : Nat
  strategy : KHeapPlacementStrategy

/-- The page file: `disk_free_frame_list` and the words of every disk frame. -/
structure Disk where
  diskFreeFrameList : List Nat
  words : Nat → Nat → Nat

/-- `shares` and `MAX_SHARES`. The array pointer is lost when the table is full. -/
structure Shares where
  maxShares : Nat
  shares : Nat → Share
  null : Bool

/-- The kernel's memory state. Physical memory is `ram f i`, the `i`-th 32-bit word of frame `f`.
The page tables that `initialize_kernel_VM` builds once for the addresses from `USER_TOP` up are
one table, `kernelTable`, indexed by page number. -/
structure Kern where
  frames : Frames
  ram : Nat → Nat → Nat
  kernelDirectory : Nat → Nat
  kernelTable : Nat → Nat
  heap : Heap
  disk : Disk
  envs : Nat → Env
  shares : Shares

/-- Why a kernel call did not return: an access through a null or unmapped pointer, or a `panic`
with its message. -/
inductive Stop
  | fault
  | panic (msg : String)
  deriving DecidableEq, Repr

/-- A kernel call. -/
abbrev K := EStateM Stop Kern

/-- `E_SHARED_MEM_NOT_EXISTS`, which the library of the user programs knows too. -/
abbrev eSharedMemNotExists : Int := -16

/-! ## Words of kernel memory -/

/-- The kernel maps `va`. -/
def Kern.Mapped (s : Kern) (va : Nat) : Prop := present (s.kernelTable (ppn va))

instance (s : Kern) (va : Nat) : Decidable (s.Mapped va) := by unfold Kern.Mapped; infer_instance

/-- The frame behind a mapped kernel address. -/
def Kern.frameAt (s : Kern) (va : Nat) : Nat := ppn (s.kernelTable (ppn va))

/-- The word at a mapped kernel address. -/
def Kern.word (s : Kern) (va : Nat) : Nat := s.ram (s.frameAt va) (va % 4096 / 4)

/-- Word `i` of frame `f` becomes `w`. -/
def Kern.store (s : Kern) (f i w : Nat) : Kern :=
  { s with ram := Function.update s.ram f (Function.update (s.ram f) i w) }

/-- The words of frame `f` are overwritten. -/
def Kern.fill (s : Kern) (f : Nat) (words : Nat → Nat) : Kern :=
  { s with ram := Function.update s.ram f words }

/-- Reads the 32-bit word at a kernel address through the boot page tables. -/
def readWord (va : Nat) : K Nat := do
  let s ← get
  if s.Mapped va then return s.word va else throw .fault

/-- Writes the 32-bit word at a kernel address through the boot page tables. -/
def writeWord (va w : Nat) : K Unit := do
  let s ← get
  if s.Mapped va then set (s.store (s.frameAt va) (va % 4096 / 4) w) else throw .fault

/-- Clears `n` words from `va` up, the loops `ptr[i] = 0` and `memset(ptr, 0, …)`. -/
def zeroWords : Nat → Nat → K Unit
  | _, 0 => return ()
  | va, n + 1 => do
    writeWord va 0
    zeroWords (va + 4) n

end Fos
