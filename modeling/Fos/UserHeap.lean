import Fos.BlockList

/-!
# The user heap

`lib/uheap.c`: `malloc`, `smalloc`, `sget`, `free` and `sfree` over the block lists that a process
keeps in its own memory. The kernel is what the system calls answer; the kernel side of
`sys_allocateMem`, `sys_freeMem` and `sys_freeSharedObject` returns nothing that the library reads.
-/

namespace Fos

/-- The globals of `lib/uheap.c`. -/
structure UHeap where
  firstTime : Bool
  blockInfoFreeListUser : List BlockInfo
  blockInfoTakenListUser : List BlockInfo
  freeBlocksUser : List Nat

/-- A call of the library: it returns, or the process dies of a null pointer or a `panic`. -/
abbrev U := EStateM Stop UHeap

/-- The globals of a process that has not allocated yet. -/
def UHeap.initial : UHeap := ⟨true, [], [], []⟩

/-- `Max_number_of_blocks_user` -/
def maxNumberOfBlocksUser : Nat := 100000

/-- `UHP_PLACE_FIRSTFIT` -/
abbrev uhpPlaceFirstFit : Nat := 1

/-- The cast of an `int` to `uint32`. -/
def toU32 (i : Int) : Nat := (i % 4294967296).toNat

/-- What the kernel answers to the system calls of one library call. -/
structure Sys where
  getHeapStrategy : Nat
  createSharedObject : List UInt8 → Nat → Nat → Nat → Int
  getSizeOfSharedObject : Int → List UInt8 → Int
  getSharedObject : Int → List UInt8 → Nat → Int

/-- `sys_isUHeapPlacementStrategyFIRSTFIT` -/
def Sys.isFirstFit (sys : Sys) : Prop := sys.getHeapStrategy = uhpPlaceFirstFit

instance (sys : Sys) : Decidable sys.isFirstFit := by unfold Sys.isFirstFit; infer_instance

/-! ## Allocation -/

/-- `allocate_block` -/
def allocateBlock : U Nat := do
  let h ← get
  match h.freeBlocksUser with
  | [] => throw (.panic "Error no free blocks !!!!")
  | id :: rest => do
    set { h with freeBlocksUser := rest }
    return id

/-- The part of `first_fit_user` that runs once: all descriptors are free, and one of them becomes
the free block of the whole heap. -/
def initializeUserHeap : U Unit := do
  if (← get).firstTime then do
    modify fun h => { h with
      blockInfoFreeListUser := []
      blockInfoTakenListUser := []
      freeBlocksUser := insertHeads 0 maxNumberOfBlocksUser [] }
    let ptr ← allocateBlock
    modify fun h => { h with
      firstTime := false
      blockInfoFreeListUser :=
        ⟨ptr, userHeapStart, userHeapMax - userHeapStart⟩ :: h.blockInfoFreeListUser }
  else return ()

/-- The free block `found` gives up its first `size` bytes. -/
def UHeap.carve (h : UHeap) (found : Place BlockInfo) (size : Nat) : UHeap :=
  { h with
    blockInfoFreeListUser := found.carved size
    freeBlocksUser :=
      if (found.elem.carved size).size = 0 then found.elem.id :: h.freeBlocksUser
      else h.freeBlocksUser }

/-- The search loop of `first_fit_user`. -/
def firstFit (l : List BlockInfo) (size : Nat) : Option (Place BlockInfo) :=
  firstWhere (fun bi => bi.size ≥ roundup size pageSize) l

/-- `first_fit_user` -/
def firstFitUser (size : Nat) : U Nat := do
  initializeUserHeap
  let h ← get
  match firstFit h.blockInfoFreeListUser size with
  | none => return 0
  | some found => do
    let size := roundup size pageSize
    let tmp := found.elem.startVa
    set (h.carve found size)
    let ptr ← allocateBlock
    modify fun h =>
      { h with blockInfoTakenListUser := ⟨ptr, tmp, size⟩ :: h.blockInfoTakenListUser }
    return tmp

/-- `malloc`. The kernel call that follows a successful search cannot fail. -/
def malloc (size : Nat) : U Nat := firstFitUser (roundup size pageSize)

/-- `smalloc` -/
def smalloc (sys : Sys) (sharedVarName : List UInt8) (size isWritable : Nat) : U Nat := do
  if sys.isFirstFit then do
    let size := roundup size pageSize
    let result ← firstFitUser size
    if result ≠ 0 ∧ sys.createSharedObject sharedVarName size isWritable result ≥ 0 then
      return result
    else return 0
  else return 0

/-- `sget` -/
def sget (sys : Sys) (ownerEnvID : Int) (sharedVarName : List UInt8) : U Nat := do
  let check := sys.getSizeOfSharedObject ownerEnvID sharedVarName
  if sys.isFirstFit ∧ check ≠ eSharedMemNotExists then do
    let result ← firstFitUser (toU32 check)
    if result ≠ 0 ∧ sys.getSharedObject ownerEnvID sharedVarName result ≥ 0 then return result
    else return 0
  else return 0

/-! ## Release -/

/-- The list and the descriptors that a join of `Coalescing_heap_user` leaves. -/
def UHeap.joined (h : UHeap) (free : List BlockInfo) (ids : List Nat) : UHeap :=
  { h with blockInfoFreeListUser := free, freeBlocksUser := ids ++ h.freeBlocksUser }

/-- `insert_sorted_user`, the function `insert_sorted` over again. -/
def insertSortedUser (l : List BlockInfo) (elem : BlockInfo) : Option (List BlockInfo) :=
  insertSorted l elem

/-- `Coalescing_heap_user`: a block that ends where the first free one starts joins that one, a
block above the last free one joins at most that one, and in between `take` joins what it meets.
The result is `none` when the free list is empty: its first element is a null pointer. -/
def UHeap.coalescing (h : UHeap) (take : BlockInfo) : Option UHeap :=
  let free := h.blockInfoFreeListUser
  match free.head?, free.getLast? with
  | some str, some last =>
    if str.startVa ≥ take.startVa ∧ u32 (take.startVa + take.size) = str.startVa then
      let str := { str with startVa := take.startVa, size := u32 (str.size + take.size) }
      some (h.joined (str :: free.tail) [take.id])
    else if take.startVa ≥ last.startVa then
      if u32 (last.startVa + last.size) = take.startVa then
        let last := { last with size := u32 (last.size + take.size) }
        some (h.joined (free.dropLast ++ [last]) [take.id])
      else (insertSortedUser free take).map (h.joined · [])
    else
      let lo := free.takeWhile fun curr => curr.startVa < take.startVa
      let hi := free.dropWhile fun curr => curr.startVa < take.startVa
      match joinBetween lo hi take with
      | some (free, ids) => some (h.joined free ids)
      | none => (insertSortedUser free take).map (h.joined · [])
  | _, _ => none

/-- `free`: an address that starts no taken block is ignored. -/
def free (virtualAddress : Nat) : U Unit := do
  let h ← get
  match firstWhere (fun bi => bi.startVa = virtualAddress) h.blockInfoTakenListUser with
  | none => return ()
  | some bi =>
    match { h with blockInfoTakenListUser := bi.removed }.coalescing bi.elem with
    | none => throw .fault
    | some h => set h

/-- The system calls that `malloc` and `free` make. -/
inductive SysCall
  | allocateMem (virtualAddress size : Nat)
  | freeMem (virtualAddress size : Nat)
  deriving DecidableEq, Repr

/-- `free` with the system calls made so far: `sys_freeMem` comes before the lists are touched. -/
def freeTraced (virtualAddress : Nat) : EStateM Stop (UHeap × List SysCall) Unit := do
  let s ← get
  match firstWhere (fun bi => bi.startVa = virtualAddress) s.1.blockInfoTakenListUser with
  | none => return ()
  | some bi => do
    let calls := s.2 ++ [.freeMem virtualAddress bi.elem.size]
    set (s.1, calls)
    match { s.1 with blockInfoTakenListUser := bi.removed }.coalescing bi.elem with
    | none => throw .fault
    | some h => set (h, calls)

/-- Without the trace it is `free`. -/
theorem freeTraced_free {h h' : UHeap} {calls calls' : List SysCall} {va : Nat}
    (hc : freeTraced va (h, calls) = .ok () (h', calls')) : free va h = .ok () h' := by
  rw [freeTraced, Prog.get_bind_apply] at hc
  rw [free, Prog.get_bind_apply]
  dsimp only at hc ⊢
  cases hf : firstWhere (fun bi => decide (bi.startVa = va)) h.blockInfoTakenListUser with
  | none =>
    rw [hf] at hc
    obtain ⟨-, he⟩ := Prog.ok_inj.1 hc
    rw [Prod.mk.injEq] at he
    rw [← he.1]
    rfl
  | some bi =>
    rw [hf] at hc
    dsimp only at hc ⊢
    replace hc : (set _ >>= _ : EStateM Stop (UHeap × List SysCall) Unit) _ = _ := hc
    rw [Prog.set_bind_apply] at hc
    -- the request is logged first; coalescing sees the lists alone
    cases hco : ({ h with blockInfoTakenListUser := bi.removed } : UHeap).coalescing bi.elem with
    | none => rw [hco] at hc; cases hc
    | some h₁ =>
      rw [hco] at hc
      obtain ⟨-, he⟩ := Prog.ok_inj.1 hc
      rw [Prod.mk.injEq] at he
      rw [← he.1]
      rfl

/-- `malloc` with the system calls made so far: `sys_allocateMem` comes after the search. -/
def mallocTraced (size : Nat) : EStateM Stop (UHeap × List SysCall) Nat := do
  let s ← get
  match firstFitUser (roundup size pageSize) s.1 with
  | .error stop h => do
    set (h, s.2)
    throw stop
  | .ok space h =>
    if space = 0 then do
      set (h, s.2)
      return 0
    else do
      set (h, s.2 ++ [.allocateMem space (roundup size pageSize)])
      return space

/-- Without the trace it is `malloc`. -/
theorem mallocTraced_ok {h : UHeap} {calls : List SysCall} {x : UHeap × List SysCall}
    {size va : Nat} (hc : mallocTraced size (h, calls) = .ok va x) :
    malloc size h = .ok va x.1 ∧
      x.2 = if va = 0 then calls else calls ++ [.allocateMem va (roundup size pageSize)] := by
  rw [mallocTraced, Prog.get_bind_apply] at hc
  dsimp only at hc
  unfold malloc
  cases hf : firstFitUser (roundup size pageSize) h with
  | error stop h' => rw [hf] at hc; cases hc
  | ok space h' =>
    rw [hf] at hc
    dsimp only at hc
    rw [Prog.ite_run] at hc
    split at hc
    case isTrue h0 =>
      obtain ⟨rfl, rfl⟩ := Prog.ok_inj.1 hc
      exact ⟨by rw [h0], (if_pos rfl).symm⟩
    case isFalse h0 =>
      obtain ⟨rfl, rfl⟩ := Prog.ok_inj.1 hc
      exact ⟨rfl, (if_neg h0).symm⟩

/-- `sfree` only calls the kernel. -/
def sfree (_virtualAddress : Nat) : U Unit := return ()

end Fos
