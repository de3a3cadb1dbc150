import Fos.EmptyTables
import Fos.UserHeap
import Fos.WorkingSet

/-!
# User memory

`allocateMem` and `freeMem` of `kern/memory_manager.c`, the kernel side of `malloc` and `free`, and
`malloc` together with its system call.
-/

namespace Fos

/-- The loop of `allocateMem` over `n` pages from `virtualAddress` up. -/
def allocatePages (e : Nat) : Nat → Nat → K Unit
  | _, 0 => return ()
  | virtualAddress, n + 1 => do
    let _ ← pfAddEmptyEnvPage e virtualAddress 0
    allocatePages e (u32 (virtualAddress + pageSize)) n

/-- `allocateMem` -/
def allocateMem (e virtualAddress size : Nat) : K Unit :=
  allocatePages e virtualAddress (size / pageSize)

/-- The first loop of `freeMem`, over `n` pages of the page file from `tmp` up. -/
def removePages (e : Nat) : Nat → Nat → K Unit
  | _, 0 => return ()
  | tmp, n + 1 => do
    pfRemoveEnvPage e tmp
    removePages e (u32 (tmp + pageSize)) n

/-- `env_page_ws_get_virtual_address` -/
def envPageWsGetVirtualAddress (e entryIndex : Nat) : K Nat := do
  let env := (← get).envs e
  if env.pageWSMaxSize ≤ entryIndex then
    throw (.panic "assertion failed: entry_index >= 0 && entry_index < (e->page_WS_max_size)")
  else match env.ptrPageWorkingSet[entryIndex]? with
    | none => throw .fault
    | some w => return rounddown w.virtualAddress pageSize

/-- `page_last_WS_index` moves back to an entry that is freed before it. -/
def Env.lowerLastWSIndex (env : Env) (j : Nat) : Env :=
  if j < env.pageLastWSIndex then { env with pageLastWSIndex := j } else env

/-- The second loop, over `n` entries of the working set from `j` up. -/
def freeResident (e virtualAddress size : Nat) : Nat → Nat → K Unit
  | _, 0 => return ()
  | j, n + 1 => do
    let va ← envPageWsGetVirtualAddress e j
    (if virtualAddress ≤ va ∧ va < u32 (virtualAddress + size) then do
      unmapFrame (.heap ((← get).envs e).envPageDirectory) va
      envPageWsClearEntry e j
      modify fun s => s.setEnv e ((s.envs e).lowerLastWSIndex j)
    else return ())
    freeResident e virtualAddress size (j + 1) n

/-- `freeMem` -/
def freeMem (e virtualAddress size : Nat) : K Unit := do
  removePages e virtualAddress (size / pageSize)
  freeResident e virtualAddress size 0 ((← get).envs e).pageWSMaxSize
  freeEmptyTables (.heap ((← get).envs e).envPageDirectory) virtualAddress (size / pageSize)

/-- A call of the library that enters the kernel. -/
abbrev UK := EStateM Stop (UHeap × Kern)

/-- The part of the call that runs in the library. -/
def inLibrary {α : Type} (x : U α) : UK α := fun s =>
  match x s.1 with
  | .ok a h => .ok a (h, s.2)
  | .error stop h => .error stop (h, s.2)

/-- A system call. -/
def inKernel {α : Type} (x : K α) : UK α := fun s =>
  match x s.2 with
  | .ok a k => .ok a (s.1, k)
  | .error stop k => .error stop (s.1, k)

/-- `malloc` of the environment `e`, with its call of `sys_allocateMem`. -/
def mallocSys (e size : Nat) : UK Nat := do
  let size := roundup size pageSize
  let space ← inLibrary (firstFitUser size)
  if space = 0 then return 0
  else do
    inKernel (allocateMem e space size)
    return space

end Fos
