import Fos.KernelHeap

/-!
# Ranges of user pages

The loops of `kern/memory_manager.c` and `kern/shared_memory_manager.c` over the pages of a range
that an environment gives back: each page is unmapped, and then each page table that maps nothing
any more is freed.
-/

namespace Fos

/-- `kfree` of a page table. The tables built at boot and the boot directory are no blocks of the
kernel heap, so the search of `kfree` does not find them. -/
def TablePtr.kfree : TablePtr → K Unit
  | .boot _ => return ()
  | .directory => return ()
  | .heap a => Fos.kfree a

/-- The loop over `n` entries from entry `k` on: `found` stays set when all of them are zero. -/
def tableIsEmpty (t : TablePtr) : Nat → Nat → K Bool
  | _, 0 => return true
  | k, n + 1 => do
    if (← readPte t k) ≠ 0 then return false else tableIsEmpty t (k + 1) n

/-- What `freeMem` and `freeSharedObject` do with the page table of one page. -/
def freeEmptyTable (dir : DirPtr) (va : Nat) : K Unit := do
  match ← getPageTable dir va with
  | none => return ()
  | some t =>
    if t = .null then return ()
    else if ← tableIsEmpty t 0 1024 then do
      t.kfree
      writePde dir (pdx va) 0
    else return ()

/-- The loop over `n` pages from `tmp` up. -/
def freeEmptyTables (dir : DirPtr) : Nat → Nat → K Unit
  | _, 0 => return ()
  | tmp, n + 1 => do
    freeEmptyTable dir tmp
    freeEmptyTables dir (u32 (tmp + pageSize)) n

end Fos
