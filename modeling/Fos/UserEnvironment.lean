import Fos.KernelHeap

/-!
# Environments

`kern/user_environment.c`: the page directory of a new environment, and the pages through which it
may read its working set.
-/

namespace Fos

/-! ## The directory -/

/-- `create_user_directory` -/
def createUserDirectory : K Nat := kmalloc pageSize

/-- The loop that copies `n` entries of `ptr_page_directory` from index `i` on. -/
def copyDirectory (dir : DirPtr) : Nat → Nat → K Unit
  | _, 0 => return ()
  | i, n + 1 => do
    writePde dir i (← readPde .boot i)
    copyDirectory dir (i + 1) n

/-- The two loops of `initialize_environment` over the new directory: clear the user part, copy the
kernel part. -/
def initializeDirectory (d : Nat) : K Unit := do
  zeroWords d (pdx userTop)
  copyDirectory (.heap d) (pdx userTop) (1024 - pdx userTop)

/-! ## The working set -/

/-- `create_user_page_WS`: an array of `struct WorkingSetElement`, of 12 bytes each. -/
def createUserPageWS (numOfElements : Nat) : K Nat := kmalloc (u32 (numOfElements * 12))

/-- `USER_PAGES_WS_START` -/
abbrev userPagesWSStart : Nat := 0xC0000000

/-- The pages of the array. -/
def workingSetPages (numOfElements : Nat) : Nat := (u32 (numOfElements * 12) + 4095) / 4096

/-- The user pages at which they are mapped. -/
def workingSetMirror (numOfElements : Nat) : Set Nat :=
  {q | ppn userPagesWSStart ≤ q ∧ q < ppn userPagesWSStart + workingSetPages numOfElements}

/-- The loop of `initialize_environment` that maps `n` pages of the array for the user to read. -/
def mirrorPages (dir : DirPtr) : Nat → Nat → Nat → K Unit
  | 0, _, _ => return ()
  | n + 1, sva, dva => do
    let pa ← kheapPhysicalAddress sva
    mapFrame dir (← toFrameInfo pa) dva permUser
    mirrorPages dir n (sva + pageSize) (dva + pageSize)

/-! ## The self map -/

/-- The entries of `complete_environment_initialization`: `VPT` and `UVPT` list the directory
itself. -/
def listDirectory (d envCr3 : Nat) : K Unit := do
  writePde (.heap d) (pdx 0xEFC00000) (constructEntry envCr3 (permPresent ||| permWriteable))
  writePde (.heap d) (pdx 0xEF400000) (constructEntry envCr3 (permPresent ||| permUser))

end Fos
