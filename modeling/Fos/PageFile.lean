import Fos.PageTables

/-!
# The page file

`kern/file_manager.c`. Every environment has a directory of disk page tables, made when its first
page is added; an entry of a disk table is the number of the disk frame that holds the page, zero
for a page that is not in the file. The disk returns what was last written to a disk frame.
-/

namespace Fos

open Function (update)

/-- `E_NO_PAGE_FILE_SPACE` -/
abbrev eNoPageFileSpace : Int := -8

/-- `E_PAGE_NOT_EXIST_IN_PF` -/
abbrev ePageNotExistInPf : Int := -9

/-- `E_NO_VM` -/
abbrev eNoVm : Int := -20

/-! ## Disk frames -/

def Kern.setDisk (s : Kern) (d : Disk) : Kern := { s with disk := d }

/-- `allocate_disk_frame`; `none` is `E_NO_PAGE_FILE_SPACE`. -/
def allocateDiskFrame : K (Option Nat) := do
  let s ← get
  match s.disk.diskFreeFrameList with
  | [] => return none
  | dfn :: rest =>
    set (s.setDisk { s.disk with diskFreeFrameList := rest })
    return some dfn

/-- `free_disk_frame` -/
def freeDiskFrame (dfn : Nat) : K Unit :=
  if dfn = 0 then return ()
  else modify fun s =>
    s.setDisk { s.disk with diskFreeFrameList := dfn :: s.disk.diskFreeFrameList }

/-- `write_disk_page` of a page of words. -/
def writeDiskPage (dfn : Nat) (page : Nat → Nat) : K Unit :=
  modify fun s => s.setDisk { s.disk with words := update s.disk.words dfn page }

/-! ## Memory of the running environment -/

/-- The frame of the page table and the entry that the MMU finds for a user address. -/
def Kern.walk (s : Kern) (dir : DirPtr) (va : Nat) : Option (Nat × Nat) :=
  let pde := s.pde dir (pdx va)
  if present pde then
    let pte := s.ram (ppn pde) (ptx va)
    if present pte then some (ppn pde, pte) else none
  else none

/-- Fills the user page at `va`; the MMU sets the modified bit of its entry. -/
def writeUserPage (dir : DirPtr) (va : Nat) (page : Nat → Nat) : K Unit := do
  let s ← get
  match s.walk dir va with
  | none => throw .fault
  | some (table, pte) =>
    set ((s.store table (ptx va) (setPerm pte permModified)).fill (ppn pte) page)

/-! ## Directories and tables -/

def Kern.setEnv (s : Kern) (e : Nat) (env : Env) : Kern := { s with envs := update s.envs e env }

/-- `get_disk_page_directory`, for the directory kept in `disk_env_pgdir`. -/
def getDiskPageDirectory (e : Nat) : K Int := do
  if ((← get).envs e).diskEnvPgdir = 0 then do
    let d ← kmalloc pageSize
    modify fun s => s.setEnv e { s.envs e with diskEnvPgdir := d }
    if d = 0 then return eNoVm
    else do
      let _ ← kheapPhysicalAddress d
      zeroWords d 1024
      return 0
  else return 0

/-- `get_disk_page_table`: the table, or the null pointer. -/
def getDiskPageTable (dir va : Nat) (create : Bool) : K Nat := do
  let pde ← readWord (dir + 4 * pdx va)
  if pde = 0 then
    if create then do
      let t ← kmalloc pageSize
      if t = 0 then return 0
      else do
        let pa ← kheapPhysicalAddress t
        writeWord (dir + 4 * pdx va) (constructEntry pa permPresent)
        zeroWords t 1024
        return t
    else return 0
  else if checkIfKernelAddress va then return staticKernelVirtualAddress (extractAddress pde)
  else return kheapVirtualAddress (← get) (extractAddress pde)

/-! ## Pages -/

/-- The common part of `pf_add_empty_env_page` and `pf_add_env_page`: the disk frame of the page,
allocated when the page is new. `none` is `E_NO_PAGE_FILE_SPACE`. -/
def pfDiskFrame (e va : Nat) : K (Option Nat) := do
  if kernelBase ≤ va then throw (.panic "assertion failed: (uint32)virtual_address < KERNEL_BASE")
  else do
    let _ ← getDiskPageDirectory e
    let t ← getDiskPageTable ((← get).envs e).diskEnvPgdir va true
    let dfn ← readWord (t + 4 * ptx va)
    if dfn = 0 then do
      match ← allocateDiskFrame with
      | none => return none
      | some dfn => do
        writeWord (t + 4 * ptx va) dfn
        return some dfn
    else return some dfn

/-- `pf_add_env_page`; `dataSrc` is the page of kernel memory that is written. -/
def pfAddEnvPage (e va : Nat) (dataSrc : Nat → Nat) : K Int := do
  match ← pfDiskFrame e va with
  | none => return eNoPageFileSpace
  | some dfn => do
    writeDiskPage dfn dataSrc
    return 0

/-- `ptr_zero_page` -/
abbrev ptrZeroPage : Nat := kernelBase + pageSize

/-- `ptr_temp_page` -/
abbrev ptrTempPage : Nat := kernelBase + 2 * pageSize

/-- The words of the page of kernel memory at `va`. -/
def Kern.kernelPage (s : Kern) (va : Nat) : Nat → Nat := s.ram (s.frameAt va)

/-- `pf_add_empty_env_page` -/
def pfAddEmptyEnvPage (e va initializeByZero : Nat) : K Int := do
  if initializeByZero ≠ 0 then pfAddEnvPage e va ((← get).kernelPage ptrZeroPage)
  else do
    match ← pfDiskFrame e va with
    | none => return eNoPageFileSpace
    | some _ => return 0

/-- `modified_page_frame_info->references += 1` -/
def Frames.incReferences (fr : Frames) (f : Nat) : Frames :=
  fr.setInfo f ⟨u16Succ (fr.info f).references, (fr.info f).va⟩

/-- `modified_page_frame_info->references -= 1` -/
def Frames.decReferences (fr : Frames) (f : Nat) : Frames :=
  fr.setInfo f ⟨u16Pred (fr.info f).references, (fr.info f).va⟩

/-- The part of `pf_update_env_page` that copies a frame to the disk through the scratch address
`USER_LIMIT`. -/
def writeFrame (dir : DirPtr) (dfn f : Nat) : K Unit := do
  mapFrame dir f userLimit 0
  let s ← get
  if s.Mapped userLimit then do
    writeDiskPage dfn (s.ram (s.frameAt userLimit))
    modify fun s => s.setFrames (s.frames.incReferences f)
    unmapFrame dir userLimit
    modify fun s => s.setFrames (s.frames.decReferences f)
  else throw .fault

/-- `pf_update_env_page` -/
def pfUpdateEnvPage (e va f : Nat) : K Int := do
  if kernelBase ≤ va then throw (.panic "assertion failed: (uint32)virtual_address < KERNEL_BASE")
  else do
    let _ ← getDiskPageDirectory e
    let t ← getDiskPageTable ((← get).envs e).diskEnvPgdir va false
    if t = 0 then return ePageNotExistInPf
    else do
      let dfn ← readWord (t + 4 * ptx va)
      if dfn = 0 then return ePageNotExistInPf
      else do
        writeFrame (.heap ((← get).envs e).envPageDirectory) dfn f
        return 0

/-- `pt_set_page_permissions` -/
def ptSetPagePermissions (e va permissionsToSet permissionsToClear : Nat) : K Unit := do
  let dir := DirPtr.heap ((← get).envs e).envPageDirectory
  let pde ← readPde dir (pdx va)
  if present pde then do
    let t := tableOf (← get) va pde
    writePte t (ptx va) (setPerm (← readPte t (ptx va)) permissionsToSet)
    writePte t (ptx va) (clearPerm (← readPte t (ptx va)) permissionsToClear)
  else if pde ≠ 0 then throw .fault
  else throw (.panic "function pt_set_page_permissions() called with invalid virtual address. The corresponding page table doesn't exist\n")

/-- `pf_read_env_page`: the page is read into the address space of the running environment. -/
def pfReadEnvPage (curenv e va : Nat) : K Int := do
  let va := rounddown va pageSize
  if ((← get).envs e).diskEnvPgdir = 0 then return ePageNotExistInPf
  else do
    let t ← getDiskPageTable ((← get).envs e).diskEnvPgdir va false
    if t = 0 then return ePageNotExistInPf
    else do
      let dfn ← readWord (t + 4 * ptx va)
      if dfn = 0 then return ePageNotExistInPf
      else do
        writeUserPage (.heap ((← get).envs curenv).envPageDirectory) va ((← get).disk.words dfn)
        ptSetPagePermissions curenv va 0 permModified
        return 0

/-- `pf_remove_env_page` -/
def pfRemoveEnvPage (e va : Nat) : K Unit := do
  if ((← get).envs e).diskEnvPgdir = 0 then return ()
  else do
    let t ← getDiskPageTable ((← get).envs e).diskEnvPgdir va false
    if t = 0 then return ()
    else do
      let dfn ← readWord (t + 4 * ptx va)
      writeWord (t + 4 * ptx va) 0
      freeDiskFrame dfn

/-! ## Teardown -/

/-- The loop of `pf_free_env` over `n` entries of a disk table. -/
def freeDiskTable (pt : Nat) : Nat → Nat → K Unit
  | _, 0 => return ()
  | pteno, n + 1 => do
    let dfn ← readWord (pt + 4 * pteno)
    writeWord (pt + 4 * pteno) 0
    freeDiskFrame dfn
    freeDiskTable pt (pteno + 1) n

/-- The loop of `pf_free_env` over `n` entries of the disk directory. -/
def freeDiskTables (e : Nat) : Nat → Nat → K Unit
  | _, 0 => return ()
  | pdeno, n + 1 => do
    let d := ((← get).envs e).diskEnvPgdir
    let pde ← readWord (d + 4 * pdeno)
    (if present pde then do
      let pt := kheapVirtualAddress (← get) (extractAddress pde)
      freeDiskTable pt 0 1024
      writeWord (d + 4 * pdeno) 0
      kfree pt
    else pure ())
    freeDiskTables e (pdeno + 1) n

/-- `pf_free_env`, for environments without a file of page tables. -/
def pfFreeEnv (e : Nat) : K Unit := do
  freeDiskTables e 0 (pdx userTop)
  kfree ((← get).envs e).diskEnvPgdir
  modify fun s => s.setEnv e { s.envs e with diskEnvPgdir := 0 }

/-! ## Counting -/

/-- The loop of `pf_calculate_allocated_pages` over `n` entries of a disk table. -/
def countDiskTable (pt : Nat) : Nat → Nat → Nat → K Nat
  | _, 0, counter => return counter
  | ptIndex, n + 1, counter => do
    let dfn ← readWord (pt + 4 * ptIndex)
    countDiskTable pt (ptIndex + 1) n (if dfn ≠ 0 then counter + 1 else counter)

/-- The loop of `pf_calculate_allocated_pages` over `n` entries of the disk directory. -/
def countDiskTables (e : Nat) : Nat → Nat → Nat → K Nat
  | _, 0, counter => return counter
  | pdIndex, n + 1, counter => do
    let pde ← readWord (((← get).envs e).diskEnvPgdir + 4 * pdIndex)
    let counter ← if present pde then do
        let pt := kheapVirtualAddress (← get) (extractAddress pde)
        countDiskTable pt 0 1024 counter
      else pure counter
    countDiskTables e (pdIndex + 1) n counter

/-- `pf_calculate_allocated_pages` -/
def pfCalculateAllocatedPages (e : Nat) : K Nat := countDiskTables e 0 (pdx userTop) 0

end Fos
