import Fos.Kernel

/-!
# Physical frames and page tables

`allocate_frame` … `unmap_frame` of `kern/memory_manager.c`. `map_frame` calls `create_page_table`,
which calls `kmalloc`, which calls `map_frame`; `mapFrameWith` therefore takes the creation of a
missing table as an argument, and the knot is tied where `kmalloc` is defined.
-/

namespace Fos

open Function (update)

/-! ## The free frame list -/

/-- `++` on a `uint16`. -/
def u16Succ (n : Nat) : Nat := if n = 65535 then 0 else n + 1

/-- `--` on a `uint16`. -/
def u16Pred (n : Nat) : Nat := if n = 0 then 65535 else n - 1

/-- The frame table after an update of one descriptor. -/
def Frames.setInfo (fr : Frames) (f : Nat) (i : FrameInfo) : Frames :=
  { fr with info := update fr.info f i }

/-- `free_frame` -/
def Frames.freeFrame (fr : Frames) (f : Nat) : Frames :=
  { fr.setInfo f initializeFrameInfo with freeFrameList := f :: fr.freeFrameList }

/-- `decrement_references` -/
def Frames.decrementReferences (fr : Frames) (f : Nat) : Frames :=
  let n := u16Pred (fr.info f).references
  if n = 0 then (fr.setInfo f ⟨n, (fr.info f).va⟩).freeFrame f
  else fr.setInfo f ⟨n, (fr.info f).va⟩

/-- `ptr_frame_info->references++; ptr_frame_info->va = virtual_address` -/
def Frames.addReference (fr : Frames) (f va : Nat) : Frames :=
  fr.setInfo f ⟨u16Succ (fr.info f).references, va⟩

/-- The frame table after the head `f` of the free list, before `rest`, is taken. -/
def Frames.take (fr : Frames) (f : Nat) (rest : List Nat) : Frames :=
  { fr.setInfo f initializeFrameInfo with freeFrameList := rest }

def Kern.setFrames (s : Kern) (fr : Frames) : Kern := { s with frames := fr }

/-- `allocate_frame`. On an empty list `LIST_REMOVE` follows the null element. -/
def allocateFrame : K Nat := do
  let s ← get
  match s.frames.freeFrameList with
  | [] => throw .fault
  | f :: rest =>
    set (s.setFrames (s.frames.take f rest))
    return f

theorem allocateFrame_nil {s : Kern} (h : s.frames.freeFrameList = []) :
    allocateFrame s = .error .fault s := by
  simp [allocateFrame, h]

theorem allocateFrame_cons {s : Kern} {f : Nat} {rest : List Nat}
    (h : s.frames.freeFrameList = f :: rest) :
    allocateFrame s = .ok f (s.setFrames (s.frames.take f rest)) := by
  simp [allocateFrame, h, Prog.map_run]

/-! ## Directories and tables -/

/-- A `uint32 *ptr_page_directory`: the boot directory, or a page of the kernel heap. -/
inductive DirPtr
  | boot
  | heap (va : Nat)
  deriving DecidableEq, Repr

/-- A `uint32 *ptr_page_table`: a table built at boot, the boot directory, which `VPT` and `UVPT`
list as a table, or an address that the kernel reads through its own tables. -/
inductive TablePtr
  | boot (pdx : Nat)
  | directory
  | heap (va : Nat)
  deriving DecidableEq, Repr

/-- The pointer is `NULL`. -/
def TablePtr.null : TablePtr := .heap 0

def Kern.setKernelDirectory (s : Kern) (i w : Nat) : Kern :=
  { s with kernelDirectory := update s.kernelDirectory i w }

def Kern.setKernelTable (s : Kern) (p w : Nat) : Kern :=
  { s with kernelTable := update s.kernelTable p w }

def readPde : DirPtr → Nat → K Nat
  | .boot, i => do return (← get).kernelDirectory i
  | .heap va, i => readWord (va + 4 * i)

def writePde : DirPtr → Nat → Nat → K Unit
  | .boot, i, w => modify fun s => s.setKernelDirectory i w
  | .heap va, i, w => writeWord (va + 4 * i) w

def readPte : TablePtr → Nat → K Nat
  | .boot pdx, i => do return (← get).kernelTable (pdx * 1024 + i)
  | .directory, i => do return (← get).kernelDirectory i
  | .heap va, i => readWord (va + 4 * i)

/-- An entry written through `VPT` or `UVPT` replaces a table of the running kernel, or makes a page
of it one for the user space. The model does not follow the kernel beyond that and stops. -/
def writePte : TablePtr → Nat → Nat → K Unit
  | .boot pdx, i, w => modify fun s => s.setKernelTable (pdx * 1024 + i) w
  | .directory, _, _ => throw .fault
  | .heap va, i, w => writeWord (va + 4 * i) w

@[simp] theorem readPde_boot (i : Nat) (s : Kern) :
    readPde .boot i s = .ok (s.kernelDirectory i) s := rfl

@[simp] theorem readPte_boot (d i : Nat) (s : Kern) :
    readPte (.boot d) i s = .ok (s.kernelTable (d * 1024 + i)) s := rfl

@[simp] theorem writePte_boot (d i w : Nat) (s : Kern) :
    writePte (.boot d) i w s = .ok () (s.setKernelTable (d * 1024 + i) w) := rfl

/-- `CHECK_IF_KERNEL_ADDRESS` -/
def checkIfKernelAddress (va : Nat) : Prop := userTop ≤ va

instance (va : Nat) : Decidable (checkIfKernelAddress va) := by
  unfold checkIfKernelAddress; infer_instance

/-- `kheap_virtual_address`: the address last recorded in the frame's descriptor. -/
def kheapVirtualAddress (s : Kern) (pa : Nat) : Nat := u32 ((s.frames.info (ppn pa)).va + pa % 4096)

/-- The 4 MB at `UVPT` and at `VPT`, where a directory lists itself. -/
def selfMapped (va : Nat) : Prop := pdx va = 957 ∨ pdx va = 959

instance (va : Nat) : Decidable (selfMapped va) := by unfold selfMapped; infer_instance

/-- `STATIC_KERNEL_VIRTUAL_ADDRESS` -/
def staticKernelVirtualAddress (pa : Nat) : Nat := u32 (pa + kernelBase)

/-- The directory entry for `va` names what the boot directory names there. -/
def Kern.listsBootTable (s : Kern) (va pde : Nat) : Prop :=
  present (s.kernelDirectory (pdx va)) ∧
    extractAddress pde = extractAddress (s.kernelDirectory (pdx va))

instance (s : Kern) (va pde : Nat) : Decidable (s.listsBootTable va pde) := by
  unfold Kern.listsBootTable; infer_instance

/-- The table that a directory entry for `va` points to. Above `USER_TOP` it is reached through the
static mapping, where the tables built at boot and the boot directory lie; an environment's
directory lists itself at `VPT` and `UVPT`. Below it is the kernel-heap page of the frame in the
entry. -/
def tableOf (s : Kern) (va pde : Nat) : TablePtr :=
  if checkIfKernelAddress va then
    if s.listsBootTable va pde then
      if selfMapped va then .directory else .boot (pdx va)
    else .heap (staticKernelVirtualAddress (extractAddress pde))
  else .heap (kheapVirtualAddress s (extractAddress pde))

/-- The static mapping has no address for the table, which lies beyond the physical memory. -/
def Kern.tableBeyond (s : Kern) (va pde : Nat) : Prop :=
  checkIfKernelAddress va ∧ ¬ s.listsBootTable va pde ∧ s.frames.numberOfFrames ≤ ppn pde

instance (s : Kern) (va pde : Nat) : Decidable (s.tableBeyond va pde) := by
  unfold Kern.tableBeyond; infer_instance

/-- An entry of the boot directory for an address above `USER_TOP` names the table built for it. -/
theorem tableOf_kernel {s : Kern} {va pde : Nat} (hva : checkIfKernelAddress va)
    (hself : ¬ selfMapped va) (hlists : s.listsBootTable va pde) :
    tableOf s va pde = .boot (pdx va) := by
  rw [tableOf, if_pos hva, if_pos hlists, if_neg hself]

theorem tableOf_user {s : Kern} {va : Nat} (pde : Nat) (hva : ¬ checkIfKernelAddress va) :
    tableOf s va pde = .heap (kheapVirtualAddress s (extractAddress pde)) := by
  rw [tableOf, if_neg hva]

theorem not_tableBeyond_user {s : Kern} {va : Nat} (pde : Nat) (hva : ¬ checkIfKernelAddress va) :
    ¬ s.tableBeyond va pde := fun h => hva h.1

theorem not_tableBeyond_lists {s : Kern} {va pde : Nat} (hlists : s.listsBootTable va pde) :
    ¬ s.tableBeyond va pde := fun h => h.2.1 hlists

theorem listsBootTable_self {s : Kern} {va : Nat} (hp : present (s.kernelDirectory (pdx va))) :
    s.listsBootTable va (s.kernelDirectory (pdx va)) := ⟨hp, rfl⟩

/-- `get_page_table`: the table, or `none` for `TABLE_NOT_EXIST`. For an entry that is neither zero
nor present it calls `fault_handler(NULL)`, which reads the trap frame through the null pointer. -/
def getPageTable (dir : DirPtr) (va : Nat) : K (Option TablePtr) := do
  let pde ← readPde dir (pdx va)
  let s ← get
  if pde = 0 then return none
  else if s.tableBeyond va pde then throw (.panic "K_VIRTUAL_ADDRESS called with invalid pa %08lx")
  else if present pde then return some (tableOf s va pde)
  else throw .fault

theorem getPageTable_of_present {s : Kern} {dir : DirPtr} {va pde : Nat}
    (hread : readPde dir (pdx va) s = .ok pde s) (hp : present pde) (hb : ¬ s.tableBeyond va pde) :
    getPageTable dir va s = .ok (some (tableOf s va pde)) s := by
  rw [getPageTable, Prog.bind_of_ok hread, Prog.get_bind_apply, Prog.ite_run,
    if_neg (present_ne_zero hp), Prog.ite_run, if_neg hb, Prog.ite_run, if_pos hp]
  rfl

theorem getPageTable_of_zero {s : Kern} {dir : DirPtr} {va : Nat}
    (hread : readPde dir (pdx va) s = .ok 0 s) : getPageTable dir va s = .ok none s := by
  rw [getPageTable, Prog.bind_of_ok hread, Prog.get_bind_apply, Prog.ite_run, if_pos rfl]
  rfl

/-- The boot directory names no table beyond the memory. -/
theorem getPageTable_boot {s : Kern} {va : Nat} (hp : present (s.kernelDirectory (pdx va))) :
    getPageTable .boot va s = .ok (some (tableOf s va (s.kernelDirectory (pdx va)))) s :=
  getPageTable_of_present (readPde_boot _ s) hp (not_tableBeyond_lists (listsBootTable_self hp))

/-- `kheap_physical_address` -/
def kheapPhysicalAddress (va : Nat) : K Nat := do
  match ← getPageTable .boot va with
  | none => throw .fault
  | some t => do
    let pte ← readPte t (ptx va)
    return u32 (ppn pte * 4096 + va % 4096)

/-- `to_frame_info` -/
def toFrameInfo (pa : Nat) : K Nat := do
  if (← get).frames.numberOfFrames ≤ ppn pa then throw (.panic "to_frame_info called with invalid pa=%x\n")
  else return ppn pa

/-- `get_frame_info`: the frame behind `va`, with the table its entry is in. The test is for a
non-zero entry, not for the present bit. -/
def getFrameInfo (dir : DirPtr) (va : Nat) : K (Option (Nat × TablePtr)) := do
  match ← getPageTable dir va with
  | none => return none
  | some t =>
    if t = .null then return none
    else do
      let pte ← readPte t (ptx va)
      if pte ≠ 0 then return some (← toFrameInfo (extractAddress pte), t)
      else return none

/-- `unmap_frame` -/
def unmapFrame (dir : DirPtr) (va : Nat) : K Unit := do
  match ← getFrameInfo dir va with
  | none => return ()
  | some (f, t) => do
    modify fun s => s.setFrames (s.frames.decrementReferences f)
    writePte t (ptx va) 0

/-- `map_frame` once the page table is known. An entry that already maps the frame is left as it
is, any other present entry is unmapped first. -/
def mapFrameIn (dir : DirPtr) (t : TablePtr) (f va perm : Nat) : K Unit := do
  let pte ← readPte t (ptx va)
  if present pte ∧ extractAddress pte = f * 4096 then return ()
  else do
    (if present pte then unmapFrame dir va else pure ())
    modify fun s => s.setFrames (s.frames.addReference f va)
    writePte t (ptx va) (constructEntry (f * 4096) (perm ||| permPresent))

section

variable (createPageTable : DirPtr → Nat → K TablePtr)

/-- The page table for `va`, made when it does not exist. -/
def pageTableWith (dir : DirPtr) (va : Nat) : K TablePtr := do
  match ← getPageTable dir va with
  | some t => return t
  | none => createPageTable dir va

/-- `map_frame` -/
def mapFrameWith (dir : DirPtr) (f va perm : Nat) : K Unit := do
  let t ← pageTableWith createPageTable dir va
  mapFrameIn dir t f va perm

end

end Fos
