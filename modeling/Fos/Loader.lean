import Fos.WorkingSet.DemandPaging

/-!
# The program loader

`env_create` of `kern/user_environment.c`, from the program segments on: the segments of the ELF
file are mapped, copied and written to the page file, and the stack gets its first page. The file is
part of the kernel image, which the loader only reads.
-/

namespace Fos

/-! ## The file -/

/-- The bytes of the kernel image, by address. -/
abbrev KernelImage : Type := Nat → UInt8

def KernelImage.uint16 (m : KernelImage) (a : Nat) : Nat :=
  (m (u32 a)).toNat + 256 * (m (u32 (a + 1))).toNat

def KernelImage.uint32 (m : KernelImage) (a : Nat) : Nat := m.uint16 a + 65536 * m.uint16 (a + 2)

/-- `ELF_MAGIC` -/
abbrev elfMagic : Nat := 0x464C457F

/-- `ELF_PROG_LOAD` -/
abbrev elfProgLoad : Nat := 1

section

variable (m : KernelImage) (p : Nat)

/-! The fields of `struct Elf` at `p`. -/

def eMagic : Nat := m.uint32 p
def eEntry : Nat := m.uint32 (p + 24)
def ePhoff : Nat := m.uint32 (p + 28)
def ePhnum : Nat := m.uint16 (p + 44)

/-! The fields of the `i`th `struct Proghdr` of the file at `p`. -/

def proghdr (i : Nat) : Nat := p + ePhoff m p + 32 * i
def pType (i : Nat) : Nat := m.uint32 (proghdr m p i)
def pOffset (i : Nat) : Nat := m.uint32 (proghdr m p i + 4)
def pVa (i : Nat) : Nat := m.uint32 (proghdr m p i + 8)
def pFilesz (i : Nat) : Nat := m.uint32 (proghdr m p i + 16)
def pMemsz (i : Nat) : Nat := m.uint32 (proghdr m p i + 20)

end

/-- `struct ProgramSegment` -/
structure ProgramSegment where
  ptrStart : Nat
  sizeInFile : Nat
  sizeInMemory : Nat
  virtualAddress : Nat
  segmentId : Nat
  deriving DecidableEq, Repr

/-- The segment of the header `i` of the file at `p`. -/
def programSegment (m : KernelImage) (p i : Nat) : ProgramSegment :=
  ⟨u32 (p + pOffset m p i), pFilesz m p i, pMemsz m p i, pVa m p i, i⟩

/-- The `while` loop over the headers from `i` on, of which there are `n`: the first one that is
loaded, or `e_phnum`. -/
def skipHeaders (m : KernelImage) (p : Nat) : Nat → Nat → Nat
  | 0, i => i
  | n + 1, i => if pType m p i ≠ elfProgLoad then skipHeaders m p n (i + 1) else i

/-- The part that `PROGRAM_SEGMENT_FIRST` and `PROGRAM_SEGMENT_NEXT` share; `none` is the null
pointer. -/
def programSegmentFrom (m : KernelImage) (p i : Nat) : K (Option ProgramSegment) :=
  if eMagic m p ≠ elfMagic then throw (.panic "Matafa2nash 3ala Keda")
  else
    let index := skipHeaders m p (ePhnum m p - i) i
    if index < ePhnum m p then return some (programSegment m p index) else return none

/-- `PROGRAM_SEGMENT_FIRST` -/
def programSegmentFirst (m : KernelImage) (p : Nat) : K (Option ProgramSegment) :=
  programSegmentFrom m p 0

/-- `PROGRAM_SEGMENT_NEXT` -/
def programSegmentNext (m : KernelImage) (p : Nat) (seg : ProgramSegment) :
    K (Option ProgramSegment) :=
  programSegmentFrom m p (seg.segmentId + 1)

section

variable {σ : Type} (m : KernelImage) (p : Nat) (body : σ → ProgramSegment → K σ)

/-- The loop of `PROGRAM_SEGMENT_FOREACH` at `seg`. There are no more segments than headers, so `n`
rounds are enough. -/
def foreachFrom : Nat → Option ProgramSegment → σ → K σ
  | _, none, x => return x
  | 0, some _, x => return x
  | n + 1, some seg, x => do
    let x ← body x seg
    foreachFrom n (← programSegmentNext m p seg) x

/-- `PROGRAM_SEGMENT_FOREACH` with a body that updates `x`. -/
def programSegmentForeach (x : σ) : K σ := do
  foreachFrom m p body (ePhnum m p) (← programSegmentFirst m p) x

end

/-! ## Mapping -/

/-- `loadtime_map_frame`. It neither unmaps what the page mapped before nor notes the address in the
frame's descriptor. -/
def loadtimeMapFrame (dir : DirPtr) (f va perm : Nat) : K Unit := do
  let pde ← readPde dir (pdx va)
  let t ← (if pde = 0 then createPageTable dir va else do return tableOf (← get) va pde : K TablePtr)
  modify fun s => s.setFrames (s.frames.incReferences f)
  writePte t (ptx va) (constructEntry (f * 4096) (perm ||| permPresent))

/-- `addTableToTableWorkingSet`, of which only the index is kept, and the check of the caller. -/
def addTableToTableWorkingSet (e : Nat) : K Unit := do
  modify fun s => s.setEnv e { s.envs e with
    tableLastWSIndex := ((s.envs e).tableLastWSIndex + 1) % 50 }
  if ((← get).envs e).tableLastWSIndex = 0 then
    throw (.panic "\nenv_create: Table working set become FULL during the application loading. Please increase the table working set size to be able to load the program successfully\n")
  else return ()

/-- One page of the first loop of `program_segment_alloc_map_copy_workingset`. It returns the new
`lastTableNumber`. -/
def allocSegmentPage (e iVa lastTableNumber : Nat) : K Nat := do
  let p ← allocateFrame
  loadtimeMapFrame (.heap ((← get).envs e).envPageDirectory) p iVa (permUser ||| permWriteable)
  modify fun s => s.setEnv e { s.envs e with
    ptrPageWorkingSet := (s.envs e).ptrPageWorkingSet.set (s.envs e).pageLastWSIndex ⟨iVa, false⟩ }
  advanceLastWSIndex e
  if pdx iVa ≠ lastTableNumber then do
    addTableToTableWorkingSet e
    return pdx iVa
  else return lastTableNumber

/-- The loop, for at most `n` more pages. It returns `allocated_pages` and `lastTableNumber`. -/
def allocSegmentPages (e endVa : Nat) : Nat → Nat → Nat → K (Nat × Nat)
  | 0, _, last => return (0, last)
  | n + 1, iVa, last =>
    if iVa < endVa then do
      let last ← allocSegmentPage e iVa last
      let (allocated, last) ← allocSegmentPages e endVa n (iVa + pageSize) last
      return (allocated + 1, last)
    else return (0, last)

/-- `*dst_ptr++ = *src_ptr++`, `n` times. -/
def copyToUser (m : KernelImage) (e : Nat) : Nat → Nat → Nat → K Unit
  | 0, _, _ => return ()
  | n + 1, dst, src => do
    writeUserByte e dst (m (u32 src)).toNat
    copyToUser m e n (dst + 1) (src + 1)

/-- `*dst_ptr++ = 0`, `n` times. -/
def zeroUser (e : Nat) : Nat → Nat → K Unit
  | 0, _ => return ()
  | n + 1, dst => do
    writeUserByte e dst 0
    zeroUser e n (dst + 1)

/-- The name of the program without a limit on the pages of its first segment. -/
def tpp : List UInt8 := "tpp".toUTF8.toList

/-- `program_segment_alloc_map_copy_workingset`. It returns `allocated_pages` and
`lastTableNumber`. -/
def programSegmentAllocMapCopyWorkingset (m : KernelImage) (progName : List UInt8) (e : Nat)
    (seg : ProgramSegment) (remainingWsPages lastTableNumber : Nat) : K (Nat × Nat) := do
  let vaddr := seg.virtualAddress
  let endVaddr := roundup (u32 (vaddr + seg.sizeInMemory)) pageSize
  let iVa := rounddown vaddr pageSize
  let remainingWsPages :=
    if iVa = 0x200000 ∧ progName ≠ tpp then
      if remainingWsPages < 6 then remainingWsPages else 6
    else remainingWsPages
  let (allocated, last) ← allocSegmentPages e endVaddr remainingWsPages iVa lastTableNumber
  let endAllocated := iVa + allocated * pageSize
  let copied := min endAllocated (u32 (vaddr + seg.sizeInFile)) - vaddr
  copyToUser m e copied vaddr seg.ptrStart
  zeroUser e (endAllocated - (vaddr + copied)) (vaddr + copied)
  return (allocated, last)

/-! ## The page file -/

/-- The words of a page of bytes. -/
def pageWords (page : Nat → UInt8) (i : Nat) : Nat :=
  (page (4 * i)).toNat + 256 * (page (4 * i + 1)).toNat + 65536 * (page (4 * i + 2)).toNat +
    16777216 * (page (4 * i + 3)).toNat

/-- The page of the kernel image at `a`. -/
def KernelImage.page (m : KernelImage) (a : Nat) : Nat → UInt8 := fun j => m (u32 (a + j))

/-- `ptr_temp_page` after `memset` and a loop that copies `n` bytes from `src` to its byte `j`
on. -/
def fillTempPage (m : KernelImage) : Nat → Nat → Nat → Nat → UInt8
  | 0, _, _ => fun _ => 0
  | n + 1, j, src => Function.update (fillTempPage m n j src) (j + n) (m (u32 (src + n)))

/-- `pf_add_env_page`, checked as `env_create` does. -/
def storePage (e va : Nat) (page : Nat → Nat) : K Unit := do
  if (← pfAddEnvPage e va page) = eNoPageFileSpace then
    throw (.panic "ERROR: Page File OUT OF SPACE. can't load the program in Page file!!")
  else return ()

/-- The pages from the second one to the one before the last. -/
def storePages (m : KernelImage) (e : Nat) : Nat → Nat → Nat → K Unit
  | 0, _, _ => return ()
  | n + 1, i, src => do
    storePage e i (pageWords (m.page src))
    storePages m e n (i + pageSize) (src + pageSize)

/-- The pages after the file content. -/
def storeZeroPages (e : Nat) : Nat → Nat → K Unit
  | 0, _ => return ()
  | n + 1, va => do
    if (← pfAddEmptyEnvPage e va 1) = eNoPageFileSpace then
      throw (.panic "ERROR: Page File OUT OF SPACE. can't load the program in Page file!!")
    else storeZeroPages e n (va + pageSize)

/-- Steps [1] to [4] of the loop over the segments. -/
def storeSegment (m : KernelImage) (e : Nat) (seg : ProgramSegment) : K Unit := do
  let segVa := seg.virtualAddress
  let startFirstPage := rounddown segVa pageSize
  let endFirstPage := roundup segVa pageSize
  let first := endFirstPage - segVa
  storePage e startFirstPage (pageWords (fillTempPage m first (segVa - startFirstPage) seg.ptrStart))
  let endLastPage := u32 (segVa + seg.sizeInFile)
  let startLastPage := rounddown endLastPage pageSize
  let middle := (startLastPage - endFirstPage) / pageSize
  storePages m e middle endFirstPage (seg.ptrStart + first)
  let src := seg.ptrStart + first + middle * pageSize
  storePage e startLastPage (pageWords (fillTempPage m (endLastPage - startLastPage) 0 src))
  let startRemainingArea := roundup endLastPage pageSize
  let remainingLength := u32Sub (u32 (segVa + seg.sizeInMemory)) startRemainingArea
  storeZeroPages e (roundup remainingLength pageSize / pageSize) startRemainingArea

/-! ## Loading -/

/-- The loop over the segments, with `remaining_ws_pages` and `lastTableNumber`. -/
def loadSegment (m : KernelImage) (progName : List UInt8) (e : Nat) (x : Nat × Nat)
    (seg : ProgramSegment) : K (Nat × Nat) := do
  let (allocated, last) ← programSegmentAllocMapCopyWorkingset m progName e seg x.1 x.2
  storeSegment m e seg
  return (x.1 - allocated, last)

/-- `ptr_page_table[PTX(virtual_address)] &= (~PERM_MODIFIED)`, in the table of the page. -/
def clearModifiedPage (e va : Nat) : K Unit := do
  match ← getPageTable (.heap ((← get).envs e).envPageDirectory) va with
  | none => throw .fault
  | some t => do
    let pte ← readPte t (ptx va)
    writePte t (ptx va) (clearPerm pte permModified)

/-- The loop that clears the modified bits, for the `n` entries of the working set from `i` on. -/
def clearModified (e : Nat) : Nat → Nat → K Unit
  | 0, _ => return ()
  | n + 1, i => do
    match ((← get).envs e).ptrPageWorkingSet[i]? with
    | none => throw .fault
    | some w => do
      (if w.empty = false then clearModifiedPage e w.virtualAddress else return ())
      clearModified e n (i + 1)

/-- Step [9]: the first page of the stack. That the page file may have no room for it is not
checked. -/
def mapInitialStack (e : Nat) : K Unit := do
  let stackVa := ustackTop - pageSize
  let pp ← allocateFrame
  loadtimeMapFrame (.heap ((← get).envs e).envPageDirectory) pp stackVa (permUser ||| permWriteable)
  zeroUser e pageSize stackVa
  envPageWsSetEntry e ((← get).envs e).pageLastWSIndex stackVa
  advanceLastWSIndex e
  let _ ← pfAddEmptyEnvPage e stackVa 1
  return ()

/-- Steps [7] to [9] of `env_create` for the program at `ptrProgramStart`; `page_WS_max_size` is not
zero. The result is the entry point that `set_environment_entry_point` notes. -/
def loadProgram (m : KernelImage) (progName : List UInt8) (e ptrProgramStart : Nat) : K Nat := do
  let remainingWsPages := ((← get).envs e).pageWSMaxSize - 1
  let _ ← programSegmentForeach m ptrProgramStart (loadSegment m progName e)
    (remainingWsPages, 0xFFFFFFFF)
  clearModified e ((← get).envs e).pageWSMaxSize 0
  mapInitialStack e
  return eEntry m ptrProgramStart

end Fos
