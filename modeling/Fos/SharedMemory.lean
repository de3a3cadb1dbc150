import Fos.Boot
import Fos.EmptyTables

/-!
# Shared objects

`kern/shared_memory_manager.c`, and the frames storages of `kern/memory_manager.c`: the frames of a
shared object are listed in a page directory of its own, entry by entry, from address 0 up. The
names here fit the field `name` of `struct Share`.
-/

namespace Fos

open Function (update)

/-- `E_NO_SHARE` -/
abbrev eNoShare : Int := -14

/-- `E_SHARED_MEM_EXISTS` -/
abbrev eSharedMemExists : Int := -15

/-- `krealloc` returns the null pointer before any other of its statements. -/
def krealloc (_virtualAddress _newSize : Nat) : K Nat := return 0

/-! ## The frames storage -/

/-- `add_frame_to_storage` -/
def addFrameToStorage (framesStorage f index : Nat) : K Unit := do
  let va := u32 (index * pageSize)
  let t ← pageTableWith createPageTable (.heap framesStorage) va
  writePte t (ptx va) (constructEntry (f * 4096) permPresent)

/-- `get_frame_from_storage` -/
def getFrameFromStorage (framesStorage index : Nat) : K (Option Nat) := do
  let r ← getFrameInfo (.heap framesStorage) (u32 (index * pageSize))
  return r.map Prod.fst

/-- The loop of `clear_frames_storage` over `n` entries from index `i` on. -/
def clearFramesStorage (framesStorage : Nat) : Nat → Nat → K Unit
  | _, 0 => return ()
  | i, n + 1 => do
    let pde ← readPde (.heap framesStorage) i
    (if pde ≠ 0 then do
      kfree (kheapVirtualAddress (← get) (extractAddress pde))
      writePde (.heap framesStorage) i 0
    else pure ())
    clearFramesStorage framesStorage (i + 1) n

/-! ## The array of shared objects -/

/-- The table after entry `i` is overwritten. -/
def Shares.setShare (sh : Shares) (i : Nat) (share : Share) : Shares :=
  { sh with shares := update sh.shares i share }

/-- Entry `i`, through a null pointer once the array is lost. -/
def readShare (i : Nat) : K Share := do
  let s ← get
  if s.shares.null then throw .fault else return s.shares.shares i

def writeShare (i : Nat) (f : Share → Share) : K Unit := do
  let s ← get
  if s.shares.null then throw .fault
  else set (s.setShares (s.shares.setShare i (f (s.shares.shares i))))

/-- The search of `get_share_object_ID`. -/
def Shares.find (sh : Shares) (ownerID : Nat) (name : List UInt8) : Option Nat :=
  (List.range sh.maxShares).find? fun i =>
    !(sh.shares i).empty && (sh.shares i).ownerID == ownerID && (sh.shares i).name == name

/-- `get_share_object_ID` -/
def getShareObjectID (ownerID : Nat) (name : List UInt8) : K Int := do
  let s ← get
  if s.shares.null ∧ 0 < s.shares.maxShares then throw .fault
  else match s.shares.find ownerID name with
    | some i => return i
    | none => return eSharedMemNotExists

/-- The part of `allocate_share_object` after an entry is found. -/
def takeShareEntry (sharedObjectID : Nat) : K Int := do
  writeShare sharedObjectID fun share => { share with empty := false }
  let framesStorage ← kmalloc pageSize
  writeShare sharedObjectID fun share => { share with framesStorage := framesStorage }
  if framesStorage = 0 then
    throw (.panic "Kernel runs out of memory\nCan't create the framesStorage.")
  else do
    zeroWords framesStorage 1024
    return sharedObjectID

/-- `allocate_share_object`. The array of shared objects is the first block of the kernel heap. -/
def allocateShareObject : K Int := do
  let s ← get
  if s.shares.null ∧ 0 < s.shares.maxShares then throw .fault
  else match (List.range s.shares.maxShares).find? fun i => (s.shares.shares i).empty with
    | some i => takeShareEntry i
    | none => do
      let shares ← krealloc kernelHeapStart (u32 (2 * s.shares.maxShares))
      if shares = 0 then do
        set (s.setShares { s.shares with null := true })
        return eNoShare
      else do
        set (s.setShares { s.shares with maxShares := u32 (2 * s.shares.maxShares) })
        takeShareEntry s.shares.maxShares

/-- `free_share_object` -/
def freeShareObject (sharedObjectID : Nat) : K Int := do
  if (← get).shares.maxShares ≤ sharedObjectID then return eSharedMemNotExists
  else do
    let share ← readShare sharedObjectID
    clearFramesStorage share.framesStorage 0 1024
    kfree share.framesStorage
    writeShare sharedObjectID fun _ => { emptyShare with empty := true }
    return 0

/-! ## The calls of an environment -/

/-- The loop of `createSharedObject` over `n` pages from page `i` of the object on. -/
def createSharedPages (dir : DirPtr) (framesStorage : Nat) : Nat → Nat → Nat → K Unit
  | _, _, 0 => return ()
  | i, tmpVa, n + 1 => do
    let f ← allocateFrame
    mapFrame dir f tmpVa (permWriteable ||| permUser)
    addFrameToStorage framesStorage f i
    createSharedPages dir framesStorage (i + 1) (u32 (tmpVa + pageSize)) n

/-- `createSharedObject` -/
def createSharedObject (curenv ownerID : Nat) (shareName : List UInt8) (size isWritable
    virtualAddress : Nat) : K Int := do
  let ret2 ← getShareObjectID ownerID shareName
  if 0 ≤ ret2 then return eSharedMemExists
  else do
    let ret ← allocateShareObject
    if ret = eNoShare then return ret
    else do
      let newobj ← readShare ret.toNat
      let size := roundup size pageSize
      createSharedPages (.heap ((← get).envs curenv).envPageDirectory) newobj.framesStorage 0
        virtualAddress (size / pageSize)
      writeShare ret.toNat fun share =>
        { share with
          name := shareName
          ownerID := ownerID
          size := size
          isWritable := isWritable
          references := 1 }
      return ret

/-- `getSizeOfSharedObject` -/
def getSizeOfSharedObject (ownerID : Nat) (shareName : List UInt8) : K Int := do
  let sharedID ← getShareObjectID ownerID shareName
  if sharedID = eSharedMemNotExists then return sharedID
  else return (← readShare sharedID.toNat).size

/-- The loop of `getSharedObject` over `n` pages from page `i` of the object on. -/
def getSharedPages (dir : DirPtr) (share : Share) : Nat → Nat → Nat → K Unit
  | _, _, 0 => return ()
  | i, tmpVa, n + 1 => do
    match ← getFrameFromStorage share.framesStorage i with
    | none => throw .fault
    | some f => do
      mapFrame dir f tmpVa (if share.isWritable ≠ 0 then permWriteable ||| permUser else permUser)
      getSharedPages dir share (i + 1) (u32 (tmpVa + pageSize)) n

/-- `getSharedObject` -/
def getSharedObject (curenv ownerID : Nat) (shareName : List UInt8) (virtualAddress : Nat) :
    K Int := do
  let sharedID ← getShareObjectID ownerID shareName
  if sharedID = eSharedMemNotExists then return sharedID
  else do
    let share ← readShare sharedID.toNat
    getSharedPages (.heap ((← get).envs curenv).envPageDirectory) share 0 virtualAddress
      (share.size / pageSize)
    writeShare sharedID.toNat fun share => { share with references := u32 (share.references + 1) }
    return sharedID

/-- The search of `freeSharedObject` over `n` entries from entry `i` on. Two absent frames are two
null pointers, which are equal. -/
def findShareAt (dir : DirPtr) (temp : Nat) : Nat → Nat → K (Option Nat)
  | _, 0 => return none
  | i, n + 1 => do
    let share ← readShare i
    if share.empty then findShareAt dir temp (i + 1) n
    else do
      let f ← getFrameFromStorage share.framesStorage 0
      let f₁ ← getFrameInfo dir temp
      if f = f₁.map Prod.fst then return some i else findShareAt dir temp (i + 1) n

/-- The loop of `freeSharedObject` that unmaps `n` pages from `temp` up. -/
def unmapSharedPages (dir : DirPtr) : Nat → Nat → K Unit
  | _, 0 => return ()
  | temp, n + 1 => do
    unmapFrame dir temp
    unmapSharedPages dir (u32 (temp + pageSize)) n

/-- `freeSharedObject`. It does not look at the identifier that it is given. -/
def freeSharedObject (curenv startVA : Nat) : K Int := do
  let s ← get
  match ← findShareAt (.heap (s.envs curenv).envPageDirectory) startVA 0 s.shares.maxShares with
  | none => return eSharedMemNotExists
  | some i => do
    let share ← readShare i
    unmapSharedPages (.heap (s.envs curenv).envPageDirectory) startVA (share.size / pageSize)
    freeEmptyTables (.heap (s.envs curenv).envPageDirectory) startVA (share.size / pageSize)
    writeShare i fun share => { share with references := u32 (share.references + 4294967295) }
    (if (← readShare i).references = 0 then do
      let _ ← freeShareObject i
    else pure ())
    return 0

end Fos
