import Fos.Lib.Bytes
import Fos.Sched
import Fos.SharedMemory

/-!
# The object tables, byte by byte

The arrays of `struct Share` and `struct Semaphore` as the bytes from the start of the array on.
Both structures begin with `ownerID` and `char name[64]`, and `strcpy` of a longer name runs into
the fields behind it. The frames of a shared object and the scheduling of environments are left to
the models of the memory and of the scheduler.
-/

namespace Fos

open Bytes (Mem CString load32 store8 store32 clear strcpy strcmp)

/-- An array of objects, whose pointer may be lost. -/
structure ObjectTable where
  bytes : Mem
  max : Nat
  null : Bool

/-- Where the two structures differ: their size and the offset of `empty`. The offset of `ownerID`
is 0 and that of `name` is 4 in both. -/
structure EntryLayout where
  size : Nat
  emptyAt : Nat

/-- `struct Share`: `size` at 68, `references` at 72, `isWritable` at 76, `empty` at 77 and
`framesStorage` at 80. -/
abbrev shareLayout : EntryLayout := ⟨84, 77⟩

/-- `struct Semaphore`: the four words of `env_queue` at 68, `value` at 84 and `empty` at 88. -/
abbrev semaphoreLayout : EntryLayout := ⟨92, 88⟩

/-- A call on one of the tables. -/
abbrev O := EStateM Stop ObjectTable

namespace ObjectTable

/-! ## Either table -/

section

variable (lay : EntryLayout)

/-- The search for an object by its owner and its name. -/
def find (t : ObjectTable) (ownerID : UInt32) (name : CString) : Option Nat :=
  (List.range t.max).find? fun i =>
    t.bytes (i * lay.size + lay.emptyAt) = 0 ∧ load32 t.bytes (i * lay.size) = ownerID.toNat ∧
      strcmp t.bytes name.1 (i * lay.size + 4) = 0

/-- The search for an empty entry. -/
def vacant (t : ObjectTable) : Option Nat :=
  (List.range t.max).find? fun i => t.bytes (i * lay.size + lay.emptyAt) ≠ 0

def modifyBytes (f : Mem → Mem) : O Unit := modify fun t => { t with bytes := f t.bytes }

/-- The search by owner and name; `notExists` is the error of the table. -/
def getObjectID (notExists : Int) (ownerID : UInt32) (name : CString) : O Int := do
  let t ← get
  if t.null ∧ 0 < t.max then throw .fault
  else match t.find lay ownerID name with
    | some i => return i
    | none => return notExists

/-- The first empty entry is taken; in a full table the pointer is overwritten with the null pointer
that `krealloc` returns, and `full` is the error. -/
def allocateObject (full : Int) : O Int := do
  let t ← get
  if t.null ∧ 0 < t.max then throw .fault
  else match t.vacant lay with
    | none => do
      set { t with null := true }
      return full
    | some i => do
      modifyBytes fun m => store8 m (i * lay.size + lay.emptyAt) 0
      return i

/-- The entry is cleared and marked empty. -/
def freeObject (notExists : Int) (objectID : Nat) : O Int := do
  if (← get).max ≤ objectID then return notExists
  else do
    modifyBytes fun m =>
      store8 (clear m (objectID * lay.size) lay.size) (objectID * lay.size + lay.emptyAt) 1
    return 0

/-- The array after `create_shares_array` or `create_semaphores_array`, before the bytes `rest` that
lie behind it. -/
def created (max : Nat) (rest : Mem) : ObjectTable where
  bytes a :=
    if a < max * lay.size then if a % lay.size = lay.emptyAt then 1 else 0 else rest a
  max := max
  null := false

end

/-! ## Shared objects -/

/-- `get_share_object_ID` -/
def getShareObjectID : UInt32 → CString → O Int := getObjectID shareLayout eSharedMemNotExists

/-- `allocate_share_object`, with the page that `kmalloc` returned for the frames storage. -/
def allocateShareObject (framesStorage : UInt32) : O Int := do
  let sharedObjectID ← allocateObject shareLayout eNoShare
  if sharedObjectID = eNoShare then return sharedObjectID
  else do
    modifyBytes fun m => store32 m (sharedObjectID.toNat * 84 + 80) framesStorage.toNat
    return sharedObjectID

/-- `free_share_object` -/
def freeShareObject : Nat → O Int := freeObject shareLayout eSharedMemNotExists

/-- `createSharedObject` -/
def createSharedObject (framesStorage ownerID : UInt32) (shareName : CString) (size : Nat)
    (isWritable : UInt8) : O Int := do
  let ret2 ← getShareObjectID ownerID shareName
  if 0 ≤ ret2 then return eSharedMemExists
  else do
    let ret ← allocateShareObject framesStorage
    if ret = eNoShare then return ret
    else do
      let newobj := ret.toNat * 84
      modifyBytes fun m => strcpy m (newobj + 4) shareName.1
      modifyBytes fun m => store32 m newobj ownerID.toNat
      modifyBytes fun m => store32 m (newobj + 68) (roundup size pageSize)
      modifyBytes fun m => store8 m (newobj + 76) isWritable
      modifyBytes fun m => store32 m (newobj + 72) 1
      return ret

/-- `getSharedObject` -/
def getSharedObject (ownerID : UInt32) (shareName : CString) : O Int := do
  let sharedID ← getShareObjectID ownerID shareName
  if sharedID = eSharedMemNotExists then return sharedID
  else do
    let references := sharedID.toNat * 84 + 72
    modifyBytes fun m => store32 m references (u32 (load32 m references + 1))
    return sharedID

/-- `freeSharedObject`, once the search by frames ended at the entry `sharedIndex`. It passes over
empty entries. -/
def freeSharedObject (sharedIndex : Nat) : O Int := do
  let t ← get
  if t.null ∧ 0 < t.max then throw .fault
  else if t.max ≤ sharedIndex ∨ t.bytes (sharedIndex * 84 + 77) ≠ 0 then return eSharedMemNotExists
  else do
    let references := sharedIndex * 84 + 72
    modifyBytes fun m => store32 m references (u32Sub (load32 m references) 1)
    if load32 (← get).bytes references = 0 then do
      let _ ← freeShareObject sharedIndex
      return 0
    else return 0

/-! ## Semaphores -/

/-- `get_semaphore_object_ID` -/
def getSemaphoreObjectID : UInt32 → CString → O Int :=
  getObjectID semaphoreLayout eSemaphoreNotExists

/-- `allocate_semaphore_object` -/
def allocateSemaphoreObject : O Int := allocateObject semaphoreLayout eNoSemaphore

/-- `free_semaphore_object`; clearing the entry empties the queue. -/
def freeSemaphoreObject : Nat → O Int := freeObject semaphoreLayout eSemaphoreNotExists

/-- `createSemaphore` -/
def createSemaphore (ownerEnvID : UInt32) (semaphoreName : CString) (initialValue : UInt32) :
    O Int := do
  let t ← get
  if t.null ∧ 0 < t.max then throw .fault
  else if (t.find semaphoreLayout ownerEnvID semaphoreName).isSome then return eSemaphoreExists
  else do
    let ret ← allocateSemaphoreObject
    if ret ≠ eNoSemaphore then do
      let sem := ret.toNat * 92
      modifyBytes fun m => store8 m (sem + 88) 0
      modifyBytes fun m => strcpy m (sem + 4) semaphoreName.1
      modifyBytes fun m => store32 m (sem + 84) initialValue.toNat
      modifyBytes fun m => store32 m sem ownerEnvID.toNat
      return ret
    else return ret

/-- The head of a queue of environments: `lh_first`, `lh_last`, `___ptr_next` and `size`. -/
structure QueueWords where
  first : UInt32
  last : UInt32
  ptrNext : UInt32
  size : UInt32

/-- The loop of `waitSemaphore` and `signalSemaphore`, which tests `empty != 1`. -/
def findSemaphore (t : ObjectTable) (ownerEnvID : UInt32) (semaphoreName : CString) : Option Nat :=
  (List.range t.max).find? fun i =>
    t.bytes (i * 92 + 88) ≠ 1 ∧ load32 t.bytes (i * 92) = ownerEnvID.toNat ∧
      strcmp t.bytes semaphoreName.1 (i * 92 + 4) = 0

/-- What `waitSemaphore` and `signalSemaphore` do to the table: `value` changes by `change`, and
when they call `enqueue` or `dequeue`, the words of `env_queue` become `queue`. -/
def changeSemaphore (change : Int) (ownerEnvID : UInt32) (semaphoreName : CString)
    (queue : Option QueueWords) : O Unit := do
  let t ← get
  if t.null ∧ 0 < t.max then throw .fault
  else match t.findSemaphore ownerEnvID semaphoreName with
    | none => return ()
    | some i => do
      let sem := i * 92
      modifyBytes fun m =>
        store32 m (sem + 84) ((load32 m (sem + 84) + change) % 4294967296).toNat
      match queue with
      | none => return ()
      | some q => do
        modifyBytes fun m => store32 m (sem + 68) q.first.toNat
        modifyBytes fun m => store32 m (sem + 72) q.last.toNat
        modifyBytes fun m => store32 m (sem + 76) q.ptrNext.toNat
        modifyBytes fun m => store32 m (sem + 80) q.size.toNat

/-- `waitSemaphore` -/
def waitSemaphore : UInt32 → CString → Option QueueWords → O Unit := changeSemaphore (-1)

/-- `signalSemaphore` -/
def signalSemaphore : UInt32 → CString → Option QueueWords → O Unit := changeSemaphore 1

end ObjectTable

end Fos
