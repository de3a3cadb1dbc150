import Fos.Kernel
import Fos.Queue

/-!
# The scheduler and the semaphores

`kern/sched.c` and `kern/semaphore_manager.c`. An environment is its index in `envs`. Every queue
of environments is linked through the one `prev_next_info` of each environment.
-/

namespace Fos

/-! ## State -/

/-- `env_status`. -/
inductive EnvStatus
  | free
  | ready
  | blocked
  | new
  | exit
  | unknown
  deriving DecidableEq, Repr

/-- `scheduler_status`. -/
inductive SchedulerStatus
  | started
  | stopped
  deriving DecidableEq, Repr

/-- `struct Semaphore`. A C string is the list of its bytes before the terminating null. -/
structure Semaphore where
  ownerID : Int
  name : List UInt8
  envQueue : ListHead Nat
  value : Int
  empty : Bool

/-- The length of the field `name` of `struct Semaphore`, the terminating null included. -/
abbrev semaphoreNameSize : Nat := 64

/-- The globals of the scheduler and the semaphores, with the two fields of each environment that
they use. `semaphoresNull` says that the pointer to the array was lost. -/
structure Sched where
  links : Links Nat
  envStatus : Nat → EnvStatus
  envReadyQueue : ListHead Nat
  schedNext : Option Nat
  curenv : Option Nat
  schedulerStatus : SchedulerStatus
  semaphores : Nat → Semaphore
  maxSemaphores : Nat
  semaphoresNull : Bool

/-- A call of the scheduler or of the semaphores. -/
abbrev T := EStateM Stop Sched

/-- The queues of environments. -/
inductive QueueId
  | ready
  | sem (i : Nat)
  deriving DecidableEq

namespace Sched

def head (s : Sched) : QueueId → ListHead Nat
  | .ready => s.envReadyQueue
  | .sem i => (s.semaphores i).envQueue

def setSemaphore (s : Sched) (i : Nat) (sem : Semaphore) : Sched :=
  { s with semaphores := Function.update s.semaphores i sem }

/-- The links and one head after a `LIST_` macro. -/
def setQueue (s : Sched) (q : QueueId) (r : Links Nat × ListHead Nat) : Sched :=
  match q with
  | .ready => { s with links := r.1, envReadyQueue := r.2 }
  | .sem i => { s.setSemaphore i { s.semaphores i with envQueue := r.2 } with links := r.1 }

def setStatus (s : Sched) (e : Nat) (st : EnvStatus) : Sched :=
  { s with envStatus := Function.update s.envStatus e st }

def setNext (s : Sched) (next : Option Nat) : Sched := { s with schedNext := next }

/-! ## Scheduling -/

/-- `sched_next_circular` -/
def schedNextCircular (s : Sched) : Option Nat → Option Nat
  | none => none
  | some env => (s.links.next env).or s.envReadyQueue.first

/-- `sched_insert_ready`, of an environment that is not null. -/
def insertReady (s : Sched) (env : Nat) : Sched :=
  let s := s.setStatus env .ready
  match s.schedNext with
  | some next => s.setQueue .ready (listInsertBefore s.links s.envReadyQueue next env)
  | none => (s.setQueue .ready (listInsertTail s.links s.envReadyQueue env)).setNext env

/-- `sched_remove_ready`, of an environment that is not null. -/
def removeReady (s : Sched) (env : Nat) : Sched :=
  let next :=
    if s.schedNext = some env then
      if s.schedNextCircular env = some env then none else s.schedNextCircular env
    else s.schedNext
  let s := s.setNext next
  (s.setQueue .ready (listRemove s.links s.envReadyQueue env)).setStatus env .unknown

/-- `fos_scheduler`: `env_run` of the next environment, or back to the command prompt. -/
def fosScheduler (s : Sched) : Sched :=
  let current := s.schedNext
  let s := s.setNext (s.schedNextCircular s.schedNext)
  { s with
    curenv := current
    schedulerStatus := if current.isSome then .started else .stopped }

end Sched

/-! ## Semaphores -/

/-- The value of an `int` after an operation with exact result `n`. -/
def toI32 (n : Int) : Int := (n + 2147483648) % 4294967296 - 2147483648

theorem toI32_of_range {n : Int} (h : -2147483648 ≤ n ∧ n < 2147483648) : toI32 n = n := by
  unfold toI32; omega

abbrev eNoSemaphore : Int := -11
abbrev eSemaphoreExists : Int := -12
abbrev eSemaphoreNotExists : Int := -13

/-- The search for a used semaphore, `get_semaphore_object_ID` and the loops of `createSemaphore`,
`waitSemaphore` and `signalSemaphore`. -/
def Sched.findSemaphore (s : Sched) (ownerID : Int) (name : List UInt8) : Option Nat :=
  (List.range s.maxSemaphores).find? fun i =>
    !(s.semaphores i).empty && (s.semaphores i).ownerID == ownerID && (s.semaphores i).name == name

/-- `get_semaphore_object_ID` -/
def getSemaphoreObjectID (ownerID : Int) (name : List UInt8) : T Int := do
  let s ← get
  if s.semaphoresNull ∧ 0 < s.maxSemaphores then throw .fault
  else match s.findSemaphore ownerID name with
    | some i => return i
    | none => return eSemaphoreNotExists

/-- `allocate_semaphore_object`. A full table is given to `krealloc`, which returns null. -/
def allocateSemaphoreObject : T Int := do
  let s ← get
  if s.semaphoresNull ∧ 0 < s.maxSemaphores then throw .fault
  else match (List.range s.maxSemaphores).find? fun i => (s.semaphores i).empty with
  | none => do
    set { s with semaphoresNull := true }
    return eNoSemaphore
  | some i => do
    set (s.setSemaphore i { s.semaphores i with empty := false })
    return i

/-- `createSemaphore` -/
def createSemaphore (ownerEnvID : Int) (semaphoreName : List UInt8) (initialValue : Nat) :
    T Int := do
  let s ← get
  if s.semaphoresNull then throw .fault
  else if (s.findSemaphore ownerEnvID semaphoreName).isSome then return eSemaphoreExists
  else do
    let ret ← allocateSemaphoreObject
    if ret ≠ eNoSemaphore then do
      modify fun s => s.setSemaphore ret.toNat
        { s.semaphores ret.toNat with
          empty := false
          name := semaphoreName
          value := toI32 initialValue
          ownerID := ownerEnvID }
      return ret
    else return ret

/-- `waitSemaphore` of the running environment. -/
def waitSemaphore (ownerEnvID : Int) (semaphoreName : List UInt8) : T Unit := do
  let s ← get
  if s.semaphoresNull then throw .fault
  else match s.findSemaphore ownerEnvID semaphoreName with
    | none => return ()
    | some i => do
      let val := toI32 ((s.semaphores i).value - 1)
      let s := s.setSemaphore i { s.semaphores i with value := val }
      if val < 0 then
        match s.curenv with
        | none => throw .fault
        | some myenv => do
          let s := s.removeReady myenv
          let s := s.setQueue (.sem i) (listInsertHead s.links (s.head (.sem i)) myenv)
          set (s.setStatus myenv .blocked).fosScheduler
      else set s.fosScheduler

/-- `signalSemaphore`. `dequeue` takes the last element, through a null pointer if there is none. -/
def signalSemaphore (ownerEnvID : Int) (semaphoreName : List UInt8) : T Unit := do
  let s ← get
  if s.semaphoresNull then throw .fault
  else match s.findSemaphore ownerEnvID semaphoreName with
    | none => return ()
    | some i => do
      let val := toI32 ((s.semaphores i).value + 1)
      let s := s.setSemaphore i { s.semaphores i with value := val }
      if val ≤ 0 then
        match (s.head (.sem i)).last with
        | none => throw .fault
        | some newenv => do
          let s := s.setQueue (.sem i) (listRemove s.links (s.head (.sem i)) newenv)
          set ((s.insertReady newenv).setStatus newenv .ready)
      else set s

/-! ## Boot -/

/-- `initialize_environments`, `sched_init` and `create_semaphores_array`. The links are those of
the list of free environments. -/
def bootSched (links : Links Nat) (maxSemaphores : Nat) : Sched where
  links := links
  envStatus := fun _ => .free
  envReadyQueue := listInit
  schedNext := none
  curenv := none
  schedulerStatus := .stopped
  semaphores := fun _ => ⟨0, [], listInit, 0, true⟩
  maxSemaphores := maxSemaphores
  semaphoresNull := false

end Fos
