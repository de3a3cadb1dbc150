import Fos.Sched.RoundRobin
import Fos.Sched.SemaphoreRuns

/-!
# The life of an environment

`kern/sched.c` and the part of `kern/user_environment.c` that moves an environment from
`env_free_list` through `env_new_queue` to the scheduler and on to `env_exit_queue`. These lists
use the same `prev_next_info` as the ready queue and the queues of the semaphores.
-/

namespace Fos

/-! ## State -/

/-- The lists of environments that the scheduler does not run. -/
inductive Pool
  | free
  | new
  | exit
  deriving DecidableEq

/-- The scheduler, `env_free_list`, `env_new_queue` and `env_exit_queue`, and the `env_id` of the
`NENV` environments. -/
structure EnvTable where
  sched : Sched
  envFreeList : ListHead Nat
  envNewQueue : ListHead Nat
  envExitQueue : ListHead Nat
  envId : Nat → Nat
  nenv : Nat

/-- A call of the scheduler that sees all environments. -/
abbrev E := EStateM Stop EnvTable

namespace EnvTable

def pool (s : EnvTable) : Pool → ListHead Nat
  | .free => s.envFreeList
  | .new => s.envNewQueue
  | .exit => s.envExitQueue

/-- The links and the head of a pool after a `LIST_` macro. -/
def setPool (s : EnvTable) (k : Pool) (r : Links Nat × ListHead Nat) : EnvTable :=
  let sched := { s.sched with links := r.1 }
  match k with
  | .free => { s with sched := sched, envFreeList := r.2 }
  | .new => { s with sched := sched, envNewQueue := r.2 }
  | .exit => { s with sched := sched, envExitQueue := r.2 }

def setStatus (s : EnvTable) (e : Nat) (st : EnvStatus) : EnvTable :=
  { s with sched := s.sched.setStatus e st }

def insertTail (s : EnvTable) (k : Pool) (e : Nat) : EnvTable :=
  s.setPool k (listInsertTail s.sched.links (s.pool k) e)

def remove (s : EnvTable) (k : Pool) (e : Nat) : EnvTable :=
  s.setPool k (listRemove s.sched.links (s.pool k) e)

/-- The members of a list, as `LIST_FOREACH` visits them while its body leaves the list alone. -/
def members (s : EnvTable) (hd : ListHead Nat) : List Nat := s.sched.linear hd.size hd.first

/-- The search of a loop `LIST_FOREACH` for `env_id == envId`. -/
def find (s : EnvTable) (hd : ListHead Nat) (envId : Nat) : Option Nat :=
  (s.members hd).find? fun e => s.envId e == envId

/-! ## Scheduling -/

/-- `sched_insert_new`, of an environment that is not null. -/
def insertNew (s : EnvTable) (e : Nat) : EnvTable := (s.setStatus e .new).insertTail .new e

/-- `sched_remove_new`, of an environment that is not null. -/
def removeNew (s : EnvTable) (e : Nat) : EnvTable := (s.remove .new e).setStatus e .unknown

/-- `sched_insert_exit`, of an environment that is not null. -/
def insertExit (s : EnvTable) (e : Nat) : EnvTable := (s.setStatus e .exit).insertTail .exit e

def insertReady (s : EnvTable) (e : Nat) : EnvTable := { s with sched := s.sched.insertReady e }

def removeReady (s : EnvTable) (e : Nat) : EnvTable := { s with sched := s.sched.removeReady e }

def fosScheduler (s : EnvTable) : EnvTable := { s with sched := s.sched.fosScheduler }

/-- The call of `fos_scheduler` if the scheduler does not run yet. -/
def invokeScheduler (s : EnvTable) : EnvTable :=
  if s.sched.schedulerStatus = .stopped then s.fosScheduler else s

/-- `sched_run_env` -/
def schedRunEnv (s : EnvTable) (envId : Nat) : EnvTable :=
  match s.find s.envNewQueue envId with
  | none => s
  | some e => ((s.removeNew e).insertReady e).invokeScheduler

/-- The loop of `sched_run_all` from `e` on. `LIST_FOREACH` reads the next element before its body
removes this one. -/
def runAllLoop (s : EnvTable) : Nat → Option Nat → EnvTable
  | n + 1, some e => ((s.removeNew e).insertReady e).runAllLoop n (s.sched.links.next e)
  | _, _ => s

/-- `sched_run_all` -/
def schedRunAll (s : EnvTable) : EnvTable :=
  (s.runAllLoop s.envNewQueue.size s.envNewQueue.first).invokeScheduler

end EnvTable

/-- `sched_exit_env`. The test for the running environment follows `curenv`. -/
def schedExitEnv (envId : Nat) : E Unit := do
  let s ← get
  match s.find s.envNewQueue envId with
  | some e => set ((s.removeNew e).insertExit e)
  | none =>
    match s.find s.sched.envReadyQueue envId with
    | none => return ()
    | some e => do
      let s := (s.removeReady e).insertExit e
      match s.sched.curenv with
      | none => throw .fault
      | some cur => if s.envId cur = envId then set s.fosScheduler else set s

/-- `sched_new_env` -/
def schedNewEnv : Option Nat → E Unit
  | none => return ()
  | some e => modify (·.insertNew e)

/-! ## Creation -/

/-- `allocate_environment` -/
def allocateEnvironment : E (Option Nat) := do
  let s ← get
  match s.envFreeList.first with
  | none => return none
  | some e => do
    set (s.setStatus e .unknown)
    return some e

/-- The next `env_id` of entry `e`: the generation in the upper bits, the index in the lower. -/
def nextEnvId (nenv id e : Nat) : Nat :=
  let generation := (id + 4096) % 4294967296 &&& (4294967296 - nenv)
  (if toI32 generation ≤ 0 then 4096 else generation) ||| e

/-- `complete_environment_initialization` -/
def EnvTable.completeEnvironmentInitialization (s : EnvTable) (e : Nat) : EnvTable :=
  let s := { s with envId := Function.update s.envId e (nextEnvId s.nenv (s.envId e) e) }
  (s.setStatus e .new).remove .free e

/-- `env_create` of a program that `get_user_program_info` finds or not. What it does to memory in
between touches no list of environments. -/
def envCreate (found : Bool) : E (Option Nat) := do
  if !found then return none
  else
    match ← allocateEnvironment with
    | none => return none
    | some e => do
      modify (·.completeEnvironmentInitialization e)
      return some e

/-! ## Calls -/

/-- A call of the scheduler or of the semaphores on the whole table. -/
def onSched {α : Type} (x : T α) : E α := fun s =>
  match x s.sched with
  | .ok a t => .ok a { s with sched := t }
  | .error e t => .error e { s with sched := t }

/-- The commands and system calls that move environments between the lists, and the clock. -/
inductive EnvCall
  | create (found : Bool)
  | run (envId : Nat)
  | runAll
  | exit (envId : Nat)
  | createSemaphore (owner : Int) (name : List UInt8) (initial : Nat)
  | wait (owner : Int) (name : List UInt8)
  | signal (owner : Int) (name : List UInt8)
  | dispatch

def EnvCall.exec : EnvCall → E Unit
  | .create found => do schedNewEnv (← envCreate found)
  | .run envId => modify (·.schedRunEnv envId)
  | .runAll => modify (·.schedRunAll)
  | .exit envId => schedExitEnv envId
  | .createSemaphore owner name initial => do
    let _ ← onSched (Fos.createSemaphore owner name initial)
  | .wait owner name => onSched (waitSemaphore owner name)
  | .signal owner name => onSched (signalSemaphore owner name)
  | .dispatch => modify (·.fosScheduler)

/-- The name fits its field and the initial value an `int`; only a running environment waits and
signals, and the value of its semaphore stays an `int`. -/
def EnvCall.Legal (s : Sched) : EnvCall → Prop
  | .createSemaphore _ name initial => name.length < semaphoreNameSize ∧ initial < 2147483648
  | .wait owner name => s.curenv ≠ none ∧
      ∀ i, s.findSemaphore owner name = some i → -2147483648 ≤ (s.semaphores i).value - 1
  | .signal owner name => s.curenv ≠ none ∧
      ∀ i, s.findSemaphore owner name = some i → (s.semaphores i).value + 1 < 2147483648
  | _ => True

/-! ## Boot -/

/-- The loop of `env_init` that is left with the environments below `n`. -/
def envInitLoop : Nat → Links Nat × ListHead Nat → Links Nat × ListHead Nat
  | 0, l => l
  | n + 1, l => envInitLoop n (listInsertHead l.1 l.2 n)

/-- The table after `env_init`, `sched_init` and `create_semaphores_array`. -/
def bootEnvs (nenv maxSemaphores : Nat) : EnvTable :=
  let l := envInitLoop nenv (⟨fun _ => none, fun _ => none⟩, listInit)
  { sched := bootSched l.1 maxSemaphores
    envFreeList := l.2
    envNewQueue := listInit
    envExitQueue := listInit
    envId := fun _ => 0
    nenv := nenv }

end Fos
