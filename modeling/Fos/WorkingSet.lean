import Fos.PageFile

/-!
# Working sets

The page working set of an environment, and `page_fault_handler` of `kern/trap.c`, which places the
faulting page in a free entry or replaces the page of the next one.
-/

namespace Fos

/-! ## Entries -/

/-- `env_page_ws_get_size` -/
def Env.pageWsGetSize (env : Env) : Nat :=
  (env.ptrPageWorkingSet.take env.pageWSMaxSize).countP fun w => w.empty = false

/-- `env_page_ws_set_entry` -/
def envPageWsSetEntry (e entryIndex virtualAddress : Nat) : K Unit := do
  let env := (← get).envs e
  if env.pageWSMaxSize ≤ entryIndex then
    throw (.panic "assertion failed: entry_index >= 0 && entry_index < e->page_WS_max_size")
  else if userTop ≤ virtualAddress then
    throw (.panic "assertion failed: virtual_address >= 0 && virtual_address < USER_TOP")
  else modify fun s => s.setEnv e { env with
    ptrPageWorkingSet :=
      env.ptrPageWorkingSet.set entryIndex ⟨rounddown virtualAddress pageSize, false⟩ }

/-- `env_page_ws_clear_entry` -/
def envPageWsClearEntry (e entryIndex : Nat) : K Unit := do
  let env := (← get).envs e
  if env.pageWSMaxSize ≤ entryIndex then
    throw (.panic "assertion failed: entry_index >= 0 && entry_index < (e->page_WS_max_size)")
  else modify fun s => s.setEnv e { env with
    ptrPageWorkingSet := env.ptrPageWorkingSet.set entryIndex ⟨0, true⟩ }

/-- `page_last_WS_index` moves to the next entry. -/
def advanceLastWSIndex (e : Nat) : K Unit :=
  modify fun s => s.setEnv e { s.envs e with
    pageLastWSIndex := ((s.envs e).pageLastWSIndex + 1) % (s.envs e).pageWSMaxSize }

/-- `pt_get_page_permissions` -/
def ptGetPagePermissions (e va : Nat) : K Nat := do
  let dir := DirPtr.heap ((← get).envs e).envPageDirectory
  let pde ← readPde dir (pdx va)
  if present pde then do
    let pte ← readPte (tableOf (← get) va pde) (ptx va)
    return pte &&& 0x00000FFF
  else if pde ≠ 0 then throw .fault
  else return 0

/-! ## Page faults -/

/-- The end of both branches of `page_fault_handler`: the page is read from the page file, or added
to it when it is a page of the stack, and entered into the working set. -/
def enterFaultingPage (curenv faultVa initializeByZero : Nat) (invalid : String) : K Unit := do
  let ret ← pfReadEnvPage curenv curenv faultVa
  (if ret ≠ 0 then
    if faultVa < ustackTop ∧ ustackBottom ≤ faultVa then do
      let _ ← pfAddEmptyEnvPage curenv faultVa initializeByZero
      return ()
    else throw (.panic invalid)
  else return ())
  envPageWsSetEntry curenv ((← get).envs curenv).pageLastWSIndex faultVa
  advanceLastWSIndex curenv

/-- The branch of `page_fault_handler` for a working set with room. -/
def placePage (curenv faultVa : Nat) : K Unit := do
  let dir := DirPtr.heap ((← get).envs curenv).envPageDirectory
  let fi ← allocateFrame
  mapFrame dir fi faultVa (permUser ||| permWriteable)
  enterFaultingPage curenv faultVa 0 "invalid access in page file \n!!!.."

/-- The branch for a full working set. A page with permissions has a frame, so `fi` is not null
where it is used. -/
def replacePage (curenv faultVa : Nat) : K Unit := do
  let env := (← get).envs curenv
  let dir := DirPtr.heap env.envPageDirectory
  match env.ptrPageWorkingSet[env.pageLastWSIndex]? with
  | none => throw .fault
  | some victim => do
    let victimVa := victim.virtualAddress
    let fi ← getFrameInfo dir victimVa
    if modified (← ptGetPagePermissions curenv victimVa) then do
      match fi with
      | none => throw .fault
      | some (fi, _) => do
        let _ ← pfUpdateEnvPage curenv victimVa fi
        unmapFrame dir victimVa
    else unmapFrame dir victimVa
    envPageWsClearEntry curenv env.pageLastWSIndex
    let fi ← allocateFrame
    mapFrame dir fi faultVa (permUser ||| permWriteable)
    enterFaultingPage curenv faultVa 1 "invalid access !!!.."

/-- `page_fault_handler` -/
def pageFaultHandler (curenv faultVa : Nat) : K Unit := do
  let env := (← get).envs curenv
  if env.pageWsGetSize < env.pageWSMaxSize then placePage curenv faultVa
  else replacePage curenv faultVa

end Fos
