import Fos.Mmu
import Fos.Sched.Exclusive

/-!
# The identifiers of environments

An `env_id` packs a generation and the index of the environment in `envs`. It is made by
`complete_environment_initialization`, cleared by `free_environment`, and decoded by `envid2env`
through the mask `ENVX`, which takes `NENV` for a power of two.
-/

namespace Fos

open Prog (ok_inj)
open Relation (ReflTransGen)

/-! ## The table of environments -/

/-- `sizeof(struct Env)`: the trap frame, the links, four words up to `env_runs`, two for the
directory, four for the page file, two for the page working set, the table working set, two
indices, four counters, the name and the user's view of the working set. -/
abbrev sizeofEnv : Nat :=
  68 + 8 + 16 + 8 + 16 + 8 + 50 * sizeofWorkingSetElement + 8 + 16 + 64 + 4

/-- `NENV`: the environments that fit in a quarter of `PTSIZE`. -/
def nenv : Nat := 4194304 / 4 / sizeofEnv

/-- `ENVX` -/
def envx (nenv envid : Nat) : Nat := envid &&& (nenv - 1)

abbrev eBadEnv : Int := -2

/-- `envid2env`: the result and the environment that is stored. `parentId` is the `env_parent_id`
of each environment. -/
def envid2env (parentId : Nat → Nat) (envid : Nat) (checkperm : Bool) : E (Int × Option Nat) := do
  let s ← get
  if envid = 0 then return (0, s.sched.curenv)
  else
    let e := envx s.nenv envid
    if s.sched.envStatus e = .free ∨ s.envId e ≠ envid then return (eBadEnv, none)
    else if checkperm ∧ s.sched.curenv ≠ some e then
      match s.sched.curenv with
      | none => throw .fault
      | some cur => if parentId e ≠ s.envId cur then return (eBadEnv, none) else return (0, some e)
    else return (0, some e)

/-- `free_environment`: the record is cleared, its links too, before it enters the list. -/
def EnvTable.freeEnvironment (s : EnvTable) (e : Nat) : EnvTable :=
  let cleared : Links Nat := ⟨Function.update s.sched.links.next e none,
    Function.update s.sched.links.prev e none⟩
  let s := { s with
    sched := { s.sched with links := cleared }
    envId := Function.update s.envId e 0 }
  let s := s.setStatus e .free
  s.setPool .free (listInsertHead s.sched.links s.envFreeList e)

/-! ## Runs -/

/-- The calls that give and take identifiers. -/
inductive IdCall
  | allocate
  | complete (e : Nat)
  | free (e : Nat)

def IdCall.exec : IdCall → E Unit
  | .allocate => do let _ ← allocateEnvironment
  | .complete e => modify (·.completeEnvironmentInitialization e)
  | .free e => modify (·.freeEnvironment e)

/-- An environment that was completed and not freed since. -/
def EnvTable.Created (s : EnvTable) (e : Nat) : Prop :=
  e < s.nenv ∧ s.sched.envStatus e ≠ .free ∧ s.sched.envStatus e ≠ .unknown

/-- Only an allocated environment is completed, and only a created one is freed. -/
def IdCall.Legal (s : EnvTable) : IdCall → Prop
  | .allocate => True
  | .complete e => e < s.nenv ∧ s.sched.envStatus e = .unknown
  | .free e => s.Created e

/-- The calls of a run, the identifiers it gave, and those of the environments it freed, the latest
first. -/
structure IdHistory where
  calls : List IdCall
  given : List Nat
  freed : List Nat

def IdHistory.record (h : IdHistory) (s t : EnvTable) : IdCall → IdHistory
  | .allocate => { h with calls := .allocate :: h.calls }
  | .complete e => { h with calls := .complete e :: h.calls, given := t.envId e :: h.given }
  | .free e => { h with calls := .free e :: h.calls, freed := s.envId e :: h.freed }

inductive IdStep : EnvTable × IdHistory → EnvTable × IdHistory → Prop
  | call {s t : EnvTable} {h : IdHistory} {call : IdCall} (hl : call.Legal s)
      (hc : call.exec s = .ok () t) : IdStep (s, h) (t, h.record s t call)

/-- A run from boot. -/
def IdRun (maxSemaphores : Nat) (s : EnvTable) (h : IdHistory) : Prop :=
  ReflTransGen IdStep (bootEnvs nenv maxSemaphores, ⟨[], [], []⟩) (s, h)

/-- No environment is completed in a slot that was freed before. -/
def NoReuse : List IdCall → Prop
  | [] => True
  | .complete e :: calls => IdCall.free e ∉ calls ∧ NoReuse calls
  | _ :: calls => NoReuse calls

/-! ## Identifiers -/

theorem or_index {e : Nat} (he : e < 4096) : 4096 ||| e = 4096 + e := by
  have h := Nat.two_pow_add_eq_or_of_lt (i := 12) he 1
  simpa using h.symm

theorem nenv_eq : nenv = 1285 := rfl

theorem or_index_inj {e f : Nat} (he : e < nenv) (hf : f < nenv) (h : 4096 ||| e = 4096 ||| f) :
    e = f := by
  rw [nenv_eq] at he hf
  rw [or_index (by omega), or_index (by omega)] at h
  omega

/-- The first identifier of an entry. -/
theorem nextEnvId_zero (e : Nat) : nextEnvId nenv 0 e = 4096 ||| e := by
  have hgen : (0 + 4096) % 4294967296 &&& (4294967296 - nenv) = 4096 := by decide
  rw [nextEnvId, hgen, if_neg (by decide)]

/-! ## The invariant of a run -/

/-- What the calls made so far say about the table: a slot holds an environment from its completion
to its free, the identifier of an environment is that of its slot, and a slot in the list has
none. -/
structure IdInv (s : EnvTable) (h : IdHistory) (xs : List Nat) : Prop where
  size : s.nenv = nenv
  list : IsList s.sched.links s.envFreeList xs
  listed : ∀ e, e ∈ xs ↔ e < nenv ∧ s.sched.envStatus e ≠ .new
  status : ∀ e, s.sched.envStatus e = .free ∨ s.sched.envStatus e = .unknown ∨
    (s.sched.envStatus e = .new ∧ e < nenv)
  id : ∀ e, s.envId e = if s.sched.envStatus e = .new then 4096 ||| e else 0
  completed : ∀ e, IdCall.complete e ∈ h.calls ↔ s.sched.envStatus e = .new ∨ .free e ∈ h.calls
  bound : ∀ e, IdCall.complete e ∈ h.calls → e < nenv
  given : h.given = h.calls.filterMap fun
    | .complete e => some (4096 ||| e)
    | _ => none
  freed : h.freed = h.calls.filterMap fun
    | .free e => some (4096 ||| e)
    | _ => none
  reuse : NoReuse h.calls → ∀ e, .free e ∈ h.calls → s.sched.envStatus e ≠ .new

section

variable {s t : EnvTable} {h : IdHistory} {xs : List Nat} {e : Nat}

theorem IdInv.created (hi : IdInv s h xs) : s.Created e ↔ s.sched.envStatus e = .new := by
  constructor
  · rintro ⟨-, hfree, hunknown⟩
    rcases hi.status e with hst | hst | ⟨hst, -⟩
    · exact absurd hst hfree
    · exact absurd hst hunknown
    · exact hst
  · intro hnew
    rcases hi.status e with hst | hst | ⟨-, hlt⟩
    · rw [hnew] at hst
      cases hst
    · rw [hnew] at hst
      cases hst
    · exact ⟨hi.size ▸ hlt, by rw [hnew]; decide, by rw [hnew]; decide⟩

/-- A created environment has the first identifier of its slot. -/
theorem IdInv.id_created (hi : IdInv s h xs) (hc : s.Created e) : s.envId e = 4096 ||| e := by
  rw [hi.id, if_pos (hi.created.1 hc)]

/-- The identifiers that were given are those of the slots that were completed. -/
theorem IdInv.mem_given (hi : IdInv s h xs) {id : Nat} :
    id ∈ h.given ↔ ∃ e, IdCall.complete e ∈ h.calls ∧ id = 4096 ||| e := by
  rw [hi.given, List.mem_filterMap]
  constructor
  · rintro ⟨call, hmem, hid⟩
    cases call with
    | complete e => exact ⟨e, hmem, (Option.some.inj hid).symm⟩
    | allocate => cases hid
    | free e => cases hid
  · rintro ⟨e, hmem, rfl⟩
    exact ⟨_, hmem, rfl⟩

theorem IdInv.mem_freed (hi : IdInv s h xs) {id : Nat} :
    id ∈ h.freed ↔ ∃ e, IdCall.free e ∈ h.calls ∧ id = 4096 ||| e := by
  rw [hi.freed, List.mem_filterMap]
  constructor
  · rintro ⟨call, hmem, hid⟩
    cases call with
    | free e => exact ⟨e, hmem, (Option.some.inj hid).symm⟩
    | allocate => cases hid
    | complete e => cases hid
  · rintro ⟨e, hmem, rfl⟩
    exact ⟨_, hmem, rfl⟩

/-! ### One call -/

theorem IdInv.boot (maxSemaphores : Nat) :
    IdInv (bootEnvs nenv maxSemaphores) ⟨[], [], []⟩ (List.range nenv) where
  size := rfl
  list := isList_bootEnvs nenv maxSemaphores
  listed e := by
    rw [List.mem_range]
    exact ⟨fun he => ⟨he, fun hst => (by cases hst)⟩, fun he => he.1⟩
  status _ := .inl rfl
  id _ := rfl
  completed _ := by simp [bootEnvs, bootSched]
  bound _ hmem := by cases hmem
  given := rfl
  freed := rfl
  reuse _ _ hmem := by cases hmem

/-- `allocate_environment` marks the first free environment. -/
theorem IdInv.allocate (hi : IdInv s h xs) (hc : IdCall.allocate.exec s = .ok () t) :
    IdInv t (h.record s t .allocate) xs := by
  obtain ⟨a, s₁, halloc, hc⟩ := Prog.bind_eq_ok.1 hc
  obtain ⟨-, rfl⟩ := ok_inj.1 hc
  rw [allocateEnvironment, Prog.get_bind_apply] at halloc
  have hcall : ∀ e, IdCall.complete e ∈ IdCall.allocate :: h.calls ↔ .complete e ∈ h.calls := by
    intro e
    simp
  have hfree : ∀ e, IdCall.free e ∈ IdCall.allocate :: h.calls ↔ .free e ∈ h.calls := by
    intro e
    simp
  cases hfirst : s.envFreeList.first with
  | none =>
    rw [hfirst] at halloc
    obtain ⟨-, rfl⟩ := ok_inj.1 halloc
    refine ⟨hi.size, hi.list, hi.listed, hi.status, hi.id, fun e => ?_, fun e he => ?_, hi.given,
      hi.freed, fun hn e he => ?_⟩
    · exact (hcall e).trans ((hi.completed e).trans (or_congr_right (hfree e).symm))
    · exact hi.bound e ((hcall e).1 he)
    · exact hi.reuse hn e ((hfree e).1 he)
  | some x =>
    rw [hfirst] at halloc
    obtain ⟨-, rfl⟩ := ok_inj.1 halloc
    have hx : x ∈ xs := List.mem_of_head? (hi.list.first.symm.trans hfirst)
    have hold := (hi.listed x).1 hx
    -- the first element was not created and is not now
    have hnew : ∀ e, (s.setStatus x .unknown).sched.envStatus e = .new ↔
        s.sched.envStatus e = .new := by
      intro e
      show Function.update s.sched.envStatus x .unknown e = .new ↔ _
      rcases eq_or_ne e x with rfl | hex
      · rw [Function.update_self]
        exact ⟨fun hst => (by cases hst), fun hst => absurd hst hold.2⟩
      · rw [Function.update_of_ne hex]
    refine ⟨hi.size, hi.list, fun e => ?_, fun e => ?_, fun e => ?_, fun e => ?_, fun e he => ?_,
      hi.given, hi.freed, fun hn e he => ?_⟩
    · rw [Ne, hnew e]
      exact hi.listed e
    · rcases eq_or_ne e x with rfl | hex
      · exact .inr (.inl (Function.update_self ..))
      · rw [show (s.setStatus x .unknown).sched.envStatus e = s.sched.envStatus e from
          Function.update_of_ne hex _ _]
        exact hi.status e
    · simp only [hnew e]
      exact hi.id e
    · rw [hnew e]
      exact (hcall e).trans ((hi.completed e).trans (or_congr_right (hfree e).symm))
    · exact hi.bound e ((hcall e).1 he)
    · rw [Ne, hnew e]
      exact hi.reuse hn e ((hfree e).1 he)

/-- `complete_environment_initialization` gives a slot without an environment its first
identifier. -/
theorem IdInv.complete (hi : IdInv s h xs) (hl : (IdCall.complete e).Legal s) :
    ∃ ys, IdInv (s.completeEnvironmentInitialization e)
      (h.record s (s.completeEnvironmentInitialization e) (.complete e)) ys := by
  obtain ⟨hlt, hst⟩ := hl
  have hlt : e < nenv := hi.size ▸ hlt
  have hnot : s.sched.envStatus e ≠ .new := by
    rw [hst]
    decide
  obtain ⟨pre, post, hsplit⟩ := List.append_of_mem ((hi.listed e).2 ⟨hlt, hnot⟩)
  -- a slot that is free has id 0, so the counter starts from its first value
  have hid : (s.completeEnvironmentInitialization e).envId e = 4096 ||| e := by
    show Function.update s.envId e (nextEnvId s.nenv (s.envId e) e) e = _
    rw [Function.update_self, hi.id, if_neg hnot, hi.size, nextEnvId_zero]
  have hids : ∀ f, f ≠ e → (s.completeEnvironmentInitialization e).envId f = s.envId f :=
    fun f hf => Function.update_of_ne hf _ _
  have hself : (s.completeEnvironmentInitialization e).sched.envStatus e = .new :=
    Function.update_self ..
  have hstatus : ∀ f, f ≠ e → (s.completeEnvironmentInitialization e).sched.envStatus f =
      s.sched.envStatus f := fun f hf => Function.update_of_ne hf _ _
  have hlist := hi.list
  rw [hsplit] at hlist
  have hout : e ∉ pre ++ post := (List.nodup_cons.1 (List.perm_middle.nodup_iff.1 hlist.nodup)).1
  have hcall : ∀ f, IdCall.complete f ∈ IdCall.complete e :: h.calls ↔
      f = e ∨ .complete f ∈ h.calls := by
    intro f
    simp
  have hfree : ∀ f, IdCall.free f ∈ IdCall.complete e :: h.calls ↔ .free f ∈ h.calls := by
    intro f
    simp
  refine ⟨pre ++ post, hi.size, hlist.remove, fun f => ?_, fun f => ?_, fun f => ?_, fun f => ?_,
    fun f hf => ?_, ?_, hi.freed, fun hn f hf => ?_⟩
  · rcases eq_or_ne f e with rfl | hfe
    · rw [hself]
      exact ⟨fun hm => absurd hm hout, fun hm => absurd rfl hm.2⟩
    · rw [hstatus f hfe, ← hi.listed f, hsplit]
      simp [hfe]
  · rcases eq_or_ne f e with rfl | hfe
    · exact .inr (.inr ⟨hself, hlt⟩)
    · rw [hstatus f hfe]
      exact hi.status f
  · rcases eq_or_ne f e with rfl | hfe
    · rw [hself, if_pos rfl]
      exact hid
    · rw [hstatus f hfe, hids f hfe]
      exact hi.id f
  · refine (hcall f).trans ?_
    show _ ↔ _ ∨ IdCall.free f ∈ IdCall.complete e :: h.calls
    rw [hfree]
    rcases eq_or_ne f e with rfl | hfe
    · simp [hself]
    · rw [hstatus f hfe, hi.completed f]
      simp [hfe]
  · rcases (hcall f).1 hf with rfl | hf
    · exact hlt
    · exact hi.bound f hf
  · show _ :: h.given = _
    rw [hid, hi.given]
    rfl
  · have hfreed := (hfree f).1 hf
    rcases eq_or_ne f e with rfl | hfe
    · exact absurd hfreed hn.1
    · rw [hstatus f hfe]
      exact hi.reuse hn.2 f hfreed

/-- `free_environment` puts the slot back, without an identifier. -/
theorem IdInv.free (hi : IdInv s h xs) (hl : (IdCall.free e).Legal s) :
    IdInv (s.freeEnvironment e) (h.record s (s.freeEnvironment e) (.free e)) (e :: xs) := by
  have hnew := hi.created.1 hl
  have hlt : e < nenv := hi.size ▸ hl.1
  have hout : e ∉ xs := fun hm => ((hi.listed e).1 hm).2 hnew
  have hself : (s.freeEnvironment e).sched.envStatus e = .free := Function.update_self ..
  have hstatus : ∀ f, f ≠ e → (s.freeEnvironment e).sched.envStatus f = s.sched.envStatus f :=
    fun f hf => Function.update_of_ne hf _ _
  have hcall : ∀ f, IdCall.complete f ∈ IdCall.free e :: h.calls ↔ .complete f ∈ h.calls := by
    intro f
    simp
  have hfree : ∀ f, IdCall.free f ∈ IdCall.free e :: h.calls ↔ f = e ∨ .free f ∈ h.calls := by
    intro f
    simp
  have hdone : IdCall.complete e ∈ h.calls := (hi.completed e).2 (.inl hnew)
  -- clearing the record touches the links of an environment outside the list
  have hlist : IsList (⟨Function.update s.sched.links.next e none,
      Function.update s.sched.links.prev e none⟩ : Links Nat) s.envFreeList xs := by
    have hsame : SameOutside [e] s.sched.links ⟨Function.update s.sched.links.next e none,
        Function.update s.sched.links.prev e none⟩ := by
      intro y hy
      have hye : y ≠ e := by simpa using hy
      exact ⟨Function.update_of_ne hye _ _, Function.update_of_ne hye _ _⟩
    exact hi.list.frame hsame (by simpa using hout)
  refine ⟨hi.size, hlist.insertHead hout, fun f => ?_, fun f => ?_, fun f => ?_, fun f => ?_,
    fun f hf => hi.bound f ((hcall f).1 hf), hi.given, ?_, fun hn f hf => ?_⟩
  · rcases eq_or_ne f e with rfl | hfe
    · rw [hself]
      simp [hlt]
    · rw [hstatus f hfe, ← hi.listed f]
      simp [hfe]
  · rcases eq_or_ne f e with rfl | hfe
    · exact .inl hself
    · rw [hstatus f hfe]
      exact hi.status f
  · rcases eq_or_ne f e with rfl | hfe
    · rw [hself, if_neg (by decide)]
      exact Function.update_self ..
    · rw [hstatus f hfe]
      exact (Function.update_of_ne hfe _ _).trans (hi.id f)
  · refine (hcall f).trans ?_
    show _ ↔ _ ∨ IdCall.free f ∈ IdCall.free e :: h.calls
    rw [hfree]
    rcases eq_or_ne f e with rfl | hfe
    · simp [hdone]
    · rw [hstatus f hfe, hi.completed f]
      simp [hfe]
  · show s.envId e :: h.freed = _
    rw [hi.id_created hl, hi.freed]
    rfl
  · rcases (hfree f).1 hf with rfl | hf
    · rw [hself]
      decide
    · rcases eq_or_ne f e with rfl | hfe
      · rw [hself]
        decide
      · rw [hstatus f hfe]
        exact hi.reuse hn f hf

end

/-! ### All calls -/

theorem IdRun.inv {maxSemaphores : Nat} {s : EnvTable} {h : IdHistory}
    (hrun : IdRun maxSemaphores s h) : ∃ xs, IdInv s h xs := by
  refine Prog.invariant (I := fun x => ∃ xs, IdInv x.1 x.2 xs) ⟨_, IdInv.boot maxSemaphores⟩
    (fun x y hx hst => ?_) hrun
  obtain ⟨xs, hi⟩ := hx
  cases hst with
  | @call s t h call hl hc =>
    cases call with
    | allocate => exact ⟨xs, hi.allocate hc⟩
    | complete e =>
      obtain ⟨-, rfl⟩ := ok_inj.1 hc
      exact hi.complete hl
    | free e =>
      obtain ⟨-, rfl⟩ := ok_inj.1 hc
      exact ⟨e :: xs, hi.free hl⟩

/-! ## Resolution -/

/-- The identifiers of created environments resolve to them, and no other identifier resolves. -/
structure IdsResolve (parentId : Nat → Nat) (s : EnvTable) : Prop where
  resolve : ∀ e, s.Created e → envid2env parentId (s.envId e) false s = .ok (0, some e) s
  distinct : ∀ e f, s.Created e → s.Created f → s.envId e = s.envId f → e = f
  positive : ∀ e, s.Created e → 0 < toI32 (s.envId e)
  bad : ∀ envid, envid < 4294967296 → envid ≠ 0 → (∀ e, s.Created e → s.envId e ≠ envid) →
    envid2env parentId envid false s = .ok (eBadEnv, none) s

section

variable {s : EnvTable} {h : IdHistory} {xs : List Nat} {e : Nat}

/-- `ENVX` drops the generation, and every bit of the index that `NENV - 1` lacks. -/
theorem envx_id (e : Nat) : envx nenv (4096 ||| e) = envx nenv e := by
  have hgen : 4096 &&& (nenv - 1) = 0 := by decide
  rw [envx, Nat.and_or_distrib_right, hgen, Nat.zero_or, envx]

theorem envid2env_run (s : EnvTable) (parentId : Nat → Nat) {envid : Nat} (hid : envid ≠ 0) :
    envid2env parentId envid false s =
      if s.sched.envStatus (envx s.nenv envid) = .free ∨ s.envId (envx s.nenv envid) ≠ envid then
        .ok (eBadEnv, none) s
      else .ok (0, some (envx s.nenv envid)) s := by
  rw [envid2env, Prog.get_bind_apply, Prog.ite_run, if_neg hid, Prog.ite_run]
  split
  · rfl
  · rw [Prog.ite_run, if_neg (by simp)]
    rfl

/-- The identifier of a created environment resolves exactly if the mask keeps its index. -/
theorem IdInv.resolves_iff (hi : IdInv s h xs) (hc : s.Created e) (parentId : Nat → Nat) :
    envid2env parentId (s.envId e) false s = .ok (0, some e) s ↔ envx nenv e = e := by
  have hid := hi.id_created hc
  have hlt : e < nenv := hi.size ▸ hc.1
  have hne : s.envId e ≠ 0 := by
    rw [hid, or_index (by rw [nenv_eq] at hlt; omega)]
    omega
  rw [envid2env_run s parentId hne, hi.size, hid, envx_id]
  constructor
  · intro hrun
    split at hrun
    case isTrue =>
      obtain ⟨hval, -⟩ := ok_inj.1 hrun
      cases hval
    case isFalse =>
      obtain ⟨hval, -⟩ := ok_inj.1 hrun
      exact Option.some.inj (congrArg Prod.snd hval)
  · intro hx
    have hnew := hi.created.1 hc
    rw [hx, if_neg]
    rintro (hst | hother)
    · rw [hnew] at hst
      cases hst
    · exact hother hid

/-- An identifier that no created environment has does not resolve. -/
theorem IdInv.bad (hi : IdInv s h xs) {envid : Nat} (hne : envid ≠ 0)
    (hnone : ∀ e, s.Created e → s.envId e ≠ envid) (parentId : Nat → Nat) :
    envid2env parentId envid false s = .ok (eBadEnv, none) s := by
  rw [envid2env_run s parentId hne, if_pos]
  by_contra hres
  obtain ⟨hst, hid⟩ := not_or.1 hres
  have hid := not_not.1 hid
  refine hnone _ (hi.created.2 ?_) hid
  by_contra hnew
  rw [hi.id, if_neg hnew] at hid
  exact hne hid.symm

end

/-- **Identifiers resolve only in some slots.** In every state of every run, the identifiers of
created environments are distinct and positive and no other identifier resolves, and all of theirs
resolve exactly if `NENV - 1`, which is not a mask of low bits, keeps the index of each. -/
theorem envid2env_iff {maxSemaphores : Nat} {s : EnvTable} {h : IdHistory}
    (hrun : IdRun maxSemaphores s h) (parentId : Nat → Nat) :
    IdsResolve parentId s ↔ ∀ e, s.Created e → e &&& (nenv - 1) = e := by
  obtain ⟨xs, hi⟩ := hrun.inv
  constructor
  · intro hres e hc
    exact (hi.resolves_iff hc parentId).1 (hres.resolve e hc)
  · intro hmask
    refine ⟨fun e hc => (hi.resolves_iff hc parentId).2 (hmask e hc), fun e f he hf hid => ?_,
      fun e hc => ?_, fun envid _ hne hnone => hi.bad hne hnone parentId⟩
    · rw [hi.id_created he, hi.id_created hf] at hid
      exact or_index_inj (hi.size ▸ he.1) (hi.size ▸ hf.1) hid
    · have hlt : e < nenv := hi.size ▸ hc.1
      rw [nenv_eq] at hlt
      rw [hi.id_created hc, or_index (by omega), toI32_of_range (by omega)]
      omega

/-! Two environments are created, in the slots 0 and 1. -/

def idsOne : EnvTable :=
  ((bootEnvs nenv 1).setStatus 0 .unknown).completeEnvironmentInitialization 0

def idsTwo : EnvTable := (idsOne.setStatus 1 .unknown).completeEnvironmentInitialization 1

theorem idStep_allocate {s : EnvTable} {h : IdHistory} {e : Nat}
    (hfirst : s.envFreeList.first = e) :
    IdStep (s, h) (s.setStatus e .unknown, { h with calls := .allocate :: h.calls }) := by
  have hc : IdCall.allocate.exec s = .ok () (s.setStatus e .unknown) := by
    refine Prog.bind_eq_ok.2 ⟨some e, s.setStatus e .unknown, ?_, rfl⟩
    rw [allocateEnvironment, Prog.get_bind_apply, hfirst]
    rfl
  exact .call (show IdCall.allocate.Legal s from trivial) hc

theorem idStep_complete {s : EnvTable} {h : IdHistory} {e : Nat}
    (hl : (IdCall.complete e).Legal s) : IdStep (s, h) (s.completeEnvironmentInitialization e,
      h.record s (s.completeEnvironmentInitialization e) (.complete e)) := .call hl rfl

theorem idStep_free {s : EnvTable} {h : IdHistory} {e : Nat} (hl : (IdCall.free e).Legal s) :
    IdStep (s, h) (s.freeEnvironment e, h.record s (s.freeEnvironment e) (.free e)) := .call hl rfl

theorem idRun_one : IdRun 1 idsOne ⟨[.complete 0, .allocate], [4096], []⟩ :=
  .tail (.tail .refl (idStep_allocate (e := 0) (by decide +kernel)))
    (idStep_complete ⟨by decide +kernel, by decide +kernel⟩)

theorem idRun_two : IdRun 1 idsTwo
    ⟨[.complete 1, .allocate, .complete 0, .allocate], [4097, 4096], []⟩ :=
  .tail (.tail idRun_one (idStep_allocate (e := 1) (by decide +kernel)))
    (idStep_complete ⟨by decide +kernel, by decide +kernel⟩)

theorem idsTwo_created : idsTwo.Created 1 :=
  ⟨by decide +kernel, by decide +kernel, by decide +kernel⟩

theorem envid2env_iff_two : IdsResolve (fun _ => 0) idsTwo ↔
    ∀ e, idsTwo.Created e → e &&& (nenv - 1) = e := envid2env_iff idRun_two (fun _ => 0)

/-- The second environment has identifier 4097, which `envid2env` looks up in slot 0. -/
theorem envid2env_second : IdRun 1 idsTwo
      ⟨[.complete 1, .allocate, .complete 0, .allocate], [4097, 4096], []⟩ ∧
    ¬ IdsResolve (fun _ => 0) idsTwo := by
  refine ⟨idRun_two, fun hres => ?_⟩
  obtain ⟨xs, hi⟩ := idRun_two.inv
  have hx := (hi.resolves_iff idsTwo_created (fun _ => 0)).1 (hres.resolve 1 idsTwo_created)
  revert hx
  decide

/-! ## Freshness -/

/-- No environment was given an identifier that an earlier one had, and the identifier of a freed
environment is that of no environment. -/
structure IdsFresh (s : EnvTable) (h : IdHistory) : Prop where
  given : h.given.Nodup
  stale : ∀ envid ∈ h.freed, ∀ e, s.Created e → s.envId e ≠ envid

/-- The identifiers given so far are distinct exactly if no slot was used again. -/
theorem IdStep.nodup_iff {s t : EnvTable} {h h' : IdHistory} {xs : List Nat} (hi : IdInv s h xs)
    (hiff : h.given.Nodup ↔ NoReuse h.calls) (hst : IdStep (s, h) (t, h')) :
    h'.given.Nodup ↔ NoReuse h'.calls := by
  cases hst with
  | @call _ _ _ call hl hc =>
    cases call with
    | allocate => exact hiff
    | free e => exact hiff
    | complete e =>
      obtain ⟨-, rfl⟩ := ok_inj.1 hc
      obtain ⟨ys, hj⟩ := hi.complete hl
      have hid : (s.completeEnvironmentInitialization e).envId e = 4096 ||| e := by
        refine (hj.id e).trans (if_pos ?_)
        exact Function.update_self ..
      have hnot : s.sched.envStatus e ≠ .new := by
        rw [hl.2]
        decide
      -- the identifier was given before exactly if the slot was freed before
      have hbefore : 4096 ||| e ∈ h.given ↔ IdCall.free e ∈ h.calls := by
        rw [hi.mem_given]
        constructor
        · rintro ⟨f, hf, heq⟩
          have hef : e = f := or_index_inj (hi.size ▸ hl.1) (hi.bound f hf) heq
          rw [← hef] at hf
          exact ((hi.completed e).1 hf).resolve_left hnot
        · intro hfree
          exact ⟨e, (hi.completed e).2 (.inr hfree), rfl⟩
      show (_ :: h.given).Nodup ↔ IdCall.free e ∉ h.calls ∧ NoReuse h.calls
      rw [List.nodup_cons, hid, hbefore, hiff]

/-- **Identifiers are fresh until a slot is used again.** In every run, no environment is given an
identifier that an earlier one had, and no identifier of a freed environment is that of another
one, exactly if no environment is completed in a slot that was freed before. -/
theorem envIds_fresh_iff {maxSemaphores : Nat} {s : EnvTable} {h : IdHistory}
    (hrun : IdRun maxSemaphores s h) : IdsFresh s h ↔ NoReuse h.calls := by
  -- along the run: no slot is created twice exactly while the ids differ
  have hboth : (∃ xs, IdInv s h xs) ∧ (h.given.Nodup ↔ NoReuse h.calls) := by
    refine ⟨hrun.inv, ?_⟩
    unfold IdRun at hrun
    generalize hx : (s, h) = x at hrun
    induction hrun generalizing s h with
    | refl =>
      obtain ⟨-, rfl⟩ := Prod.mk.inj hx
      exact ⟨fun _ => trivial, fun _ => List.nodup_nil⟩
    | @tail y z hprev hst ih =>
      subst hx
      obtain ⟨ys, hi⟩ := IdRun.inv (s := y.1) (h := y.2) hprev
      exact hst.nodup_iff hi (ih rfl)
  obtain ⟨⟨xs, hi⟩, hiff⟩ := hboth
  constructor
  · intro hfresh
    exact hiff.1 hfresh.given
  · intro hreuse
    refine ⟨hiff.2 hreuse, fun envid hmem e hc heq => ?_⟩
    obtain ⟨f, hf, rfl⟩ := hi.mem_freed.1 hmem
    rw [hi.id_created hc] at heq
    -- equal ids sit in equal slots
    have hef : e = f :=
      or_index_inj (hi.size ▸ hc.1) (hi.bound f ((hi.completed f).2 (.inr hf))) heq
    exact hi.reuse hreuse f hf (hef ▸ hi.created.1 hc)

/-! The environment of slot 0 is freed and a new one is created, in slot 0 again. -/

def idsFreed : EnvTable := idsOne.freeEnvironment 0

def idsAgain : EnvTable := (idsFreed.setStatus 0 .unknown).completeEnvironmentInitialization 0

theorem idRun_freed : IdRun 1 idsFreed ⟨[.free 0, .complete 0, .allocate], [4096], [4096]⟩ :=
  .tail idRun_one (idStep_free ⟨by decide +kernel, by decide +kernel, by decide +kernel⟩)

/-- A freed slot is the next one to be used. -/
theorem freeEnvironment_first (s : EnvTable) (e : Nat) :
    (s.freeEnvironment e).envFreeList.first = some e := rfl

theorem idRun_again : IdRun 1 idsAgain
    ⟨[.complete 0, .allocate, .free 0, .complete 0, .allocate], [4096, 4096], [4096]⟩ :=
  .tail (.tail idRun_freed (idStep_allocate (freeEnvironment_first idsOne 0)))
    (idStep_complete ⟨by decide +kernel, by decide +kernel⟩)

theorem envIds_fresh_freed :
    IdsFresh idsFreed ⟨[.free 0, .complete 0, .allocate], [4096], [4096]⟩ :=
  (envIds_fresh_iff idRun_freed).2 ⟨by simp, trivial⟩

/-- Both environments of slot 0 have identifier 4096. -/
theorem envIds_again : IdRun 1 idsAgain
      ⟨[.complete 0, .allocate, .free 0, .complete 0, .allocate], [4096, 4096], [4096]⟩ ∧
    ¬ IdsFresh idsAgain
      ⟨[.complete 0, .allocate, .free 0, .complete 0, .allocate], [4096, 4096], [4096]⟩ :=
  ⟨idRun_again, fun hfresh => absurd hfresh.given (by decide)⟩

end Fos
