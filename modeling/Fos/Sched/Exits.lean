import Fos.Sched.EnvIds

/-!
# Ending an environment

`sched_exit_env` looks for the environment in `env_new_queue` and in `env_ready_queue`, and nowhere
else: one that waits for a semaphore stays in the queue of the semaphore.
-/

namespace Fos

open Prog (bind_eq_ok ok_inj)
open Relation (ReflTransGen)

/-! ## Runs -/

/-- The name fits its field, and only a running environment waits and signals. -/
def EnvCall.Made (s : Sched) : EnvCall → Prop
  | .createSemaphore _ name _ => name.length < semaphoreNameSize
  | .wait _ _ | .signal _ _ => s.curenv ≠ none
  | _ => True

/-- One call of a run, whatever the values of the semaphores are. -/
def EnvMade (s t : EnvTable) : Prop := ∃ call : EnvCall, call.Made s.sched ∧ call.exec s = .ok () t

/-- A created environment has the identifier of its slot and is in the list of its status. -/
structure Listed (s : EnvTable) (c : QueueId → List Nat) (p : Pool → List Nat) : Prop where
  size : s.nenv = nenv
  bound : ∀ e ∈ p .free, e < nenv
  free : ∀ e, s.sched.envStatus e = .free → s.envId e = 0
  id : ∀ e, s.sched.envStatus e ≠ .free → e < nenv ∧ s.envId e = 4096 ||| e
  known : ∀ e, s.sched.envStatus e ≠ .unknown
  new : ∀ e, s.sched.envStatus e = .new → e ∈ p .new
  blocked : ∀ e, s.sched.envStatus e = .blocked → ∃ i, e ∈ c (.sem i)

section

variable {s t : EnvTable} {c c' : QueueId → List Nat} {p p' : Pool → List Nat} {e : Nat}

theorem Listed.moves (h : Listed s c p) (hm : Moves s t c p c' p') : Listed t c' p' := by
  refine ⟨hm.nenv.trans h.size, hm.pool ▸ h.bound, fun e he => ?_, fun e he => ?_, fun e he => ?_,
    fun e he => ?_, fun e he => ?_⟩
  · rw [hm.envId]
    -- a status that changed is ready, exit or blocked afterwards
    rcases hm.status e with hst | ⟨-, hst | hst | ⟨hst, -⟩⟩
    · exact h.free e (hst ▸ he)
    all_goals
      rw [hst] at he
      cases he
  · rw [hm.envId]
    refine h.id e fun hfree => ?_
    rcases hm.status e with hst | ⟨hnot, -⟩
    · exact he (hst.trans hfree)
    · exact hnot hfree
  · rcases hm.status e with hst | ⟨-, hst | hst | ⟨hst, -⟩⟩
    · exact h.known e (hst ▸ he)
    all_goals
      rw [hst] at he
      cases he
  · rcases hm.status e with hst | ⟨-, hst | hst | ⟨hst, -⟩⟩
    · exact (hm.new e (h.new e (hst ▸ he))).resolve_right fun hnot => hnot he
    all_goals
      rw [hst] at he
      cases he
  · rcases hm.status e with hst | ⟨-, hst | hst | ⟨-, hin⟩⟩
    · obtain ⟨i, hi⟩ := h.blocked e (hst ▸ he)
      exact ⟨i, (hm.waiting i e hi).resolve_right fun hnot => hnot he⟩
    · rw [hst] at he
      cases he
    · rw [hst] at he
      cases he
    · exact hin

/-- A new environment gets the first identifier of its slot. -/
theorem Listed.creates (h : Listed s c p) (hl : EnvLive s c p) {rest : List Nat}
    (hc : Creates s t p p' e rest) : Listed t c p' := by
  have hst : s.sched.envStatus e = .free := hl.status .free e (by rw [hc.first]; simp)
  have hlt : e < nenv := h.bound e (by rw [hc.first]; simp)
  -- a free slot has id 0, so the environment gets the first id of the slot
  have hid : t.envId e = 4096 ||| e := by
    rw [hc.envId, Function.update_self, h.free e hst, h.size, nextEnvId_zero]
  have hself : t.sched.envStatus e = .new := by
    rw [hc.status, Function.update_self]
  have hother : ∀ f, f ≠ e → t.sched.envStatus f = s.sched.envStatus f ∧ t.envId f = s.envId f := by
    intro f hf
    rw [hc.status, hc.envId, Function.update_of_ne hf, Function.update_of_ne hf]
    exact ⟨rfl, rfl⟩
  refine ⟨hc.nenv.trans h.size, fun f hf => ?_, fun f hf => ?_, fun f hf => ?_, fun f hf => ?_,
    fun f hf => ?_, fun f hf => ?_⟩
  · refine h.bound f ?_
    rw [hc.free] at hf
    rw [hc.first]
    exact List.mem_cons_of_mem _ hf
  all_goals rcases eq_or_ne f e with rfl | hfe
  · rw [hself] at hf
    cases hf
  · rw [(hother f hfe).1] at hf
    exact (hother f hfe).2.trans (h.free f hf)
  · exact ⟨hlt, hid⟩
  · rw [(hother f hfe).1] at hf
    rw [(hother f hfe).2]
    exact h.id f hf
  · rw [hself] at hf
    cases hf
  · rw [(hother f hfe).1] at hf
    exact h.known f hf
  · rw [hc.new]
    exact List.mem_append_right _ (List.mem_singleton.2 rfl)
  · rw [(hother f hfe).1] at hf
    rw [hc.new]
    exact List.mem_append_left _ (h.new f hf)
  · rw [hself] at hf
    cases hf
  · rw [(hother f hfe).1] at hf
    exact h.blocked f hf

/-- Every call keeps the invariant, and no environment leaves the exit queue. -/
theorem EnvLive.exec (h : EnvLive s c p) (hi : Listed s c p) {call : EnvCall}
    (hl : call.Made s.sched) (hc : call.exec s = .ok () t) :
    ∃ c' p', EnvLive t c' p' ∧ Listed t c' p' ∧ ∀ e ∈ p .exit, e ∈ p' .exit := by
  -- every call but the creation moves environments that exist already
  have hmoves : ∀ {c' p'}, Moves s t c p c' p' →
      ∃ c' p', EnvLive t c' p' ∧ Listed t c' p' ∧ ∀ e ∈ p .exit, e ∈ p' .exit :=
    fun hm => ⟨_, _, hm.live, hi.moves hm, hm.exit⟩
  cases call with
  | create found =>
    rcases h.create hc with rfl | ⟨p', e, rest, hlive, hcreate, -⟩
    · exact hmoves h.refl
    · exact ⟨c, p', hlive, hi.creates h hcreate, fun x hx => hcreate.exit ▸ hx⟩
  | run envId =>
    obtain ⟨-, rfl⟩ := ok_inj.1 hc
    obtain ⟨c', p', hm, -⟩ := h.schedRunEnv envId
    exact hmoves hm
  | runAll =>
    obtain ⟨-, rfl⟩ := ok_inj.1 hc
    obtain ⟨c', p', hm, -⟩ := h.schedRunAll
    exact hmoves hm
  | exit envId =>
    obtain ⟨c', p', hm, -⟩ := h.schedExitEnv hc
    exact hmoves hm
  | createSemaphore owner name initial =>
    obtain ⟨id, s₁, hcreate, hc⟩ := bind_eq_ok.1 hc
    obtain ⟨-, rfl⟩ := ok_inj.1 hc
    exact hmoves (h.createSemaphore hcreate)
  | wait owner name =>
    rcases h.wait hl hc with rfl | ⟨c', e, i, hm, -⟩
    · exact hmoves h.refl
    · exact hmoves hm
  | signal owner name =>
    rcases h.signal hl hc with rfl | ⟨c', i, xs, hm, -⟩
    · exact hmoves h.refl
    · exact hmoves hm
  | dispatch =>
    obtain ⟨-, rfl⟩ := ok_inj.1 hc
    exact hmoves h.dispatch

theorem listed_boot (maxSemaphores : Nat) :
    ∃ c p, EnvLive (bootEnvs nenv maxSemaphores) c p ∧
    Listed (bootEnvs nenv maxSemaphores) c p := by
  obtain ⟨c, p, hi⟩ := envInv_boot nenv maxSemaphores
  have hfree : p .free = List.range nenv :=
    (hi.lists .free).unique (isList_bootEnvs nenv maxSemaphores)
  refine ⟨c, p, hi.live, rfl, fun e he => ?_, fun _ _ => rfl, fun e he => absurd rfl he,
    fun e he => ?_, fun e he => ?_, fun e he => ?_⟩
  · rw [hfree] at he
    exact List.mem_range.1 he
  all_goals cases he

/-- The invariant of every run, with the environments that have left it. -/
theorem envMade_inv {maxSemaphores : Nat}
    (hrun : ReflTransGen EnvMade (bootEnvs nenv maxSemaphores) s) :
    ∃ c p, EnvLive s c p ∧ Listed s c p :=
  Prog.invariant (I := fun s => ∃ c p, EnvLive s c p ∧ Listed s c p) (listed_boot maxSemaphores)
    (fun _ _ ⟨_, _, hl, hi⟩ ⟨_, hmade, hc⟩ =>
      let ⟨c', p', hl', hi', _⟩ := hl.exec hi hmade hc
      ⟨c', p', hl', hi'⟩) hrun

/-- An environment of the exit queue stays there and is never run. -/
theorem EnvLive.exited (h : EnvLive s c p) (hi : Listed s c p) (he : e ∈ p .exit)
    (hrun : ReflTransGen EnvMade s t) : t.sched.envStatus e = .exit ∧ t.sched.curenv ≠ some e := by
  have hinv : ∃ c p, EnvLive t c p ∧ Listed t c p ∧ e ∈ p .exit := by
    refine Prog.invariant (I := fun s => ∃ c p, EnvLive s c p ∧ Listed s c p ∧ e ∈ p .exit)
      ⟨c, p, h, hi, he⟩ (fun u v hu huv => ?_) hrun
    obtain ⟨c, p, hl, hi, he⟩ := hu
    obtain ⟨call, hmade, hc⟩ := huv
    obtain ⟨c', p', hl', hi', hexit⟩ := hl.exec hi hmade hc
    exact ⟨c', p', hl', hi', hexit e he⟩
  obtain ⟨c', p', hl, -, he⟩ := hinv
  have hst := hl.status .exit e he
  refine ⟨hst, fun hcur => ?_⟩
  rw [hl.ready hcur] at hst
  cases hst

end

/-! ## Ending -/

/-- The environment has moved from its list to the end of the exit queue, the order of all others
is as before, and no later call of a run makes it run. -/
structure Ended (s t : EnvTable) (e : Nat) : Prop where
  moved : ∃ c c', QueuesExclusive s c ∧ QueuesExclusive t c' ∧
    c' (.pool .exit) = c (.pool .exit) ++ [e] ∧ ∀ q, q ≠ .pool .exit → c' q = (c q).erase e
  status : t.sched.envStatus e = .exit
  never : ∀ u, ReflTransGen EnvMade t u → u.sched.envStatus e = .exit ∧ u.sched.curenv ≠ some e

section

variable {s t : EnvTable} {c : QueueId → List Nat} {p : Pool → List Nat} {e : Nat}

/-- Created environments with one identifier are one. -/
theorem Listed.id_inj (hi : Listed s c p) {f : Nat} (hid : s.envId e ≠ 0)
    (heq : s.envId f = s.envId e) : f = e := by
  have hcreated : ∀ x, s.envId x ≠ 0 → x < nenv ∧ s.envId x = 4096 ||| x := by
    intro x hx
    exact hi.id x fun hfree => hx (hi.free x hfree)
  obtain ⟨hf, hidf⟩ := hcreated f (heq ▸ hid)
  obtain ⟨he, hide⟩ := hcreated e hid
  rw [hidf, hide] at heq
  exact or_index_inj hf he heq

/-- The search of a list finds the environment exactly if the list has it. -/
theorem Listed.find_mem (hi : Listed s c p) (hid : s.envId e ≠ 0) {hd : ListHead Nat}
    {xs : List Nat} (hl : IsList s.sched.links hd xs) (he : e ∈ xs) :
    s.find hd (s.envId e) = some e := by
  cases hf : s.find hd (s.envId e) with
  | none =>
    rw [EnvTable.find, members_eq hl, List.find?_eq_none] at hf
    exact absurd (by simp) (hf e he)
  | some f => rw [hi.id_inj hid (find_some hl hf).1]

theorem Listed.find_none (hi : Listed s c p) (hid : s.envId e ≠ 0) {hd : ListHead Nat}
    {xs : List Nat} (hl : IsList s.sched.links hd xs) (he : e ∉ xs) :
    s.find hd (s.envId e) = none := by
  cases hf : s.find hd (s.envId e) with
  | none => rfl
  | some f =>
    obtain ⟨hidf, pre, post, hsplit⟩ := find_some hl hf
    rw [hi.id_inj hid hidf] at hsplit
    exact absurd (by rw [hsplit]; simp) he

/-- A list with the environment loses just it, and the other lists stay. -/
theorem erase_split {pre post : List Nat} (hnd : (pre ++ e :: post).Nodup) :
    (pre ++ e :: post).erase e = pre ++ post := by
  have hpre : e ∉ pre := fun hm => (List.nodup_append.1 hnd).2.2 e hm e (by simp) rfl
  rw [List.erase_append_right _ hpre, List.erase_cons_head]

theorem EnvLive.ended_new (h : EnvLive s c p) (hi : Listed s c p) {pre post : List Nat}
    (hk : p .new = pre ++ e :: post) : Ended s ((s.removeNew e).insertExit e) e := by
  have hm := h.exitNew hk
  have he : e ∈ p .new := by rw [hk]; simp
  refine ⟨⟨_, _, h.toPlaced.exclusive, hm.live.toPlaced.exclusive, ?_, fun q hq => ?_⟩,
    Function.update_self .., fun u hu => hm.live.exited (hi.moves hm) ?_ hu⟩
  · show Function.update (Function.update p .new (pre ++ post)) .exit (p .exit ++ [e]) .exit = _
    exact Function.update_self ..
  · cases q with
    | queue q => exact (List.erase_of_not_mem (h.not_queued he q)).symm
    | pool k =>
      show Function.update (Function.update p .new _) .exit _ k = (p k).erase e
      rw [Function.update_of_ne (show k ≠ .exit from fun hk => hq (congrArg EnvList.pool hk))]
      by_cases hnew : k = .new
      · subst hnew
        rw [Function.update_self, hk, erase_split (hk ▸ (h.lists .new).nodup)]
      · rw [Function.update_of_ne hnew]
        exact (List.erase_of_not_mem fun hm => hnew (h.pool_unique hm he)).symm
  · rw [Function.update_self]
    simp

theorem EnvLive.ended_ready (h : EnvLive s c p) (hi : Listed s c p) {pre post : List Nat}
    (hsplit : c .ready = pre ++ e :: post)
    (ht : t = ((s.removeReady e).insertExit e).fosScheduler ∨
      t = (s.removeReady e).insertExit e ∧ s.sched.curenv ≠ some e ∧ s.sched.curenv ≠ none) :
    Ended s t e := by
  have hm := h.exitReady hsplit ht
  have he : e ∈ c .ready := by rw [hsplit]; simp
  have hin : e ∈ Function.update p .exit (p .exit ++ [e]) .exit := by
    rw [Function.update_self]
    simp
  refine ⟨⟨_, _, h.toPlaced.exclusive, hm.live.toPlaced.exclusive, ?_, fun q hq => ?_⟩,
    hm.live.status .exit e hin, fun u hu => hm.live.exited (hi.moves hm) hin hu⟩
  · show Function.update p .exit (p .exit ++ [e]) .exit = _
    exact Function.update_self ..
  · cases q with
    | pool k =>
      show Function.update p .exit _ k = (p k).erase e
      rw [Function.update_of_ne (show k ≠ .exit from fun hk => hq (congrArg EnvList.pool hk))]
      exact (List.erase_of_not_mem fun hk => h.not_queued hk _ he).symm
    | queue q =>
      show Function.update c .ready _ q = (c q).erase e
      -- the environment was on the ready queue and on no other
      by_cases hready : q = .ready
      · subst hready
        rw [Function.update_self, hsplit, erase_split (hsplit ▸ (h.wf.lists .ready).nodup)]
      · rw [Function.update_of_ne hready]
        exact (List.erase_of_not_mem fun hm => hready (h.wf.excl _ _ e hm he)).symm

/-- `sched_exit_env` ends a new environment. -/
theorem EnvLive.exit_new (h : EnvLive s c p) (hi : Listed s c p) (hid : s.envId e ≠ 0)
    (he : e ∈ p .new) : ∃ t, Fos.schedExitEnv (s.envId e) s = .ok () t ∧ Ended s t e := by
  obtain ⟨pre, post, hk⟩ := List.append_of_mem he
  refine ⟨(s.removeNew e).insertExit e, ?_, h.ended_new hi hk⟩
  rw [Fos.schedExitEnv, Prog.get_bind_apply,
    show s.find s.envNewQueue (s.envId e) = some e from hi.find_mem hid (h.lists .new) he]
  rfl

/-- `sched_exit_env` ends a ready environment, also the running one. -/
theorem EnvLive.exit_ready (h : EnvLive s c p) (hi : Listed s c p) (hid : s.envId e ≠ 0)
    (he : e ∈ c .ready) : ∃ t, Fos.schedExitEnv (s.envId e) s = .ok () t ∧ Ended s t e := by
  obtain ⟨pre, post, hsplit⟩ := List.append_of_mem he
  have hnew : s.find s.envNewQueue (s.envId e) = none :=
    hi.find_none hid (h.lists .new) fun hm => h.not_queued hm _ he
  have hready : s.find s.sched.envReadyQueue (s.envId e) = some e :=
    hi.find_mem hid (h.wf.lists .ready) he
  obtain ⟨cur, hcur⟩ := h.dispatched.curenv_some he
  rw [Fos.schedExitEnv, Prog.get_bind_apply, hnew]
  dsimp only
  rw [hready]
  dsimp only
  rw [show ((s.removeReady e).insertExit e).sched.curenv = some cur from hcur]
  dsimp only
  rw [Prog.ite_run]
  split
  case isTrue hsame => exact ⟨_, rfl, h.ended_ready hi hsplit (.inl rfl)⟩
  case isFalse hother =>
    refine ⟨_, rfl, h.ended_ready hi hsplit (.inr ⟨rfl, ?_, by simp [hcur]⟩)⟩
    rw [hcur]
    rintro hsame
    cases hsame
    exact hother rfl

/-- `sched_exit_env` does not find an environment that waits for a semaphore. -/
theorem EnvLive.exit_blocked (h : EnvLive s c p) (hi : Listed s c p) (hid : s.envId e ≠ 0)
    (hst : s.sched.envStatus e = .blocked) : Fos.schedExitEnv (s.envId e) s = .ok () s := by
  have hnew : s.find s.envNewQueue (s.envId e) = none := by
    refine hi.find_none hid (h.lists .new) fun hm => ?_
    rw [h.status .new e hm] at hst
    cases hst
  have hready : s.find s.sched.envReadyQueue (s.envId e) = none := by
    refine hi.find_none hid (h.wf.lists .ready) fun hm => ?_
    rw [h.wf.status .ready e hm] at hst
    cases hst
  rw [Fos.schedExitEnv, Prog.get_bind_apply, hnew]
  dsimp only
  rw [hready]
  rfl

end

/-- **Only environments that do not wait are ended.** In every state of every run, whatever the
values of the semaphores are, `sched_exit_env` ends a created environment that was not ended yet
exactly if it is not blocked on a semaphore. -/
theorem schedExitEnv_ends_iff {maxSemaphores : Nat} {s : EnvTable} {e : Nat}
    (hrun : ReflTransGen EnvMade (bootEnvs nenv maxSemaphores) s) (hid : s.envId e ≠ 0)
    (hexit : s.sched.envStatus e ≠ .exit) :
    (∃ t, schedExitEnv (s.envId e) s = .ok () t ∧ Ended s t e) ↔
      s.sched.envStatus e ≠ .blocked := by
  obtain ⟨c, p, h, hi⟩ := envMade_inv hrun
  constructor
  · rintro ⟨t, hc, hended⟩ hst
    rw [h.exit_blocked hi hid hst] at hc
    obtain ⟨-, rfl⟩ := ok_inj.1 hc
    rw [hended.status] at hst
    cases hst
  · intro hnot
    cases hst : s.sched.envStatus e with
    | free => exact absurd (hi.free e hst) hid
    | ready => exact h.exit_ready hi hid (h.wf.ready e hst)
    | blocked => exact absurd hst hnot
    | new => exact h.exit_new hi hid (hi.new e hst)
    | exit => exact absurd hst hexit
    | unknown => exact absurd hst (hi.known e)

/-! Two environments wait for a semaphore or run. -/

def exitWaiting : EnvTable := (bootEnvs nenv 1).after [.create true, .create true,
  .createSemaphore 4096 [115] 0, .runAll, .wait 4096 [115]]

/-- The calls are made in order, and each returns. -/
def CallsMade : EnvTable → List EnvCall → Prop
  | _, [] => True
  | s, call :: calls => call.Made s.sched ∧ Prog.value (call.exec s) = some () ∧
      CallsMade (Prog.final (call.exec s)) calls

theorem CallsMade.run {s : EnvTable} {calls : List EnvCall} (h : CallsMade s calls) :
    ReflTransGen EnvMade s (s.after calls) := by
  induction calls generalizing s with
  | nil => exact .refl
  | cons call calls ih =>
    obtain ⟨hmade, hv, h⟩ := h
    exact .head ⟨call, hmade, Prog.ok_of_value hv⟩ (ih h)

theorem run_exitWaiting : ReflTransGen EnvMade (bootEnvs nenv 1) exitWaiting := by
  refine CallsMade.run ⟨trivial, by decide +kernel, trivial, by decide +kernel,
    show [115].length < semaphoreNameSize by decide, by decide +kernel, trivial, by decide +kernel,
    show (EnvTable.sched _).curenv ≠ none by decide +kernel, by decide +kernel, trivial⟩

theorem schedExitEnv_ends_second :
    ∃ t, schedExitEnv (exitWaiting.envId 1) exitWaiting = .ok () t ∧ Ended exitWaiting t 1 :=
  (schedExitEnv_ends_iff run_exitWaiting (by decide +kernel) (by decide +kernel)).2
    (by decide +kernel)

/-- The first environment waits, and `sched_exit_env` with its identifier changes nothing. -/
theorem schedExitEnv_waiting : ReflTransGen EnvMade (bootEnvs nenv 1) exitWaiting ∧
    exitWaiting.envId 0 = 4096 ∧ exitWaiting.sched.envStatus 0 = .blocked ∧
    ¬ ∃ t, schedExitEnv 4096 exitWaiting = .ok () t ∧ Ended exitWaiting t 0 := by
  refine ⟨run_exitWaiting, by decide +kernel, by decide +kernel, ?_⟩
  rintro ⟨t, hc, hended⟩
  have hst : exitWaiting.sched.envStatus 0 = .blocked := by decide +kernel
  have hid : exitWaiting.envId 0 = 4096 := by decide +kernel
  obtain ⟨c, p, h, hi⟩ := envMade_inv run_exitWaiting
  have hsame := h.exit_blocked hi (e := 0) (by rw [hid]; decide) hst
  rw [hid, hc] at hsame
  have hexit := hended.status
  rw [(ok_inj.1 hsame).2, hst] at hexit
  exact EnvStatus.noConfusion hexit

end Fos
