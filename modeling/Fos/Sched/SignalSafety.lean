import Fos.Sched.EnvIds
import Fos.Sched.SemaphoreRuns

/-!
# When a signal finds an environment to wake

`signalSemaphore` decides from the sign of the value and then takes the last element of the queue.
Both agree while the value counts the environments that wait, from an initial value that is no
negative `int` up to the largest `int`. Only the `NENV` environments of `envs` can wait, so no wait
takes the value below the smallest `int`.
-/

namespace Fos

open Prog (ok_inj final ok_of_value)
open Relation (ReflTransGen)
open Sched (Call Holds WF)

/-- If a signal decides to wake an environment, the queue has a last one. -/
def SignalSafe (owner : Int) (name : List UInt8) (s : Sched) : Prop :=
  ∀ i, s.findSemaphore owner name = some i → toI32 ((s.semaphores i).value + 1) ≤ 0 →
    (s.semaphores i).envQueue.last.isSome

/-- Only the environments of `envs` become ready. -/
def Sched.Call.Fits : Call → Prop
  | .arrive e => e < nenv
  | _ => True

/-- One step of a run with any waits and signals on the semaphore. -/
inductive SignalStep (owner : Int) (name : List UInt8) :
    Sched × History → Sched × History → Prop
  | wait {s t : Sched} {h : History} {e : Nat} (hcur : s.curenv = some e)
      (hready : s.envStatus e = .ready) (hw : waitSemaphore owner name s = .ok () t) :
      SignalStep owner name (s, h) (t, .wait e :: h)
  | signal {s t : Sched} {h : History} {e : Nat} (hcur : s.curenv = some e)
      (hready : s.envStatus e = .ready) (hw : signalSemaphore owner name s = .ok () t) :
      SignalStep owner name (s, h) (t, .signal e :: h)
  | other {s t : Sched} {h : History} {call : Call} (hne : ¬ call.On owner name)
      (hfit : call.Fits) (hst : call.Step s t) : SignalStep owner name (s, h) (t, h)

/-- A run from boot over the creation of the semaphore with any initial value. -/
def SignalRun (owner : Int) (name : List UInt8) (initial : Nat) (s : Sched) (h : History) : Prop :=
  ∃ links maxSemaphores s₁ s₂ id,
    ReflTransGen (fun s t => ∃ call : Call, call.Fits ∧ call.Step s t)
      (bootSched links maxSemaphores) s₁ ∧
    name.length < semaphoreNameSize ∧ createSemaphore owner name initial s₁ = .ok id s₂ ∧ 0 ≤ id ∧
    ReflTransGen (SignalStep owner name) (s₂, []) (s, h)

/-- Whoever is ready or waits is an entry of `envs`. -/
def Bounded (s : Sched) : Prop :=
  ∀ e, s.envStatus e = .ready ∨ s.envStatus e = .blocked → e < nenv

section

variable {s t : Sched} {c : QueueId → List Nat} {owner : Int} {name : List UInt8} {initial : Nat}
  {h : History} {e i : Nat}

/-! ## The environments that can wait -/

theorem Bounded.congr (hb : Bounded s) (hst : ∀ e, nenv ≤ e → t.envStatus e = s.envStatus e) :
    Bounded t := by
  intro e he
  by_contra hlt
  rw [hst e (by omega)] at he
  exact hlt (hb e he)

/-- An environment beyond `envs` is in no queue. -/
theorem Bounded.not_queued (hb : Bounded s) (hwf : WF s c) (he : nenv ≤ e) : ∀ q, e ∉ c q := by
  intro q hq
  have hst := hwf.status q e hq
  have hlt : e < nenv := by
    apply hb
    cases q with
    | ready => exact .inl hst
    | sem j => exact .inr hst
  omega

theorem Bounded.wait (hb : Bounded s) (hwf : WF s c) (hcur : s.curenv = some e)
    (hready : s.envStatus e = .ready) (hw : waitSemaphore owner name s = .ok () t) : Bounded t := by
  rcases Sched.waitSemaphore_ok hwf hcur hready hw with ⟨-, rfl⟩ | ⟨_, _, _, _, _, hsame⟩
  · exact hb
  · exact hb.congr fun y hy => (hsame y (hb.not_queued hwf hy)).status

theorem Bounded.signal (hb : Bounded s) (hwf : WF s c)
    (hw : signalSemaphore owner name s = .ok () t) : Bounded t := by
  rcases Sched.signalSemaphore_ok hwf hw with ⟨-, rfl⟩ | ⟨_, _, _, hsame, _⟩
  · exact hb
  · exact hb.congr fun y hy => (hsame y (hb.not_queued hwf hy)).status

theorem Bounded.create (hb : Bounded s) {id : Int}
    (hc : createSemaphore owner name initial s = .ok id t) : Bounded t := by
  rcases Sched.createSemaphore_ok hc with ⟨-, b, rfl⟩ | ⟨k, -, -, -, -, rfl⟩
  · exact hb
  · exact hb

theorem Bounded.step (hb : Bounded s) (hwf : WF s c) {call : Call} (hfit : call.Fits)
    (hst : call.Step s t) : Bounded t := by
  cases hst with
  | @arrive _ e h1 h2 =>
    refine hb.congr fun y hy => ?_
    have hlt : e < nenv := hfit
    rw [(Sched.semaphores_insertReady s e).2.2, Function.update_of_ne (by omega)]
  | clock => exact hb
  | dispatch _ => exact hb
  | create _ hc => exact hb.create hc
  | wait hcur hready hw => exact hb.wait hwf hcur hready hw
  | signal hcur hready hw => exact hb.signal hwf hw

/-- As many environments wait at most as there are in `envs`. -/
theorem SemInv.pending_le (hi : SemInv owner name initial i s h) (hb : Bounded s) :
    (h.pending initial).length ≤ nenv := by
  have hsub : (h.pending initial).reverse ⊆ List.range nenv := by
    intro e he
    rw [List.mem_reverse] at he
    exact List.mem_range.2 (hb e (.inr (hi.ok.blocked e he)))
  have hle := (List.subperm_of_subset hi.ok.queue.nodup hsub).length_le
  rwa [List.length_reverse, List.length_range] at hle

/-- The value never falls to the smallest `int`. -/
theorem SemInv.value_gt (hi : SemInv owner name initial i s h) (hb : Bounded s) :
    -2147483648 ≤ h.value initial - 1 := by
  have hle := hi.pending_le hb
  have hlen := h.pending_length initial
  rw [nenv_eq] at hle
  omega

/-! ## Signals -/

/-- The decision and the queue agree below the largest `int`, and only there. -/
theorem SemInv.signalSafe_iff (hi : SemInv owner name initial i s h) :
    SignalSafe owner name s ↔ h.value initial + 1 < 2147483648 := by
  obtain ⟨c, hc⟩ := hi.holds
  have hlow := hi.range.1
  have hlast : (s.semaphores i).envQueue.last = (h.pending initial).head? := by
    rw [hi.ok.queue.last, List.getLast?_reverse]
  constructor
  · intro hsafe
    by_contra hmax
    have hhigh := hi.range.2
    -- the counter wraps below zero while nobody waits
    have hval : h.value initial = 2147483647 := by omega
    have hdecide : toI32 ((s.semaphores i).value + 1) ≤ 0 := by
      rw [hc.value, hval]
      decide
    have hsome := hsafe i hc.find hdecide
    rw [hlast, History.pending_eq_nil (by omega)] at hsome
    cases hsome
  · intro hmax j hj hdecide
    rw [hc.find] at hj
    cases hj
    rw [hc.value, toI32_of_range ⟨by omega, hmax⟩] at hdecide
    rw [hlast]
    cases hp : h.pending initial with
    | nil => exact absurd hp (History.pending_ne_nil hdecide)
    | cons p rest => rfl

/-- A signal that returns did not pass the largest `int`. -/
theorem SemInv.value_lt (hi : SemInv owner name initial i s h)
    (hw : signalSemaphore owner name s = .ok () t) : h.value initial + 1 < 2147483648 := by
  refine hi.signalSafe_iff.1 fun j hj hdecide => ?_
  obtain ⟨c, hc⟩ := hi.holds
  rcases Sched.signalSemaphore_ok hc.wf hw with ⟨hnone, -⟩ | ⟨k, hfind, -, -, hu⟩
  · rw [hj] at hnone
    cases hnone
  · rw [hj] at hfind
    cases hfind
    rw [if_pos hdecide] at hu
    obtain ⟨p, init, -, hinit, -⟩ := hu
    rw [show (s.semaphores j).envQueue.last = (c (.sem j)).getLast? from
      (hc.wf.lists (.sem j)).last, hinit]
    simp

/-- The steps of a run keep the value an `int`. -/
theorem SignalStep.semStep {h' : History} (hi : SemInv owner name initial i s h) (hb : Bounded s)
    (hst : SignalStep owner name (s, h) (t, h')) :
    SemStep owner name initial (s, h) (t, h') := by
  cases hst with
  | wait hcur hready hw => exact .wait hcur hready (hi.value_gt hb) hw
  | signal hcur hready hw => exact .signal hcur hready (hi.value_lt hw) hw
  | other hne hfit hst => exact .other hne hst

theorem SignalStep.bounded {h' : History} (hwf : WF s c) (hb : Bounded s)
    (hst : SignalStep owner name (s, h) (t, h')) : Bounded t := by
  cases hst with
  | wait hcur hready hw => exact hb.wait hwf hcur hready hw
  | signal hcur hready hw => exact hb.signal hwf hw
  | other hne hfit hst => exact hb.step hwf hfit hst

end

/-! ## Runs -/

section

variable {owner : Int} {name : List UInt8} {initial i : Nat} {s : Sched} {h : History}

theorem bounded_boot (links : Links Nat) (maxSemaphores : Nat) :
    Bounded (bootSched links maxSemaphores) := by
  intro e he
  rcases he with he | he <;> cases he

theorem reachable_bounded {links : Links Nat} {n : Nat} (hreach : ReflTransGen
    (fun s t => ∃ call : Call, call.Fits ∧ call.Step s t) (bootSched links n) s) :
    (∃ c, WF s c) ∧ Bounded s := by
  refine Prog.invariant (I := fun s => (∃ c, WF s c) ∧ Bounded s)
    ⟨⟨_, Sched.wf_boot links n⟩, bounded_boot links n⟩ (fun s t hs hst => ?_) hreach
  obtain ⟨⟨c, hc⟩, hb⟩ := hs
  obtain ⟨call, hfit, hst⟩ := hst
  obtain ⟨c', hc', -⟩ := hst.wf hc
  exact ⟨⟨c', hc'⟩, hb.step hc hfit hst⟩

/-- From a value that is no negative `int`, every run keeps the invariant of the semaphore. -/
theorem signalSteps_inv {x y : Sched × History} (hi : SemInv owner name initial i x.1 x.2)
    (hb : Bounded x.1) (hsteps : ReflTransGen (SignalStep owner name) x y) :
    SemInv owner name initial i y.1 y.2 := by
  refine (Prog.invariant (I := fun x => SemInv owner name initial i x.1 x.2 ∧ Bounded x.1)
    ⟨hi, hb⟩ (fun x y hx hst => ?_) hsteps).1
  obtain ⟨hi, hb⟩ := hx
  obtain ⟨c, hc⟩ := hi.holds
  exact ⟨(hst.semStep hi hb).inv hi, hst.bounded hc.wf hb⟩

/-- While nobody waits or signals, the semaphore stays as it was created. -/
theorem signalSteps_idle {v : Int} {x y : Sched × History}
    (hc : ∃ c, Holds owner name i v [] x.1 c)
    (hsteps : ReflTransGen (SignalStep owner name) x y) :
    y.2 = [] → ∃ c, Holds owner name i v [] y.1 c := by
  induction hsteps with
  | refl => exact fun _ => hc
  | tail _ hst ih =>
    intro hnil
    cases hst with
    | wait _ _ _ => cases hnil
    | signal _ _ _ => cases hnil
    | other hne hfit hst =>
      obtain ⟨c, hc⟩ := ih hnil
      obtain ⟨c', -, hkeep⟩ := hst.wf hc.wf
      exact ⟨c', hkeep _ _ _ _ _ hc hne⟩

/-- A semaphore with a negative value that nobody waits for. -/
theorem Sched.Holds.signal_unsafe {v : Int} {c : QueueId → List Nat}
    (hc : Holds owner name i v [] s c) (hv : -2147483648 ≤ v ∧ v < 0) :
    ¬ SignalSafe owner name s := by
  intro hsafe
  have hlast : (s.semaphores i).envQueue.last = (c (.sem i)).getLast? := (hc.wf.lists (.sem i)).last
  have hsome := hsafe i hc.find (by rw [hc.value, toI32_of_range (by omega)]; omega)
  rw [hlast, hc.queue] at hsome
  cases hsome

end

/-- **Signals wake only who waits.** In every run over the creation of a semaphore with any initial
value, as long as that value is no negative `int`, a signal finds an environment whenever it decides
to wake one exactly if it does not take the value past the largest `int`. After the creation with a
negative `int` it does not. -/
theorem signalSemaphore_safe_iff {owner : Int} {name : List UInt8} {initial : Nat} {s : Sched}
    {h : History} (hinit : initial < 4294967296) (hrun : SignalRun owner name initial s h)
    (hmade : initial < 2147483648 ∨ h = []) :
    SignalSafe owner name s ↔ initial < 2147483648 ∧ h.value initial + 1 < 2147483648 := by
  obtain ⟨links, n, s₁, s₂, id, hreach, -, hcreate, hid, hsteps⟩ := hrun
  obtain ⟨⟨c, hwf⟩, hb⟩ := reachable_bounded hreach
  obtain ⟨i, hc⟩ := holds_createSemaphore hwf hcreate hid
  rcases Nat.lt_or_ge initial 2147483648 with hpos | hneg
  · have hb₂ : Bounded s₂ := hb.create hcreate
    have hi := signalSteps_inv (SemInv.start hpos hc) hb₂ hsteps
    rw [hi.signalSafe_iff]
    exact ⟨fun hmax => ⟨hpos, hmax⟩, fun hboth => hboth.2⟩
  · have hnil := hmade.resolve_left (by omega)
    obtain ⟨c', hc'⟩ := signalSteps_idle ⟨c, hc⟩ hsteps hnil
    have hunsafe := hc'.signal_unsafe (by unfold toI32; omega)
    exact ⟨fun hsafe => absurd hsafe hunsafe, fun hboth => by omega⟩

/-- Two environments are ready. -/
theorem reach_semBoot : ReflTransGen (fun s t => ∃ call : Call, call.Fits ∧ call.Step s t)
    (bootSched ⟨fun _ => none, fun _ => none⟩ 1) semBoot := by
  have h7 : Call.Fits (.arrive 7) := show 7 < nenv by decide
  have h8 : Call.Fits (.arrive 8) := show 8 < nenv by decide
  refine .tail (.tail (.tail .refl ⟨_, h7, .arrive ?_ ?_⟩) ⟨_, h8, .arrive ?_ ?_⟩)
    ⟨.clock, trivial, .clock _⟩ <;> decide +kernel

theorem signalSemaphore_safe_two : SignalSafe 7 [115] semBlocked := by
  have hcreate : createSemaphore 7 [115] 1 semBoot = .ok 0 semCreated :=
    ok_of_value (by decide +kernel)
  have h7 : waitSemaphore 7 [115] semCreated = .ok () semHeld := ok_of_value (by decide +kernel)
  have h8 : waitSemaphore 7 [115] semHeld = .ok () semBlocked := ok_of_value (by decide +kernel)
  have hrun : SignalRun 7 [115] 1 semBlocked [.wait 8, .wait 7] := by
    refine ⟨⟨fun _ => none, fun _ => none⟩, 1, semBoot, semCreated, 0, reach_semBoot, by decide,
      hcreate, le_refl _, ?_⟩
    refine .tail (.tail .refl (.wait (e := 7) ?_ ?_ h7)) (.wait (e := 8) ?_ ?_ h8) <;>
      decide +kernel
  exact (signalSemaphore_safe_iff (by decide) hrun (.inl (by decide))).2 (by decide)

def semNegative : Sched := final (createSemaphore 7 [115] 4294967295 semBoot)

/-- The initial value `0xFFFFFFFF` is the `int` minus one, and the first signal dequeues from the
empty queue. -/
theorem signalSemaphore_negative : SignalRun 7 [115] 4294967295 semNegative [] ∧
    ¬ SignalSafe 7 [115] semNegative ∧
    signalSemaphore 7 [115] semNegative = .error .fault semNegative := by
  have hcreate : createSemaphore 7 [115] 4294967295 semBoot = .ok 0 semNegative :=
    ok_of_value (by decide +kernel)
  have hfind : semNegative.findSemaphore 7 [115] = some 0 := by decide +kernel
  refine ⟨⟨⟨fun _ => none, fun _ => none⟩, 1, semBoot, semNegative, 0, reach_semBoot, by decide,
    hcreate, le_refl _, .refl⟩, fun hsafe => ?_, rfl⟩
  have hsome := hsafe 0 hfind (by decide +kernel)
  revert hsome
  decide +kernel

end Fos
