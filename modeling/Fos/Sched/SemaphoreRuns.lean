import Fos.Sched.Semaphore
import Mathlib.Data.Multiset.Count
import Mathlib.Data.Multiset.AddSub

/-!
# Runs of a semaphore

From boot over the creation of a semaphore to any number of waits and signals on it, with any other
calls in between. The history of the waits and signals alone says what the semaphore must look
like: the first `initial + #signals` waits are matched, the later ones are pending.
-/

namespace Fos

open Prog (ok_inj final value ok_of_value)
open Relation (ReflTransGen)

/-! ## Histories -/

/-- A wait or a signal that an environment made. -/
inductive SemEvent
  | wait (e : Nat)
  | signal (e : Nat)

/-- The waits and signals on a semaphore, the latest first. -/
abbrev History := List SemEvent

namespace History

/-- The environments that waited, in order. -/
def waits : History → List Nat
  | [] => []
  | .wait e :: h => waits h ++ [e]
  | .signal _ :: h => waits h

/-- The environments that signalled, in order. -/
def signals : History → List Nat
  | [] => []
  | .wait _ :: h => signals h
  | .signal e :: h => signals h ++ [e]

/-- The initial value, less the waits, plus the signals. -/
def value (h : History) (initial : Nat) : Int :=
  initial - (waits h).length + (signals h).length

/-- The waits that are matched, by the initial value or by a signal. -/
def matched (h : History) (initial : Nat) : List Nat :=
  (waits h).take (initial + (signals h).length)

/-- The waits that are not yet matched, the longest first. -/
def pending (h : History) (initial : Nat) : List Nat :=
  (waits h).drop (initial + (signals h).length)

/-- Every environment signals only after a wait of its own. -/
def Disciplined : History → Prop
  | [] => True
  | .wait _ :: h => Disciplined h
  | .signal e :: h => (signals h).count e < (waits h).count e ∧ Disciplined h

/-- A wait of the environment is matched and it has not signalled since. -/
def Between (h : History) (initial e : Nat) : Prop :=
  (signals h).count e < (matched h initial).count e

variable {h : History} {initial e : Nat}

theorem pending_wait_of_neg (hneg : value h initial - 1 < 0) :
    pending (.wait e :: h) initial = pending h initial ++ [e] := by
  unfold value at hneg
  have hle : initial + (signals h).length ≤ (waits h).length := by omega
  exact List.drop_append_of_le_length hle

theorem pending_wait_of_nonneg (hpos : ¬ value h initial - 1 < 0) :
    pending (.wait e :: h) initial = [] ∧ pending h initial = [] := by
  unfold value at hpos
  refine ⟨List.drop_eq_nil_of_le ?_, List.drop_eq_nil_of_le (by omega)⟩
  show (waits h ++ [e]).length ≤ initial + (signals h).length
  rw [List.length_append]
  simp only [List.length_cons, List.length_nil]
  omega

/-- A signal drops the longest pending wait. -/
theorem pending_signal : pending (.signal e :: h) initial = (pending h initial).tail := by
  show (waits h).drop (initial + (signals h ++ [e]).length) = _
  rw [pending, List.tail_drop, List.length_append]
  rfl

theorem pending_length (h : History) (initial : Nat) :
    ((pending h initial).length : Int) = max 0 (-(value h initial)) := by
  unfold pending value
  rw [List.length_drop]
  omega

/-- While a signal leaves the value at most zero, a wait is pending. -/
theorem pending_ne_nil (hneg : value h initial + 1 ≤ 0) : pending h initial ≠ [] := by
  intro hnil
  have hlen := pending_length h initial
  rw [hnil, List.length_nil] at hlen
  omega

theorem pending_eq_nil (hpos : ¬ value h initial + 1 ≤ 0) : pending h initial = [] := by
  have hlen := pending_length h initial
  exact List.length_eq_zero_iff.1 (by omega)

/-! ## Between wait and signal -/

/-- More waits are matched after an event than before. -/
theorem matched_count_le (ev : SemEvent) (h : History) (initial x : Nat) :
    (matched h initial).count x ≤ (matched (ev :: h) initial).count x := by
  refine List.Sublist.count_le x (List.IsPrefix.sublist ?_)
  cases ev with
  | wait e =>
    show (waits h).take _ <+: (waits h ++ [e]).take _
    exact List.IsPrefix.take (List.prefix_append _ _) _
  | signal e =>
    show (waits h).take _ <+: (waits h).take (initial + (signals h ++ [e]).length)
    rw [List.length_append, ← Nat.add_assoc]
    exact List.take_prefix_take_left (by omega)

/-- As many environments as there are unmatched signals left can be between wait and signal. -/
theorem card_between_le (hle : ∀ x, (signals h).count x ≤ (matched h initial).count x)
    (E : Finset Nat) (hE : ∀ x ∈ E, Between h initial x) : E.card ≤ initial := by
  have hsub : (↑(signals h) : Multiset Nat) ≤ ↑(matched h initial) :=
    Multiset.le_iff_count.2 fun x => by simpa using hle x
  have hin : E.val ≤ (↑(matched h initial) : Multiset Nat) - ↑(signals h) := by
    refine (Multiset.le_iff_subset E.nodup).2 fun x hx => ?_
    rw [← Multiset.count_pos, Multiset.count_sub, Multiset.coe_count, Multiset.coe_count]
    exact Nat.sub_pos_of_lt (hE x hx)
  have hcard := Multiset.card_le_card hin
  rw [Multiset.card_sub hsub, Multiset.coe_card, Multiset.coe_card, matched, List.length_take]
    at hcard
  show Multiset.card E.val ≤ initial
  omega

end History

/-! ## Runs -/

open Sched (Call Holds WF)

/-- One step of a run, with the history of the semaphore: the running environment waits or signals,
and the value stays an `int`, or any other call is made. -/
inductive SemStep (owner : Int) (name : List UInt8) (initial : Nat) :
    Sched × History → Sched × History → Prop
  | wait {s t : Sched} {h : History} {e : Nat} (hcur : s.curenv = some e)
      (hready : s.envStatus e = .ready) (hrange : -2147483648 ≤ h.value initial - 1)
      (hw : waitSemaphore owner name s = .ok () t) :
      SemStep owner name initial (s, h) (t, .wait e :: h)
  | signal {s t : Sched} {h : History} {e : Nat} (hcur : s.curenv = some e)
      (hready : s.envStatus e = .ready) (hrange : h.value initial + 1 < 2147483648)
      (hw : signalSemaphore owner name s = .ok () t) :
      SemStep owner name initial (s, h) (t, .signal e :: h)
  | other {s t : Sched} {h : History} {call : Call} (hne : ¬ call.On owner name)
      (hst : call.Step s t) : SemStep owner name initial (s, h) (t, h)

/-- A run from boot over the creation of the semaphore. -/
def SemRun (owner : Int) (name : List UInt8) (initial : Nat) (s : Sched) (h : History) : Prop :=
  ∃ links maxSemaphores s₁ s₂ id,
    ReflTransGen (fun s t => ∃ call : Call, call.Step s t) (bootSched links maxSemaphores) s₁ ∧
    name.length < semaphoreNameSize ∧ createSemaphore owner name initial s₁ = .ok id s₂ ∧ 0 ≤ id ∧
    ReflTransGen (SemStep owner name initial) (s₂, []) (s, h)

/-- What the history says about the semaphore of entry `i`. -/
structure SemaphoreOk (initial i : Nat) (s : Sched) (h : History) : Prop where
  value : (s.semaphores i).value = h.value initial
  /-- The queue holds the pending waits, the longest at its end. -/
  queue : IsList s.links (s.semaphores i).envQueue (h.pending initial).reverse
  length : ((h.pending initial).length : Int) = max 0 (-(s.semaphores i).value)
  blocked : ∀ e ∈ h.pending initial, s.envStatus e = .blocked
  ready : ∃ ready, IsList s.links s.envReadyQueue ready ∧ ∀ e ∈ h.pending initial, e ∉ ready

/-- A signal wakes the environment that waits longest, and no other. -/
structure Wakes (initial : Nat) (h : History) (s t : Sched) : Prop where
  longest : ∀ p rest, h.pending initial = p :: rest →
    t.envStatus = Function.update s.envStatus p .ready ∧
      ∃ ready ready', IsList s.links s.envReadyQueue ready ∧
        IsList t.links t.envReadyQueue ready' ∧ ready'.Perm (p :: ready)
  none : h.pending initial = [] → t.envStatus = s.envStatus

variable {owner : Int} {name : List UInt8} {initial : Nat} {s t : Sched} {h : History}

/-- The invariant of a run: the semaphore is as its history says, and disciplined environments
have made at most as many signals as waits of theirs are matched. -/
structure SemInv (owner : Int) (name : List UInt8) (initial i : Nat) (s : Sched) (h : History) :
    Prop where
  holds : ∃ c, Holds owner name i (h.value initial) (h.pending initial).reverse s c
  counts : h.Disciplined → ∀ x, (h.signals).count x ≤ (h.matched initial).count x
  range : -2147483648 ≤ h.value initial ∧ h.value initial < 2147483648

theorem SemInv.ok {i : Nat} (hi : SemInv owner name initial i s h) : SemaphoreOk initial i s h := by
  obtain ⟨c, hc⟩ := hi.holds
  have hmem : ∀ e ∈ h.pending initial, e ∈ c (.sem i) := by
    intro e he
    rw [hc.queue]
    exact List.mem_reverse.2 he
  refine ⟨hc.value, ?_, ?_, fun e he => hc.wf.status _ e (hmem e he), c .ready,
    hc.wf.lists .ready, fun e he hr => ?_⟩
  · rw [← hc.queue]
    exact hc.wf.lists (.sem i)
  · rw [hc.value]
    exact h.pending_length initial
  · cases hc.wf.excl _ _ e hr (hmem e he)

/-- A signal that returns pops the longest pending wait. -/
theorem SemInv.signal {i : Nat} (hi : SemInv owner name initial i s h)
    (hrange : h.value initial + 1 < 2147483648)
    (hw : signalSemaphore owner name s = .ok () t) :
    (∃ c', Holds owner name i (h.value initial + 1) (h.pending initial).tail.reverse t c') ∧
      Wakes initial h s t := by
  obtain ⟨c, hc⟩ := hi.holds
  rcases Sched.signalSemaphore_ok hc.wf hw with ⟨hnone, -⟩ | ⟨j, hfind, -, -, hu⟩
  · rw [hc.find] at hnone
    cases hnone
  · rw [hc.find] at hfind
    cases hfind
    have hlow := hi.range.1
    rw [hc.value, toI32_of_range ⟨by omega, hrange⟩, hc.queue] at hu
    split at hu
    case isTrue hneg =>
      obtain ⟨p, init, c', hinit, hu, hst, hperm⟩ := hu
      -- the queue holds the waiters in reverse, so the first of them is its last
      have hpend : h.pending initial = p :: init.reverse := by
        rw [← List.reverse_reverse (h.pending initial), hinit]
        simp
      refine ⟨⟨c', hu.wf, ?_, hu.value, ?_⟩, fun q rest hq => ?_, fun hnil => ?_⟩
      · rw [Sched.findSemaphore_congr hu.table.max hu.table.names]
        exact hc.find
      · rw [hu.queue, hpend]
        simp
      · rw [hpend] at hq
        cases hq
        exact ⟨hst, c .ready, c' .ready, hc.wf.lists .ready, hu.wf.lists .ready, hperm⟩
      · rw [hpend] at hnil
        cases hnil
    case isFalse hpos =>
      have hnil := History.pending_eq_nil hpos
      obtain ⟨hu, hst⟩ := hu
      refine ⟨⟨c, hu.wf, ?_, hu.value, ?_⟩, fun q rest hq => ?_, fun _ => hst⟩
      · rw [Sched.findSemaphore_congr hu.table.max hu.table.names]
        exact hc.find
      · rw [hu.queue, hnil]
        rfl
      · rw [hnil] at hq
        cases hq

/-- A ready environment has no pending wait. -/
theorem SemInv.count_matched {i e : Nat} (hi : SemInv owner name initial i s h)
    (hready : s.envStatus e = .ready) : (h.waits).count e = (h.matched initial).count e := by
  have hnot : e ∉ h.pending initial := by
    intro he
    have := hi.ok.blocked e he
    rw [hready] at this
    cases this
  rw [← List.take_append_drop (initial + h.signals.length) h.waits, List.count_append]
  have : (List.drop (initial + h.signals.length) h.waits).count e = 0 :=
    List.count_eq_zero.2 hnot
  rw [this]
  rfl

/-- One step of a run keeps the invariant. -/
theorem SemStep.inv {i : Nat} {h' : History} (hi : SemInv owner name initial i s h)
    (hst : SemStep owner name initial (s, h) (t, h')) : SemInv owner name initial i t h' := by
  obtain ⟨c, hc⟩ := hi.holds
  obtain ⟨hlower, hupper⟩ := hi.range
  cases hst with
  | @wait _ _ _ e hcur hready hrange hw =>
    -- one more wait
    have hv : History.value (.wait e :: h) initial = h.value initial - 1 := by
      unfold History.value
      show (initial : Int) - (h.waits ++ [e]).length + h.signals.length = _
      rw [List.length_append, List.length_singleton]
      omega
    refine ⟨?_, fun hd x => (hi.counts hd x).trans (History.matched_count_le _ _ _ _),
      by omega, by omega⟩
    rcases Sched.waitSemaphore_ok hc.wf hcur hready hw with ⟨hnone, -⟩ | ⟨j, c', hfind, hu, -⟩
    · rw [hc.find] at hnone
      cases hnone
    · rw [hc.find] at hfind
      cases hfind
      rw [hc.value, toI32_of_range ⟨hrange, by omega⟩, hc.queue] at hu
      refine ⟨c', hu.wf, ?_, hu.value.trans hv.symm, ?_⟩
      · rw [Sched.findSemaphore_congr hu.table.max hu.table.names]
        exact hc.find
      · rw [hu.queue]
        split
        case isTrue hneg =>
          rw [History.pending_wait_of_neg hneg]
          simp
        case isFalse hpos =>
          obtain ⟨h1, h2⟩ := History.pending_wait_of_nonneg (e := e) hpos
          rw [h1, h2]
  | @signal _ _ _ e hcur hready hrange hw =>
    -- one more signal
    have hv : History.value (.signal e :: h) initial = h.value initial + 1 := by
      unfold History.value
      show (initial : Int) - h.waits.length + (h.signals ++ [e]).length = _
      rw [List.length_append, List.length_singleton]
      omega
    refine ⟨?_, fun ⟨hlt, hd⟩ x => ?_, by omega, by omega⟩
    · rw [hv, History.pending_signal]
      exact (hi.signal hrange hw).1
    · show (h.signals ++ [e]).count x ≤ _
      refine le_trans ?_ (History.matched_count_le (.signal e) h initial x)
      rw [List.count_append, List.count_singleton]
      by_cases hx : e = x
      · -- whoever signals is ready, so every wait of it has been matched
        subst hx
        rw [hi.count_matched hready] at hlt
        simp
        omega
      · simpa [hx] using hi.counts hd x
  | other hne hst =>
    obtain ⟨c', -, hkeep⟩ := hst.wf hc.wf
    exact ⟨⟨c', hkeep _ _ _ _ _ hc hne⟩, hi.counts, hi.range⟩

/-- A wait of the running environment returns. -/
theorem SemInv.wait_returns {i e : Nat} (hi : SemInv owner name initial i s h)
    (hcur : s.curenv = some e) (hnull : s.semaphoresNull = false) :
    ∃ t, waitSemaphore owner name s = .ok () t := by
  obtain ⟨c, hc⟩ := hi.holds
  rw [waitSemaphore, Prog.get_bind_apply, Prog.ite_run, if_neg (by simp [hnull]), hc.find]
  dsimp only
  rw [Prog.ite_run]
  split
  case isTrue =>
    rw [show (s.setSemaphore i _).curenv = some e from hcur]
    exact ⟨_, rfl⟩
  case isFalse => exact ⟨_, rfl⟩

/-- A signal returns: while it has to wake an environment, one waits. -/
theorem SemInv.signal_returns {i : Nat} (hi : SemInv owner name initial i s h)
    (hrange : h.value initial + 1 < 2147483648) (hnull : s.semaphoresNull = false) :
    ∃ t, signalSemaphore owner name s = .ok () t := by
  obtain ⟨c, hc⟩ := hi.holds
  have hlow := hi.range.1
  rw [signalSemaphore, Prog.get_bind_apply, Prog.ite_run, if_neg (by simp [hnull]), hc.find]
  dsimp only
  rw [Prog.ite_run, hc.value, toI32_of_range ⟨by omega, hrange⟩]
  split
  case isTrue hneg =>
    have hlast := (hc.wf.lists (.sem i)).last
    rw [hc.queue, List.getLast?_reverse] at hlast
    cases hp : h.pending initial with
    | nil => exact absurd hp (History.pending_ne_nil hneg)
    | cons p rest =>
      rw [hp] at hlast
      have hhead : ((s.setSemaphore i { s.semaphores i with
          value := h.value initial + 1 }).head (.sem i)).last = some p := by
        rw [← show (s.head (.sem i)).last = some p from hlast]
        simp [Sched.head, Sched.setSemaphore]
      rw [hhead]
      exact ⟨_, rfl⟩
  case isFalse => exact ⟨_, rfl⟩

/-- The queues are well-formed in every state reached from boot. -/
theorem reachable_wf {links : Links Nat} {n : Nat} (h : ReflTransGen
    (fun s t => ∃ call : Call, call.Step s t) (bootSched links n) s) : ∃ c, WF s c :=
  Prog.invariant (I := fun s => ∃ c, WF s c) ⟨_, Sched.wf_boot links n⟩
    (fun _ _ ⟨_, hc⟩ ⟨_, hst⟩ => let ⟨c', hc', _⟩ := hst.wf hc; ⟨c', hc'⟩) h

/-- A new semaphore has its initial value as an `int` and no waiters. -/
theorem holds_createSemaphore {c : QueueId → List Nat} {id : Int} (hc : WF s c)
    (hcreate : createSemaphore owner name initial s = .ok id t) (hid : 0 ≤ id) :
    ∃ i, Holds owner name i (toI32 initial) [] t c := by
  have hwf := hc.createSemaphore hcreate
  rcases Sched.createSemaphore_ok hcreate with ⟨hneg, -⟩ | ⟨k, -, hnone, hlt, hempty, rfl⟩
  · omega
  · refine ⟨k, hwf, Sched.findSemaphore_create hnone ⟨rfl, rfl, rfl⟩ hlt, ?_, hc.unused k hempty⟩
    rw [Sched.semaphores_setSemaphore_self]

theorem SemInv.start {c : QueueId → List Nat} {i : Nat} (hinit : initial < 2147483648)
    (hc : Holds owner name i (toI32 initial) [] s c) : SemInv owner name initial i s [] := by
  have hval : History.value [] initial = initial := by
    simp [History.value, History.waits, History.signals]
  refine ⟨⟨c, hc.wf, hc.find, ?_, ?_⟩, fun _ x => by simp [History.signals], ?_, ?_⟩
  · rw [hval, hc.value]
    exact toI32_of_range ⟨by omega, by omega⟩
  · rw [hc.queue]
    simp [History.pending, History.waits]
  · omega
  · omega

theorem SemRun.inv (hinit : initial < 2147483648) (hrun : SemRun owner name initial s h) :
    ∃ i, SemInv owner name initial i s h := by
  obtain ⟨links, n, s₁, s₂, id, hreach, -, hcreate, hid, hsteps⟩ := hrun
  obtain ⟨c, hc⟩ := reachable_wf hreach
  obtain ⟨k, hk⟩ := holds_createSemaphore hc hcreate hid
  exact ⟨k, Prog.invariant (I := fun x => SemInv owner name initial k x.1 x.2)
    (SemInv.start hinit hk) (fun _ _ hi hst => hst.inv hi) hsteps⟩

/-- **Semaphores are correct.** In every state of every run the value and the queue of the
semaphore are what the waits and signals made so far say, waits and signals return, a signal wakes
the environment that waits longest, and if every environment signals only after a wait of its own,
at most `initial` of them are between wait and signal. -/
theorem semaphore_correct (hinit : initial < 2147483648) (hrun : SemRun owner name initial s h) :
    ∃ i, s.findSemaphore owner name = some i ∧ SemaphoreOk initial i s h ∧
      (∀ e, s.curenv = some e → s.envStatus e = .ready → s.semaphoresNull = false →
        (∃ t, waitSemaphore owner name s = .ok () t) ∧
        (h.value initial + 1 < 2147483648 →
          ∃ t, signalSemaphore owner name s = .ok () t ∧ Wakes initial h s t)) ∧
      (h.Disciplined → ∀ E : Finset Nat, (∀ x ∈ E, h.Between initial x) → E.card ≤ initial) := by
  obtain ⟨i, hi⟩ := hrun.inv hinit
  obtain ⟨c, hc⟩ := hi.holds
  refine ⟨i, hc.find, hi.ok, fun e hcur _ hnull => ⟨hi.wait_returns hcur hnull, fun hrange => ?_⟩,
    fun hd E hE => History.card_between_le (hi.counts hd) E hE⟩
  obtain ⟨t, ht⟩ := hi.signal_returns hrange hnull
  exact ⟨t, ht, (hi.signal hrange ht).2⟩

/-! A machine with one semaphore and two environments, which both wait for it. -/

def semBoot : Sched :=
  (((bootSched ⟨fun _ => none, fun _ => none⟩ 1).insertReady 7).insertReady 8).fosScheduler

def semCreated : Sched := final (createSemaphore 7 [115] 1 semBoot)

def semHeld : Sched := final (waitSemaphore 7 [115] semCreated)

def semBlocked : Sched := final (waitSemaphore 7 [115] semHeld)

theorem semaphore_correct_two : ∃ i, semBlocked.findSemaphore 7 [115] = some i ∧
    SemaphoreOk 1 i semBlocked [.wait 8, .wait 7] := by
  have hcreate : createSemaphore 7 [115] 1 semBoot = .ok 0 semCreated :=
    ok_of_value (by decide +kernel)
  have h7 : waitSemaphore 7 [115] semCreated = .ok () semHeld := ok_of_value (by decide +kernel)
  have h8 : waitSemaphore 7 [115] semHeld = .ok () semBlocked := ok_of_value (by decide +kernel)
  have hrun : SemRun 7 [115] 1 semBlocked [.wait 8, .wait 7] := by
    refine ⟨⟨fun _ => none, fun _ => none⟩, 1, semBoot, semCreated, 0, ?_, by decide, hcreate,
      le_refl _, ?_⟩
    · refine .tail (.tail (.tail .refl ⟨_, .arrive (e := 7) ?_ ?_⟩)
        ⟨_, .arrive (e := 8) ?_ ?_⟩) ⟨_, .clock _⟩ <;> decide +kernel
    · refine .tail (.tail .refl (.wait (e := 7) ?_ ?_ ?_ h7)) (.wait (e := 8) ?_ ?_ ?_ h8) <;>
        decide +kernel
  obtain ⟨i, hfind, hok, -⟩ := semaphore_correct (by decide) hrun
  exact ⟨i, hfind, hok⟩

end Fos
