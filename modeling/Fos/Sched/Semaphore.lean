import Fos.Lib.Prog
import Fos.Sched.Queues
import Mathlib.Data.Finset.Card

/-!
# Semaphores

What a wait and a signal do to the queue of their semaphore, and from it what every run does: the
value counts the waits and signals, the queue holds the environments whose wait no signal has
matched yet, and a signal wakes the one that waits longest.
-/

namespace Fos

open Prog (bind_eq_ok ok_inj final value ok_of_value)
open Relation (ReflTransGen)

namespace Sched

variable {s t : Sched} {owner : Int} {name : List UInt8} {i : Nat}

/-! ## The table -/

theorem findSemaphore_some (h : s.findSemaphore owner name = some i) :
    (s.semaphores i).empty = false ∧ (s.semaphores i).ownerID = owner ∧
      (s.semaphores i).name = name := by
  have hp := List.find?_some h
  simpa [and_assoc] using hp

/-- The search looks at the owner and the name of the used entries only. -/
theorem findSemaphore_congr (hmax : t.maxSemaphores = s.maxSemaphores)
    (hj : ∀ j, (t.semaphores j).empty = (s.semaphores j).empty ∧
      (t.semaphores j).ownerID = (s.semaphores j).ownerID ∧
      (t.semaphores j).name = (s.semaphores j).name) (owner : Int) (name : List UInt8) :
    t.findSemaphore owner name = s.findSemaphore owner name := by
  unfold findSemaphore
  rw [hmax]
  congr 1
  funext j
  obtain ⟨h1, h2, h3⟩ := hj j
  rw [h1, h2, h3]

/-- The entries of the table are the same except for their queues and the value of entry `i`. -/
structure SameTable (i : Nat) (s t : Sched) : Prop where
  max : t.maxSemaphores = s.maxSemaphores
  names : ∀ j, (t.semaphores j).empty = (s.semaphores j).empty ∧
    (t.semaphores j).ownerID = (s.semaphores j).ownerID ∧
    (t.semaphores j).name = (s.semaphores j).name
  values : ∀ j, j ≠ i → (t.semaphores j).value = (s.semaphores j).value

theorem SameTable.setValue (s : Sched) (i : Nat) (v : Int) :
    SameTable i s (s.setSemaphore i { s.semaphores i with value := v }) := by
  refine ⟨rfl, fun j => ?_, fun j hj => ?_⟩
  · by_cases hj : j = i
    · subst hj
      simp [setSemaphore]
    · simp [setSemaphore, hj]
  · simp [setSemaphore, hj]

/-- The calls that only move environments between queues leave the values alone too. -/
def QueuesOnly (s t : Sched) : Prop :=
  t.maxSemaphores = s.maxSemaphores ∧
    ∀ j, ∃ hd, t.semaphores j = { s.semaphores j with envQueue := hd }

theorem QueuesOnly.trans {u : Sched} (h : QueuesOnly s t) (h' : QueuesOnly t u) :
    QueuesOnly s u := by
  refine ⟨h'.1.trans h.1, fun j => ?_⟩
  obtain ⟨hd, hj⟩ := h.2 j
  obtain ⟨hd', hj'⟩ := h'.2 j
  exact ⟨hd', by rw [hj', hj]⟩

theorem QueuesOnly.of_eq (h1 : t.maxSemaphores = s.maxSemaphores)
    (h2 : t.semaphores = s.semaphores) : QueuesOnly s t :=
  ⟨h1, fun j => ⟨(s.semaphores j).envQueue, by rw [h2]⟩⟩

theorem QueuesOnly.setQueue (s : Sched) (q : QueueId) (r : Links Nat × ListHead Nat) :
    QueuesOnly s (s.setQueue q r) :=
  ⟨by cases q <;> rfl, s.semaphores_setQueue q r⟩

theorem semaphores_insertReady (s : Sched) (e : Nat) :
    (s.insertReady e).semaphores = s.semaphores ∧
      (s.insertReady e).maxSemaphores = s.maxSemaphores ∧
      (s.insertReady e).envStatus = Function.update s.envStatus e .ready := by
  unfold insertReady
  dsimp only
  split <;> exact ⟨rfl, rfl, rfl⟩

theorem curenv_insertReady (s : Sched) (e : Nat) : (s.insertReady e).curenv = s.curenv ∧
    (s.insertReady e).schedulerStatus = s.schedulerStatus := by
  unfold insertReady
  dsimp only
  split <;> exact ⟨rfl, rfl⟩

theorem SameTable.trans_queues {u : Sched} (h : SameTable i s t) (h' : QueuesOnly t u) :
    SameTable i s u ∧ (u.semaphores i).value = (t.semaphores i).value := by
  have hsame : ∀ j, (u.semaphores j).empty = (t.semaphores j).empty ∧
      (u.semaphores j).ownerID = (t.semaphores j).ownerID ∧
      (u.semaphores j).name = (t.semaphores j).name ∧
      (u.semaphores j).value = (t.semaphores j).value := by
    intro j
    obtain ⟨hd, hj⟩ := h'.2 j
    rw [hj]
    exact ⟨rfl, rfl, rfl, rfl⟩
  refine ⟨⟨h'.1.trans h.max, fun j => ?_, fun j hj => ?_⟩, (hsame i).2.2.2⟩
  · obtain ⟨h1, h2, h3⟩ := h.names j
    obtain ⟨h4, h5, h6, -⟩ := hsame j
    exact ⟨h4.trans h1, h5.trans h2, h6.trans h3⟩
  · exact (hsame j).2.2.2.trans (h.values j hj)

/-! ## Waits and signals -/

/-- What a wait or a signal on entry `i` leaves: the same table but for the value `v`, and the
sequences `c'` with the new queue `xs` of the semaphore. -/
structure Updated (i : Nat) (v : Int) (xs : List Nat) (s t : Sched) (c c' : QueueId → List Nat) :
    Prop where
  wf : WF t c'
  table : SameTable i s t
  value : (t.semaphores i).value = v
  queue : c' (.sem i) = xs
  others : ∀ j, j ≠ i → c' (.sem j) = c (.sem j)

section

variable {c : QueueId → List Nat} {e : Nat}

/-- A wait that returned: the running environment is queued if the value became negative, and the
scheduler was invoked. -/
theorem waitSemaphore_ok (h : WF s c) (hcur : s.curenv = some e) (hready : s.envStatus e = .ready)
    (hw : waitSemaphore owner name s = .ok () t) :
    (s.findSemaphore owner name = none ∧ t = s) ∨
      ∃ i c', s.findSemaphore owner name = some i ∧
        Updated i (toI32 ((s.semaphores i).value - 1))
          (if toI32 ((s.semaphores i).value - 1) < 0 then e :: c (.sem i) else c (.sem i)) s t c c' ∧
        (∃ u, WF u c' ∧ t = u.fosScheduler) ∧ ∀ y, (∀ q, y ∉ c q) → SameAt y s t := by
  rw [waitSemaphore, Prog.get_bind_apply, Prog.ite_run] at hw
  split at hw
  case isTrue => cases hw
  case isFalse =>
    cases hfind : s.findSemaphore owner name with
    | none =>
      rw [hfind] at hw
      obtain ⟨-, rfl⟩ := ok_inj.1 hw
      exact .inl ⟨rfl, rfl⟩
    | some i =>
      rw [hfind] at hw
      dsimp only at hw
      set val := toI32 ((s.semaphores i).value - 1) with hval
      set s₁ := s.setSemaphore i { s.semaphores i with value := val } with hs₁
      have hwf₁ : WF s₁ c := h.setSemaphore i rfl id
      have htab := SameTable.setValue s i val
      have hv : (s₁.semaphores i).value = val := by simp [hs₁, setSemaphore]
      rw [Prog.ite_run] at hw
      refine .inr ⟨i, ?_⟩
      by_cases hneg : val < 0
      · rw [if_pos hneg, show s₁.curenv = some e from hcur] at hw
        obtain ⟨-, rfl⟩ := ok_inj.1 hw
        rw [if_pos hneg]
        obtain ⟨pre, post, hsplit⟩ := List.append_of_mem (h.ready e hready)
        -- the environment leaves the ready queue and enters the queue of the semaphore
        have hwf₂ := hwf₁.removeReady hsplit
        have hout := hwf₂.not_mem (e := e)
          (by simp [removeReady, setStatus]) (by simp [removeReady, setStatus])
        have hused : ((s₁.removeReady e).semaphores i).empty = false :=
          ((htab.names i).1.trans (findSemaphore_some hfind).1 :)
        have hwf₃ := (hwf₂.enqueue hout i hused).fosScheduler
        have hq : QueuesOnly s₁ _ :=
          (QueuesOnly.of_eq (s := s₁) (t := s₁.removeReady e) rfl rfl).trans
          (QueuesOnly.setQueue (s₁.removeReady e) (.sem i) (listInsertHead
            (s₁.removeReady e).links ((s₁.removeReady e).head (.sem i)) e))
        obtain ⟨ht, hv'⟩ := htab.trans_queues hq
        refine ⟨_, rfl, ⟨hwf₃, ⟨ht.max, ht.names, ht.values⟩, hv'.trans hv, ?_, fun j hj => ?_⟩,
          ⟨_, hwf₂.enqueue hout i hused, rfl⟩, fun y hy => ?_⟩
        · rw [Function.update_self, Function.update_of_ne (by simp)]
        · rw [Function.update_of_ne (by simpa using hj), Function.update_of_ne (by simp)]
        · have hye : y ≠ e := fun hye => hy .ready (hye ▸ h.ready e hready)
          have hyr : y ∉ pre ++ post := by
            intro hm
            refine hy .ready ?_
            rw [hsplit]
            simp only [List.mem_append, List.mem_cons] at hm ⊢
            tauto
          obtain ⟨hnext, hprev, hst⟩ := (hwf₁.sameAt_removeReady (h.ready e hready) hy).trans
            (hwf₂.sameAt_enqueue i (notMem_update hy hyr) hye)
          exact ⟨hnext, hprev, hst⟩
      · rw [if_neg hneg] at hw
        obtain ⟨-, rfl⟩ := ok_inj.1 hw
        rw [if_neg hneg]
        exact ⟨c, rfl, ⟨hwf₁.fosScheduler, ⟨htab.max, htab.names, htab.values⟩, hv, rfl,
          fun _ _ => rfl⟩, ⟨_, hwf₁, rfl⟩, fun y _ => ⟨rfl, rfl, rfl⟩⟩

/-- A wait blocks the running environment, and changes no other status. -/
theorem waitSemaphore_status (hcur : s.curenv = some e)
    (hfind : s.findSemaphore owner name = some i) (hw : waitSemaphore owner name s = .ok () t) :
    t.envStatus = if toI32 ((s.semaphores i).value - 1) < 0 then
      Function.update s.envStatus e .blocked else s.envStatus := by
  rw [waitSemaphore, Prog.get_bind_apply, Prog.ite_run] at hw
  split at hw
  case isTrue => cases hw
  case isFalse =>
    rw [hfind] at hw
    dsimp only at hw
    rw [Prog.ite_run] at hw
    split at hw
    case isTrue hneg =>
      rw [show (s.setSemaphore i _).curenv = some e from hcur] at hw
      obtain ⟨-, rfl⟩ := ok_inj.1 hw
      rw [if_pos hneg]
      show Function.update (setQueue _ _ _).envStatus e .blocked = _
      rw [envStatus_setQueue]
      exact Function.update_idem ..
    case isFalse hpos =>
      obtain ⟨-, rfl⟩ := ok_inj.1 hw
      rw [if_neg hpos]
      rfl

/-- A signal that returned: if the value is not positive, the last environment of the queue is
ready again, and no status but its own changed. -/
theorem signalSemaphore_ok (h : WF s c) (hw : signalSemaphore owner name s = .ok () t) :
    (s.findSemaphore owner name = none ∧ t = s) ∨
      ∃ i, s.findSemaphore owner name = some i ∧
        (t.curenv = s.curenv ∧ t.schedulerStatus = s.schedulerStatus) ∧
        (∀ y, (∀ q, y ∉ c q) → SameAt y s t) ∧
        if toI32 ((s.semaphores i).value + 1) ≤ 0 then
          ∃ p init c', c (.sem i) = init ++ [p] ∧
            Updated i (toI32 ((s.semaphores i).value + 1)) init s t c c' ∧
            t.envStatus = Function.update s.envStatus p .ready ∧
            (c' .ready).Perm (p :: c .ready)
        else Updated i (toI32 ((s.semaphores i).value + 1)) (c (.sem i)) s t c c ∧
          t.envStatus = s.envStatus := by
  rw [signalSemaphore, Prog.get_bind_apply, Prog.ite_run] at hw
  split at hw
  case isTrue => cases hw
  case isFalse =>
    cases hfind : s.findSemaphore owner name with
    | none =>
      rw [hfind] at hw
      obtain ⟨-, rfl⟩ := ok_inj.1 hw
      exact .inl ⟨rfl, rfl⟩
    | some i =>
      rw [hfind] at hw
      dsimp only at hw
      set val := toI32 ((s.semaphores i).value + 1) with hval
      set s₁ := s.setSemaphore i { s.semaphores i with value := val } with hs₁
      have hwf₁ : WF s₁ c := h.setSemaphore i rfl id
      have htab := SameTable.setValue s i val
      have hv : (s₁.semaphores i).value = val := by simp [hs₁, setSemaphore]
      rw [Prog.ite_run] at hw
      refine .inr ⟨i, rfl, ?_⟩
      by_cases hpos : val ≤ 0
      · rw [if_pos hpos] at hw ⊢
        have hlast := (hwf₁.lists (.sem i)).last
        cases hp : (s₁.head (.sem i)).last with
        | none => rw [hp] at hw; cases hw
        | some p =>
          rw [hp] at hw hlast
          obtain ⟨-, rfl⟩ := ok_inj.1 hw
          obtain ⟨init, hinit⟩ := List.getLast?_eq_some_iff.1 hlast.symm
          have hwf₂ := hwf₁.dequeue hinit
          set s₂ := s₁.setQueue (.sem i) (listRemove s₁.links (s₁.head (.sem i)) p) with hs₂
          -- out of its queue and not yet ready, `p` is in no queue
          have hout : ∀ q, p ∉ Function.update c (.sem i) init q := by
            intro q hmem
            have hin : p ∈ c (.sem i) := by rw [hinit]; simp
            by_cases hqi : q = .sem i
            · subst hqi
              rw [Function.update_self] at hmem
              have hnd := (h.lists (.sem i)).nodup
              rw [hinit] at hnd
              exact (List.nodup_append.1 hnd).2.2 p hmem p (by simp) rfl
            · rw [Function.update_of_ne hqi] at hmem
              exact hqi (h.excl _ _ p hmem hin)
          obtain ⟨ready, hwf₃, hperm⟩ := hwf₂.insertReady hout
          obtain ⟨hsem, hmax, hst⟩ := semaphores_insertReady s₂ p
          have hst₂ : s₂.envStatus = s.envStatus := by
            rw [hs₂, envStatus_setQueue]
            rfl
          have hself : (s₂.insertReady p).setStatus p .ready = s₂.insertReady p := by
            unfold setStatus
            rw [hst, Function.update_idem, ← hst]
          rw [hself]
          obtain ⟨ht, hv'⟩ := htab.trans_queues
            ((QueuesOnly.setQueue s₁ (.sem i) _).trans (QueuesOnly.of_eq hmax hsem))
          refine ⟨?_, fun y hy => ?_, p, init, _, hinit,
            ⟨hwf₃, ht, hv'.trans hv, ?_, fun j hj => ?_⟩, ?_, ?_⟩
          · exact curenv_insertReady s₂ p
          · have hpi : p ∈ c (.sem i) := by rw [hinit]; simp
            have hyp : y ≠ p := fun hyp => hy _ (hyp ▸ hpi)
            have hyi : y ∉ init := fun hm => hy (.sem i) (by rw [hinit]; simp [hm])
            obtain ⟨hnext, hprev, hst⟩ := (hwf₁.sameAt_remove hpi hy).trans
              (hwf₂.sameAt_insertReady hout (notMem_update hy hyi) hyp)
            exact ⟨hnext, hprev, hst⟩
          · rw [Function.update_of_ne (by simp), Function.update_self]
          · rw [Function.update_of_ne (by simp), Function.update_of_ne (by simpa using hj)]
          · rw [hst, hst₂]
          · rw [Function.update_self]
            rwa [Function.update_of_ne (by simp)] at hperm
      · rw [if_neg hpos] at hw ⊢
        obtain ⟨-, rfl⟩ := ok_inj.1 hw
        exact ⟨⟨rfl, rfl⟩, fun y _ => ⟨rfl, rfl, rfl⟩, ⟨hwf₁, htab, hv, rfl, fun _ _ => rfl⟩, rfl⟩

end

/-! ## Creation -/

section

variable {c : QueueId → List Nat} {id : Int} {init : Nat}

/-- A creation that returned an id made an unused entry into a semaphore with no waiters. -/
theorem createSemaphore_ok (hw : createSemaphore owner name init s = .ok id t) :
    (id < 0 ∧ ∃ b, t = { s with semaphoresNull := b }) ∨
      ∃ k : Nat, id = k ∧ s.findSemaphore owner name = none ∧ k < s.maxSemaphores ∧
        (s.semaphores k).empty = true ∧
        t = s.setSemaphore k
          ⟨owner, name, (s.semaphores k).envQueue, toI32 init, false⟩ := by
  rw [createSemaphore, Prog.get_bind_apply, Prog.ite_run] at hw
  split at hw
  case isTrue => cases hw
  case isFalse hnull =>
    rw [Prog.ite_run] at hw
    split at hw
    case isTrue =>
      obtain ⟨rfl, rfl⟩ := ok_inj.1 hw
      exact .inl ⟨by decide, s.semaphoresNull, rfl⟩
    case isFalse hfind =>
      obtain ⟨ret, s₁, halloc, hw⟩ := bind_eq_ok.1 hw
      rw [allocateSemaphoreObject, Prog.get_bind_apply, Prog.ite_run,
        if_neg fun h => hnull h.1] at halloc
      cases hfree : (List.range s.maxSemaphores).find? (fun i => (s.semaphores i).empty) with
      | none =>
        rw [hfree] at halloc
        obtain ⟨rfl, rfl⟩ := ok_inj.1 halloc
        rw [Prog.ite_run, if_neg (by simp)] at hw
        obtain ⟨rfl, rfl⟩ := ok_inj.1 hw
        exact .inl ⟨by decide, true, rfl⟩
      | some k =>
        rw [hfree] at halloc
        obtain ⟨rfl, rfl⟩ := ok_inj.1 halloc
        -- an index is never one of the negative answers
        have hne : ((k : Nat) : Int) ≠ eNoSemaphore := by unfold eNoSemaphore; omega
        rw [Prog.ite_run, if_pos hne] at hw
        obtain ⟨rfl, rfl⟩ := ok_inj.1 hw
        have hempty := List.find?_some hfree
        refine .inr ⟨k, rfl, by simpa using hfind, ?_, hempty, ?_⟩
        · exact List.mem_range.1 (List.mem_of_find?_eq_some hfree)
        · simp [setSemaphore]

/-- A creation leaves the queues alone and finds no other entry than before for a used name. -/
theorem WF.createSemaphore (h : WF s c) (hw : createSemaphore owner name init s = .ok id t) :
    WF t c := by
  rcases createSemaphore_ok hw with ⟨-, b, rfl⟩ | ⟨k, -, -, -, hempty, rfl⟩
  · refine ⟨⟨fun q => ?_, h.excl⟩, h.status, h.ready, h.next_mem, h.next_none, h.unused⟩
    cases q with
    | ready => exact h.lists .ready
    | sem i => exact h.lists (.sem i)
  · exact h.setSemaphore k rfl (by simp)

end

/-! ## Calls -/

/-- A call of the scheduler or of the semaphores. -/
inductive Call
  | arrive (e : Nat)
  | clock
  | dispatch (e : Nat)
  | create (owner : Int) (name : List UInt8) (init : Nat)
  | wait (owner : Int) (name : List UInt8)
  | signal (owner : Int) (name : List UInt8)

/-- One call: an environment enters the ready queue, the clock interrupts, the running environment
is another one of the ready ones, or the running environment calls the semaphores. -/
inductive Call.Step : Call → Sched → Sched → Prop
  | arrive {s : Sched} {e : Nat} (h1 : s.envStatus e ≠ .ready) (h2 : s.envStatus e ≠ .blocked) :
      Step (.arrive e) s (s.insertReady e)
  | clock (s : Sched) : Step .clock s s.fosScheduler
  | dispatch {s : Sched} {e : Nat} (h : s.envStatus e = .ready) :
      Step (.dispatch e) s { s with curenv := some e }
  | create {s t : Sched} {owner id : Int} {name : List UInt8} {init : Nat}
      (hname : name.length < semaphoreNameSize)
      (h : createSemaphore owner name init s = .ok id t) : Step (.create owner name init) s t
  | wait {s t : Sched} {e : Nat} {owner : Int} {name : List UInt8} (hcur : s.curenv = some e)
      (hready : s.envStatus e = .ready) (h : waitSemaphore owner name s = .ok () t) :
      Step (.wait owner name) s t
  | signal {s t : Sched} {e : Nat} {owner : Int} {name : List UInt8} (hcur : s.curenv = some e)
      (hready : s.envStatus e = .ready) (h : signalSemaphore owner name s = .ok () t) :
      Step (.signal owner name) s t

/-- The call waits for the semaphore or signals it. -/
def Call.On (owner : Int) (name : List UInt8) : Call → Prop
  | .wait o n | .signal o n => o = owner ∧ n = name
  | _ => False

/-- The semaphore is entry `i`, with value `v` and queue `xs`. -/
structure Holds (owner : Int) (name : List UInt8) (i : Nat) (v : Int) (xs : List Nat) (s : Sched)
    (c : QueueId → List Nat) : Prop where
  wf : WF s c
  find : s.findSemaphore owner name = some i
  value : (s.semaphores i).value = v
  queue : c (.sem i) = xs

variable {c : QueueId → List Nat} {v : Int} {xs : List Nat}

/-- A wait or signal on another entry leaves this one alone. -/
theorem Holds.updated (h : Holds owner name i v xs s c) {j : Nat} {w : Int} {ys : List Nat}
    {c' : QueueId → List Nat} (hu : Updated j w ys s t c c') (hne : i ≠ j) :
    Holds owner name i v xs t c' :=
  ⟨hu.wf, (findSemaphore_congr hu.table.max hu.table.names owner name).trans h.find,
    (hu.table.values i hne).trans h.value, (hu.others i hne).trans h.queue⟩

/-- Two semaphores with different names have different entries. -/
theorem findSemaphore_ne {o : Int} {n : List UInt8} {j : Nat}
    (hi : s.findSemaphore owner name = some i) (hj : s.findSemaphore o n = some j)
    (hne : ¬ (o = owner ∧ n = name)) : i ≠ j := by
  rintro rfl
  obtain ⟨-, h1, h2⟩ := findSemaphore_some hi
  obtain ⟨-, h3, h4⟩ := findSemaphore_some hj
  exact hne ⟨h3.symm.trans h1, h4.symm.trans h2⟩

/-- A new semaphore hides no other one. -/
theorem findSemaphore_create_of_ne {o : Int} {n : List UInt8} {k : Nat} {sem : Semaphore}
    (hempty : (s.semaphores k).empty = true) (ho : sem.ownerID = o) (hn : sem.name = n)
    (hne : ¬ (o = owner ∧ n = name)) :
    (s.setSemaphore k sem).findSemaphore owner name = s.findSemaphore owner name := by
  unfold findSemaphore
  show List.find? _ (List.range s.maxSemaphores) = _
  congr 1
  funext j
  by_cases hj : j = k
  · subst hj
    have hnot : (sem.ownerID == owner && sem.name == name) = false := by
      rw [ho, hn]
      simpa using hne
    simp only [setSemaphore, Function.update_self, hempty, Bool.not_true, Bool.false_and,
      Bool.and_assoc, hnot, Bool.and_false]
  · simp only [setSemaphore, Function.update_of_ne hj]

/-- A new semaphore is found at its entry. -/
theorem findSemaphore_create {k : Nat} {sem : Semaphore} (hnone : s.findSemaphore owner name = none)
    (hsem : sem.empty = false ∧ sem.ownerID = owner ∧ sem.name = name) (hk : k < s.maxSemaphores) :
    (s.setSemaphore k sem).findSemaphore owner name = some k := by
  unfold findSemaphore at hnone ⊢
  rw [List.find?_eq_none] at hnone
  refine List.find?_range_eq_some.2 ⟨by simp [setSemaphore, hsem], List.mem_range.2 hk, ?_⟩
  intro j hj
  have hjk : j ≠ k := Nat.ne_of_lt hj
  have := hnone j (List.mem_range.2 (Nat.lt_trans hj hk))
  simp only [setSemaphore, Function.update_of_ne hjk]
  simpa only [Bool.not_eq_true, Bool.not_eq_eq_eq_not, Bool.not_true] using this

/-- Every call keeps the queues well-formed, and one that is not on the semaphore leaves the
semaphore alone. -/
theorem Call.Step.wf {call : Call} (h : WF s c) (hst : call.Step s t) : ∃ c', WF t c' ∧
    ∀ owner name i v xs, Holds owner name i v xs s c → ¬ call.On owner name →
      Holds owner name i v xs t c' := by
  cases hst with
  | arrive h1 h2 =>
    obtain ⟨ready, hwf, -⟩ := h.insertReady (h.not_mem h1 h2)
    obtain ⟨hsem, hmax, -⟩ := semaphores_insertReady s _
    refine ⟨_, hwf, fun owner name i v xs hh _ => ⟨hwf, ?_, ?_, ?_⟩⟩
    · rw [findSemaphore_congr hmax (fun j => by rw [hsem]; exact ⟨rfl, rfl, rfl⟩)]
      exact hh.find
    · rw [hsem]
      exact hh.value
    · rw [Function.update_of_ne (by simp)]
      exact hh.queue
  | clock => exact ⟨c, h.fosScheduler, fun _ _ _ _ _ hh _ =>
      ⟨h.fosScheduler, hh.find, hh.value, hh.queue⟩⟩
  | dispatch hr =>
    refine ⟨c, ⟨⟨h.lists, h.excl⟩, h.status, h.ready, h.next_mem, h.next_none, h.unused⟩, ?_⟩
    exact fun _ _ _ _ _ hh _ => ⟨⟨⟨h.lists, h.excl⟩, h.status, h.ready, h.next_mem, h.next_none,
      h.unused⟩, hh.find, hh.value, hh.queue⟩
  | @create _ _ o id n init hname hw =>
    have hwf := h.createSemaphore hw
    refine ⟨c, hwf, fun owner name i v xs hh _ => ?_⟩
    rcases createSemaphore_ok hw with ⟨-, b, rfl⟩ | ⟨k, -, hnone, -, hempty, rfl⟩
    · exact ⟨hwf, hh.find, hh.value, hh.queue⟩
    · -- the name is new, so it is not the one of this semaphore
      have hne : ¬ (o = owner ∧ n = name) := by
        rintro ⟨rfl, rfl⟩
        rw [hh.find] at hnone
        cases hnone
      have hik : i ≠ k := by
        rintro rfl
        rw [(findSemaphore_some hh.find).1] at hempty
        cases hempty
      refine ⟨hwf, ?_, ?_, hh.queue⟩
      · rw [findSemaphore_create_of_ne hempty rfl rfl hne]
        exact hh.find
      · simp only [setSemaphore, Function.update_of_ne hik]
        exact hh.value
  | wait hcur hready hw =>
    rcases waitSemaphore_ok h hcur hready hw with ⟨-, rfl⟩ | ⟨j, c', hfind, hu, -⟩
    · exact ⟨c, h, fun _ _ _ _ _ hh _ => hh⟩
    · exact ⟨c', hu.wf, fun _ _ _ _ _ hh hne => hh.updated hu (findSemaphore_ne hh.find hfind hne)⟩
  | signal hcur hready hw =>
    rcases signalSemaphore_ok h hw with ⟨-, rfl⟩ | ⟨j, hfind, -, -, hu⟩
    · exact ⟨c, h, fun _ _ _ _ _ hh _ => hh⟩
    · split at hu
      case isTrue =>
        obtain ⟨p, init, c', -, hu, -⟩ := hu
        exact ⟨c', hu.wf, fun _ _ _ _ _ hh hne =>
          hh.updated hu (findSemaphore_ne hh.find hfind hne)⟩
      case isFalse =>
        exact ⟨c, hu.1.wf, fun _ _ _ _ _ hh hne =>
          hh.updated hu.1 (findSemaphore_ne hh.find hfind hne)⟩

end Sched

end Fos
