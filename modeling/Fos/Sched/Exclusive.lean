import Fos.Sched.Lifecycle

/-!
# Every environment is in one list

The three lists of environments that wait for a command and the queues of the scheduler share one
pair of links, and no environment is ever in two of them. Each command keeps that, and the status
of an environment is the one of its list.
-/

namespace Fos

open Prog (bind_eq_ok ok_inj)
open Relation (ReflTransGen)
open Sched (WF SameAt)

/-- The status of the environments in a pool. -/
def Pool.status : Pool → EnvStatus
  | .free => .free
  | .new => .new
  | .exit => .exit

/-! ## The invariant of the lists -/

/-- The queues of the scheduler are well-formed, the pools stand for the sequences `p`, and the
status of an environment in a pool is the one of the pool. -/
structure Placed (s : EnvTable) (c : QueueId → List Nat) (p : Pool → List Nat) : Prop where
  wf : WF s.sched c
  lists : ∀ k, IsList s.sched.links (s.pool k) (p k)
  status : ∀ k, ∀ e ∈ p k, s.sched.envStatus e = k.status

section

variable {s : EnvTable} {c c' : QueueId → List Nat} {p : Pool → List Nat} {k : Pool} {e : Nat}

@[simp] theorem pool_setPool_self (s : EnvTable) (k : Pool) (r : Links Nat × ListHead Nat) :
    (s.setPool k r).pool k = r.2 := by cases k <;> rfl

theorem pool_setPool_of_ne (s : EnvTable) {k k' : Pool} (h : k' ≠ k)
    (r : Links Nat × ListHead Nat) : (s.setPool k r).pool k' = s.pool k' := by
  cases k <;> cases k' <;> first | rfl | exact absurd rfl h

@[simp] theorem sched_setPool (s : EnvTable) (k : Pool) (r : Links Nat × ListHead Nat) :
    (s.setPool k r).sched = { s.sched with links := r.1 } := by cases k <;> rfl

theorem Pool.status_inj {k k' : Pool} (h : k.status = k'.status) : k = k' := by
  cases k <;> cases k' <;> first | rfl | cases h

/-- An environment of a pool is in no queue. -/
theorem Placed.not_queued (h : Placed s c p) (he : e ∈ p k) : ∀ q, e ∉ c q := by
  have hst := h.status k e he
  refine h.wf.not_mem ?_ ?_ <;> rw [hst] <;> cases k <;> decide

/-- An environment of a pool is in no other pool. -/
theorem Placed.pool_unique (h : Placed s c p) {k' : Pool} (he : e ∈ p k) (he' : e ∈ p k') :
    k = k' :=
  Pool.status_inj ((h.status k e he).symm.trans (h.status k' e he'))

/-- A call of the scheduler that leaves the environments of the pools alone. -/
theorem Placed.onSched (h : Placed s c p) {t : Sched} (ht : WF t c')
    (hs : ∀ k, ∀ y ∈ p k, SameAt y s.sched t) : Placed { s with sched := t } c' p := by
  refine ⟨ht, fun k => ?_, fun k y hy => (hs k y hy).status.trans (h.status k y hy)⟩
  have hl := h.lists k
  refine ⟨hl.seg.congr fun y hy => ⟨(hs k y hy).next, (hs k y hy).prev⟩, ?_, ?_, ?_, hl.nodup⟩
  · cases k <;> exact hl.first
  · cases k <;> exact hl.last
  · cases k <;> exact hl.size

/-- The queues read only the links and the statuses of their environments. -/
theorem wf_relink {s : Sched} {links : Links Nat} {st : Nat → EnvStatus} (h : WF s c)
    (hs : ∀ q, ∀ x ∈ c q, links.next x = s.links.next x ∧ links.prev x = s.links.prev x ∧
      st x = s.envStatus x)
    (hready : ∀ x, st x = .ready → s.envStatus x = .ready) :
    WF { s with links := links, envStatus := st } c where
  lists q := by
    have hl := h.lists q
    have hhd : Sched.head { s with links := links, envStatus := st } q = s.head q := by
      cases q <;> rfl
    rw [hhd]
    exact ⟨hl.seg.congr fun x hx => ⟨(hs q x hx).1, (hs q x hx).2.1⟩, hl.first, hl.last, hl.size,
      hl.nodup⟩
  excl := h.excl
  status q x hx := (hs q x hx).2.2.trans (h.status q x hx)
  ready x hx := h.ready x (hready x hx)
  next_mem := h.next_mem
  next_none := h.next_none
  unused := h.unused

/-- An operation on one pool that uses only its own elements and `e`, which gets the status `st`.
The elements that are left have the status of the pool. -/
theorem Placed.setPool (h : Placed s c p) {r : Links Nat × ListHead Nat} {xs ys : List Nat}
    {st : EnvStatus} (hr : IsList r.1 r.2 xs) (hs : SameOutside ys s.sched.links r.1)
    (hys : ∀ y ∈ ys, y ∈ p k ∨ y = e) (hxs : ∀ x ∈ xs, x ∈ p k ∧ x ≠ e ∨ x = e ∧ st = k.status)
    (hq : ∀ q, e ∉ c q) (hp : ∀ k', k' ≠ k → e ∉ p k') (hst : st ≠ .ready) :
    Placed ((s.setPool k r).setStatus e st) c (Function.update p k xs) := by
  -- what the operation uses is in no queue and in no other pool
  have hqueue : ∀ q, ∀ x ∈ c q, x ∉ ys ∧ x ≠ e := by
    intro q x hx
    have hxe : x ≠ e := fun hxe => hq q (hxe ▸ hx)
    exact ⟨fun hy => h.not_queued ((hys x hy).resolve_right hxe) q hx, hxe⟩
  have hother : ∀ k', k' ≠ k → ∀ x ∈ p k', x ∉ ys ∧ x ≠ e := by
    intro k' hk x hx
    have hxe : x ≠ e := fun hxe => hp k' hk (hxe ▸ hx)
    exact ⟨fun hy => hk (h.pool_unique hx ((hys x hy).resolve_right hxe)), hxe⟩
  have hstatus : ∀ x, x ≠ e →
      ((s.setPool k r).setStatus e st).sched.envStatus x = s.sched.envStatus x := by
    intro x hx
    rw [EnvTable.setStatus, Sched.setStatus, sched_setPool]
    exact Function.update_of_ne hx _ _
  have hself : ((s.setPool k r).setStatus e st).sched.envStatus e = st := by
    rw [EnvTable.setStatus, Sched.setStatus, sched_setPool]
    exact Function.update_self _ _ _
  have hpool : ∀ k', ((s.setPool k r).setStatus e st).pool k' = (s.setPool k r).pool k' := by
    intro k'
    cases k' <;> rfl
  have hlinks : ((s.setPool k r).setStatus e st).sched.links = r.1 := by
    rw [EnvTable.setStatus, Sched.setStatus, sched_setPool]
  refine ⟨?_, fun k' => ?_, fun k' x hx => ?_⟩
  · have hsched : ((s.setPool k r).setStatus e st).sched =
        { s.sched with links := r.1, envStatus := Function.update s.sched.envStatus e st } := by
      rw [EnvTable.setStatus, Sched.setStatus, sched_setPool]
    rw [hsched]
    refine wf_relink h.wf (fun q x hx => ?_) fun x hx => ?_
    · obtain ⟨hy, hxe⟩ := hqueue q x hx
      exact ⟨(hs x hy).1, (hs x hy).2, Function.update_of_ne hxe _ _⟩
    · by_cases hxe : x = e
      · rw [hxe, Function.update_self] at hx
        exact absurd hx hst
      · rwa [Function.update_of_ne hxe] at hx
  · rw [hpool, hlinks]
    by_cases hk : k' = k
    · subst hk
      rw [pool_setPool_self, Function.update_self]
      exact hr
    · rw [pool_setPool_of_ne s hk, Function.update_of_ne hk]
      exact (h.lists k').frame hs fun x hx hy => (hother k' hk x hx).1 hy
  · by_cases hk : k' = k
    · subst hk
      rw [Function.update_self] at hx
      rcases hxs x hx with ⟨hmem, hxe⟩ | ⟨hxe, hst'⟩
      · rw [hstatus x hxe]
        exact h.status k' x hmem
      · rw [hxe, hself, hst']
    · rw [Function.update_of_ne hk] at hx
      rw [hstatus x (hother k' hk x hx).2]
      exact h.status k' x hx

/-- An environment in no list enters a pool and gets the status of that pool. -/
theorem Placed.insertTail (h : Placed s c p) (hq : ∀ q, e ∉ c q) (hp : ∀ k, e ∉ p k) (k : Pool) :
    Placed ((s.setStatus e k.status).insertTail k e) c (Function.update p k (p k ++ [e])) := by
  have hset : (s.setStatus e k.status).insertTail k e =
      (s.setPool k (listInsertTail s.sched.links (s.pool k) e)).setStatus e k.status := by
    cases k <;> rfl
  rw [hset]
  refine h.setPool ((h.lists k).insertTail (hp k)) (h.lists k).insertTail_frame (fun y hy => ?_)
    (fun x hx => ?_) hq (fun k' _ => hp k') (by cases k <;> decide)
  · exact (List.mem_cons.1 hy).symm
  · rcases List.mem_append.1 hx with hx | hx
    · exact .inl ⟨hx, fun hxe => hp k (hxe ▸ hx)⟩
    · exact .inr ⟨List.mem_singleton.1 hx, rfl⟩

/-- An environment leaves its pool. -/
theorem Placed.remove (h : Placed s c p) {pre post : List Nat} (hk : p k = pre ++ e :: post)
    {st : EnvStatus} (hst : st ≠ .ready) :
    Placed ((s.remove k e).setStatus e st) c (Function.update p k (pre ++ post)) := by
  have hl := h.lists k
  have he : e ∈ p k := by rw [hk]; simp
  rw [hk] at hl
  have hnot : e ∉ pre ++ post := (List.nodup_cons.1 (List.perm_middle.nodup_iff.1 hl.nodup)).1
  refine h.setPool hl.remove hl.remove_frame (fun y hy => .inl (by rwa [hk])) (fun x hx => ?_)
    (h.not_queued he) (fun k' hne he' => hne (h.pool_unique he' he)) hst
  refine .inl ⟨?_, fun hxe => hnot (hxe ▸ hx)⟩
  rw [hk]
  simp only [List.mem_append, List.mem_cons] at hx ⊢
  tauto

end

/-! ## The running environment and the waiting ones -/

/-- A running environment is ready, and while the scheduler is stopped none is. -/
structure Dispatched (s : Sched) (c : QueueId → List Nat) : Prop where
  running : ∀ e, s.curenv = some e → e ∈ c .ready
  started : s.curenv = none → s.schedulerStatus = .stopped
  idle : s.schedulerStatus = .stopped → c .ready = []

/-- The value of a semaphore is an `int`, and below zero it counts the environments that wait. -/
structure Counted (s : Sched) (c : QueueId → List Nat) : Prop where
  waiting : ∀ i, (s.semaphores i).empty = false →
    ((c (.sem i)).length : Int) = max 0 (-(s.semaphores i).value)
  range : ∀ i, (s.semaphores i).empty = false →
    -2147483648 ≤ (s.semaphores i).value ∧ (s.semaphores i).value < 2147483648

structure EnvInv (s : EnvTable) (c : QueueId → List Nat) (p : Pool → List Nat) : Prop
    extends Placed s c p where
  dispatched : Dispatched s.sched c
  counted : Counted s.sched c

/-- The invariant of the lists alone, whatever the values of the semaphores are. -/
structure EnvLive (s : EnvTable) (c : QueueId → List Nat) (p : Pool → List Nat) : Prop
    extends Placed s c p where
  dispatched : Dispatched s.sched c

/-- What every call but the creation of an environment does: it keeps the invariant, the free
environments and the identifiers, no environment leaves the exit queue, and one that leaves another
list has a new status. -/
structure Moves (s t : EnvTable) (c : QueueId → List Nat) (p : Pool → List Nat)
    (c' : QueueId → List Nat) (p' : Pool → List Nat) : Prop where
  live : EnvLive t c' p'
  pool : p' .free = p .free
  exit : ∀ e ∈ p .exit, e ∈ p' .exit
  status : ∀ e, t.sched.envStatus e = s.sched.envStatus e ∨ s.sched.envStatus e ≠ .free ∧
    (t.sched.envStatus e = .ready ∨ t.sched.envStatus e = .exit ∨
      t.sched.envStatus e = .blocked ∧ ∃ i, e ∈ c' (.sem i))
  new : ∀ e ∈ p .new, e ∈ p' .new ∨ t.sched.envStatus e ≠ .new
  waiting : ∀ i, ∀ e ∈ c (.sem i), e ∈ c' (.sem i) ∨ t.sched.envStatus e ≠ .blocked
  envId : t.envId = s.envId
  nenv : t.nenv = s.nenv

section

variable {s t : EnvTable} {c c' : QueueId → List Nat} {p p' : Pool → List Nat} {k : Pool} {e : Nat}

theorem dispatched_fosScheduler {s : Sched} (h : WF s c) : Dispatched s.fosScheduler c := by
  refine ⟨fun e he => h.next_mem e he, fun hn => ?_, fun hs => h.next_none ?_⟩
  · have hnone : s.schedNext = none := hn
    simp [Sched.fosScheduler, hnone]
  · have hstop : (if s.schedNext.isSome then SchedulerStatus.started else .stopped) = .stopped := hs
    split at hstop
    case isTrue => cases hstop
    case isFalse hnone => simpa using hnone

/-- Environments have entered the ready queue, and nothing else in the scheduler has changed. -/
structure Entered (s t : Sched) (c c' : QueueId → List Nat) : Prop where
  curenv : t.curenv = s.curenv
  status : t.schedulerStatus = s.schedulerStatus
  semaphores : t.semaphores = s.semaphores
  sem : ∀ i, c' (.sem i) = c (.sem i)
  ready : ∀ e ∈ c .ready, e ∈ c' .ready
  entered : ∀ e, t.envStatus e = s.envStatus e ∨ s.envStatus e ≠ .free ∧ t.envStatus e = .ready

theorem Entered.refl (s : Sched) (c : QueueId → List Nat) : Entered s s c c :=
  ⟨rfl, rfl, rfl, fun _ => rfl, fun _ h => h, fun _ => .inl rfl⟩

theorem Entered.trans {s t u : Sched} {c'' : QueueId → List Nat} (h : Entered s t c c')
    (h' : Entered t u c' c'') : Entered s u c c'' :=
  ⟨h'.curenv.trans h.curenv, h'.status.trans h.status, h'.semaphores.trans h.semaphores,
    fun i => (h'.sem i).trans (h.sem i), fun e he => h'.ready e (h.ready e he), fun e => by
      rcases h.entered e with h1 | ⟨h1, h2⟩
      · rcases h'.entered e with h3 | ⟨h3, h4⟩
        · exact .inl (h3.trans h1)
        · exact .inr ⟨h1 ▸ h3, h4⟩
      · rcases h'.entered e with h3 | ⟨-, h4⟩
        · exact .inr ⟨h1, h3.trans h2⟩
        · exact .inr ⟨h1, h4⟩⟩

theorem Counted.congr {s t : Sched} (h : Counted s c) (hsem : t.semaphores = s.semaphores)
    (hc : ∀ i, c' (.sem i) = c (.sem i)) : Counted t c' := by
  refine ⟨fun i hi => ?_, fun i hi => ?_⟩
  · rw [hsem] at hi ⊢
    rw [hc]
    exact h.waiting i hi
  · rw [hsem] at hi ⊢
    exact h.range i hi

/-- The scheduler is invoked after environments have entered the ready queue. -/
theorem EnvLive.invokeScheduler (h : EnvLive s c p) (ht : Placed t c' p')
    (he : Entered s.sched t.sched c c') : EnvLive t.invokeScheduler c' p' := by
  unfold EnvTable.invokeScheduler
  split
  case isTrue =>
    exact ⟨⟨ht.wf.fosScheduler, ht.lists, ht.status⟩, dispatched_fosScheduler ht.wf⟩
  case isFalse hst =>
    refine ⟨ht, ⟨fun x hx => ?_, fun hn => ?_, fun hs => absurd hs hst⟩⟩
    · rw [he.curenv] at hx
      exact he.ready x (h.dispatched.running x hx)
    · rw [he.curenv] at hn
      rw [he.status]
      exact h.dispatched.started hn

/-- Environments that have entered the ready queue from the new one, before the scheduler is
invoked. -/
theorem EnvLive.started (h : EnvLive s c p) (ht : Placed t c' p')
    (he : Entered s.sched t.sched c c') (hpool : p' .free = p .free) (hexit : p' .exit = p .exit)
    (hnew : ∀ e ∈ p .new, e ∈ p' .new ∨ t.sched.envStatus e ≠ .new) (hid : t.envId = s.envId)
    (hnenv : t.nenv = s.nenv) : Moves s t.invokeScheduler c p c' p' ∧
      (Counted s.sched c → Counted t.invokeScheduler.sched c') := by
  have hlive := h.invokeScheduler ht he
  have hsched : t.invokeScheduler.sched.envStatus = t.sched.envStatus ∧
      t.invokeScheduler.sched.semaphores = t.sched.semaphores ∧
      t.invokeScheduler.envId = t.envId ∧ t.invokeScheduler.nenv = t.nenv := by
    unfold EnvTable.invokeScheduler
    split <;> exact ⟨rfl, rfl, rfl, rfl⟩
  obtain ⟨hst, hsem, hid', hnenv'⟩ := hsched
  refine ⟨⟨hlive, hpool, fun e he => hexit ▸ he, fun e => ?_, fun e hmem => ?_, fun i e hmem => ?_,
    hid'.trans hid, hnenv'.trans hnenv⟩, fun hcount => ?_⟩
  · rw [hst]
    exact (he.entered e).imp_right fun hready => ⟨hready.1, .inl hready.2⟩
  · rw [hst]
    exact hnew e hmem
  · rw [he.sem]
    exact .inl hmem
  · exact hcount.congr (hsem.trans he.semaphores) he.sem

/-! ## The commands -/

theorem members_eq {hd : ListHead Nat} {xs : List Nat} (h : IsList s.sched.links hd xs) :
    s.members hd = xs := by
  rw [EnvTable.members, h.size, h.first]
  exact Sched.linear_suffix [] h

theorem find_some {hd : ListHead Nat} {xs : List Nat} {envId : Nat}
    (h : IsList s.sched.links hd xs) (hf : s.find hd envId = some e) :
    s.envId e = envId ∧ ∃ pre post, xs = pre ++ e :: post := by
  rw [EnvTable.find, members_eq h] at hf
  exact ⟨by simpa using List.find?_some hf, List.append_of_mem (List.mem_of_find?_eq_some hf)⟩

/-- An environment in no list enters the ready queue. -/
theorem Placed.insertReady (h : Placed s c p) (hq : ∀ q, e ∉ c q) (hp : ∀ k, e ∉ p k)
    (hfree : s.sched.envStatus e ≠ .free) :
    ∃ c', Placed (s.insertReady e) c' p ∧ Entered s.sched (s.insertReady e).sched c c' := by
  obtain ⟨ready, hwf, hperm⟩ := h.wf.insertReady hq
  refine ⟨_, h.onSched hwf fun k y hy => ?_, ?_⟩
  · exact h.wf.sameAt_insertReady hq (h.not_queued hy) fun hye => hp k (hye ▸ hy)
  · obtain ⟨hcur, hst⟩ := Sched.curenv_insertReady s.sched e
    refine ⟨hcur, hst, (Sched.semaphores_insertReady s.sched e).1, fun i => ?_, fun x hx => ?_,
      fun x => ?_⟩
    · exact Function.update_of_ne (by simp) _ _
    · rw [Function.update_self]
      exact hperm.mem_iff.2 (List.mem_cons_of_mem _ hx)
    · rw [show (s.insertReady e).sched.envStatus = _ from
        (Sched.semaphores_insertReady s.sched e).2.2]
      rcases eq_or_ne x e with rfl | hxe
      · exact .inr ⟨hfree, Function.update_self ..⟩
      · exact .inl (Function.update_of_ne hxe _ _)

/-- An environment that has left its pool is in no list. -/
theorem Placed.out (h : Placed s c p) {pre post : List Nat} (hk : p k = pre ++ e :: post) :
    (∀ q, e ∉ c q) ∧ ∀ k', e ∉ Function.update p k (pre ++ post) k' := by
  have he : e ∈ p k := by rw [hk]; simp
  refine ⟨h.not_queued he, fun k' hm => ?_⟩
  by_cases hne : k' = k
  · subst hne
    rw [Function.update_self] at hm
    have hnd := (h.lists k').nodup
    rw [hk] at hnd
    exact (List.nodup_cons.1 (List.perm_middle.nodup_iff.1 hnd)).1 hm
  · rw [Function.update_of_ne hne] at hm
    exact hne (h.pool_unique hm he)

/-- `sched_remove_new` and `sched_insert_ready`, as both commands to run make them. -/
theorem Placed.start (h : Placed s c p) {pre post : List Nat} (hk : p .new = pre ++ e :: post) :
    ∃ c', Placed ((s.removeNew e).insertReady e) c' (Function.update p .new (pre ++ post)) ∧
      Entered s.sched ((s.removeNew e).insertReady e).sched c c' ∧
      ((s.removeNew e).insertReady e).sched.envStatus e = .ready := by
  obtain ⟨hq, hp⟩ := h.out hk
  have hrem : Placed (s.removeNew e) c (Function.update p .new (pre ++ post)) :=
    h.remove hk (by decide)
  have hself : (s.removeNew e).sched.envStatus e = .unknown := Function.update_self ..
  obtain ⟨c', hins, hent⟩ := hrem.insertReady hq hp (by rw [hself]; decide)
  have hready : ((s.removeNew e).insertReady e).sched.envStatus =
      Function.update (s.removeNew e).sched.envStatus e .ready :=
    (Sched.semaphores_insertReady (s.removeNew e).sched e).2.2
  refine ⟨c', hins, ⟨hent.curenv, hent.status, hent.semaphores, hent.sem, hent.ready,
    fun x => ?_⟩, ?_⟩
  · rw [hready]
    rcases eq_or_ne x e with rfl | hxe
    · refine .inr ⟨?_, Function.update_self ..⟩
      rw [h.status .new x (by rw [hk]; simp)]
      decide
    · exact .inl ((Function.update_of_ne hxe _ _).trans (Function.update_of_ne hxe _ _))
  · rw [hready, Function.update_self]

/-- Removing one element of a list leaves the others in it. -/
theorem mem_removed {pre post : List Nat} {x : Nat} (hx : x ∈ pre ++ e :: post) (hxe : x ≠ e) :
    x ∈ pre ++ post := by
  simp only [List.mem_append, List.mem_cons] at hx ⊢
  tauto

theorem EnvLive.refl (h : EnvLive s c p) : Moves s s c p c p :=
  ⟨h, rfl, fun _ he => he, fun _ => .inl rfl, fun _ he => .inl he, fun _ _ he => .inl he, rfl, rfl⟩

theorem EnvLive.schedRunEnv (h : EnvLive s c p) (envId : Nat) :
    ∃ c' p', Moves s (s.schedRunEnv envId) c p c' p' ∧
      (Counted s.sched c → Counted (s.schedRunEnv envId).sched c') := by
  unfold EnvTable.schedRunEnv
  cases hf : s.find s.envNewQueue envId with
  | none => exact ⟨c, p, h.refl, id⟩
  | some e =>
    obtain ⟨-, pre, post, hsplit⟩ := find_some (h.lists .new) hf
    obtain ⟨c', hpl, hent, hready⟩ := h.toPlaced.start hsplit
    refine ⟨c', _, h.started hpl hent (Function.update_of_ne (by decide) _ _)
      (Function.update_of_ne (by decide) _ _) (fun x hx => ?_) rfl rfl⟩
    rcases eq_or_ne x e with rfl | hxe
    · rw [hready]
      exact .inr (by decide)
    · rw [Function.update_self]
      exact .inl (mem_removed (hsplit ▸ hx) hxe)

/-- The loop of `sched_run_all` empties the new queue. -/
theorem Placed.runAllLoop {xs : List Nat} (h : Placed s c p) (hnew : p .new = xs) :
    ∃ c' p', Placed (s.runAllLoop xs.length xs.head?) c' p' ∧ p' .free = p .free ∧
      p' .exit = p .exit ∧ (∀ e ∈ xs, (s.runAllLoop xs.length xs.head?).sched.envStatus e ≠ .new) ∧
      Entered s.sched (s.runAllLoop xs.length xs.head?).sched c c' ∧
      (s.runAllLoop xs.length xs.head?).envId = s.envId ∧
      (s.runAllLoop xs.length xs.head?).nenv = s.nenv := by
  induction xs generalizing s c p with
  | nil => exact ⟨c, p, h, rfl, rfl, fun e he => (by cases he), .refl _ _, rfl, rfl⟩
  | cons e xs ih =>
    -- the link is read before the environment leaves the list
    have hnext : s.sched.links.next e = xs.head? := by
      have hl : IsList s.sched.links s.envNewQueue ([] ++ e :: xs) := hnew ▸ h.lists .new
      exact hl.next_eq
    have hsplit : p .new = [] ++ e :: xs := hnew
    obtain ⟨c₁, hpl, hent, hready⟩ := h.start hsplit
    obtain ⟨c₂, p₂, hpl₂, hfree, hexit, hran, hent₂, hid, hnenv⟩ :=
      ih hpl (by rw [Function.update_self]; rfl)
    rw [List.length_cons, List.head?_cons, EnvTable.runAllLoop, hnext]
    refine ⟨c₂, p₂, hpl₂, ?_, ?_, fun x hx => ?_, hent.trans hent₂, hid, hnenv⟩
    · exact hfree.trans (Function.update_of_ne (by decide) _ _)
    · exact hexit.trans (Function.update_of_ne (by decide) _ _)
    · rcases List.mem_cons.1 hx with rfl | hx
      · -- the rest of the loop leaves the first environment ready
        rcases hent₂.entered x with hst | ⟨-, hst⟩
        · rw [hst, hready]
          decide
        · rw [hst]
          decide
      · exact hran x hx

theorem EnvLive.schedRunAll (h : EnvLive s c p) : ∃ c' p', Moves s s.schedRunAll c p c' p' ∧
    (Counted s.sched c → Counted s.schedRunAll.sched c') := by
  have hl := h.lists .new
  obtain ⟨c', p', hpl, hfree, hexit, hran, hent, hid, hnenv⟩ := h.toPlaced.runAllLoop rfl
  unfold EnvTable.schedRunAll
  rw [show s.envNewQueue.size = (p .new).length from hl.size,
    show s.envNewQueue.first = (p .new).head? from hl.first]
  exact ⟨c', p', h.started hpl hent hfree hexit (fun x hx => .inr (hran x hx)) hid hnenv⟩

/-- An environment of the new queue leaves it for the exit queue. -/
theorem EnvLive.exitNew (h : EnvLive s c p) {pre post : List Nat} (hk : p .new = pre ++ e :: post) :
    Moves s ((s.removeNew e).insertExit e) c p c
      (Function.update (Function.update p .new (pre ++ post)) .exit (p .exit ++ [e])) := by
  obtain ⟨hq, hp⟩ := h.toPlaced.out hk
  have hrem : Placed (s.removeNew e) c (Function.update p .new (pre ++ post)) :=
    h.toPlaced.remove hk (by decide)
  have hins := hrem.insertTail hq hp .exit
  rw [Function.update_of_ne (a := Pool.exit) (by decide)] at hins
  have hself : ((s.removeNew e).insertExit e).sched.envStatus e = .exit := Function.update_self ..
  refine ⟨⟨hins, ⟨h.dispatched.running, h.dispatched.started, h.dispatched.idle⟩⟩, ?_,
    fun x hx => ?_, fun x => ?_, fun x hx => ?_, fun i x hx => .inl hx, rfl, rfl⟩
  · rw [Function.update_of_ne (by decide), Function.update_of_ne (by decide)]
  · rw [Function.update_self]
    exact List.mem_append_left _ hx
  · rcases eq_or_ne x e with rfl | hxe
    · refine .inr ⟨?_, .inr (.inl hself)⟩
      rw [h.status .new x (by rw [hk]; simp)]
      decide
    · exact .inl ((Function.update_of_ne hxe _ _).trans (Function.update_of_ne hxe _ _))
  · rcases eq_or_ne x e with rfl | hxe
    · rw [hself]
      exact .inr (by decide)
    · rw [Function.update_of_ne (by decide), Function.update_self]
      exact .inl (mem_removed (hk ▸ hx) hxe)

/-- An environment of the ready queue leaves it for the exit queue, and if it was the running one
the scheduler is invoked. -/
theorem EnvLive.exitReady (h : EnvLive s c p) {pre post : List Nat}
    (hsplit : c .ready = pre ++ e :: post)
    (ht : t = ((s.removeReady e).insertExit e).fosScheduler ∨
      t = (s.removeReady e).insertExit e ∧ s.sched.curenv ≠ some e ∧ s.sched.curenv ≠ none) :
    Moves s t c p (Function.update c .ready (pre ++ post))
      (Function.update p .exit (p .exit ++ [e])) := by
  have he : e ∈ c .ready := by rw [hsplit]; simp
  have hwf := h.wf.removeReady hsplit
  have hpl : Placed (s.removeReady e) (Function.update c .ready (pre ++ post)) p :=
    h.onSched hwf fun k y hy => h.wf.sameAt_removeReady he (h.not_queued hy)
  have hp : ∀ k, e ∉ p k := fun k hk => h.not_queued hk _ he
  have hq := hwf.not_mem (e := e) (by simp [Sched.removeReady, Sched.setStatus])
    (by simp [Sched.removeReady, Sched.setStatus])
  -- the environment leaves the ready queue and is put last on the exit queue
  have hins := hpl.insertTail hq hp .exit
  have hpool : Function.update p .exit (p .exit ++ [e]) .free = p .free :=
    Function.update_of_ne (by decide) _ _
  have hexit : ∀ x ∈ p .exit, x ∈ Function.update p .exit (p .exit ++ [e]) .exit := by
    intro x hx
    rw [Function.update_self]
    exact List.mem_append_left _ hx
  -- no other environment changes its status
  have hstatus : ∀ x, ((s.removeReady e).insertExit e).sched.envStatus x = s.sched.envStatus x ∨
      s.sched.envStatus x ≠ .free ∧
        ((s.removeReady e).insertExit e).sched.envStatus x = .exit := by
    intro x
    rcases eq_or_ne x e with rfl | hxe
    · refine .inr ⟨?_, Function.update_self ..⟩
      rw [h.wf.status _ x he]
      decide
    · exact .inl ((Function.update_of_ne hxe _ _).trans (Function.update_of_ne hxe _ _))
  have hnew : ∀ x ∈ p .new, x ∈ Function.update p .exit (p .exit ++ [e]) .new := by
    intro x hx
    rwa [Function.update_of_ne (by decide)]
  have hwait : ∀ i, ∀ x ∈ c (.sem i), x ∈ Function.update c .ready (pre ++ post) (.sem i) := by
    intro i x hx
    rwa [Function.update_of_ne (by simp)]
  rcases ht with rfl | ⟨rfl, hother, hsome⟩
  · exact ⟨⟨⟨hins.wf.fosScheduler, hins.lists, hins.status⟩, dispatched_fosScheduler hins.wf⟩,
      hpool, hexit, fun x => (hstatus x).imp_right fun hx => ⟨hx.1, .inr (.inl hx.2)⟩,
      fun x hx => .inl (hnew x hx), fun i x hx => .inl (hwait i x hx), rfl, rfl⟩
  · refine ⟨⟨hins, ⟨fun x hx => ?_, fun hn => absurd hn hsome, fun hs => ?_⟩⟩, hpool, hexit,
      fun x => (hstatus x).imp_right fun hx => ⟨hx.1, .inr (.inl hx.2)⟩,
      fun x hx => .inl (hnew x hx), fun i x hx => .inl (hwait i x hx), rfl, rfl⟩
    · -- another environment runs
      have hxe : x ≠ e := by
        rintro rfl
        exact hother hx
      have hx := h.dispatched.running x hx
      rw [Function.update_self]
      rw [hsplit] at hx
      simp only [List.mem_append, List.mem_cons] at hx ⊢
      tauto
    · have hidle := h.dispatched.idle hs
      rw [hidle] at he
      cases he

theorem EnvLive.schedExitEnv (h : EnvLive s c p) {envId : Nat}
    (hc : schedExitEnv envId s = .ok () t) : ∃ c' p', Moves s t c p c' p' ∧
      (Counted s.sched c → Counted t.sched c') := by
  rw [Fos.schedExitEnv, Prog.get_bind_apply] at hc
  cases hnew : s.find s.envNewQueue envId with
  | some e =>
    rw [hnew] at hc
    obtain ⟨-, rfl⟩ := ok_inj.1 hc
    obtain ⟨-, pre, post, hsplit⟩ := find_some (h.lists .new) hnew
    exact ⟨c, _, h.exitNew hsplit, fun hcount => ⟨hcount.waiting, hcount.range⟩⟩
  | none =>
    rw [hnew] at hc
    dsimp only at hc
    cases hready : s.find s.sched.envReadyQueue envId with
    | none =>
      rw [hready] at hc
      obtain ⟨-, rfl⟩ := ok_inj.1 hc
      exact ⟨c, p, h.refl, id⟩
    | some e =>
      rw [hready] at hc
      dsimp only at hc
      obtain ⟨hid, pre, post, hsplit⟩ := find_some (h.wf.lists .ready) hready
      have hsem : ∀ i, Function.update c .ready (pre ++ post) (.sem i) = c (.sem i) :=
        fun i => Function.update_of_ne (by simp) _ _
      rw [show ((s.removeReady e).insertExit e).sched.curenv = s.sched.curenv from rfl] at hc
      cases hc' : s.sched.curenv with
      | none => rw [hc'] at hc; cases hc
      | some cur =>
        rw [hc'] at hc
        dsimp only at hc
        rw [Prog.ite_run] at hc
        split at hc
        -- the environment that runs leaves, so the scheduler is called
        case isTrue =>
          obtain ⟨-, rfl⟩ := ok_inj.1 hc
          exact ⟨_, _, h.exitReady hsplit (.inl rfl), fun hcount => hcount.congr rfl hsem⟩
        case isFalse hne =>
          obtain ⟨-, rfl⟩ := ok_inj.1 hc
          refine ⟨_, _, h.exitReady hsplit (.inr ⟨rfl, ?_, ?_⟩), fun hcount =>
            hcount.congr rfl hsem⟩
          · rw [hc']
            rintro hcur
            cases hcur
            exact hne hid
          · rw [hc']
            simp

/-- The statuses that `allocate_environment` and `complete_environment_initialization` set, in
one. -/
theorem completeEnvironmentInitialization_eq (s : EnvTable) (e : Nat) (st : EnvStatus) :
    (s.setStatus e st).completeEnvironmentInitialization e =
      (({ s with envId := Function.update s.envId e (nextEnvId s.nenv (s.envId e) e) } :
        EnvTable).remove .free e).setStatus e .new := by
  simp [EnvTable.completeEnvironmentInitialization, EnvTable.setStatus, EnvTable.remove,
    EnvTable.setPool, EnvTable.pool, Sched.setStatus]

/-- A free environment becomes a new one. -/
structure Creates (s t : EnvTable) (p p' : Pool → List Nat) (e : Nat) (rest : List Nat) : Prop where
  first : p .free = e :: rest
  free : p' .free = rest
  exit : p' .exit = p .exit
  new : p' .new = p .new ++ [e]
  status : t.sched.envStatus = Function.update s.sched.envStatus e .new
  envId : t.envId = Function.update s.envId e (nextEnvId s.nenv (s.envId e) e)
  nenv : t.nenv = s.nenv

/-- `env_create` takes the first free environment, and `sched_new_env` makes it a new one. -/
theorem EnvLive.create (h : EnvLive s c p) {found : Bool}
    (hc : (EnvCall.create found).exec s = .ok () t) : t = s ∨ ∃ p' e rest, EnvLive t c p' ∧
      Creates s t p p' e rest ∧ (Counted s.sched c → Counted t.sched c) := by
  obtain ⟨e?, s₁, hcreate, hc⟩ := bind_eq_ok.1 hc
  rw [envCreate, Prog.ite_run] at hcreate
  split at hcreate
  case isTrue =>
    obtain ⟨rfl, rfl⟩ := ok_inj.1 hcreate
    obtain ⟨-, rfl⟩ := ok_inj.1 hc
    exact .inl rfl
  case isFalse =>
    obtain ⟨a, s₂, halloc, hcreate⟩ := bind_eq_ok.1 hcreate
    rw [allocateEnvironment, Prog.get_bind_apply] at halloc
    cases hfirst : s.envFreeList.first with
    | none =>
      rw [hfirst] at halloc
      obtain ⟨rfl, rfl⟩ := ok_inj.1 halloc
      obtain ⟨rfl, rfl⟩ := ok_inj.1 hcreate
      obtain ⟨-, rfl⟩ := ok_inj.1 hc
      exact .inl rfl
    | some e =>
      rw [hfirst] at halloc
      obtain ⟨rfl, rfl⟩ := ok_inj.1 halloc
      obtain ⟨rfl, rfl⟩ := ok_inj.1 hcreate
      obtain ⟨-, rfl⟩ := ok_inj.1 hc
      have hhead : (p .free).head? = some e := (h.lists .free).first.symm.trans hfirst
      obtain ⟨post, hsplit⟩ : ∃ post, p .free = [] ++ e :: post := by
        cases hxs : p .free with
        | nil => rw [hxs] at hhead; cases hhead
        | cons x xs =>
          rw [hxs] at hhead
          cases hhead
          exact ⟨xs, rfl⟩
      obtain ⟨hq, hp⟩ := h.toPlaced.out hsplit
      dsimp only
      rw [completeEnvironmentInitialization_eq]
      -- the id is written first, which no queue depends on
      set u : EnvTable := { s with envId := Function.update s.envId e _ } with hu
      have hupl : Placed u c p := by
        refine ⟨h.wf, fun k => ?_, h.status⟩
        have hl := h.lists k
        cases k <;> exact hl
      have hrem : Placed ((u.remove .free e).setStatus e .new) c
          (Function.update p .free ([] ++ post)) := hupl.remove hsplit (by decide)
      refine .inr ⟨_, e, post, ⟨hrem.insertTail hq hp .new, ⟨h.dispatched.running,
        h.dispatched.started, h.dispatched.idle⟩⟩, ⟨hsplit, ?_, ?_, ?_, ?_, rfl, rfl⟩,
        fun hcount => ⟨hcount.waiting, hcount.range⟩⟩
      · rw [Function.update_of_ne (by decide), Function.update_self]
        rfl
      · rw [Function.update_of_ne (by decide), Function.update_of_ne (by decide)]
      · rw [Function.update_self, Function.update_of_ne (by decide)]
      · show Function.update (Function.update s.sched.envStatus e EnvStatus.new) e .new = _
        exact Function.update_idem ..

/-! ## The semaphores -/

/-- A call of the semaphores alone. -/
theorem onSched_ok {α : Type} {x : T α} {a : α} (h : onSched x s = .ok a t) :
    ∃ u, x s.sched = .ok a u ∧ t = { s with sched := u } := by
  unfold onSched at h
  cases hx : x s.sched with
  | ok b u =>
    rw [hx] at h
    obtain ⟨rfl, rfl⟩ := ok_inj.1 h
    exact ⟨u, rfl, rfl⟩
  | error e u =>
    rw [hx] at h
    cases h

/-- The counts after the value and the queue of one semaphore have changed. -/
theorem Counted.updated {s t : Sched} {i : Nat} {v : Int} {xs : List Nat} (h : Counted s c)
    (hu : Sched.Updated i v xs s t c c') (hlen : (xs.length : Int) = max 0 (-v))
    (hrange : -2147483648 ≤ v ∧ v < 2147483648) : Counted t c' := by
  have hempty : ∀ j, (t.semaphores j).empty = (s.semaphores j).empty :=
    fun j => (hu.table.names j).1
  refine ⟨fun j hj => ?_, fun j hj => ?_⟩
  · rw [hempty] at hj
    by_cases hji : j = i
    · rw [hji, hu.queue, hu.value]
      exact hlen
    · rw [hu.others j hji, hu.table.values j hji]
      exact h.waiting j hj
  · rw [hempty] at hj
    by_cases hji : j = i
    · rw [hji, hu.value]
      exact hrange
    · rw [hu.table.values j hji]
      exact h.range j hj

/-- Whoever runs is ready. -/
theorem EnvLive.ready (h : EnvLive s c p) (hcur : s.sched.curenv = some e) :
    s.sched.envStatus e = .ready := h.wf.status _ e (h.dispatched.running e hcur)

/-- A call of the semaphores that moves environments between the queues. -/
theorem EnvLive.outside (h : EnvLive s c p) {u : Sched} (hwf : WF u c') (hd : Dispatched u c')
    (hsame : ∀ y, (∀ q, y ∉ c q) → SameAt y s.sched u)
    (hst : ∀ x, u.envStatus x = s.sched.envStatus x ∨ s.sched.envStatus x ≠ .free ∧
      (u.envStatus x = .ready ∨ u.envStatus x = .blocked ∧ ∃ i, x ∈ c' (.sem i)))
    (hwait : ∀ i, ∀ x ∈ c (.sem i), x ∈ c' (.sem i) ∨ u.envStatus x ≠ .blocked) :
    Moves s { s with sched := u } c p c' p := by
  refine ⟨⟨h.toPlaced.onSched hwf fun k y hy => hsame y (h.not_queued hy), hd⟩, rfl,
    fun _ hx => hx, fun x => ?_, fun _ hx => .inl hx, hwait, rfl, rfl⟩
  exact (hst x).imp_right fun hx => ⟨hx.1, hx.2.imp_right .inr⟩

/-- A wait of the running environment. -/
theorem EnvLive.wait (h : EnvLive s c p) {owner : Int} {name : List UInt8}
    (hcur : s.sched.curenv ≠ none) (hc : onSched (waitSemaphore owner name) s = .ok () t) :
    t = s ∨ ∃ c' e i, Moves s t c p c' p ∧ s.sched.findSemaphore owner name = some i ∧
      Sched.Updated i (toI32 ((s.sched.semaphores i).value - 1))
        (if toI32 ((s.sched.semaphores i).value - 1) < 0 then e :: c (.sem i) else c (.sem i))
        s.sched t.sched c c' := by
  obtain ⟨u, hw, rfl⟩ := onSched_ok hc
  obtain ⟨e, he⟩ := Option.ne_none_iff_exists'.1 hcur
  rcases Sched.waitSemaphore_ok h.wf he (h.ready he) hw with ⟨-, rfl⟩ |
    ⟨i, c', hfind, hu, ⟨v, hv, rfl⟩, hsame⟩
  · exact .inl rfl
  · have hst := Sched.waitSemaphore_status he hfind hw
    refine .inr ⟨c', e, i, h.outside hu.wf (dispatched_fosScheduler hv) hsame (fun x => ?_)
      fun j x hx => .inl ?_, hfind, hu⟩
    · rw [hst]
      split
      case isTrue hneg =>
        -- the caller itself blocks, and is on the queue it waits on
        rcases eq_or_ne x e with rfl | hxe
        · refine .inr ⟨by rw [h.ready he]; decide, .inr ⟨Function.update_self .., i, ?_⟩⟩
          rw [hu.queue, if_pos hneg]
          exact List.mem_cons_self
        · exact .inl (Function.update_of_ne hxe _ _)
      case isFalse => exact .inl rfl
    · by_cases hji : j = i
      · subst hji
        rw [hu.queue]
        split
        · exact List.mem_cons_of_mem _ hx
        · exact hx
      · rw [hu.others j hji]
        exact hx

/-- A signal that returned. -/
theorem EnvLive.signal (h : EnvLive s c p) {owner : Int} {name : List UInt8}
    (hcur : s.sched.curenv ≠ none) (hc : onSched (signalSemaphore owner name) s = .ok () t) :
    t = s ∨ ∃ c' i xs, Moves s t c p c' p ∧ s.sched.findSemaphore owner name = some i ∧
      Sched.Updated i (toI32 ((s.sched.semaphores i).value + 1)) xs s.sched t.sched c c' ∧
      if toI32 ((s.sched.semaphores i).value + 1) ≤ 0 then ∃ x, c (.sem i) = xs ++ [x]
      else xs = c (.sem i) := by
  obtain ⟨u, hw, rfl⟩ := onSched_ok hc
  obtain ⟨e, he⟩ := Option.ne_none_iff_exists'.1 hcur
  rcases Sched.signalSemaphore_ok h.wf hw with ⟨-, rfl⟩ | ⟨i, hfind, ⟨hcur', hst⟩, hsame, hu⟩
  · exact .inl rfl
  · -- whoever runs stays ready
    have hdisp : ∀ c', (∀ x ∈ c .ready, x ∈ c' .ready) → Dispatched u c' := by
      intro c' hmem
      refine ⟨fun x hx => hmem x (h.dispatched.running x (hcur' ▸ hx)), fun hn => ?_, fun hs => ?_⟩
      · rw [hst]
        exact h.dispatched.started (hcur' ▸ hn)
      · have hidle := h.dispatched.idle (hst ▸ hs)
        have hmem := h.dispatched.running e he
        rw [hidle] at hmem
        cases hmem
    split at hu
    case isTrue hneg =>
      obtain ⟨x, init, c', hsplit, hu, hstatus, hperm⟩ := hu
      have hx : x ∈ c (.sem i) := by rw [hsplit]; simp
      refine .inr ⟨c', i, init, h.outside hu.wf (hdisp c' fun y hy => ?_) hsame (fun y => ?_)
        (fun j y hy => ?_), hfind, hu, ?_⟩
      · exact hperm.mem_iff.2 (.tail _ hy)
      · rw [hstatus]
        rcases eq_or_ne y x with rfl | hyx
        · refine .inr ⟨?_, .inl (Function.update_self ..)⟩
          rw [h.wf.status _ y hx]
          exact EnvStatus.noConfusion
        · exact .inl (Function.update_of_ne hyx _ _)
      · rcases eq_or_ne y x with rfl | hyx
        · rw [hstatus, Function.update_self]
          exact .inr (by decide)
        · left
          by_cases hji : j = i
          · subst hji
            rw [hsplit] at hy
            rw [hu.queue]
            rcases List.mem_append.1 hy with hy | hy
            · exact hy
            · exact absurd (List.mem_singleton.1 hy) hyx
          · rw [hu.others j hji]
            exact hy
      · rw [if_pos hneg]
        exact ⟨x, hsplit⟩
    -- nobody waits, so no queue changes
    case isFalse hpos =>
      obtain ⟨hu, hstatus⟩ := hu
      refine .inr ⟨c, i, c (.sem i), h.outside hu.wf (hdisp c fun _ hy => hy) hsame
        (fun y => .inl (congrFun hstatus y)) (fun _ _ hy => .inl hy), hfind, hu, ?_⟩
      rw [if_neg hpos]

theorem EnvLive.createSemaphore (h : EnvLive s c p) {owner : Int} {name : List UInt8}
    {initial : Nat} {id : Int} (hc : onSched (createSemaphore owner name initial) s = .ok id t) :
    Moves s t c p c p := by
  obtain ⟨u, hw, rfl⟩ := onSched_ok hc
  have hwf := h.wf.createSemaphore hw
  rcases Sched.createSemaphore_ok hw with ⟨-, b, rfl⟩ | ⟨i, -, -, -, -, rfl⟩
  · exact h.outside hwf ⟨h.dispatched.running, h.dispatched.started, h.dispatched.idle⟩
      (fun _ _ => ⟨rfl, rfl, rfl⟩) (fun _ => .inl rfl) fun _ _ hx => .inl hx
  · exact h.outside hwf ⟨h.dispatched.running, h.dispatched.started, h.dispatched.idle⟩
      (fun _ _ => ⟨rfl, rfl, rfl⟩) (fun _ => .inl rfl) fun _ _ hx => .inl hx

theorem EnvLive.dispatch (h : EnvLive s c p) : Moves s s.fosScheduler c p c p :=
  ⟨⟨⟨h.wf.fosScheduler, h.lists, h.status⟩, dispatched_fosScheduler h.wf⟩, rfl, fun _ he => he,
    fun _ => .inl rfl, fun _ he => .inl he, fun _ _ he => .inl he, rfl, rfl⟩

/-! ## The counts -/

theorem EnvInv.live (h : EnvInv s c p) : EnvLive s c p := ⟨h.toPlaced, h.dispatched⟩

theorem EnvLive.counted (h : EnvLive s c p) (hcount : Counted s.sched c) : EnvInv s c p :=
  ⟨h.toPlaced, h.dispatched, hcount⟩

theorem EnvInv.wait (h : EnvInv s c p) {owner : Int} {name : List UInt8}
    (hl : (EnvCall.wait owner name).Legal s.sched)
    (hc : onSched (waitSemaphore owner name) s = .ok () t) : ∃ c' p', EnvInv t c' p' := by
  obtain ⟨hcur, hrange⟩ := hl
  rcases h.live.wait hcur hc with rfl | ⟨c', e, i, hmove, hfind, hu⟩
  · exact ⟨c, p, h⟩
  · have hused := (Sched.findSemaphore_some hfind).1
    have hlow := hrange i hfind
    have hhigh := (h.counted.range i hused).2
    have hlen := h.counted.waiting i hused
    rw [toI32_of_range ⟨hlow, by omega⟩] at hu
    refine ⟨c', p, hmove.live.counted (h.counted.updated hu ?_ ⟨hlow, by omega⟩)⟩
    split
    case isTrue hneg =>
      rw [List.length_cons]
      omega
    case isFalse => omega

theorem EnvInv.signal (h : EnvInv s c p) {owner : Int} {name : List UInt8}
    (hl : (EnvCall.signal owner name).Legal s.sched)
    (hc : onSched (signalSemaphore owner name) s = .ok () t) : ∃ c' p', EnvInv t c' p' := by
  rcases h.live.signal hl.1 hc with rfl | ⟨c', i, xs, hmove, hfind, hu, hqueue⟩
  · exact ⟨c, p, h⟩
  · have hused := (Sched.findSemaphore_some hfind).1
    have hhigh := hl.2 i hfind
    have hlow := (h.counted.range i hused).1
    have hlen := h.counted.waiting i hused
    rw [toI32_of_range ⟨by omega, hhigh⟩] at hu hqueue
    refine ⟨c', p, hmove.live.counted (h.counted.updated hu ?_ ⟨by omega, hhigh⟩)⟩
    split at hqueue
    case isTrue hneg =>
      obtain ⟨x, hsplit⟩ := hqueue
      rw [hsplit, List.length_append, List.length_singleton] at hlen
      omega
    case isFalse hpos =>
      rw [hqueue, hlen]
      omega

theorem EnvInv.createSemaphore (h : EnvInv s c p) {owner : Int} {name : List UInt8} {initial : Nat}
    (hinit : initial < 2147483648) {id : Int}
    (hc : onSched (createSemaphore owner name initial) s = .ok id t) :
    ∃ c' p', EnvInv t c' p' := by
  refine ⟨c, p, (h.live.createSemaphore hc).live.counted ?_⟩
  obtain ⟨u, hw, rfl⟩ := onSched_ok hc
  rcases Sched.createSemaphore_ok hw with ⟨-, b, rfl⟩ | ⟨i, -, -, -, hempty, rfl⟩
  · exact ⟨h.counted.waiting, h.counted.range⟩
  · have hval : toI32 initial = initial := toI32_of_range (by omega)
    refine ⟨fun j hj => ?_, fun j hj => ?_⟩
    · by_cases hji : j = i
      · subst hji
        rw [Sched.semaphores_setSemaphore_self, h.wf.unused j hempty, hval]
        simp
      · rw [Sched.semaphores_setSemaphore_of_ne _ hji] at hj ⊢
        exact h.counted.waiting j hj
    · by_cases hji : j = i
      · subst hji
        rw [Sched.semaphores_setSemaphore_self, hval]
        show -2147483648 ≤ (initial : Int) ∧ (initial : Int) < 2147483648
        omega
      · rw [Sched.semaphores_setSemaphore_of_ne _ hji] at hj ⊢
        exact h.counted.range j hj

/-! ## Runs -/

theorem EnvInv.exec (h : EnvInv s c p) {call : EnvCall} (hl : call.Legal s.sched)
    (hc : call.exec s = .ok () t) : ∃ c' p', EnvInv t c' p' := by
  cases call with
  | create found =>
    rcases h.live.create hc with rfl | ⟨p', e, rest, hlive, -, hcount⟩
    · exact ⟨c, p, h⟩
    · exact ⟨c, p', hlive.counted (hcount h.counted)⟩
  | run envId =>
    obtain ⟨-, rfl⟩ := ok_inj.1 hc
    obtain ⟨c', p', hmove, hcount⟩ := h.live.schedRunEnv envId
    exact ⟨c', p', hmove.live.counted (hcount h.counted)⟩
  | runAll =>
    obtain ⟨-, rfl⟩ := ok_inj.1 hc
    obtain ⟨c', p', hmove, hcount⟩ := h.live.schedRunAll
    exact ⟨c', p', hmove.live.counted (hcount h.counted)⟩
  | exit envId =>
    obtain ⟨c', p', hmove, hcount⟩ := h.live.schedExitEnv hc
    exact ⟨c', p', hmove.live.counted (hcount h.counted)⟩
  | createSemaphore owner name initial =>
    obtain ⟨id, s₁, hcreate, hc⟩ := bind_eq_ok.1 hc
    obtain ⟨-, rfl⟩ := ok_inj.1 hc
    exact h.createSemaphore hl.2 hcreate
  | wait owner name => exact h.wait hl hc
  | signal owner name => exact h.signal hl hc
  | dispatch =>
    obtain ⟨-, rfl⟩ := ok_inj.1 hc
    exact ⟨c, p, h.live.dispatch.live.counted ⟨h.counted.waiting, h.counted.range⟩⟩

/-- While some environment is ready, one runs. -/
theorem Dispatched.curenv_some {s : Sched} (h : Dispatched s c) (he : e ∈ c .ready) :
    ∃ cur, s.curenv = some cur := by
  cases hcur : s.curenv with
  | none =>
    have hidle := h.idle (h.started hcur)
    rw [hidle] at he
    cases he
  | some cur => exact ⟨cur, rfl⟩

/-- `sched_exit_env` does not follow a null `curenv`. -/
theorem EnvLive.exit_returns (h : EnvLive s c p) (envId : Nat) :
    ∃ t, Fos.schedExitEnv envId s = .ok () t := by
  rw [Fos.schedExitEnv, Prog.get_bind_apply]
  cases s.find s.envNewQueue envId with
  | some e => exact ⟨_, rfl⟩
  | none =>
    dsimp only
    cases hready : s.find s.sched.envReadyQueue envId with
    | none => exact ⟨_, rfl⟩
    | some e =>
      obtain ⟨-, pre, post, hsplit⟩ := find_some (h.wf.lists .ready) hready
      have he : e ∈ c .ready := by rw [hsplit]; simp
      obtain ⟨cur, hcur⟩ := h.dispatched.curenv_some he
      dsimp only
      rw [show ((s.removeReady e).insertExit e).sched.curenv = some cur from hcur]
      dsimp only
      rw [Prog.ite_run]
      split <;> exact ⟨_, rfl⟩

theorem onSched_returns {α : Type} {x : T α} {a : α} {u : Sched} (h : x s.sched = .ok a u) :
    onSched x s = .ok a { s with sched := u } := by
  rw [onSched, h]

theorem create_returns {s : Sched} (hnull : s.semaphoresNull = false) (owner : Int)
    (name : List UInt8) (initial : Nat) :
    ∃ id t, createSemaphore owner name initial s = .ok id t := by
  rw [Fos.createSemaphore, Prog.get_bind_apply, Prog.ite_run, if_neg (by simp [hnull]),
    Prog.ite_run]
  split
  case isTrue => exact ⟨_, _, rfl⟩
  case isFalse =>
    have halloc : ∃ ret u, allocateSemaphoreObject s = .ok ret u := by
      rw [allocateSemaphoreObject, Prog.get_bind_apply, Prog.ite_run, if_neg (by simp [hnull])]
      cases (List.range s.maxSemaphores).find? fun i => (s.semaphores i).empty <;>
        exact ⟨_, _, rfl⟩
    obtain ⟨ret, u, halloc⟩ := halloc
    rw [Prog.bind_of_ok halloc, Prog.ite_run]
    split <;> exact ⟨_, _, rfl⟩

theorem wait_returns {s : Sched} (hnull : s.semaphoresNull = false) (hcur : s.curenv ≠ none)
    (owner : Int) (name : List UInt8) : ∃ t, waitSemaphore owner name s = .ok () t := by
  obtain ⟨e, he⟩ := Option.ne_none_iff_exists'.1 hcur
  rw [waitSemaphore, Prog.get_bind_apply, Prog.ite_run, if_neg (by simp [hnull])]
  cases s.findSemaphore owner name with
  | none => exact ⟨_, rfl⟩
  | some i =>
    dsimp only
    rw [Prog.ite_run, show (s.setSemaphore i _).curenv = some e from he]
    split <;> exact ⟨_, rfl⟩

/-- While a signal has to wake an environment, one waits. -/
theorem EnvInv.signal_returns (h : EnvInv s c p) {owner : Int} {name : List UInt8}
    (hl : (EnvCall.signal owner name).Legal s.sched) (hnull : s.sched.semaphoresNull = false) :
    ∃ t, signalSemaphore owner name s.sched = .ok () t := by
  rw [signalSemaphore, Prog.get_bind_apply, Prog.ite_run, if_neg (by simp [hnull])]
  cases hfind : s.sched.findSemaphore owner name with
  | none => exact ⟨_, rfl⟩
  | some i =>
    have hused := (Sched.findSemaphore_some hfind).1
    have hlow := (h.counted.range i hused).1
    have hlen := h.counted.waiting i hused
    dsimp only
    rw [Prog.ite_run, toI32_of_range ⟨by omega, hl.2 i hfind⟩]
    split
    case isTrue hneg =>
      have hlast := (h.wf.lists (.sem i)).last
      -- a negative counter counts waiters, so the queue is not empty
      cases hq : (c (.sem i)).getLast? with
      | none =>
        rw [List.getLast?_eq_none_iff.1 hq] at hlen
        simp only [List.length_nil] at hlen
        omega
      | some x =>
        rw [hq] at hlast
        have hhead : ((s.sched.setSemaphore i { s.sched.semaphores i with
            value := (s.sched.semaphores i).value + 1 }).head (.sem i)).last = some x := by
          rw [← hlast]
          simp [Sched.head, Sched.setSemaphore]
        rw [hhead]
        exact ⟨_, rfl⟩
    case isFalse => exact ⟨_, rfl⟩

theorem exec_create (s : EnvTable) (found : Bool) :
    ∃ t, (EnvCall.create found).exec s = .ok () t := by
  cases found with
  | false => exact ⟨s, rfl⟩
  | true =>
    have hcreate : ∃ e? u, envCreate true s = .ok e? u := by
      have halloc : ∃ e? u, allocateEnvironment s = .ok e? u := by
        rw [allocateEnvironment, Prog.get_bind_apply]
        cases s.envFreeList.first <;> exact ⟨_, _, rfl⟩
      obtain ⟨e?, u, halloc⟩ := halloc
      rw [envCreate, Prog.ite_run, if_neg (by simp), Prog.bind_of_ok halloc]
      cases e? <;> exact ⟨_, _, rfl⟩
    obtain ⟨e?, u, hcreate⟩ := hcreate
    rw [EnvCall.exec, Prog.bind_of_ok hcreate]
    cases e? <;> exact ⟨_, rfl⟩

/-- A call of a run returns, unless the pointer to the semaphores was lost. -/
theorem EnvInv.returns (h : EnvInv s c p) {call : EnvCall} (hl : call.Legal s.sched)
    (hnull : s.sched.semaphoresNull = false) : ∃ t, call.exec s = .ok () t := by
  cases call with
  | create found => exact exec_create s found
  | run envId => exact ⟨_, rfl⟩
  | runAll => exact ⟨_, rfl⟩
  | exit envId => exact h.live.exit_returns envId
  | createSemaphore owner name initial =>
    obtain ⟨id, u, hc⟩ := create_returns hnull owner name initial
    exact ⟨_, by rw [EnvCall.exec, Prog.bind_of_ok (onSched_returns hc)]; rfl⟩
  | wait owner name =>
    obtain ⟨u, hc⟩ := wait_returns hnull hl.1 owner name
    exact ⟨_, onSched_returns hc⟩
  | signal owner name =>
    obtain ⟨u, hc⟩ := h.signal_returns hl hnull
    exact ⟨_, onSched_returns hc⟩
  | dispatch => exact ⟨_, rfl⟩

end

/-! ## Boot -/

/-- `env_init` lists the environments in order. -/
theorem isList_envInitLoop {n : Nat} {l : Links Nat × ListHead Nat} {xs : List Nat}
    (h : IsList l.1 l.2 xs) (hxs : ∀ x ∈ xs, n ≤ x) :
    IsList (envInitLoop n l).1 (envInitLoop n l).2 (List.range n ++ xs) := by
  induction n generalizing l xs with
  | zero => exact h
  | succ n ih =>
    have hn : n ∉ xs := fun hm => absurd (hxs n hm) (by omega)
    have hins := h.insertHead hn
    have hrun := ih hins fun x hx => by
      rcases List.mem_cons.1 hx with rfl | hx
      · exact le_refl _
      · exact Nat.le_of_succ_le (hxs x hx)
    rw [List.range_succ, List.append_assoc]
    exact hrun

theorem isList_bootEnvs (nenv maxSemaphores : Nat) : IsList
    (bootEnvs nenv maxSemaphores).sched.links (bootEnvs nenv maxSemaphores).envFreeList
    (List.range nenv) := by
  have h0 : IsList (⟨fun _ => none, fun _ => none⟩ : Links Nat) listInit [] := isList_init _
  have hl := isList_envInitLoop (n := nenv) (l := (_, _)) h0 fun x hx => by cases hx
  rw [List.append_nil] at hl
  exact hl

theorem envInv_boot (nenv maxSemaphores : Nat) :
    ∃ c p, EnvInv (bootEnvs nenv maxSemaphores) c p := by
  refine ⟨fun _ => [], fun k => if k = .free then List.range nenv else [], ⟨⟨?_, ?_, ?_⟩, ?_, ?_⟩⟩
  · exact Sched.wf_boot _ _
  · intro k
    cases k with
    | free => exact isList_bootEnvs nenv maxSemaphores
    | new => exact isList_init _
    | exit => exact isList_init _
  · intro k e he
    cases k with
    | free => rfl
    | new => cases he
    | exit => cases he
  · exact ⟨fun e he => (by cases he), fun _ => rfl, fun _ => rfl⟩
  · exact ⟨fun i hi => (by cases hi), fun i hi => (by cases hi)⟩

/-! ## Exclusivity -/

/-- The lists of environments: `env_free_list`, `env_new_queue`, `env_exit_queue`,
`env_ready_queue` and the `env_queue` of every semaphore. -/
inductive EnvList
  | pool (k : Pool)
  | queue (q : QueueId)

def EnvList.status : EnvList → EnvStatus
  | .pool k => k.status
  | .queue q => q.status

def EnvTable.list (s : EnvTable) : EnvList → ListHead Nat
  | .pool k => s.pool k
  | .queue q => s.sched.head q

/-- The lists stand for the sequences `c` of environments. -/
structure QueuesExclusive (s : EnvTable) (c : EnvList → List Nat) : Prop where
  lists : ∀ q, IsList s.sched.links (s.list q) (c q)
  size : ∀ q, (s.list q).size = (c q).length
  once : ∀ q, (c q).Nodup
  exclusive : ∀ q q' e, e ∈ c q → e ∈ c q' → q = q'
  status : ∀ q, ∀ e ∈ c q, s.sched.envStatus e = q.status

/-- The sequences of all lists. -/
def listsOf (c : QueueId → List Nat) (p : Pool → List Nat) : EnvList → List Nat
  | .pool k => p k
  | .queue q => c q

theorem Placed.exclusive {s : EnvTable} {c : QueueId → List Nat} {p : Pool → List Nat}
    (h : Placed s c p) : QueuesExclusive s (listsOf c p) := by
  have hlists : ∀ q, IsList s.sched.links (s.list q) (listsOf c p q) := by
    intro q
    cases q with
    | pool k => exact h.lists k
    | queue q => exact h.wf.lists q
  refine ⟨hlists, fun q => (hlists q).size, fun q => (hlists q).nodup, fun q q' e hq hq' => ?_,
    fun q e he => ?_⟩
  · cases q with
    | pool k =>
      cases q' with
      | pool k' => rw [h.pool_unique hq hq']
      | queue q' => exact absurd hq' (h.not_queued hq q')
    | queue q =>
      cases q' with
      | pool k' => exact absurd hq (h.not_queued hq' q)
      | queue q' => rw [h.wf.excl q q' e hq hq']
  · cases q with
    | pool k => exact h.status k e he
    | queue q => exact h.wf.status q e he

/-- One legal call of a run. -/
def EnvStep (s t : EnvTable) : Prop := ∃ call : EnvCall, call.Legal s.sched ∧ call.exec s = .ok () t

/-- **Queue exclusivity.** In every state of every run no environment is in two of the lists or
twice in one, its status is the one of its list, and the sizes count the elements. While the
semaphores are there, no legal call faults. -/
theorem queues_exclusive {nenv maxSemaphores : Nat} {s : EnvTable}
    (hrun : ReflTransGen EnvStep (bootEnvs nenv maxSemaphores) s) :
    (∃ c, QueuesExclusive s c) ∧ ∀ call : EnvCall, call.Legal s.sched →
      s.sched.semaphoresNull = false → ∃ t, call.exec s = .ok () t := by
  have hinv : ∃ c p, EnvInv s c p := by
    refine Prog.invariant (I := fun s => ∃ c p, EnvInv s c p) (envInv_boot nenv maxSemaphores)
      (fun s t hs hst => ?_) hrun
    obtain ⟨c, p, hi⟩ := hs
    obtain ⟨call, hl, hc⟩ := hst
    exact hi.exec hl hc
  obtain ⟨c, p, hi⟩ := hinv
  exact ⟨⟨_, hi.toPlaced.exclusive⟩, fun call hl hnull => hi.returns hl hnull⟩

/-- The calls in order, from `s` on. -/
def EnvTable.after (s : EnvTable) : List EnvCall → EnvTable
  | [] => s
  | call :: calls => EnvTable.after (Prog.final (call.exec s)) calls

theorem envStep_after {s : EnvTable} {call : EnvCall} {calls : List EnvCall}
    (hl : call.Legal s.sched) (hv : Prog.value (call.exec s) = some ())
    (h : ReflTransGen EnvStep (s.after [call]) (s.after (call :: calls))) :
    ReflTransGen EnvStep s (s.after (call :: calls)) :=
  .head ⟨call, hl, Prog.ok_of_value hv⟩ h

/-- Two environments are created and run, and the first waits for a semaphore of value zero. -/
theorem queues_exclusive_two : ∃ c, QueuesExclusive ((bootEnvs 3 1).after [.create true,
    .create true, .createSemaphore 7 [115] 0, .runAll, .wait 7 [115]]) c := by
  have hwait : (EnvCall.wait 7 [115]).Legal ((bootEnvs 3 1).after [.create true,
      .create true, .createSemaphore 7 [115] 0, .runAll]).sched := by
    refine ⟨by decide +kernel, fun i hi => ?_⟩
    have h0 : (((bootEnvs 3 1).after [.create true, .create true, .createSemaphore 7 [115] 0,
      .runAll]).sched.findSemaphore 7 [115]) = some 0 := by decide +kernel
    rw [h0] at hi
    cases hi
    decide +kernel
  have hrun : ReflTransGen EnvStep (bootEnvs 3 1) ((bootEnvs 3 1).after [.create true,
      .create true, .createSemaphore 7 [115] 0, .runAll, .wait 7 [115]]) := by
    refine envStep_after trivial (by decide +kernel) ?_
    refine envStep_after trivial (by decide +kernel) ?_
    refine envStep_after ⟨by decide, by decide⟩ (by decide +kernel) ?_
    refine envStep_after trivial (by decide +kernel) ?_
    exact envStep_after hwait (by decide +kernel) .refl
  exact (queues_exclusive hrun).1

end Fos
