import Fos.Sched

/-!
# The queues of environments

Every queue stands for a sequence of environments, no environment is in two of them, and its status
is the one of its queue. Each operation of the scheduler and of the semaphores changes the
sequences as its name says and keeps that invariant.
-/

namespace Fos

/-- The status of the environments in a queue. -/
def QueueId.status : QueueId → EnvStatus
  | .ready => .ready
  | .sem _ => .blocked

namespace Sched

@[simp] theorem head_setQueue_self (s : Sched) (q : QueueId) (r : Links Nat × ListHead Nat) :
    (s.setQueue q r).head q = r.2 := by
  cases q with
  | ready => rfl
  | sem i => simp [setQueue, head, setSemaphore]

theorem head_setQueue_of_ne (s : Sched) {q q' : QueueId} (h : q' ≠ q)
    (r : Links Nat × ListHead Nat) : (s.setQueue q r).head q' = s.head q' := by
  cases q with
  | ready =>
    cases q' with
    | ready => exact absurd rfl h
    | sem j => rfl
  | sem i =>
    cases q' with
    | ready => rfl
    | sem j =>
      have hij : j ≠ i := fun he => h (by rw [he])
      simp [setQueue, head, setSemaphore, hij]

@[simp] theorem links_setQueue (s : Sched) (q : QueueId) (r : Links Nat × ListHead Nat) :
    (s.setQueue q r).links = r.1 := by cases q <;> rfl

@[simp] theorem envStatus_setQueue (s : Sched) (q : QueueId) (r : Links Nat × ListHead Nat) :
    (s.setQueue q r).envStatus = s.envStatus := by cases q <;> rfl

@[simp] theorem schedNext_setQueue (s : Sched) (q : QueueId) (r : Links Nat × ListHead Nat) :
    (s.setQueue q r).schedNext = s.schedNext := by cases q <;> rfl

@[simp] theorem semaphores_setSemaphore_self (s : Sched) (i : Nat) (sem : Semaphore) :
    (s.setSemaphore i sem).semaphores i = sem := Function.update_self _ _ _

theorem semaphores_setSemaphore_of_ne (s : Sched) {i j : Nat} (h : j ≠ i) (sem : Semaphore) :
    (s.setSemaphore i sem).semaphores j = s.semaphores j := Function.update_of_ne h _ _

/-- A queue operation touches no semaphore but its queue. -/
theorem semaphores_setQueue (s : Sched) (q : QueueId) (r : Links Nat × ListHead Nat) (j : Nat) :
    ∃ hd, (s.setQueue q r).semaphores j = { s.semaphores j with envQueue := hd } := by
  cases q with
  | ready => exact ⟨_, rfl⟩
  | sem i =>
    by_cases hij : j = i
    · exact ⟨r.2, by simp [setQueue, setSemaphore, hij]⟩
    · exact ⟨(s.semaphores j).envQueue, by simp [setQueue, setSemaphore, hij]⟩

/-! ## The sequences -/

/-- The queues stand for the sequences `c`, which have no environment in common. -/
structure QInv (s : Sched) (c : QueueId → List Nat) : Prop where
  lists : ∀ q, IsList s.links (s.head q) (c q)
  excl : ∀ q q' e, e ∈ c q → e ∈ c q' → q = q'

section

variable {s : Sched} {c : QueueId → List Nat} {q : QueueId} {e : Nat}

/-- An operation on one queue that uses only its own elements and elements of no queue. -/
theorem QInv.setQueue (h : QInv s c) {r : Links Nat × ListHead Nat} {xs ys : List Nat}
    (hr : IsList r.1 r.2 xs) (hs : SameOutside ys s.links r.1)
    (hys : ∀ y ∈ ys, y ∈ c q ∨ ∀ q', y ∉ c q') (hxs : ∀ x ∈ xs, x ∈ ys) :
    QInv (s.setQueue q r) (Function.update c q xs) := by
  -- an element that the operation uses is in no other queue
  have hother : ∀ q', q' ≠ q → ∀ y ∈ ys, y ∉ c q' := by
    intro q' hne y hy hmem
    rcases hys y hy with hq | hno
    · exact hne (h.excl q' q y hmem hq)
    · exact hno q' hmem
  refine ⟨fun q' => ?_, fun q₁ q₂ x h₁ h₂ => ?_⟩
  · by_cases hq : q' = q
    · subst hq
      rw [Function.update_self, head_setQueue_self, links_setQueue]
      exact hr
    · rw [Function.update_of_ne hq, head_setQueue_of_ne s hq, links_setQueue]
      exact (h.lists q').frame hs fun x hx hy => hother q' hq x hy hx
  · by_cases hq₁ : q₁ = q
    · by_cases hq₂ : q₂ = q
      · rw [hq₁, hq₂]
      · rw [hq₁, Function.update_self] at h₁
        rw [Function.update_of_ne hq₂] at h₂
        exact absurd h₂ (hother q₂ hq₂ x (hxs x h₁))
    · rw [Function.update_of_ne hq₁] at h₁
      by_cases hq₂ : q₂ = q
      · rw [hq₂, Function.update_self] at h₂
        exact absurd h₁ (hother q₁ hq₁ x (hxs x h₂))
      · rw [Function.update_of_ne hq₂] at h₂
        exact h.excl q₁ q₂ x h₁ h₂

theorem QInv.remove (h : QInv s c) {pre post : List Nat} (hq : c q = pre ++ e :: post) :
    QInv (s.setQueue q (listRemove s.links (s.head q) e)) (Function.update c q (pre ++ post)) := by
  have hl := h.lists q
  rw [hq] at hl
  refine h.setQueue hl.remove hl.remove_frame (fun y hy => .inl (by rwa [hq])) ?_
  intro x hx
  rcases List.mem_append.1 hx with hx | hx
  · exact List.mem_append_left _ hx
  · exact List.mem_append_right _ (List.mem_cons_of_mem _ hx)

/-- A new element and the elements of the queue are in no other queue. -/
theorem QInv.cons_mem (he : ∀ q', e ∉ c q') : ∀ y ∈ e :: c q, y ∈ c q ∨ ∀ q', y ∉ c q' := by
  intro y hy
  rcases List.mem_cons.1 hy with rfl | hy
  · exact .inr he
  · exact .inl hy

theorem QInv.insertHead (h : QInv s c) (he : ∀ q', e ∉ c q') :
    QInv (s.setQueue q (listInsertHead s.links (s.head q) e)) (Function.update c q (e :: c q)) :=
  h.setQueue ((h.lists q).insertHead (he q)) (h.lists q).insertHead_frame (QInv.cons_mem he)
    fun _ hx => hx

theorem QInv.insertTail (h : QInv s c) (he : ∀ q', e ∉ c q') :
    QInv (s.setQueue q (listInsertTail s.links (s.head q) e))
      (Function.update c q (c q ++ [e])) := by
  refine h.setQueue ((h.lists q).insertTail (he q)) (h.lists q).insertTail_frame
    (QInv.cons_mem he) fun x hx => ?_
  rcases List.mem_append.1 hx with hx | hx
  · exact List.mem_cons_of_mem _ hx
  · rw [List.mem_singleton.1 hx]
    exact List.mem_cons_self

theorem QInv.insertBefore (h : QInv s c) (he : ∀ q', e ∉ c q') {x : Nat} {pre post : List Nat}
    (hq : c q = pre ++ x :: post) :
    QInv (s.setQueue q (listInsertBefore s.links (s.head q) x e))
      (Function.update c q (pre ++ e :: x :: post)) := by
  have hl := h.lists q
  have heq := he q
  rw [hq] at hl heq
  have hex : e ≠ x := fun hex => heq (by simp [hex])
  refine h.setQueue (hl.insertBefore heq) (hl.insertBefore_frame hex) ?_ fun y hy => ?_
  · rw [← hq]
    exact QInv.cons_mem he
  · simp only [List.mem_append, List.mem_cons] at hy ⊢
    tauto

end

/-! ## Well-formed states -/

/-- The queues, the statuses of their environments, and `sched_next`, which points into the ready
queue unless that is empty. A free entry of the table has no waiters. -/
structure WF (s : Sched) (c : QueueId → List Nat) : Prop extends QInv s c where
  status : ∀ q, ∀ e ∈ c q, s.envStatus e = q.status
  ready : ∀ e, s.envStatus e = .ready → e ∈ c .ready
  next_mem : ∀ e, s.schedNext = some e → e ∈ c .ready
  next_none : s.schedNext = none → c .ready = []
  unused : ∀ i, (s.semaphores i).empty = true → c (.sem i) = []

section

variable {s : Sched} {c : QueueId → List Nat} {e : Nat}

theorem WF.not_mem (h : WF s c) (h1 : s.envStatus e ≠ .ready) (h2 : s.envStatus e ≠ .blocked) :
    ∀ q, e ∉ c q := by
  intro q hmem
  have := h.status q e hmem
  cases q with
  | ready => exact h1 this
  | sem i => exact h2 this

theorem wf_boot (links : Links Nat) (n : Nat) : WF (bootSched links n) fun _ => [] where
  lists q := by cases q <;> exact isList_init _
  excl _ _ _ h := by cases h
  status _ _ h := by cases h
  ready _ h := by cases h
  next_mem _ h := by cases h
  next_none _ := rfl
  unused _ _ := rfl

/-- The next environment after one of the ready queue is in the ready queue. -/
theorem WF.circular_mem (h : WF s c) (he : e ∈ c .ready) :
    ∃ n ∈ c .ready, s.schedNextCircular (some e) = some n := by
  obtain ⟨pre, post, hq⟩ := List.append_of_mem he
  have hl : IsList s.links s.envReadyQueue (c .ready) := h.lists .ready
  have hfirst := hl.first
  rw [hq] at hl
  have hnext : s.schedNextCircular (some e) = post.head?.or s.envReadyQueue.first := by
    rw [schedNextCircular, hl.next_eq]
  rw [hnext, hfirst, hq]
  cases post with
  | cons n post => exact ⟨n, by simp, rfl⟩
  | nil =>
    cases pre with
    | cons n pre => exact ⟨n, by simp, rfl⟩
    | nil => exact ⟨e, by simp, rfl⟩

/-- Only in a ready queue of one environment is that one its own successor. -/
theorem WF.circular_self (h : WF s c) (he : e ∈ c .ready)
    (hself : s.schedNextCircular (some e) = some e) : c .ready = [e] := by
  obtain ⟨pre, post, hq⟩ := List.append_of_mem he
  have hl : IsList s.links s.envReadyQueue (c .ready) := h.lists .ready
  have hfirst := hl.first
  rw [hq] at hl
  have hnd := hl.nodup
  rw [schedNextCircular, hl.next_eq, hfirst, hq] at hself
  cases post with
  | cons n post =>
    cases hself
    exact absurd hnd (by simp [List.nodup_append])
  | nil =>
    cases pre with
    | nil => exact hq
    | cons n pre =>
      cases hself
      exact absurd hnd (by simp [List.nodup_append])

/-! ## Operations -/

theorem WF.fosScheduler (h : WF s c) : WF s.fosScheduler c where
  lists := h.lists
  excl := h.excl
  status := h.status
  ready := h.ready
  unused := h.unused
  next_mem e he := by
    cases hn : s.schedNext with
    | none =>
      have : s.schedNextCircular s.schedNext = some e := he
      rw [hn] at this
      cases this
    | some x =>
      have hx : s.schedNextCircular s.schedNext = some e := he
      obtain ⟨n, hmem, hcirc⟩ := h.circular_mem (h.next_mem x hn)
      rw [hn, hcirc] at hx
      cases hx
      exact hmem
  next_none he := by
    cases hn : s.schedNext with
    | none => exact h.next_none hn
    | some x =>
      have hx : s.schedNextCircular s.schedNext = none := he
      obtain ⟨n, -, hcirc⟩ := h.circular_mem (h.next_mem x hn)
      rw [hn, hcirc] at hx
      cases hx

/-- A state in which `e` has entered the ready queue and got the status of that queue. -/
theorem WF.enterReady (h : WF s c) (he : ∀ q, e ∉ c q) {t : Sched} {ready : List Nat}
    (hperm : ready.Perm (e :: c .ready)) (hq : QInv t (Function.update c .ready ready))
    (hst : t.envStatus = Function.update s.envStatus e .ready)
    (hsem : t.semaphores = s.semaphores) (hmem : ∀ x, t.schedNext = some x → x ∈ ready)
    (hnone : t.schedNext ≠ none) : WF t (Function.update c .ready ready) := by
  refine ⟨hq, ?_, ?_, ?_, fun hn => absurd hn hnone, ?_⟩
  · intro q x hx
    by_cases hqr : q = .ready
    · subst hqr
      rw [Function.update_self, hperm.mem_iff, List.mem_cons] at hx
      by_cases hxe : x = e
      · rw [hst, hxe, Function.update_self]
        rfl
      · rw [hst, Function.update_of_ne hxe]
        exact h.status _ x (hx.resolve_left hxe)
    · rw [Function.update_of_ne hqr] at hx
      -- another queue does not hold `e`
      have hxe : x ≠ e := fun hxe => he q (by rwa [← hxe])
      rw [hst, Function.update_of_ne hxe]
      exact h.status q x hx
  · intro x hx
    rw [Function.update_self, hperm.mem_iff, List.mem_cons]
    by_cases hxe : x = e
    · exact .inl hxe
    · rw [hst, Function.update_of_ne hxe] at hx
      exact .inr (h.ready x hx)
  · intro x hx
    rw [Function.update_self]
    exact hmem x hx
  · intro i hi
    rw [Function.update_of_ne (by simp)]
    exact h.unused i (by rwa [← hsem])

/-- `sched_insert_ready` of an environment in no queue. -/
theorem WF.insertReady (h : WF s c) (he : ∀ q, e ∉ c q) : ∃ ready,
    WF (s.insertReady e) (Function.update c .ready ready) ∧ ready.Perm (e :: c .ready) := by
  have hq : QInv (s.setStatus e .ready) c := ⟨h.lists, h.excl⟩
  cases hn : s.schedNext with
  | none =>
    have hins : s.insertReady e = ((s.setStatus e .ready).setQueue .ready
        (listInsertTail s.links s.envReadyQueue e)).setNext e := by
      unfold Sched.insertReady
      dsimp only
      rw [show (s.setStatus e .ready).schedNext = none from hn]
      rfl
    have hperm : (c .ready ++ [e]).Perm (e :: c .ready) := List.perm_append_singleton _ _
    have hq' := hq.insertTail (q := .ready) he
    rw [hins]
    refine ⟨_, h.enterReady he hperm ⟨hq'.lists, hq'.excl⟩ rfl rfl (fun x hx => ?_) ?_, hperm⟩
    · cases hx
      simp
    · exact fun hx => by cases hx
  | some next =>
    obtain ⟨pre, post, hsplit⟩ := List.append_of_mem (h.next_mem next hn)
    have hins : s.insertReady e = (s.setStatus e .ready).setQueue .ready
        (listInsertBefore s.links s.envReadyQueue next e) := by
      unfold Sched.insertReady
      dsimp only
      rw [show (s.setStatus e .ready).schedNext = some next from hn]
      rfl
    -- the new environment comes before the cursor, and so last in turn
    have hperm : (pre ++ e :: next :: post).Perm (e :: c .ready) := by
      rw [hsplit]
      exact List.perm_middle
    have hnext : (s.insertReady e).schedNext = some next := by
      rw [hins]
      exact hn
    rw [hins] at hnext ⊢
    refine ⟨_, h.enterReady he hperm (hq.insertBefore (q := .ready) he hsplit) rfl rfl
      (fun x hx => ?_) (by rw [hnext]; simp), hperm⟩
    rw [hnext] at hx
    cases hx
    simp

/-- `sched_remove_ready` of an environment of the ready queue. -/
theorem WF.removeReady (h : WF s c) {pre post : List Nat} (hsplit : c .ready = pre ++ e :: post) :
    WF (s.removeReady e) (Function.update c .ready (pre ++ post)) := by
  have he : e ∈ c .ready := by rw [hsplit]; simp
  have hnd := (h.lists .ready).nodup
  rw [hsplit] at hnd
  have hnot : e ∉ pre ++ post := (List.nodup_cons.1 (List.perm_middle.nodup_iff.1 hnd)).1
  have hq := (show QInv s c from h.toQInv).remove hsplit
  have hstatus : ∀ x, x ≠ e → (s.removeReady e).envStatus x = s.envStatus x := fun x hx =>
    Function.update_of_ne hx _ _
  have hself : (s.removeReady e).envStatus e = .unknown := Function.update_self _ _ _
  have hrest : ∀ x ∈ c .ready, x ≠ e → x ∈ pre ++ post := by
    intro x hx hxe
    rw [hsplit] at hx
    simp only [List.mem_append, List.mem_cons] at hx ⊢
    tauto
  refine ⟨⟨hq.lists, hq.excl⟩, ?_, ?_, ?_, ?_, ?_⟩
  · intro q x hx
    have hxe : x ≠ e ∧ x ∈ c q := by
      by_cases hqr : q = .ready
      · subst hqr
        rw [Function.update_self] at hx
        refine ⟨fun hxe => hnot (by rwa [← hxe]), ?_⟩
        rw [hsplit]
        simp only [List.mem_append, List.mem_cons] at hx ⊢
        tauto
      · rw [Function.update_of_ne hqr] at hx
        exact ⟨fun hxe => hqr (h.excl _ _ e (by rwa [← hxe]) he), hx⟩
    rw [hstatus x hxe.1]
    exact h.status q x hxe.2
  · intro x hx
    have hxe : x ≠ e := by
      rintro rfl
      rw [hself] at hx
      cases hx
    rw [hstatus x hxe] at hx
    rw [Function.update_self]
    exact hrest x (h.ready x hx) hxe
  · intro x hx
    rw [Function.update_self]
    obtain ⟨n, hmem, hcirc⟩ := h.circular_mem he
    have hx' : (if s.schedNext = some e then
        if s.schedNextCircular e = some e then none else s.schedNextCircular e
      else s.schedNext) = some x := hx
    split at hx'
    case isTrue =>
      split at hx'
      case isTrue => cases hx'
      case isFalse hne =>
        rw [hcirc] at hx' hne
        cases hx'
        exact hrest x hmem fun hxe => hne (by rw [hxe])
    case isFalse hne => exact hrest x (h.next_mem x hx') fun hxe => hne (by rw [hx', hxe])
  · intro hx
    rw [Function.update_self]
    have hx' : (if s.schedNext = some e then
        if s.schedNextCircular e = some e then none else s.schedNextCircular e
      else s.schedNext) = none := hx
    split at hx'
    case isTrue =>
      split at hx'
      case isTrue hself =>
        -- `e` was the only one
        have hone := h.circular_self he hself
        rw [hsplit] at hone
        cases pre with
        | nil => exact (List.cons.inj hone).2
        | cons y ys => simp at hone
      case isFalse =>
        obtain ⟨n, -, hcirc⟩ := h.circular_mem he
        rw [hcirc] at hx'
        cases hx'
    case isFalse =>
      rw [h.next_none hx'] at he
      cases he
  · intro i hi
    rw [Function.update_of_ne (by simp)]
    exact h.unused i hi

/-- The value of a semaphore matters to no queue. -/
theorem WF.setSemaphore (h : WF s c) (i : Nat) {sem : Semaphore}
    (hq : sem.envQueue = (s.semaphores i).envQueue)
    (hempty : sem.empty = true → (s.semaphores i).empty = true) : WF (s.setSemaphore i sem) c := by
  have hsem : ∀ j, ((s.setSemaphore i sem).semaphores j).envQueue = (s.semaphores j).envQueue ∧
      (((s.setSemaphore i sem).semaphores j).empty = true → (s.semaphores j).empty = true) := by
    intro j
    by_cases hij : j = i
    · subst hij
      simpa [Sched.setSemaphore, hq] using hempty
    · simp [Sched.setSemaphore, hij]
  refine ⟨⟨fun q => ?_, h.excl⟩, h.status, h.ready, h.next_mem, h.next_none, fun j hj => ?_⟩
  · cases q with
    | ready => exact h.lists .ready
    | sem j =>
      have hl := h.lists (.sem j)
      rw [head] at hl ⊢
      rw [(hsem j).1]
      exact hl
  · exact h.unused j ((hsem j).2 hj)

/-- `enqueue` of an environment in no queue, which is blocked then. -/
theorem WF.enqueue (h : WF s c) (he : ∀ q, e ∉ c q) (i : Nat)
    (hused : (s.semaphores i).empty = false) :
    WF ((s.setQueue (.sem i) (listInsertHead s.links (s.head (.sem i)) e)).setStatus e .blocked)
      (Function.update c (.sem i) (e :: c (.sem i))) := by
  have hq := (show QInv s c from h.toQInv).insertHead (q := .sem i) he
  have hne : ∀ q x, x ∈ c q → x ≠ e := fun q x hx hxe => he q (by rwa [← hxe])
  set t := (s.setQueue (.sem i) (listInsertHead s.links (s.head (.sem i)) e)).setStatus e .blocked
  have hst : t.envStatus = Function.update s.envStatus e .blocked := by
    simp [t, setStatus]
  -- the ready queue is left alone
  have hready : Function.update c (.sem i) (e :: c (.sem i)) .ready = c .ready :=
    Function.update_of_ne (by simp) _ _
  refine ⟨⟨hq.lists, hq.excl⟩, ?_, ?_, ?_, ?_, ?_⟩
  · intro q x hx
    by_cases hqi : q = .sem i
    · subst hqi
      rw [Function.update_self, List.mem_cons] at hx
      rcases hx with rfl | hx
      · rw [hst, Function.update_self]
        rfl
      · rw [hst, Function.update_of_ne (hne _ x hx)]
        exact h.status _ x hx
    · rw [Function.update_of_ne hqi] at hx
      rw [hst, Function.update_of_ne (hne _ x hx)]
      exact h.status q x hx
  · intro x hx
    rw [hready]
    by_cases hxe : x = e
    · rw [hst, hxe, Function.update_self] at hx
      cases hx
    · rw [hst, Function.update_of_ne hxe] at hx
      exact h.ready x hx
  · rw [hready]
    exact h.next_mem
  · rw [hready]
    exact h.next_none
  · intro j hj
    obtain ⟨hd, hsem⟩ :=
      s.semaphores_setQueue (.sem i) (listInsertHead s.links (s.head (.sem i)) e) j
    have hj' : (s.semaphores j).empty = true := by
      have : (t.semaphores j).empty = true := hj
      rw [show t.semaphores j = _ from hsem] at this
      exact this
    rw [Function.update_of_ne (fun hji => by cases hji; rw [hused] at hj'; cases hj')]
    exact h.unused j hj'

/-- `dequeue`: the last element leaves the queue of the semaphore. -/
theorem WF.dequeue (h : WF s c) {i : Nat} {init : List Nat} (hsplit : c (.sem i) = init ++ [e]) :
    WF (s.setQueue (.sem i) (listRemove s.links (s.head (.sem i)) e))
      (Function.update c (.sem i) init) := by
  have hq : QInv (s.setQueue (.sem i) (listRemove s.links (s.head (.sem i)) e))
      (Function.update c (.sem i) (init ++ [])) := (show QInv s c from h.toQInv).remove hsplit
  rw [List.append_nil] at hq
  -- every queue holds at most what it held
  have hsub : ∀ q, ∀ x ∈ Function.update c (.sem i) init q, x ∈ c q := by
    intro q x hx
    by_cases hqi : q = .sem i
    · subst hqi
      rw [Function.update_self] at hx
      rw [hsplit]
      exact List.mem_append_left _ hx
    · rwa [Function.update_of_ne hqi] at hx
  have hready : Function.update c (.sem i) init .ready = c .ready :=
    Function.update_of_ne (by simp) _ _
  refine ⟨hq, fun q x hx => h.status q x (hsub q x hx), ?_, ?_, ?_, fun j hj => ?_⟩
  · rw [hready]
    exact h.ready
  · rw [hready]
    exact h.next_mem
  · rw [hready]
    exact h.next_none
  · obtain ⟨hd, hsem⟩ := s.semaphores_setQueue (.sem i) (listRemove s.links (s.head (.sem i)) e) j
    rw [hsem] at hj
    have := h.unused j hj
    exact List.eq_nil_iff_forall_not_mem.2 fun x hx => by
      have := hsub _ x hx
      rw [h.unused j hj] at this
      cases this

/-! ## Other environments -/

/-- The links and the status of `y` are the same. -/
structure SameAt (y : Nat) (s t : Sched) : Prop where
  next : t.links.next y = s.links.next y
  prev : t.links.prev y = s.links.prev y
  status : t.envStatus y = s.envStatus y

omit c in
theorem SameAt.trans {y : Nat} {t u : Sched} (h : SameAt y s t) (h' : SameAt y t u) :
    SameAt y s u :=
  ⟨h'.next.trans h.next, h'.prev.trans h.prev, h'.status.trans h.status⟩

omit c in
/-- A queue operation on environments other than `y`. -/
theorem SameAt.setQueue {y : Nat} {q : QueueId} {r : Links Nat × ListHead Nat} {ys : List Nat}
    (hs : SameOutside ys s.links r.1) (hy : y ∉ ys) : SameAt y s (s.setQueue q r) := by
  obtain ⟨hnext, hprev⟩ := hs y hy
  refine ⟨?_, ?_, by rw [envStatus_setQueue]⟩
  · rw [links_setQueue]
    exact hnext
  · rw [links_setQueue]
    exact hprev

omit c in
theorem SameAt.setStatus {y : Nat} (hy : y ≠ e) (st : EnvStatus) : SameAt y s (s.setStatus e st) :=
  ⟨rfl, rfl, Function.update_of_ne hy _ _⟩

omit s e in
theorem notMem_update {y : Nat} {q : QueueId} {xs : List Nat} (hy : ∀ q, y ∉ c q) (hxs : y ∉ xs) :
    ∀ q', y ∉ Function.update c q xs q' := by
  intro q' hm
  by_cases hq : q' = q
  · subst hq
    rw [Function.update_self] at hm
    exact hxs hm
  · rw [Function.update_of_ne hq] at hm
    exact hy q' hm

/-- An environment in no queue does not notice that another one leaves its queue. -/
theorem WF.sameAt_remove (h : WF s c) {q : QueueId} (he : e ∈ c q) {y : Nat} (hy : ∀ q, y ∉ c q) :
    SameAt y s (s.setQueue q (listRemove s.links (s.head q) e)) := by
  obtain ⟨pre, post, hsplit⟩ := List.append_of_mem he
  have hl := h.lists q
  have hyq := hy q
  rw [hsplit] at hl hyq
  exact SameAt.setQueue hl.remove_frame hyq

theorem WF.sameAt_removeReady (h : WF s c) (he : e ∈ c .ready) {y : Nat} (hy : ∀ q, y ∉ c q) :
    SameAt y s (s.removeReady e) := by
  have hye : y ≠ e := by
    rintro rfl
    exact hy _ he
  obtain ⟨hnext, hprev, hst⟩ := h.sameAt_remove he hy
  exact ⟨hnext, hprev, (Function.update_of_ne hye _ _).trans hst⟩

/-- Nor that one enters the ready queue. -/
theorem WF.sameAt_insertReady (h : WF s c) (he : ∀ q, e ∉ c q) {y : Nat} (hy : ∀ q, y ∉ c q)
    (hye : y ≠ e) : SameAt y s (s.insertReady e) := by
  have hst : SameAt y s (s.setStatus e .ready) := SameAt.setStatus hye .ready
  have hynot : y ∉ e :: c .ready := fun hm => (List.mem_cons.1 hm).elim hye (hy .ready)
  have hl : IsList s.links s.envReadyQueue (c .ready) := h.lists .ready
  unfold Sched.insertReady
  dsimp only
  split
  case h_1 next hnext =>
    have hmem : next ∈ c .ready := h.next_mem next hnext
    have hne : e ≠ next := by
      rintro rfl
      exact he _ hmem
    obtain ⟨pre, post, hsplit⟩ := List.append_of_mem hmem
    rw [hsplit] at hl hynot
    exact hst.trans (SameAt.setQueue (hl.insertBefore_frame hne) hynot)
  case h_2 =>
    have hq : SameAt y (s.setStatus e .ready) ((s.setStatus e .ready).setQueue .ready
        (listInsertTail s.links s.envReadyQueue e)) := SameAt.setQueue hl.insertTail_frame hynot
    exact hst.trans ⟨hq.next, hq.prev, hq.status⟩

/-- Nor that one waits for a semaphore. -/
theorem WF.sameAt_enqueue (h : WF s c) (i : Nat) {y : Nat} (hy : ∀ q, y ∉ c q) (hye : y ≠ e) :
    SameAt y s ((s.setQueue (.sem i)
      (listInsertHead s.links (s.head (.sem i)) e)).setStatus e .blocked) := by
  have hynot : y ∉ e :: c (.sem i) := fun hm => (List.mem_cons.1 hm).elim hye (hy _)
  exact (SameAt.setQueue (h.lists (.sem i)).insertHead_frame hynot).trans
    (SameAt.setStatus hye .blocked)

end

end Sched

end Fos
