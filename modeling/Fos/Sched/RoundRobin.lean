import Fos.Lib.RoundRobin
import Fos.Sched.Queues

/-!
# The ready queue is a round robin

Read cyclically from `sched_next`, `env_ready_queue` is a queue whose first element runs next and
goes to the back, whatever the cursor does in the linked list.
-/

namespace Fos

open RoundRobin (Op served)

namespace Sched

/-! ## Runs of the three calls -/

/-- `sched_insert_ready`, `sched_remove_ready` or `fos_scheduler`. -/
def step (s : Sched) : Op Nat → Sched
  | .insert e => s.insertReady e
  | .remove e => s.removeReady e
  | .dispatch => s.fosScheduler

/-- `n` elements from `e` on, with `sched_next_circular` from one to the next. -/
def cyclic (s : Sched) : Nat → Option Nat → List Nat
  | n + 1, some e => e :: s.cyclic n (s.schedNextCircular e)
  | _, _ => []

/-- The ready queue read cyclically from `sched_next`. -/
def readCyclic (s : Sched) : List Nat := s.cyclic s.envReadyQueue.size s.schedNext

/-- `n` elements from `e` on, with `LIST_NEXT` from one to the next. -/
def linear (s : Sched) : Nat → Option Nat → List Nat
  | n + 1, some e => e :: s.linear n (s.links.next e)
  | _, _ => []

/-- The members of the ready queue, the loop `LIST_FOREACH`. -/
def readyList (s : Sched) : List Nat := s.linear s.envReadyQueue.size s.envReadyQueue.first

/-- An environment is inserted that is not in the ready queue, and removed when it is. -/
def Legal (s : Sched) : Op Nat → Prop
  | .insert e => e ∉ s.readyList
  | .remove e => e ∈ s.readyList
  | .dispatch => True

instance (s : Sched) : (op : Op Nat) → Decidable (s.Legal op)
  | .insert _ => inferInstanceAs (Decidable (_ ∉ _))
  | .remove _ => inferInstanceAs (Decidable (_ ∈ _))
  | .dispatch => inferInstanceAs (Decidable True)

def runOps : List (Op Nat) → Sched → Sched
  | [], s => s
  | op :: ops, s => runOps ops (s.step op)

def LegalRun : List (Op Nat) → Sched → Prop
  | [], _ => True
  | op :: ops, s => s.Legal op ∧ LegalRun ops (s.step op)

/-- The environments that the dispatches of a run start. -/
def dispatched : List (Op Nat) → Sched → List (Option Nat)
  | [], _ => []
  | .dispatch :: ops, s => s.fosScheduler.curenv :: dispatched ops s.fosScheduler
  | op :: ops, s => dispatched ops (s.step op)

/-! ## The simulation -/

/-- The ready queue is `pre ++ post` with `sched_next` at the start of `post`, so that read
cyclically it is `q`. -/
structure Reads (s : Sched) (q : List Nat) : Prop where
  ex : ∃ pre post, IsList s.links s.envReadyQueue (pre ++ post) ∧ q = post ++ pre ∧
    s.schedNext = post.head? ∧ (post = [] → pre = [])

section

variable {s : Sched} {q pre post xs : List Nat} {e : Nat}

/-- The elements from some place of the list to its end. -/
theorem linear_suffix {hd : ListHead Nat} (pre : List Nat) (h : IsList s.links hd (pre ++ xs)) :
    s.linear xs.length xs.head? = xs := by
  induction xs generalizing pre with
  | nil => rfl
  | cons x xs ih =>
    have hnext : s.links.next x = xs.head? := h.next_eq
    rw [List.head?_cons, List.length_cons, linear, hnext]
    rw [ih (pre ++ [x]) (by rwa [List.append_assoc, List.singleton_append])]

theorem readyList_eq (h : IsList s.links s.envReadyQueue xs) : s.readyList = xs := by
  rw [readyList, h.size, h.first]
  exact linear_suffix [] h

/-- Up to the end of the list the cyclic reading follows the links. -/
theorem cyclic_suffix (pre : List Nat) (h : IsList s.links s.envReadyQueue (pre ++ xs)) (n : Nat) :
    s.cyclic (xs.length + n) (xs.head?.or s.envReadyQueue.first) =
      xs ++ s.cyclic n s.envReadyQueue.first := by
  induction xs generalizing pre with
  | nil => simp
  | cons x xs ih =>
    have hnext : s.links.next x = xs.head? := h.next_eq
    rw [List.head?_cons, Option.some_or, List.length_cons, Nat.add_right_comm, cyclic,
      schedNextCircular, hnext, ih (pre ++ [x]) (by
        rwa [List.append_assoc, List.singleton_append])]
    rfl

/-- The first `n` elements of the list, read cyclically. -/
theorem cyclic_prefix (pre : List Nat)
    (h : IsList s.links s.envReadyQueue (pre ++ (xs ++ post))) :
    s.cyclic xs.length ((xs ++ post).head?.or s.envReadyQueue.first) = xs := by
  induction xs generalizing pre with
  | nil => simp [cyclic]
  | cons x xs ih =>
    rw [List.cons_append] at h
    have hnext : s.links.next x = (xs ++ post).head? := h.next_eq
    rw [List.cons_append, List.head?_cons, Option.some_or, List.length_cons, cyclic,
      schedNextCircular, hnext, ih (pre ++ [x]) (by
        rwa [List.append_assoc, List.singleton_append])]

theorem Reads.readCyclic (h : Reads s q) : s.readCyclic = q := by
  obtain ⟨pre, post, hl, rfl, hnext, hnil⟩ := h.ex
  rw [Sched.readCyclic, hl.size, hnext, List.length_append, Nat.add_comm]
  cases hpost : post with
  | nil => rw [hnil hpost]; rfl
  | cons x post' =>
    rw [← hpost]
    have h1 := cyclic_suffix pre hl pre.length
    rw [show post.head?.or s.envReadyQueue.first = post.head? by rw [hpost]; rfl] at h1
    rw [h1]
    have h2 : s.cyclic pre.length ((pre ++ post).head?.or s.envReadyQueue.first) = pre :=
      cyclic_prefix [] hl
    rw [hl.first] at h2 ⊢
    rw [Option.or_self] at h2
    rw [h2]

theorem Reads.mem_iff (h : Reads s q) : e ∈ s.readyList ↔ e ∈ q := by
  obtain ⟨pre, post, hl, rfl, -, -⟩ := h.ex
  rw [readyList_eq hl, List.mem_append, List.mem_append, or_comm]

theorem Reads.nodup (h : Reads s q) : q.Nodup := by
  obtain ⟨pre, post, hl, rfl, -, -⟩ := h.ex
  exact List.perm_append_comm.nodup_iff.1 hl.nodup

theorem Reads.schedNext (h : Reads s q) : s.schedNext = q.head? := by
  obtain ⟨pre, post, hl, rfl, hnext, hnil⟩ := h.ex
  rw [hnext]
  cases post with
  | nil => rw [hnil rfl]; rfl
  | cons x post => rfl

theorem Reads.insertReady (h : Reads s q) (he : e ∉ q) :
    Reads (s.insertReady e) (Op.next (.insert e) q) := by
  obtain ⟨pre, post, hl, rfl, hnext, hnil⟩ := h.ex
  have he' : e ∉ pre ++ post := fun hm => he (by
    rw [List.mem_append] at hm ⊢
    exact hm.symm)
  cases post with
  | nil =>
    -- the queue is empty and `e` becomes the next
    have hpre := hnil rfl
    subst hpre
    have hins : s.insertReady e = ((s.setStatus e .ready).setQueue .ready
        (listInsertTail s.links s.envReadyQueue e)).setNext e := by
      unfold Sched.insertReady
      dsimp only
      rw [show (s.setStatus e .ready).schedNext = none from hnext]
      rfl
    rw [hins]
    exact ⟨[], [e], hl.insertTail he', rfl, rfl, fun h => by cases h⟩
  | cons n post =>
    have hins : s.insertReady e = (s.setStatus e .ready).setQueue .ready
        (listInsertBefore s.links s.envReadyQueue n e) := by
      unfold Sched.insertReady
      dsimp only
      rw [show (s.setStatus e .ready).schedNext = some n from hnext]
      rfl
    rw [hins]
    refine ⟨pre ++ [e], n :: post, ?_, ?_, hnext, fun h => by cases h⟩
    · have := hl.insertBefore he'
      rwa [List.append_assoc, List.singleton_append]
    · show n :: post ++ pre ++ [e] = _
      rw [List.append_assoc]

theorem Reads.removeReady (h : Reads s q) (he : e ∈ q) :
    Reads (s.removeReady e) (Op.next (.remove e) q) := by
  obtain ⟨pre, post, hl, rfl, hnext, hnil⟩ := h.ex
  cases post with
  | nil =>
    rw [hnil rfl] at he
    cases he
  | cons n post =>
    have hfirst := hl.first
    have hnd := hl.nodup
    by_cases hen : e = n
    · -- the cursor moves on to the successor of the element it points to
      subst hen
      have hcirc : s.schedNextCircular (some e) = post.head?.or (pre ++ e :: post).head? := by
        rw [schedNextCircular, hl.next_eq, hfirst]
      have hn' : (s.removeReady e).schedNext =
          if s.schedNextCircular e = some e then none else s.schedNextCircular e := by
        show (if s.schedNext = some e then _ else _) = _
        exact if_pos hnext
      have hrem := hl.remove
      have herase : Op.next (.remove e) (e :: post ++ pre) = post ++ pre :=
        List.erase_cons_head ..
      rw [herase]
      cases post with
      | cons p post =>
        have hpe : p ≠ e := by
          rintro rfl
          simp [List.nodup_append] at hnd
        rw [hcirc, List.head?_cons, Option.some_or, if_neg (by simpa using hpe)] at hn'
        exact ⟨pre, p :: post, hrem, rfl, hn', fun h => by cases h⟩
      | nil =>
        rw [List.append_nil] at hrem
        cases pre with
        | nil =>
          rw [hcirc] at hn'
          exact ⟨[], [], hrem, rfl, by simpa using hn', fun _ => rfl⟩
        | cons p pre =>
          have hpe : p ≠ e := by
            rintro rfl
            simp at hnd
          rw [hcirc, List.head?_nil, Option.none_or, List.cons_append, List.head?_cons,
            if_neg (by simpa using hpe)] at hn'
          exact ⟨[], p :: pre, hrem, by simp, hn', fun h => by cases h⟩
    · -- the cursor stays where it is
      have hn' : (s.removeReady e).schedNext = some n := by
        show (if s.schedNext = some e then _ else _) = _
        rw [hnext, List.head?_cons, if_neg (by simpa using fun h => hen h.symm)]
      have hnext' : Op.next (.remove e) (n :: post ++ pre) = n :: (post ++ pre).erase e := by
        show (n :: (post ++ pre)).erase e = _
        rw [List.erase_cons_tail (by simpa using fun h => hen h.symm)]
      rw [hnext']
      -- what is removed lies after the cursor, or before it
      by_cases hpost : e ∈ post
      · obtain ⟨p₁, p₂, rfl⟩ := List.append_of_mem hpost
        have hno : e ∉ p₁ := by
          intro hm
          simp only [List.nodup_append, List.nodup_cons] at hnd
          exact hnd.2.1.2.2.2 e hm e List.mem_cons_self rfl
        have hl' : IsList s.links s.envReadyQueue ((pre ++ n :: p₁) ++ e :: p₂) := by
          simpa using hl
        refine ⟨pre, n :: (p₁ ++ p₂), ?_, ?_, hn', fun h => by cases h⟩
        · have := hl'.remove
          rw [List.append_assoc, List.cons_append] at this
          exact this
        · rw [List.append_assoc, List.cons_append, List.erase_append_right _ hno,
            List.erase_cons_head, List.cons_append, List.append_assoc]
      · have hpre : e ∈ pre := by
          simp only [List.cons_append, List.mem_cons, List.mem_append] at he
          tauto
        obtain ⟨p₁, p₂, rfl⟩ := List.append_of_mem hpre
        have hno : e ∉ p₁ := by
          intro hm
          simp only [List.nodup_append, List.append_assoc, List.cons_append] at hnd
          exact hnd.2.2 e hm e List.mem_cons_self rfl
        have hl' : IsList s.links s.envReadyQueue (p₁ ++ e :: (p₂ ++ n :: post)) := by
          simpa using hl
        refine ⟨p₁ ++ p₂, n :: post, ?_, ?_, hn', fun h => by cases h⟩
        · have := hl'.remove
          rw [← List.append_assoc] at this
          exact this
        · rw [List.erase_append_right _ hpost, List.erase_append_right _ hno,
            List.erase_cons_head]
          rfl

theorem Reads.fosScheduler (h : Reads s q) :
    Reads s.fosScheduler (Op.dispatch.next q) ∧ s.fosScheduler.curenv = q.head? := by
  have hcur : s.fosScheduler.curenv = q.head? := h.schedNext
  refine ⟨?_, hcur⟩
  obtain ⟨pre, post, hl, rfl, hnext, hnil⟩ := h.ex
  have hn' : s.fosScheduler.schedNext = s.schedNextCircular s.schedNext := rfl
  -- the next environment is inside the queue, or the search wraps to its head
  cases post with
  | nil =>
    have hpre := hnil rfl
    subst hpre
    refine ⟨[], [], hl, rfl, ?_, fun _ => rfl⟩
    rw [hn', hnext]
    rfl
  | cons n post =>
    have hcirc : s.schedNextCircular s.schedNext = post.head?.or (pre ++ n :: post).head? := by
      rw [hnext, List.head?_cons, schedNextCircular, hl.next_eq, hl.first]
    rw [hcirc] at hn'
    cases post with
    | cons p post =>
      refine ⟨pre ++ [n], p :: post, ?_, ?_, hn', fun h => by cases h⟩
      · rw [List.append_assoc, List.singleton_append]
        exact hl
      · show p :: post ++ pre ++ [n] = _
        rw [List.append_assoc]
    | nil =>
      refine ⟨[], pre ++ [n], hl, (List.append_nil _).symm, ?_, fun h => by simp at h⟩
      rw [hn', List.head?_nil, Option.none_or]

/-! ## Runs -/

theorem Reads.step (h : Reads s q) {op : Op Nat} (hop : s.Legal op) :
    Reads (s.step op) (op.next q) ∧ op.Legal q := by
  cases op with
  | insert e =>
    have he : e ∉ q := fun hm => hop (h.mem_iff.2 hm)
    exact ⟨h.insertReady he, he⟩
  | remove e =>
    have he : e ∈ q := h.mem_iff.1 hop
    exact ⟨h.removeReady he, he⟩
  | dispatch => exact ⟨h.fosScheduler.1, trivial⟩

/-- A legal run of the kernel is a legal run of the queue, with the same environments served. -/
theorem Reads.run (h : Reads s q) {ops : List (Op Nat)} (hops : LegalRun ops s) :
    Reads (runOps ops s) (RoundRobin.run ops q) ∧ RoundRobin.Legal ops q ∧
      dispatched ops s = served ops q := by
  induction ops generalizing s q with
  | nil => exact ⟨h, trivial, rfl⟩
  | cons op ops ih =>
    obtain ⟨hstep, hlegal⟩ := h.step hops.1
    obtain ⟨h1, h2, h3⟩ := ih hstep hops.2
    refine ⟨h1, ⟨hlegal, h2⟩, ?_⟩
    cases op with
    | insert e => exact h3
    | remove e => exact h3
    | dispatch =>
      show s.fosScheduler.curenv :: dispatched ops s.fosScheduler = _
      rw [h.fosScheduler.2]
      exact congrArg _ h3

/-- Between two consecutive dispatches of `x`, with no insertion, every other environment that
stays in the ready queue is dispatched exactly once. -/
def Fair (s : Sched) : Prop := ∀ (x y : Nat) (mid : List (Op Nat)),
  LegalRun mid s.fosScheduler → (∀ op ∈ mid, ∀ e, op ≠ .insert e) →
  s.fosScheduler.curenv = some x → some x ∉ dispatched mid s.fosScheduler →
  (runOps mid s.fosScheduler).fosScheduler.curenv = some x →
  y ∈ s.readyList → y ≠ x → .remove y ∉ mid →
  (dispatched mid s.fosScheduler).count (some y) = 1

theorem Reads.fair (h : Reads s q) : s.Fair := by
  intro x y mid hmid hins hx hnot hlast hy hyx hstay
  obtain ⟨hd, hcur⟩ := h.fosScheduler
  rw [hcur] at hx
  obtain ⟨q, rfl⟩ := List.head?_eq_some_iff.1 hx
  obtain ⟨hend, hlegal, hserved⟩ := hd.run hmid
  rw [hserved] at hnot ⊢
  rw [hend.fosScheduler.2] at hlast
  have hyq : y ∈ q := (List.mem_cons.1 (h.mem_iff.1 hy)).resolve_left hyx
  exact RoundRobin.served_once h.nodup hlegal hins hnot hlast hyq hstay

/-- What round-robin scheduling promises about the state after the calls `ops`, which take the
queue to `q`. -/
structure RoundRobinOk (s : Sched) (q : List Nat) : Prop where
  /-- Read cyclically from `sched_next` the ready queue is the abstract queue. -/
  reads : s.readCyclic = q
  /-- A dispatch runs its first element. -/
  runs : s.fosScheduler.curenv = q.head?
  /-- `sched_next` is `NULL` exactly when the ready queue is empty, and points into it otherwise. -/
  next_none : s.schedNext = none ↔ s.readyList = []
  next_mem : ∀ e, s.schedNext = some e → e ∈ s.readyList
  fair : s.Fair

theorem Reads.ok (h : Reads s q) : RoundRobinOk s q := by
  refine ⟨h.readCyclic, h.fosScheduler.2, ?_, ?_, h.fair⟩
  · rw [h.schedNext, List.head?_eq_none_iff, List.eq_nil_iff_forall_not_mem,
      List.eq_nil_iff_forall_not_mem]
    simp only [h.mem_iff]
  · intro e he
    rw [h.schedNext] at he
    exact h.mem_iff.2 (List.mem_of_head? he)

theorem reads_boot (links : Links Nat) (n : Nat) : Reads (bootSched links n) [] :=
  ⟨[], [], isList_init links, rfl, rfl, fun _ => rfl⟩

end

end Sched

/-- **The ready queue is a round robin.** After any calls of `sched_insert_ready`,
`sched_remove_ready` and `fos_scheduler`, the ready queue read cyclically from `sched_next` is the
queue in which insertions append at the back, removals delete their element, and a dispatch runs
the first element and moves it to the back; so the dispatches are fair. -/
theorem roundRobin_refines {links : Links Nat} {n : Nat} {ops : List (Op Nat)}
    (h : Sched.LegalRun ops (bootSched links n)) :
    Sched.RoundRobinOk (Sched.runOps ops (bootSched links n)) (RoundRobin.run ops []) :=
  ((Sched.reads_boot links n).run h).1.ok

theorem roundRobin_refines_three :
    Sched.RoundRobinOk
      (Sched.runOps [.insert 3, .insert 5, .dispatch] (bootSched ⟨fun _ => none, fun _ => none⟩ 1))
      [5, 3] :=
  have hrun : Sched.LegalRun [.insert 3, .insert 5, .dispatch]
      (bootSched ⟨fun _ => none, fun _ => none⟩ 1) := ⟨by decide, by decide, trivial, trivial⟩
  roundRobin_refines hrun

end Fos
