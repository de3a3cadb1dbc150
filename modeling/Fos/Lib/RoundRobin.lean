import Mathlib.Data.List.Nodup

/-!
# Round robin

A queue whose first element is served and goes to the back. Between two services of one element,
when nothing enters the queue, every other element that stays is served exactly once.
-/

namespace RoundRobin

variable {α : Type} [DecidableEq α]

/-- What can happen to the queue. -/
inductive Op (α : Type)
  | insert (a : α)
  | remove (a : α)
  | dispatch
  deriving DecidableEq

/-- The queue after an operation. -/
def Op.next : Op α → List α → List α
  | .insert a, q => q ++ [a]
  | .remove a, q => q.erase a
  | .dispatch, q => q.tail ++ q.head?.toList

/-- The element that enters is new, the one that leaves is there. -/
def Op.Legal : Op α → List α → Prop
  | .insert a, q => a ∉ q
  | .remove a, q => a ∈ q
  | .dispatch, _ => True

/-- The queue after a sequence of operations. -/
def run : List (Op α) → List α → List α
  | [], q => q
  | op :: ops, q => run ops (op.next q)

/-- What the dispatches of a sequence serve. -/
def served : List (Op α) → List α → List (Option α)
  | [], _ => []
  | .dispatch :: ops, q => q.head? :: served ops (Op.dispatch.next q)
  | op :: ops, q => served ops (op.next q)

/-- Every operation of the sequence is legal when its turn comes. -/
def Legal : List (Op α) → List α → Prop
  | [], _ => True
  | op :: ops, q => op.Legal q ∧ Legal ops (op.next q)

@[simp] theorem next_dispatch_cons (a : α) (q : List α) :
    Op.dispatch.next (a :: q) = q ++ [a] := rfl

theorem Op.Legal.nodup {op : Op α} {q : List α} (h : op.Legal q) (hq : q.Nodup) :
    (op.next q).Nodup := by
  cases op with
  | insert a =>
    refine List.nodup_append.2 ⟨hq, List.nodup_singleton a, ?_⟩
    rintro b hb c hc rfl
    rw [List.mem_singleton.1 hc] at hb
    exact h hb
  | remove a => exact hq.erase a
  | dispatch =>
    cases q with
    | nil => exact hq
    | cons a q =>
      have := List.nodup_cons.1 hq
      refine List.nodup_append.2 ⟨this.2, List.nodup_singleton a, ?_⟩
      rintro b hb c hc rfl
      rw [List.mem_singleton.1 hc] at hb
      exact this.1 hb

/-- `y` waits in front of `x` and was not served, or behind it and was served once. -/
structure Turn (x y : α) (q : List α) (n : ℕ) : Prop where
  nodup : q.Nodup
  place : ∃ front back, q = front ++ x :: back ∧ (y ∈ front ∧ n = 0 ∨ y ∈ back ∧ n = 1)

/-- An operation other than an insertion, a removal of `x` or `y` and a service of `x`. -/
theorem Turn.next {x y : α} {q : List α} {n : ℕ} (h : Turn x y q n) (hxy : y ≠ x) {op : Op α}
    (hins : ∀ a, op ≠ .insert a) (hx : op ≠ .remove x) (hy : op ≠ .remove y)
    (hd : op = .dispatch → q.head? ≠ some x) :
    Turn x y (op.next q)
      (n + if op = .dispatch ∧ q.head? = some y then 1 else 0) := by
  obtain ⟨hnd, front, back, rfl, hplace⟩ := h
  cases op with
  | insert a => exact absurd rfl (hins a)
  | remove a =>
    have hax : a ≠ x := fun he => hx (by rw [he])
    have hay : a ≠ y := fun he => hy (by rw [he])
    refine ⟨hnd.erase a, ?_⟩
    rw [if_neg (by simp), Nat.add_zero]
    by_cases ha : a ∈ front
    · refine ⟨front.erase a, back, List.erase_append_left _ ha, ?_⟩
      exact hplace.imp (fun h => ⟨(List.mem_erase_of_ne hay.symm).2 h.1, h.2⟩) id
    · refine ⟨front, back.erase a, ?_, ?_⟩
      · show (front ++ x :: back).erase a = _
        rw [List.erase_append_right _ ha, List.erase_cons_tail (by simpa using hax.symm)]
      · exact hplace.imp id fun h => ⟨(List.mem_erase_of_ne hay.symm).2 h.1, h.2⟩
  | dispatch =>
    cases front with
    | nil => exact absurd rfl (hd rfl)
    | cons a front =>
      -- the first element moves behind `x`
      have hnd' : (Op.dispatch.next (a :: front ++ x :: back)).Nodup :=
        Op.Legal.nodup (show Op.dispatch.Legal _ from trivial) hnd
      refine ⟨hnd', front, back ++ [a], ?_, ?_⟩
      · show front ++ x :: back ++ [a] = _
        rw [List.append_assoc, List.cons_append]
      · rw [List.cons_append, List.head?_cons]
        by_cases hay : a = y
        · subst hay
          have hn : n = 0 := by
            rcases hplace with ⟨-, h⟩ | ⟨hmem, -⟩
            · exact h
            · simp only [List.cons_append, List.nodup_cons, List.mem_append, List.mem_cons] at hnd
              exact absurd (.inr (.inr hmem)) hnd.1
          exact .inr ⟨by simp, by simp [hn]⟩
        · rw [if_neg (by simpa using hay), Nat.add_zero]
          rcases hplace with ⟨hmem, hn⟩ | ⟨hmem, hn⟩
          · refine .inl ⟨?_, hn⟩
            exact (List.mem_cons.1 hmem).resolve_left fun he => hay he.symm
          · exact .inr ⟨List.mem_append_left _ hmem, hn⟩

theorem served_cons_count (op : Op α) (ops : List (Op α)) (q : List α) (y : α) :
    (served (op :: ops) q).count (some y) =
      (served ops (op.next q)).count (some y) +
        if op = .dispatch ∧ q.head? = some y then 1 else 0 := by
  cases op with
  | insert a => simp [served]
  | remove a => simp [served]
  | dispatch => simp [served, List.count_cons]

/-- The turns are kept along a sequence that serves `x` nowhere. -/
theorem Turn.run {x y : α} {ops : List (Op α)} {q : List α} {n : ℕ} (h : Turn x y q n)
    (hxy : y ≠ x) (hins : ∀ op ∈ ops, ∀ a, op ≠ .insert a) (hx : .remove x ∉ ops)
    (hy : .remove y ∉ ops) (hnot : some x ∉ served ops q) :
    Turn x y (RoundRobin.run ops q) (n + (served ops q).count (some y)) := by
  induction ops generalizing q n with
  | nil => exact h
  | cons op ops ih =>
    rw [List.mem_cons, not_or] at hx hy
    have hstep := h.next hxy (hins op List.mem_cons_self) (Ne.symm hx.1) (Ne.symm hy.1) (by
      rintro rfl he
      exact hnot (by rw [served, he]; exact List.mem_cons_self))
    have hnot' : some x ∉ served ops (op.next q) := by
      cases op with
      | insert a => exact hnot
      | remove a => exact hnot
      | dispatch => exact fun hm => hnot (List.mem_cons_of_mem _ hm)
    have := ih hstep (fun op hop => hins op (.tail _ hop)) hx.2 hy.2 hnot'
    rw [served_cons_count, Nat.add_comm (List.count _ _), ← Nat.add_assoc]
    exact this

/-- **Fairness.** `x` is served first and, after the operations `ops`, again. When nothing enters
in between and `y` does not leave, `y` is served exactly once in between. -/
theorem served_once {x y : α} {ops : List (Op α)} {q : List α} (hnd : (x :: q).Nodup)
    (hlegal : Legal ops (Op.dispatch.next (x :: q)))
    (hins : ∀ op ∈ ops, ∀ a, op ≠ .insert a) (hnot : some x ∉ served ops (q ++ [x]))
    (hlast : (RoundRobin.run ops (q ++ [x])).head? = some x) (hy : y ∈ q)
    (hstay : .remove y ∉ ops) : (served ops (q ++ [x])).count (some y) = 1 := by
  have hxy : y ≠ x := by
    rintro rfl
    exact (List.nodup_cons.1 hnd).1 hy
  -- were `x` removed, it could not be there at the end
  have hx : ∀ (ops : List (Op α)) (q : List α), q.Nodup → Legal ops q →
      (∀ op ∈ ops, ∀ a, op ≠ .insert a) → (x ∉ q → x ∉ RoundRobin.run ops q) ∧
        (.remove x ∈ ops → x ∉ RoundRobin.run ops q) := by
    intro ops
    induction ops with
    | nil => exact fun q _ _ _ => ⟨id, fun h => by cases h⟩
    | cons op ops ih =>
      intro q hq hl hins
      have hsub : x ∉ q → x ∉ op.next q := by
        intro hxq
        cases op with
        | insert a => exact absurd rfl (hins _ List.mem_cons_self a)
        | remove a => exact fun h => hxq (List.mem_of_mem_erase h)
        | dispatch =>
          cases q with
          | nil => exact hxq
          | cons a q => simpa [or_comm] using hxq
      obtain ⟨h1, h2⟩ := ih (op.next q) (hl.1.nodup hq) hl.2 fun op hop => hins op (.tail _ hop)
      refine ⟨fun h => h1 (hsub h), fun h => ?_⟩
      rcases List.mem_cons.1 h with rfl | h
      · exact h1 fun hm => (hq.mem_erase_iff.1 hm).1 rfl
      · exact h2 h
  have hnd' : (q ++ [x]).Nodup :=
    Op.Legal.nodup (show Op.dispatch.Legal (x :: q) from trivial) hnd
  have hxops : .remove x ∉ ops := fun h =>
    (hx ops _ hnd' hlegal hins).2 h (List.mem_of_head? hlast)
  have hturn : Turn x y (q ++ [x]) 0 := ⟨hnd', q, [], rfl, .inl ⟨hy, rfl⟩⟩
  obtain ⟨hend, front, back, heq, hplace⟩ := hturn.run hxy hins hxops hstay hnot
  rw [heq] at hlast hend
  cases front with
  | nil =>
    rcases hplace with ⟨h, -⟩ | ⟨-, h⟩
    · cases h
    · rwa [Nat.zero_add] at h
  | cons a front =>
    have : a = x := by simpa using hlast
    subst this
    simp at hend

end RoundRobin
