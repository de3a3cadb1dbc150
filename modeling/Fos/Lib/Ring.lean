import Mathlib.Data.List.Basic
import Mathlib.Logic.Function.Basic
import Mathlib.Tactic.Common

/-!
# Circular buffers

A buffer of `cap` cells with an index to read from and one to write to. It is empty where they are
equal, so that it never shows `cap` elements: the one that would fill it makes it look empty.
-/

namespace Ring

open Function (update)

variable {α : Type}

structure Buffer (α : Type) where
  buf : Nat → α
  rpos : Nat
  wpos : Nat

/-- The index after `i`. -/
def next (cap i : Nat) : Nat := if i + 1 = cap then 0 else i + 1

def push (cap : Nat) (a : α) (r : Buffer α) : Buffer α :=
  { r with buf := update r.buf r.wpos a, wpos := next cap r.wpos }

def pop (cap : Nat) (r : Buffer α) : Option α × Buffer α :=
  if r.rpos ≠ r.wpos then (some (r.buf r.rpos), { r with rpos := next cap r.rpos }) else (none, r)

/-- The indices are in the buffer. -/
structure WF (cap : Nat) (r : Buffer α) : Prop where
  rpos : r.rpos < cap
  wpos : r.wpos < cap

/-- `n` cells from `i` on, round the end. -/
def cells (cap : Nat) (b : Nat → α) : Nat → Nat → List α
  | _, 0 => []
  | i, n + 1 => b i :: cells cap b (next cap i) n

/-- The number of elements that wait. -/
def length (cap : Nat) (r : Buffer α) : Nat :=
  if r.rpos ≤ r.wpos then r.wpos - r.rpos else r.wpos + cap - r.rpos

/-- What waits, the oldest first. -/
def contents (cap : Nat) (r : Buffer α) : List α := cells cap r.buf r.rpos (length cap r)

section

variable {cap i n : Nat} {a : α} {b : Nat → α} {r : Buffer α}

theorem next_lt (h : i < cap) : next cap i < cap := by
  unfold next
  split <;> omega

theorem length_cells : (cells cap b i n).length = n := by
  induction n generalizing i with
  | zero => rfl
  | succ n ih => rw [cells, List.length_cons, ih]

theorem length_contents : (contents cap r).length = length cap r := length_cells

theorem WF.length_lt (h : WF cap r) : length cap r < cap := by
  have hr := h.rpos
  have hw := h.wpos
  unfold length
  split <;> omega

/-- A cell is written `n` places after `i`, before the read index comes round. -/
theorem cells_update {j : Nat} (hi : i < cap) (hn : n < cap)
    (hj : j = if i + n < cap then i + n else i + n - cap) :
    cells cap (update b j a) i n = cells cap b i n := by
  induction n generalizing i with
  | zero => rfl
  | succ n ih =>
    have hne : i ≠ j := by
      subst hj
      split <;> omega
    have hstep : j = if next cap i + n < cap then next cap i + n else next cap i + n - cap := by
      subst hj
      unfold next
      split <;> split <;> split <;> omega
    rw [cells, cells, Function.update_of_ne hne, ih (next_lt hi) (by omega) hstep]

theorem cells_concat {j : Nat} (hi : i < cap) (hn : n < cap)
    (hj : j = if i + n < cap then i + n else i + n - cap) :
    cells cap b i (n + 1) = cells cap b i n ++ [b j] := by
  induction n generalizing i with
  | zero =>
    rw [Nat.add_zero, if_pos hi] at hj
    rw [hj]
    rfl
  | succ n ih =>
    have hstep : j = if next cap i + n < cap then next cap i + n else next cap i + n - cap := by
      subst hj
      unfold next
      split <;> split <;> split <;> omega
    rw [cells, ih (next_lt hi) (by omega) hstep, cells, List.cons_append]

theorem WF.push (h : WF cap r) : WF cap (Ring.push cap a r) := ⟨h.rpos, next_lt h.wpos⟩

theorem WF.pop (h : WF cap r) : WF cap (Ring.pop cap r).2 := by
  unfold Ring.pop
  split
  · exact ⟨next_lt h.rpos, h.wpos⟩
  · exact h

/-- The write index is as many places after the read index as there are elements. -/
theorem WF.wpos_eq (h : WF cap r) : r.wpos =
    if r.rpos + length cap r < cap then r.rpos + length cap r else r.rpos + length cap r - cap := by
  have hr := h.rpos
  have hw := h.wpos
  unfold length
  split <;> split <;> omega

/-- An element is appended; the one that fills the buffer takes everything away. -/
theorem WF.contents_push (h : WF cap r) : contents cap (Ring.push cap a r) =
    if (contents cap r).length + 1 = cap then [] else contents cap r ++ [a] := by
  have hlt := h.length_lt
  have hr := h.rpos
  have hw := h.wpos
  have hpos := h.wpos_eq
  rw [length_contents]
  split
  · rename_i hfull
    have hzero : length cap (Ring.push cap a r) = 0 := by
      simp only [length, Ring.push, next] at hfull ⊢
      split at hfull <;> split <;> split <;> omega
    unfold contents
    rw [hzero]
    rfl
  · rename_i hfull
    have hsucc : length cap (Ring.push cap a r) = length cap r + 1 := by
      simp only [length, Ring.push, next] at hfull ⊢
      split at hfull <;> split <;> split <;> omega
    unfold contents
    rw [hsucc]
    show cells cap (update r.buf r.wpos a) r.rpos (length cap r + 1) = _
    rw [cells_concat hr hlt hpos, cells_update hr hlt hpos, Function.update_self]

/-- The oldest element is read. -/
theorem WF.contents_pop (h : WF cap r) :
    (Ring.pop cap r).1 = (contents cap r).head? ∧
      contents cap (Ring.pop cap r).2 = (contents cap r).tail := by
  have hr := h.rpos
  have hw := h.wpos
  by_cases hne : r.rpos = r.wpos
  · -- nothing to read
    have hzero : length cap r = 0 := by
      unfold length
      rw [if_pos (by omega)]
      omega
    have hempty : contents cap r = [] := by
      unfold contents
      rw [hzero]
      rfl
    rw [Ring.pop, if_neg (not_not.2 hne)]
    exact ⟨by rw [hempty, List.head?_nil], by rw [hempty, List.tail_nil]⟩
  · -- one cell less, wherever the indices wrap
    have hsucc : length cap r = length cap (Ring.pop cap r).2 + 1 := by
      rw [Ring.pop, if_pos hne]
      simp only [length, next]
      split <;> split <;> split <;> omega
    have hcons : contents cap r =
        r.buf r.rpos :: cells cap r.buf (next cap r.rpos) (length cap (Ring.pop cap r).2) := by
      unfold contents
      rw [hsucc]
      rfl
    rw [hcons]
    unfold contents
    rw [Ring.pop, if_pos hne]
    exact ⟨rfl, rfl⟩

end

/-! ## Several elements -/

/-- Elements are pushed one after the other. -/
def pushAll (cap : Nat) (l : List α) (r : Buffer α) : Buffer α :=
  l.foldl (fun r a => push cap a r) r

/-- What is left of the elements that came in: whenever `cap` wait, all of them are gone. -/
def wrap (cap : Nat) (l : List α) : List α := l.drop (cap * (l.length / cap))

section

variable {cap : Nat} {a : α} {l : List α} {r : Buffer α}

theorem pushAll_append (l l' : List α) (r : Buffer α) :
    pushAll cap (l ++ l') r = pushAll cap l' (pushAll cap l r) := List.foldl_append

theorem WF.pushAll (h : WF cap r) : WF cap (Ring.pushAll cap l r) := by
  induction l generalizing r with
  | nil => exact h
  | cons a l ih => exact ih h.push

theorem wrap_of_lt (h : l.length < cap) : wrap cap l = l := by
  unfold wrap
  rw [Nat.div_eq_of_lt h, Nat.mul_zero, List.drop_zero]

theorem length_wrap (cap : Nat) (l : List α) :
    (wrap cap l).length + cap * (l.length / cap) = l.length := by
  have hle := Nat.mul_div_le l.length cap
  rw [wrap, List.length_drop]
  omega

/-- Whatever is pushed, the elements that wait are those after the last full buffer. -/
theorem WF.contents_pushAll (h : WF cap r) :
    contents cap (Ring.pushAll cap l r) = wrap cap (contents cap r ++ l) := by
  have hcap : 0 < cap := Nat.zero_lt_of_lt h.rpos
  induction l generalizing r with
  | nil =>
    rw [List.append_nil, wrap_of_lt (by rw [length_contents]; exact h.length_lt)]
    rfl
  | cons a l ih =>
    show contents cap (Ring.pushAll cap l (Ring.push cap a r)) = _
    rw [ih h.push, h.contents_push]
    split
    · -- `a` fills the buffer
      rename_i hfull
      have hdrop : (contents cap r ++ a :: l).drop cap = l := by
        rw [List.append_cons]
        exact List.drop_left' (by rw [List.length_append, List.length_singleton, hfull])
      have hlength : (contents cap r ++ a :: l).length = l.length + cap := by
        rw [List.length_append, List.length_cons]
        omega
      unfold wrap
      rw [List.nil_append, hlength, Nat.add_div_right _ hcap, Nat.mul_succ, Nat.add_comm,
        ← List.drop_drop, hdrop]
    · rw [← List.append_cons]

end

end Ring
