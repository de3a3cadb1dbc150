import Fos.Queue
import Mathlib.Data.Fintype.Card
import Mathlib.Data.List.InsertIdx

/-!
# Lists as sequences

Several list heads share the links of one kind of element. Every run of the `LIST_` macros that
inserts only elements of no list, and names only elements of the list at hand, does to the sequences
behind the heads what the corresponding sequence operations do.
-/

namespace Fos

/-- The heads, their `___ptr_next` and the links of the elements. -/
structure Lists (ι α : Type) where
  links : Links α
  head : ι → ListHead α
  ptrNext : ι → Option α

/-- One use of a macro on the list `i`. -/
inductive ListOp (ι α : Type)
  | init (i : ι)
  | insertHead (i : ι) (elm : α)
  | insertTail (i : ι) (elm : α)
  | insertBefore (i : ι) (listelm elm : α)
  | insertAfter (i : ι) (listelm elm : α)
  | remove (i : ι) (elm : α)
  /-- `(head)->___ptr_next = v`, as the header of `LIST_FOREACH` assigns it -/
  | savePtrNext (i : ι) (v : Option α)

/-- The sequence behind each head, once the head was initialised. -/
abbrev Sequences (ι α : Type) := ι → Option (List α)

variable {ι α : Type} [DecidableEq ι] [DecidableEq α]

/-! ## What a macro does to the heads and to the sequences -/

def Lists.set (m : Lists ι α) (i : ι) (r : Links α × ListHead α) : Lists ι α :=
  { m with links := r.1, head := Function.update m.head i r.2 }

def ListOp.run : ListOp ι α → Lists ι α → Lists ι α
  | .init i, m => m.set i (m.links, listInit)
  | .insertHead i elm, m => m.set i (listInsertHead m.links (m.head i) elm)
  | .insertTail i elm, m => m.set i (listInsertTail m.links (m.head i) elm)
  | .insertBefore i listelm elm, m => m.set i (listInsertBefore m.links (m.head i) listelm elm)
  | .insertAfter i listelm elm, m => m.set i (listInsertAfter m.links (m.head i) listelm elm)
  | .remove i elm, m => m.set i (listRemove m.links (m.head i) elm)
  | .savePtrNext i v, m => { m with ptrNext := Function.update m.ptrNext i v }

def ListOp.apply : ListOp ι α → Sequences ι α → Sequences ι α
  | .init i, s => Function.update s i (some [])
  | .insertHead i elm, s => Function.update s i ((s i).map fun xs => elm :: xs)
  | .insertTail i elm, s => Function.update s i ((s i).map fun xs => xs ++ [elm])
  | .insertBefore i listelm elm, s =>
    Function.update s i ((s i).map fun xs => xs.insertIdx (xs.idxOf listelm) elm)
  | .insertAfter i listelm elm, s =>
    Function.update s i ((s i).map fun xs => xs.insertIdx (xs.idxOf listelm + 1) elm)
  | .remove i elm, s => Function.update s i ((s i).map fun xs => xs.erase elm)
  | .savePtrNext _ _, s => s

def runOps (ops : List (ListOp ι α)) (m : Lists ι α) : Lists ι α :=
  ops.foldl (fun m op => op.run m) m

def applyOps (ops : List (ListOp ι α)) (s : Sequences ι α) : Sequences ι α :=
  ops.foldl (fun s op => op.apply s) s

/-! ## What a macro needs -/

/-- `x` is in no list. -/
def Sequences.Unlisted (s : Sequences ι α) (x : α) : Prop := ∀ i, ∀ xs ∈ s i, x ∉ xs

/-- `x` is in the list `i`. -/
def Sequences.Listed (s : Sequences ι α) (i : ι) (x : α) : Prop := ∃ xs ∈ s i, x ∈ xs

/-- The element named is in the list and the element inserted is in none. -/
def ListOp.Allowed : ListOp ι α → Sequences ι α → Prop
  | .init _, _ => True
  | .insertHead i elm, s => s i ≠ none ∧ s.Unlisted elm
  | .insertTail i elm, s => s i ≠ none ∧ s.Unlisted elm
  | .insertBefore i listelm elm, s => s.Listed i listelm ∧ s.Unlisted elm
  | .insertAfter i listelm elm, s => s.Listed i listelm ∧ s.Unlisted elm
  | .remove i elm, s => s.Listed i elm
  | .savePtrNext _ _, _ => True

/-- Every macro of a run gets what it needs. -/
def AllowedOps : List (ListOp ι α) → Sequences ι α → Prop
  | [], _ => True
  | op :: ops, s => op.Allowed s ∧ AllowedOps ops (op.apply s)

/-! ## The heads stand for the sequences -/

/-- Every initialised head stands for its sequence, and no element is in two lists. -/
structure Represents (m : Lists ι α) (s : Sequences ι α) : Prop where
  list : ∀ {i xs}, s i = some xs → IsList m.links (m.head i) xs
  apart : ∀ {i j xs ys}, i ≠ j → s i = some xs → s j = some ys → xs.Disjoint ys

omit [DecidableEq ι] [DecidableEq α] in
theorem represents_none (m : Lists ι α) : Represents m fun _ => none :=
  ⟨fun h => (nomatch h), fun _ h => (nomatch h)⟩

section

variable {m : Lists ι α} {s : Sequences ι α} {i : ι} {xs ys zs : List α} {x y : α}

omit [DecidableEq α] in
/-- One head and the links of the elements `zs` change; `zs` are elements of that list, or of
none. -/
theorem Represents.set (h : Represents m s) {r : Links α × ListHead α} (hi : ∀ a ∈ zs,
    s.Listed i a ∨ s.Unlisted a) (hs : SameOutside zs m.links r.1) (hl : IsList r.1 r.2 ys)
    (hys : ys ⊆ zs) : Represents (m.set i r) (Function.update s i (some ys)) := by
  -- the other lists have no element of `zs`
  have hout : ∀ {j ws}, j ≠ i → s j = some ws → ws.Disjoint zs := by
    intro j ws hj hw a ha hz
    rcases hi a hz with ⟨xs, hx, hax⟩ | hun
    · exact h.apart hj hw hx ha hax
    · exact hun j ws hw ha
  constructor
  · intro j ws hw
    by_cases hj : j = i
    · subst hj
      rw [Function.update_self, Option.some_inj] at hw
      subst hw
      simpa [Lists.set] using hl
    · rw [Function.update_of_ne hj] at hw
      have hkeep : IsList r.1 (m.head j) ws := (h.list hw).frame hs (hout hj hw)
      simpa [Lists.set, Function.update_of_ne hj] using hkeep
  · intro j k vs ws hjk hv hw
    by_cases hj : j = i
    · subst hj
      rw [Function.update_self, Option.some_inj] at hv
      subst hv
      rw [Function.update_of_ne (Ne.symm hjk)] at hw
      exact fun a ha hb => hout (Ne.symm hjk) hw hb (hys ha)
    · rw [Function.update_of_ne hj] at hv
      by_cases hk : k = i
      · subst hk
        rw [Function.update_self, Option.some_inj] at hw
        subst hw
        exact fun a ha hb => hout hj hv ha (hys hb)
      · rw [Function.update_of_ne hk] at hw
        exact h.apart hjk hv hw

omit [DecidableEq ι] [DecidableEq α] in
theorem Sequences.Unlisted.notMem (hx : s.Unlisted x) (hi : s i = some xs) : x ∉ xs :=
  hx i xs hi

omit [DecidableEq ι] [DecidableEq α] in
/-- The elements of the list, and one that is in none. -/
theorem Sequences.Unlisted.cons (hx : s.Unlisted x) (hi : s i = some xs) :
    ∀ a ∈ x :: xs, s.Listed i a ∨ s.Unlisted a := by
  intro a ha
  rcases List.mem_cons.1 ha with rfl | ha
  · exact .inr hx
  · exact .inl ⟨xs, hi, ha⟩

omit [DecidableEq ι] [DecidableEq α] in
theorem insertIdx_append (pre xs : List α) (n : Nat) (x : α) :
    (pre ++ xs).insertIdx (pre.length + n) x = pre ++ xs.insertIdx n x := by
  induction pre with
  | nil => simp
  | cons y pre ih =>
    rw [List.length_cons, Nat.succ_add, List.cons_append, List.insertIdx_succ_cons, ih,
      List.cons_append]

/-- Where an element of a list stands. -/
theorem IsList.idxOf_eq {l : Links α} {hd : ListHead α} {pre post : List α}
    (h : IsList l hd (pre ++ x :: post)) : (pre ++ x :: post).idxOf x = pre.length := by
  have hx : x ∉ pre := fun hm => h.split.2.2.2.2.2 x hm List.mem_cons_self
  rw [List.idxOf_append_of_notMem hx, List.idxOf_cons_self, Nat.add_zero]

omit [DecidableEq α] in
theorem Represents.savePtrNext (h : Represents m s) {v : Option α} :
    Represents { m with ptrNext := Function.update m.ptrNext i v } s :=
  ⟨h.list, h.apart⟩

/-- One macro. -/
theorem Represents.step (h : Represents m s) {op : ListOp ι α} (hop : op.Allowed s) :
    Represents (op.run m) (op.apply s) := by
  cases op with
  | init i =>
    have hs : SameOutside [] m.links (m.links, (listInit : ListHead α)).1 := fun _ _ => ⟨rfl, rfl⟩
    exact h.set (by simp) hs (isList_init _) (List.Subset.refl _)
  | insertHead i elm =>
    obtain ⟨hi, hun⟩ := hop
    obtain ⟨xs, hi⟩ := Option.ne_none_iff_exists'.1 hi
    have hl := h.list hi
    rw [ListOp.apply, hi, Option.map_some]
    exact h.set (hun.cons hi) hl.insertHead_frame (hl.insertHead (hun.notMem hi))
      (List.Subset.refl _)
  | insertTail i elm =>
    obtain ⟨hi, hun⟩ := hop
    obtain ⟨xs, hi⟩ := Option.ne_none_iff_exists'.1 hi
    have hl := h.list hi
    rw [ListOp.apply, hi, Option.map_some]
    exact h.set (hun.cons hi) hl.insertTail_frame (hl.insertTail (hun.notMem hi)) (by simp)
  | insertBefore i listelm elm =>
    obtain ⟨⟨xs, hi, hmem⟩, hun⟩ := hop
    obtain ⟨pre, post, rfl⟩ := List.append_of_mem hmem
    have hl := h.list hi
    have hnot := hun.notMem hi
    -- what is inserted is in no list, so it is not its own neighbour
    have hne : elm ≠ listelm := by
      rintro rfl
      exact hnot hmem
    have hseq : (pre ++ listelm :: post).insertIdx pre.length elm =
        pre ++ elm :: listelm :: post := by
      simpa using insertIdx_append pre (listelm :: post) 0 elm
    rw [ListOp.apply, Option.mem_def.1 hi, Option.map_some, hl.idxOf_eq, hseq]
    exact h.set (hun.cons hi) (hl.insertBefore_frame hne) (hl.insertBefore hnot) (by simp)
  | insertAfter i listelm elm =>
    obtain ⟨⟨xs, hi, hmem⟩, hun⟩ := hop
    obtain ⟨pre, post, rfl⟩ := List.append_of_mem hmem
    have hl := h.list hi
    have hnot := hun.notMem hi
    have hne : elm ≠ listelm := by
      rintro rfl
      exact hnot hmem
    have hseq : (pre ++ listelm :: post).insertIdx (pre.length + 1) elm =
        pre ++ listelm :: elm :: post := by
      simpa using insertIdx_append pre (listelm :: post) 1 elm
    rw [ListOp.apply, Option.mem_def.1 hi, Option.map_some, hl.idxOf_eq, hseq]
    refine h.set (hun.cons hi) (hl.insertAfter_frame hne) (hl.insertAfter hnot) fun a ha => ?_
    simp only [List.mem_append, List.mem_cons] at ha ⊢
    tauto
  | remove i elm =>
    obtain ⟨xs, hi, hmem⟩ := hop
    obtain ⟨pre, post, rfl⟩ := List.append_of_mem hmem
    have hl := h.list hi
    -- `erase` removes the occurrence that the links name
    have hpre : elm ∉ pre := fun hm => hl.split.2.2.2.2.2 elm hm List.mem_cons_self
    rw [ListOp.apply, Option.mem_def.1 hi, Option.map_some, List.erase_append_right _ hpre,
      List.erase_cons_head]
    exact h.set (fun a ha => .inl ⟨_, hi, ha⟩) hl.remove_frame hl.remove (by simp)
  | savePtrNext i v => exact h.savePtrNext

/-- A run of macros. -/
theorem Represents.run (h : Represents m s) {ops : List (ListOp ι α)} (hops : AllowedOps ops s) :
    Represents (runOps ops m) (applyOps ops s) := by
  induction ops generalizing m s with
  | nil => exact h
  | cons op ops ih => exact ih (h.step hops.1) hops.2

end

/-! ## Reading a list -/

/-- The elements from `elm` along `link` to the null pointer, at most `n` of them. -/
def readList (link : α → Option α) : Nat → Option α → Option (List α)
  | _, none => some []
  | 0, some _ => none
  | n + 1, some x => (readList link n (link x)).map fun xs => x :: xs

section

variable {l : Links α} {hd : ListHead α} {p q : Option α} {xs : List α} {n : Nat}

omit [DecidableEq α] in
theorem Seg.readNext (h : Seg l p xs none) (hn : xs.length ≤ n) :
    readList l.next n xs.head? = some xs := by
  induction xs generalizing p n with
  | nil => cases n <;> rfl
  | cons x xs ih =>
    obtain ⟨-, hnext, hrest⟩ := h
    cases n with
    | zero => cases hn
    | succ n =>
      rw [Option.or_none] at hnext
      rw [List.head?_cons, readList, hnext, ih hrest (Nat.le_of_succ_le_succ hn), Option.map_some]

omit [DecidableEq α] in
theorem Seg.readPrev (h : Seg l none xs q) (hn : xs.length ≤ n) :
    readList l.prev n xs.getLast? = some xs.reverse := by
  -- from the last element
  induction xs using List.reverseRecOn generalizing q n with
  | nil => cases n <;> rfl
  | append_singleton xs x ih =>
    obtain ⟨hrest, hprev, -⟩ := seg_append.1 h
    rw [List.length_append, List.length_singleton] at hn
    cases n with
    | zero => cases hn
    | succ n =>
      rw [Option.or_none] at hprev
      rw [List.getLast?_concat, readList, hprev, ih hrest (Nat.le_of_succ_le_succ hn),
        Option.map_some, List.reverse_append, List.reverse_singleton, List.singleton_append]

omit [DecidableEq α] in
/-- On a machine with less than 2³² addresses the 32-bit `size` never wraps. -/
theorem IsList.size_lt [Fintype α] (h : IsList l hd xs) (hα : Fintype.card α < 4294967296) :
    hd.size < 4294967296 := by
  rw [h.size]
  exact lt_of_le_of_lt h.nodup.length_le_card hα

end

end Fos
