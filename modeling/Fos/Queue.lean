import Mathlib.Data.List.Basic
import Mathlib.Logic.Function.Basic

/-!
# Linked lists

`inc/queue.h`: doubly linked lists with the links inside the elements. The first half is the
`LIST_` macros as they assign to `le_next`, `le_prev`, `lh_first`, `lh_last` and `size`; the second
half is what they do to the sequence of elements that a head stands for.
-/

namespace Fos

/-- The `prev_next_info` of every element. -/
structure Links (α : Type) where
  next : α → Option α
  prev : α → Option α

/-- `LIST_HEAD`. -/
structure ListHead (α : Type) where
  first : Option α
  last : Option α
  size : Nat

variable {α : Type} [DecidableEq α]

/-! ## The macros -/

/-- `LIST_NEXT(x) = v`, for an `x` that is not null. -/
def Links.setNext (l : Links α) (x v : Option α) : Links α :=
  match x with
  | none => l
  | some x => { l with next := Function.update l.next x v }

/-- `LIST_PREV(x) = v`, for an `x` that is not null. -/
def Links.setPrev (l : Links α) (x v : Option α) : Links α :=
  match x with
  | none => l
  | some x => { l with prev := Function.update l.prev x v }

/-- `LIST_INIT` -/
def listInit : ListHead α := ⟨none, none, 0⟩

/-- `LIST_INSERT_HEAD` -/
def listInsertHead (l : Links α) (hd : ListHead α) (elm : α) : Links α × ListHead α :=
  let l := l.setNext elm hd.first
  let l := l.setPrev hd.first elm
  let last := if hd.first = none then some elm else hd.last
  (l.setPrev elm none, ⟨some elm, last, hd.size + 1⟩)

/-- `LIST_INSERT_TAIL` -/
def listInsertTail (l : Links α) (hd : ListHead α) (elm : α) : Links α × ListHead α :=
  let l := l.setPrev elm hd.last
  let l := l.setNext hd.last elm
  let first := if hd.last = none then some elm else hd.first
  (l.setNext elm none, ⟨first, some elm, hd.size + 1⟩)

/-- `LIST_INSERT_BEFORE` -/
def listInsertBefore (l : Links α) (hd : ListHead α) (listelm elm : α) : Links α × ListHead α :=
  let l := l.setPrev elm (l.prev listelm)
  let l := l.setNext elm (some listelm)
  let first := if l.prev listelm = none then some elm else hd.first
  let l := l.setNext (l.prev listelm) elm
  (l.setPrev listelm elm, { hd with first := first, size := hd.size + 1 })

/-- `LIST_INSERT_AFTER` -/
def listInsertAfter (l : Links α) (hd : ListHead α) (listelm elm : α) : Links α × ListHead α :=
  let l := l.setNext elm (l.next listelm)
  let l := l.setPrev (l.next listelm) elm
  let l := l.setNext listelm elm
  let l := l.setPrev elm listelm
  let last := if l.next elm = none then some elm else hd.last
  (l, { hd with last := last, size := hd.size + 1 })

/-- `LIST_REMOVE` -/
def listRemove (l : Links α) (hd : ListHead α) (elm : α) : Links α × ListHead α :=
  let last := if l.next elm = none then l.prev elm else hd.last
  let l := l.setPrev (l.next elm) (l.prev elm)
  let first := if l.prev elm = none then l.next elm else hd.first
  let l := l.setNext (l.prev elm) (l.next elm)
  let l := l.setNext elm none
  (l.setPrev elm none, ⟨first, last, hd.size - 1⟩)

/-! ## Single assignments -/

section

variable {l l' : Links α} {x y v : Option α} {a : α}

theorem Links.setNext_next (h : x ≠ some a) : (l.setNext x v).next a = l.next a := by
  cases x with
  | none => rfl
  | some x => exact Function.update_of_ne (fun he => h (by rw [he])) _ _

theorem Links.setPrev_prev (h : x ≠ some a) : (l.setPrev x v).prev a = l.prev a := by
  cases x with
  | none => rfl
  | some x => exact Function.update_of_ne (fun he => h (by rw [he])) _ _

@[simp] theorem Links.setNext_next_self : (l.setNext (some a) v).next a = v :=
  Function.update_self _ _ _

@[simp] theorem Links.setPrev_prev_self : (l.setPrev (some a) v).prev a = v :=
  Function.update_self _ _ _

@[simp] theorem Links.setNext_prev : (l.setNext x v).prev a = l.prev a := by
  cases x <;> rfl

@[simp] theorem Links.setPrev_next : (l.setPrev x v).next a = l.next a := by
  cases x <;> rfl

end

/-! ## Segments -/

/-- The elements `xs` are linked in order, between `p` and `n`. -/
def Seg (l : Links α) : Option α → List α → Option α → Prop
  | _, [], _ => True
  | p, x :: xs, n => l.prev x = p ∧ l.next x = xs.head?.or n ∧ Seg l (some x) xs n

section

variable {l l' : Links α} {p n q : Option α} {xs ys : List α} {a : α}

omit [DecidableEq α] in
theorem seg_append :
    Seg l p (xs ++ ys) n ↔ Seg l p xs (ys.head?.or n) ∧ Seg l (xs.getLast?.or p) ys n := by
  induction xs generalizing p with
  | nil => simp [Seg]
  | cons x xs ih =>
    have hlast : (x :: xs).getLast?.or p = xs.getLast?.or (some x) := by
      rw [List.getLast?_cons]
      cases xs.getLast? <;> rfl
    rw [List.cons_append, Seg, Seg, ih, List.head?_append, Option.or_assoc, hlast]
    tauto

omit [DecidableEq α] in
/-- A segment reads only the links of its elements. -/
theorem Seg.congr (h : Seg l p xs n) (hl : ∀ x ∈ xs, l'.next x = l.next x ∧ l'.prev x = l.prev x) :
    Seg l' p xs n := by
  induction xs generalizing p with
  | nil => trivial
  | cons x xs ih =>
    obtain ⟨hprev, hnext, hrest⟩ := h
    obtain ⟨h1, h2⟩ := hl x List.mem_cons_self
    exact ⟨h2.trans hprev, h1.trans hnext, ih hrest fun y hy => hl y (List.mem_cons_of_mem _ hy)⟩

theorem Seg.setNext (h : Seg l p xs n) {x v : Option α} (hx : ∀ a ∈ x, a ∉ xs) :
    Seg (l.setNext x v) p xs n :=
  h.congr fun a ha => ⟨Links.setNext_next fun he => hx a he ha, Links.setNext_prev⟩

theorem Seg.setPrev (h : Seg l p xs n) {x v : Option α} (hx : ∀ a ∈ x, a ∉ xs) :
    Seg (l.setPrev x v) p xs n :=
  h.congr fun a ha => ⟨Links.setPrev_next, Links.setPrev_prev fun he => hx a he ha⟩

/-- The end of a segment moves with the next link of its last element. -/
theorem Seg.relinkLast (h : Seg l p xs n) (hnd : xs.Nodup) (v : Option α) :
    Seg (l.setNext xs.getLast? v) p xs v := by
  rcases List.eq_nil_or_concat xs with rfl | ⟨init, last, rfl⟩
  · trivial
  · rw [List.concat_eq_append] at h hnd ⊢
    rw [seg_append] at h ⊢
    obtain ⟨hinit, hprev, -, -⟩ := h
    have hnot : last ∉ init := fun hm => (List.nodup_append.1 hnd).2.2 _ hm _ (by simp) rfl
    rw [List.getLast?_concat]
    refine ⟨hinit.setNext fun a ha => ?_, ?_, Links.setNext_next_self, trivial⟩
    · cases ha
      exact hnot
    · rw [Links.setNext_prev]
      exact hprev

/-- The start of a segment moves with the previous link of its first element. -/
theorem Seg.relinkHead (h : Seg l p xs n) (hnd : xs.Nodup) (v : Option α) :
    Seg (l.setPrev xs.head? v) v xs n := by
  cases xs with
  | nil => trivial
  | cons x xs =>
    obtain ⟨-, hnext, hrest⟩ := h
    refine ⟨Links.setPrev_prev_self, Links.setPrev_next.trans hnext, hrest.setPrev fun a ha => ?_⟩
    cases ha
    exact (List.nodup_cons.1 hnd).1

end

/-! ## Lists -/

/-- The head `hd` stands for the sequence `xs`. -/
structure IsList (l : Links α) (hd : ListHead α) (xs : List α) : Prop where
  seg : Seg l none xs none
  first : hd.first = xs.head?
  last : hd.last = xs.getLast?
  size : hd.size = xs.length
  nodup : xs.Nodup

/-- The links of every element outside `xs` are the same. -/
def SameOutside (xs : List α) (l l' : Links α) : Prop :=
  ∀ y, y ∉ xs → l'.next y = l.next y ∧ l'.prev y = l.prev y

omit [DecidableEq α] in
/-- The links and the first element determine the sequence. -/
theorem seg_unique {l : Links α} {p : Option α} {xs ys : List α} (hx : Seg l p xs none)
    (hy : Seg l p ys none) (hfirst : xs.head? = ys.head?) : xs = ys := by
  induction xs generalizing p ys with
  | nil => exact (List.head?_eq_none_iff.1 hfirst.symm).symm
  | cons x xs ih =>
    cases ys with
    | nil => cases hfirst
    | cons y ys =>
      cases hfirst
      obtain ⟨-, hnext, hx⟩ := hx
      obtain ⟨-, hnext', hy⟩ := hy
      have hhead : xs.head? = ys.head? := by
        simpa using hnext.symm.trans hnext'
      rw [ih hx hy hhead]

omit [DecidableEq α] in
theorem IsList.unique {l : Links α} {hd : ListHead α} {xs ys : List α} (hx : IsList l hd xs)
    (hy : IsList l hd ys) : xs = ys :=
  seg_unique hx.seg hy.seg (hx.first.symm.trans hy.first)

omit [DecidableEq α] in
theorem isList_init (l : Links α) : IsList l listInit [] :=
  ⟨trivial, rfl, rfl, rfl, List.nodup_nil⟩

omit [DecidableEq α] in
/-- Changing the links of other elements leaves a list alone. -/
theorem IsList.frame {l l' : Links α} {hd : ListHead α} {xs ys : List α} (h : IsList l hd xs)
    (hs : SameOutside ys l l') (hd' : xs.Disjoint ys) : IsList l' hd xs :=
  ⟨h.seg.congr fun x hx => hs x (hd' hx), h.first, h.last, h.size, h.nodup⟩

section

variable {l : Links α} {hd : ListHead α} {xs pre post : List α} {x elm : α}

omit [DecidableEq α] in
theorem IsList.prev_eq (h : IsList l hd (pre ++ x :: post)) : l.prev x = pre.getLast? := by
  have := (seg_append.1 h.seg).2.1
  rwa [Option.or_none] at this

omit [DecidableEq α] in
theorem IsList.next_eq (h : IsList l hd (pre ++ x :: post)) : l.next x = post.head? := by
  have := (seg_append.1 h.seg).2.2.1
  rwa [Option.or_none] at this

theorem IsList.insertHead (h : IsList l hd xs) (he : elm ∉ xs) :
    IsList (listInsertHead l hd elm).1 (listInsertHead l hd elm).2 (elm :: xs) := by
  have helm : ∀ a ∈ some elm, a ∉ xs := by
    intro a ha
    cases ha
    exact he
  refine ⟨⟨Links.setPrev_prev_self, ?_, ?_⟩, rfl, ?_, ?_, List.nodup_cons.2 ⟨he, h.nodup⟩⟩
  · simp only [listInsertHead, Links.setPrev_next, Links.setNext_next_self]
    rw [h.first, Option.or_none]
  · have hseg := ((h.seg.setNext helm (v := hd.first)).relinkHead h.nodup (some elm)).setPrev helm
      (v := none)
    rw [← h.first] at hseg
    exact hseg
  · show (if hd.first = none then some elm else hd.last) = (elm :: xs).getLast?
    rw [h.first, h.last, List.getLast?_cons]
    cases xs with
    | nil => rfl
    | cons y ys =>
      rw [if_neg (by simp), List.getLast?_cons]
      rfl
  · rw [listInsertHead, List.length_cons, h.size]

theorem IsList.insertTail (h : IsList l hd xs) (he : elm ∉ xs) :
    IsList (listInsertTail l hd elm).1 (listInsertTail l hd elm).2 (xs ++ [elm]) := by
  -- `elm` is on the list nowhere, so its own links are free to be written
  have helm : ∀ a ∈ some elm, a ∉ xs := by
    intro a ha
    cases ha
    exact he
  have hlast : hd.last ≠ some elm := by
    rw [h.last]
    exact fun hl => he (List.mem_of_getLast? hl)
  refine ⟨seg_append.2 ⟨?_, ?_, ?_, trivial⟩, ?_, ?_, ?_, ?_⟩
  · have hseg := ((h.seg.setPrev helm (v := hd.last)).relinkLast h.nodup (some elm)).setNext helm
      (v := none)
    rw [← h.last] at hseg
    exact hseg
  · simp only [listInsertTail, Links.setNext_prev, Links.setPrev_prev_self]
    rw [h.last, Option.or_none]
  · exact Links.setNext_next_self
  · show (if hd.last = none then some elm else hd.first) = (xs ++ [elm]).head?
    rw [h.first, h.last]
    cases xs with
    | nil => rfl
    | cons y ys => rw [if_neg (by simp)]; rfl
  · rw [List.getLast?_concat]
    rfl
  · rw [listInsertTail, List.length_append, h.size]
    rfl
  · exact List.nodup_append.2 ⟨h.nodup, (by simp), fun a ha b hb => by
      rw [List.mem_singleton.1 hb]
      rintro rfl
      exact he ha⟩

omit [DecidableEq α] in
/-- What a list with `x` in the middle is made of. -/
theorem IsList.split (h : IsList l hd (pre ++ x :: post)) :
    Seg l none pre (some x) ∧ Seg l pre.getLast? (x :: post) none ∧
      Seg l (some x) post none ∧ pre.Nodup ∧ (x :: post).Nodup ∧
      (∀ a ∈ pre, a ∉ x :: post) := by
  obtain ⟨hpre, hpost⟩ := seg_append.1 h.seg
  rw [Option.or_none] at hpost
  obtain ⟨h1, h2, h3⟩ := List.nodup_append.1 h.nodup
  exact ⟨hpre, hpost, hpost.2.2, h1, h2, fun a ha hb => h3 a ha a hb rfl⟩

theorem IsList.insertBefore (h : IsList l hd (pre ++ x :: post)) (he : elm ∉ pre ++ x :: post) :
    IsList (listInsertBefore l hd x elm).1 (listInsertBefore l hd x elm).2
      (pre ++ elm :: x :: post) := by
  obtain ⟨hpre, hpost, -, hnpre, hnpost, hdis⟩ := h.split
  rw [List.mem_append, not_or] at he
  obtain ⟨hepre, hepost⟩ := he
  have hex : elm ≠ x := fun heq => hepost (by rw [heq]; exact List.mem_cons_self)
  have hlast : ∀ a ∈ pre.getLast?, a ∉ x :: post := fun a ha => hdis a (List.mem_of_getLast? ha)
  have hlaste : pre.getLast? ≠ some elm := fun hl => hepre (List.mem_of_getLast? hl)
  have helm : ∀ ys : List α, elm ∉ ys → ∀ a ∈ some elm, a ∉ ys := by
    rintro ys hys a ⟨⟩
    exact hys
  -- the previous element of `x` is read after `elm` was written to
  have hprev : ((l.setPrev (some elm) (l.prev x)).setNext (some elm) (some x)).prev x =
      pre.getLast? := by
    rw [Links.setNext_prev, Links.setPrev_prev (by simpa using hex), h.prev_eq]
  unfold listInsertBefore
  dsimp only
  rw [hprev, h.prev_eq]
  refine ⟨seg_append.2 ⟨?_, ?_, ?_, ?_⟩, ?_, ?_, ?_, ?_⟩
  · have hseg := ((hpre.setPrev (helm _ hepre) (v := pre.getLast?)).setNext (helm _ hepre)
      (v := some x)).relinkLast hnpre (some elm)
    refine hseg.setPrev fun a ha hm => hdis a hm ?_
    cases ha
    exact List.mem_cons_self
  · rw [Links.setPrev_prev (by simpa using hex.symm), Links.setNext_prev, Links.setNext_prev,
      Links.setPrev_prev_self, Option.or_none]
  · rw [Links.setPrev_next, Links.setNext_next hlaste, Links.setNext_next_self]
    rfl
  · have hseg := ((hpost.setPrev (helm _ hepost) (v := pre.getLast?)).setNext (helm _ hepost)
      (v := some x)).setNext hlast (v := some elm)
    exact hseg.relinkHead hnpost (some elm)
  · show (if pre.getLast? = none then some elm else hd.first) = _
    rw [h.first]
    cases pre with
    | nil => rfl
    | cons y ys => rw [if_neg (by simp)]; rfl
  · show hd.last = _
    rw [h.last]
    simp [List.getLast?_append, List.getLast?_cons]
  · show hd.size + 1 = _
    rw [h.size]
    simp only [List.length_append, List.length_cons]
    omega
  · refine List.nodup_append.2 ⟨hnpre, List.nodup_cons.2 ⟨hepost, hnpost⟩, fun a ha b hb => ?_⟩
    rintro rfl
    rcases List.mem_cons.1 hb with rfl | hb
    · exact hepre ha
    · exact hdis a ha hb

theorem IsList.insertAfter (h : IsList l hd (pre ++ x :: post)) (he : elm ∉ pre ++ x :: post) :
    IsList (listInsertAfter l hd x elm).1 (listInsertAfter l hd x elm).2
      (pre ++ x :: elm :: post) := by
  have hsplit : pre ++ x :: post = pre ++ [x] ++ post := by
    rw [List.append_assoc, List.singleton_append]
  have hx : (pre ++ [x]).getLast? = some x := List.getLast?_concat
  have hnext := h.next_eq
  have hfirst := h.first
  have hlast := h.last
  have hsize := h.size
  rw [hsplit] at h he hfirst hlast hsize
  -- the part that ends with `x`, and the part behind it
  obtain ⟨hpre, hpost⟩ := seg_append.1 h.seg
  obtain ⟨hnpre, hnpost, hdis⟩ := List.nodup_append.1 h.nodup
  rw [Option.or_none] at hpre
  rw [hx, Option.some_or] at hpost
  rw [List.mem_append, not_or] at he
  obtain ⟨hepre, hepost⟩ := he
  have hex : elm ≠ x := by
    rintro rfl
    exact hepre (by simp)
  have helm : ∀ ys : List α, elm ∉ ys → ∀ a ∈ some elm, a ∉ ys := by
    rintro ys hys a ⟨⟩
    exact hys
  have hhead : ∀ a ∈ post.head?, a ∉ pre ++ [x] := fun a ha hm =>
    hdis a hm a (List.mem_of_mem_head? ha) rfl
  have hxpost : ∀ a ∈ some x, a ∉ post := by
    rintro a ⟨⟩ hm
    exact hdis _ (by simp) _ hm rfl
  have hheade : post.head? ≠ some elm := fun hh => hepost (List.mem_of_mem_head? hh)
  -- the next element of `x` is read after `elm` was written to
  have hread : (l.setNext (some elm) (l.next x)).next x = post.head? := by
    rw [Links.setNext_next (by simpa using hex), hnext]
  have hnexte : ((((l.setNext (some elm) post.head?).setPrev post.head? (some elm)).setNext (some x)
      (some elm)).setPrev (some elm) (some x)).next elm = post.head? := by
    rw [Links.setPrev_next, Links.setNext_next (by simpa using hex.symm), Links.setPrev_next,
      Links.setNext_next_self]
  unfold listInsertAfter
  dsimp only
  rw [hread, hnext, hnexte]
  have hconcat : pre ++ x :: elm :: post = pre ++ [x] ++ elm :: post := by
    rw [List.append_assoc, List.singleton_append]
  rw [hconcat]
  refine ⟨seg_append.2 ⟨?_, ?_, ?_, ?_⟩, ?_, ?_, ?_, ?_⟩
  · have hseg := ((hpre.setNext (helm _ hepre) (v := post.head?)).setPrev hhead
      (v := some elm)).relinkLast hnpre (some elm)
    rw [hx] at hseg
    exact hseg.setPrev (helm _ hepre)
  · rw [hx, Option.some_or]
    exact Links.setPrev_prev_self
  · rw [hnexte, Option.or_none]
  · have hseg := (hpost.setNext (helm _ hepost) (v := post.head?)).relinkHead hnpost (some elm)
    exact (hseg.setNext hxpost).setPrev (helm _ hepost)
  · show hd.first = _
    rw [hfirst]
    simp [List.head?_append]
  · show (if post.head? = none then some elm else hd.last) = _
    rw [hlast]
    cases post with
    | nil => simp
    | cons y ys => simp [List.getLast?_append, List.getLast?_cons]
  · show hd.size + 1 = _
    rw [hsize]
    simp only [List.length_append, List.length_cons]
    omega
  · refine List.nodup_append.2 ⟨hnpre, List.nodup_cons.2 ⟨hepost, hnpost⟩, fun a ha b hb => ?_⟩
    rintro rfl
    rcases List.mem_cons.1 hb with rfl | hb
    · exact hepre ha
    · exact hdis a ha a hb rfl

theorem IsList.remove (h : IsList l hd (pre ++ x :: post)) :
    IsList (listRemove l hd x).1 (listRemove l hd x).2 (pre ++ post) := by
  obtain ⟨hpre, -, hpost, hnpre, hnpost, hdis⟩ := h.split
  obtain ⟨hxpost, hnpost⟩ := List.nodup_cons.1 hnpost
  have hxpre : x ∉ pre := fun hm => hdis x hm List.mem_cons_self
  have hx : ∀ ys : List α, x ∉ ys → ∀ a ∈ some x, a ∉ ys := by
    rintro ys hys a ⟨⟩
    exact hys
  -- the neighbours that are written lie on different sides of `x`
  have hhead : ∀ a ∈ post.head?, a ∉ pre := fun a ha hm =>
    hdis a hm (List.mem_cons_of_mem _ (List.mem_of_mem_head? ha))
  have hlast : ∀ a ∈ pre.getLast?, a ∉ post := fun a ha hm =>
    hdis a (List.mem_of_getLast? ha) (List.mem_cons_of_mem _ hm)
  have hprev : (l.setPrev post.head? pre.getLast?).prev x = pre.getLast? := by
    rw [Links.setPrev_prev (fun hh => hxpost (List.mem_of_mem_head? hh)), h.prev_eq]
  unfold listRemove
  dsimp only
  rw [h.next_eq, h.prev_eq, hprev, Links.setPrev_next, h.next_eq]
  refine ⟨seg_append.2 ⟨?_, ?_⟩, ?_, ?_, ?_, ?_⟩
  · rw [Option.or_none]
    exact (((hpre.setPrev hhead).relinkLast hnpre post.head?).setNext (hx _ hxpre)).setPrev
      (hx _ hxpre)
  · rw [Option.or_none]
    exact (((hpost.relinkHead hnpost pre.getLast?).setNext hlast).setNext (hx _ hxpost)).setPrev
      (hx _ hxpost)
  · show (if pre.getLast? = none then post.head? else hd.first) = _
    rw [h.first]
    cases pre with
    | nil => rfl
    | cons y ys => rw [if_neg (by simp)]; rfl
  · show (if post.head? = none then pre.getLast? else hd.last) = _
    rw [h.last]
    cases post with
    | nil => simp
    | cons y ys => simp [List.getLast?_append, List.getLast?_cons]
  · show hd.size - 1 = _
    rw [h.size]
    simp only [List.length_append, List.length_cons]
    omega
  · exact List.nodup_append.2 ⟨hnpre, hnpost, fun a ha b hb => by
      rintro rfl
      exact hdis a ha (List.mem_cons_of_mem _ hb)⟩

/-! ## What the macros leave alone -/

theorem SameOutside.setNext (l : Links α) {ys : List α} {x v : Option α} (hx : ∀ a ∈ x, a ∈ ys) :
    SameOutside ys l (l.setNext x v) := fun _ hy =>
  ⟨Links.setNext_next fun he => hy (hx _ he), Links.setNext_prev⟩

theorem SameOutside.setPrev (l : Links α) {ys : List α} {x v : Option α} (hx : ∀ a ∈ x, a ∈ ys) :
    SameOutside ys l (l.setPrev x v) := fun _ hy =>
  ⟨Links.setPrev_next, Links.setPrev_prev fun he => hy (hx _ he)⟩

omit [DecidableEq α] in
theorem SameOutside.trans {l₁ l₂ l₃ : Links α} {ys : List α} (h : SameOutside ys l₁ l₂)
    (h' : SameOutside ys l₂ l₃) : SameOutside ys l₁ l₃ := fun y hy =>
  ⟨(h' y hy).1.trans (h y hy).1, (h' y hy).2.trans (h y hy).2⟩

theorem IsList.insertHead_frame (h : IsList l hd xs) :
    SameOutside (elm :: xs) l (listInsertHead l hd elm).1 := by
  have helm : ∀ a ∈ some elm, a ∈ elm :: xs := by
    rintro a ⟨⟩
    exact List.mem_cons_self
  have hfirst : ∀ a ∈ hd.first, a ∈ elm :: xs := by
    rw [h.first]
    exact fun a ha => List.mem_cons_of_mem _ (List.mem_of_mem_head? ha)
  exact ((SameOutside.setNext l helm).trans (.setPrev _ hfirst)).trans (.setPrev _ helm)

theorem IsList.insertTail_frame (h : IsList l hd xs) :
    SameOutside (elm :: xs) l (listInsertTail l hd elm).1 := by
  have helm : ∀ a ∈ some elm, a ∈ elm :: xs := by
    rintro a ⟨⟩
    exact List.mem_cons_self
  have hlast : ∀ a ∈ hd.last, a ∈ elm :: xs := by
    rw [h.last]
    exact fun a ha => List.mem_cons_of_mem _ (List.mem_of_getLast? ha)
  exact ((SameOutside.setPrev l helm).trans (.setNext _ hlast)).trans (.setNext _ helm)

theorem IsList.insertBefore_frame (h : IsList l hd (pre ++ x :: post)) (hex : elm ≠ x) :
    SameOutside (elm :: (pre ++ x :: post)) l (listInsertBefore l hd x elm).1 := by
  have helm : ∀ a ∈ some elm, a ∈ elm :: (pre ++ x :: post) := by
    rintro a ⟨⟩
    exact List.mem_cons_self
  have hx : ∀ a ∈ some x, a ∈ elm :: (pre ++ x :: post) := by
    rintro a ⟨⟩
    simp
  have hlast : ∀ a ∈ pre.getLast?, a ∈ elm :: (pre ++ x :: post) := fun a ha =>
    List.mem_cons_of_mem _ (List.mem_append_left _ (List.mem_of_getLast? ha))
  have hprev : ((l.setPrev (some elm) (l.prev x)).setNext (some elm) (some x)).prev x =
      pre.getLast? := by
    rw [Links.setNext_prev, Links.setPrev_prev (by simpa using hex), h.prev_eq]
  unfold listInsertBefore
  dsimp only
  rw [hprev]
  exact (((SameOutside.setPrev l helm).trans (.setNext _ helm)).trans (.setNext _ hlast)).trans
    (.setPrev _ hx)

theorem IsList.insertAfter_frame (h : IsList l hd (pre ++ x :: post)) (hex : elm ≠ x) :
    SameOutside (elm :: (pre ++ x :: post)) l (listInsertAfter l hd x elm).1 := by
  have helm : ∀ a ∈ some elm, a ∈ elm :: (pre ++ x :: post) := by
    rintro a ⟨⟩
    exact List.mem_cons_self
  have hx : ∀ a ∈ some x, a ∈ elm :: (pre ++ x :: post) := by
    rintro a ⟨⟩
    simp
  have hhead : ∀ a ∈ post.head?, a ∈ elm :: (pre ++ x :: post) := fun a ha =>
    List.mem_cons_of_mem _ (List.mem_append_right _
      (List.mem_cons_of_mem _ (List.mem_of_mem_head? ha)))
  have hread : (l.setNext (some elm) (l.next x)).next x = post.head? := by
    rw [Links.setNext_next (by simpa using hex), h.next_eq]
  unfold listInsertAfter
  dsimp only
  rw [hread]
  exact (((SameOutside.setNext l helm).trans (.setPrev _ hhead)).trans (.setNext _ hx)).trans
    (.setPrev _ helm)

theorem IsList.remove_frame (h : IsList l hd (pre ++ x :: post)) :
    SameOutside (pre ++ x :: post) l (listRemove l hd x).1 := by
  obtain ⟨-, -, -, -, hnpost, -⟩ := h.split
  have hx : ∀ a ∈ some x, a ∈ pre ++ x :: post := by
    rintro a ⟨⟩
    simp
  have hlast : ∀ a ∈ pre.getLast?, a ∈ pre ++ x :: post := fun a ha =>
    List.mem_append_left _ (List.mem_of_getLast? ha)
  have hhead : ∀ a ∈ post.head?, a ∈ pre ++ x :: post := fun a ha =>
    List.mem_append_right _ (List.mem_cons_of_mem _ (List.mem_of_mem_head? ha))
  have hprev : (l.setPrev post.head? pre.getLast?).prev x = pre.getLast? := by
    have hne : post.head? ≠ some x := fun hh =>
      (List.nodup_cons.1 hnpost).1 (List.mem_of_mem_head? hh)
    rw [Links.setPrev_prev hne, h.prev_eq]
  unfold listRemove
  dsimp only
  rw [h.next_eq, h.prev_eq, hprev]
  exact (((SameOutside.setPrev l hhead).trans (.setNext _ hlast)).trans (.setNext _ hx)).trans
    (.setPrev _ hx)

end

end Fos
