import Fos.BlockList

/-!
# Block descriptors

Each heap has a fixed array of block descriptors, and the blocks of the free list, the blocks of the
taken list and the spare descriptors share them out. Carving, joining and inserting move descriptors
from one list to another; this module counts them.
-/

namespace Fos

/-- The descriptors of the blocks of a list. -/
def ids (l : List BlockInfo) : List Nat := l.map BlockInfo.id

/-- The three lists partition the first `n` descriptors: each is in one of them, once. -/
def ShareOut (n : Nat) (free taken : List BlockInfo) (spare : List Nat) : Prop :=
  (ids free ++ ids taken ++ spare).Perm (List.range n)

section

variable {n id : Nat} {l l' lo hi free free' taken taken' : List BlockInfo}
    {spare spare' out : List Nat}
  {take b : BlockInfo} {found : Place BlockInfo} {size : Nat}

@[simp] theorem ids_nil : ids [] = [] := rfl

@[simp] theorem ids_cons (b : BlockInfo) (l : List BlockInfo) : ids (b :: l) = b.id :: ids l := rfl

@[simp] theorem ids_append (l l' : List BlockInfo) : ids (l ++ l') = ids l ++ ids l' :=
  List.map_append

@[simp] theorem length_ids (l : List BlockInfo) : (ids l).length = l.length := List.length_map _

theorem ids_perm (h : l.Perm l') : (ids l).Perm (ids l') := h.map _

/-- The three lists hold `n` descriptors. -/
theorem ShareOut.length (h : ShareOut n free taken spare) :
    free.length + taken.length + spare.length = n := by
  have hl := h.length_eq
  rw [List.length_append, List.length_append, length_ids, length_ids, List.length_range] at hl
  exact hl

theorem ShareOut.count (h : ShareOut n free taken spare) (a : Nat) :
    (ids free).count a + (ids taken).count a + spare.count a = (List.range n).count a := by
  have hc := h.count_eq a
  rwa [List.count_append, List.count_append] at hc

theorem shareOut_of_count (h : ∀ a, (ids free).count a + (ids taken).count a + spare.count a =
    (List.range n).count a) : ShareOut n free taken spare := by
  refine List.perm_iff_count.2 fun a => ?_
  rw [List.count_append, List.count_append]
  exact h a

/-- An array whose descriptors all are spare. -/
theorem insertHeads_perm (n : Nat) : (insertHeads 0 n []).Perm (List.range n) := by
  induction n with
  | zero => exact .refl _
  | succ n ih =>
    rw [insertHeads_succ, Nat.zero_add, List.range_succ]
    exact (List.Perm.cons n ih).trans (List.perm_append_singleton n _).symm

/-- What carving leaves in the list, with the descriptor it gives up when nothing is left. -/
theorem ids_carved (found : Place BlockInfo) (size : Nat) :
    (ids (found.carved size) ++
      if (found.elem.carved size).size = 0 then [found.elem.id] else []).Perm (ids found.list) := by
  unfold Place.carved
  split
  case isTrue =>
    simp only [Place.removed, Place.list, ids_append, ids_cons]
    refine (List.perm_append_singleton _ _).trans ?_
    exact List.perm_middle.symm
  case isFalse =>
    rw [List.append_nil]
    -- the block keeps its descriptor
    simp only [Place.updated, Place.list, ids_append, ids_cons]
    exact .refl _

theorem ids_insertSorted (h : insertSorted l b = some l') : (ids l').Perm (b.id :: ids l) :=
  ids_perm (insertSorted_perm h)

/-- Joining a block keeps one descriptor for each run of blocks it makes one. -/
theorem ids_joinBetween (h : joinBetween lo hi take = some (free', out)) :
    (ids free' ++ out).Perm (take.id :: ids (lo ++ hi)) := by
  refine List.perm_iff_count.2 fun a => ?_
  unfold joinBetween at h
  cases hpre : adjoiningPre lo take with
  | none =>
    cases hnex : adjoiningNex hi take with
    | none =>
      rw [hpre, hnex] at h
      cases h
    | some nex =>
      rw [hpre, hnex] at h
      -- the block above takes the freed one in, whose descriptor goes back to the pool
      obtain ⟨rfl, rfl⟩ := Prod.mk.inj (Option.some.inj h)
      rw [(adjoiningNex_some hnex).1]
      simp only [ids_append, ids_cons, List.count_append, List.count_cons, List.tail_cons,
        List.count_nil]
      omega
  | some pre =>
    rw [(adjoiningPre_some hpre).1]
    cases hnex : adjoiningNex hi take with
    | none =>
      rw [hpre, hnex] at h
      obtain ⟨rfl, rfl⟩ := Prod.mk.inj (Option.some.inj h)
      simp only [ids_append, ids_cons, ids_nil, List.count_append, List.count_cons, List.count_nil]
      omega
    | some nex =>
      rw [hpre, hnex] at h
      -- both sides adjoin: two descriptors go back to the pool
      obtain ⟨rfl, rfl⟩ := Prod.mk.inj (Option.some.inj h)
      rw [(adjoiningNex_some hnex).1]
      simp only [ids_append, ids_cons, ids_nil, List.count_append, List.count_cons, List.tail_cons,
        List.count_nil]
      omega

/-! ## The moves -/

/-- A block is carved off the free list and enters the taken list under a spare descriptor. -/
theorem ShareOut.allocate (h : ShareOut n found.list taken spare)
    (hspare : (if (found.elem.carved size).size = 0 then found.elem.id :: spare else spare) =
      b.id :: spare') (htaken : taken'.Perm (b :: taken)) :
    ShareOut n (found.carved size) taken' spare' := by
  refine shareOut_of_count fun a => ?_
  have hc := h.count a
  have hcarved := (ids_carved found size).count_eq a
  have ht := (ids_perm htaken).count_eq a
  have hs := congrArg (List.count a) hspare
  rw [List.count_append] at hcarved
  rw [ids_cons, List.count_cons] at ht
  rw [List.count_cons] at hs
  by_cases hz : (found.elem.carved size).size = 0
  · rw [if_pos hz] at hcarved hs
    rw [List.count_cons] at hcarved hs
    rw [List.count_nil] at hcarved
    omega
  · rw [if_neg hz] at hcarved hs
    rw [List.count_nil] at hcarved
    omega

/-- A block enters the taken list without leaving the free list. -/
theorem ShareOut.enter (h : ShareOut n free taken (b.id :: spare)) :
    ShareOut n free (b :: taken) spare := by
  refine shareOut_of_count fun a => ?_
  have hc := h.count a
  rw [List.count_cons] at hc
  rw [ids_cons, List.count_cons]
  omega

/-- A block of the taken list is joined to the free list. -/
theorem ShareOut.join (h : ShareOut n (lo ++ hi) taken spare) (htaken : taken.Perm (take :: taken'))
    (hj : joinBetween lo hi take = some (free', out)) : ShareOut n free' taken' (out ++ spare) := by
  refine shareOut_of_count fun a => ?_
  have hc := h.count a
  have hjoin := (ids_joinBetween hj).count_eq a
  have ht := (ids_perm htaken).count_eq a
  rw [ids_cons, List.count_cons] at ht
  rw [List.count_append, List.count_cons] at hjoin
  rw [List.count_append]
  omega

/-- A block of the taken list is inserted into the free list. -/
theorem ShareOut.insert (h : ShareOut n free taken spare) (htaken : taken.Perm (take :: taken'))
    (hi : insertSorted free take = some free') : ShareOut n free' taken' spare := by
  refine shareOut_of_count fun a => ?_
  have hc := h.count a
  have hins := (ids_insertSorted hi).count_eq a
  have ht := (ids_perm htaken).count_eq a
  rw [ids_cons, List.count_cons] at ht
  rw [List.count_cons] at hins
  omega

end

end Fos
