import Fos.Lib.Cover
import Fos.Kernel

/-!
# Block lists

The lists of `struct Block_Info` that `kern/kheap.c` and `lib/uheap.c` share: how an element is
found, carved, inserted in address order and joined with its neighbours, and what each of these
does to the addresses that the list describes.
-/

namespace Fos

open Cover (mult weight Tiles range mem_range)

/-! ## Places in a list -/

/-- A pointer to a list element: the elements before it, the element, the elements after it. -/
structure Place (α : Type) where
  before : List α
  elem : α
  after : List α

/-- The list the place is in. -/
def Place.list {α : Type} (p : Place α) : List α := p.before ++ p.elem :: p.after

/-- The list after `LIST_REMOVE` of the element. -/
def Place.removed {α : Type} (p : Place α) : List α := p.before ++ p.after

/-- The list after an update of the element in place. -/
def Place.updated {α : Type} (p : Place α) (x : α) : List α := p.before ++ x :: p.after

/-- The first element that satisfies `p`, the loop `LIST_FOREACH` … `break`. -/
def firstWhere {α : Type} (p : α → Bool) : List α → Option (Place α)
  | [] => none
  | x :: xs => if p x then some ⟨[], x, xs⟩
    else (firstWhere p xs).map fun q => { q with before := x :: q.before }

/-! ## Operations -/

/-- The loop `for (i = lo; i < lo + n; i++) LIST_INSERT_HEAD(list, &array[i])`. -/
def insertHeads (lo : Nat) : Nat → List Nat → List Nat
  | 0, l => l
  | n + 1, l => (lo + n) :: insertHeads lo n l

/-- `insert_sorted`. On an empty list it follows the null first element. -/
def insertSorted (l : List BlockInfo) (elem : BlockInfo) : Option (List BlockInfo) :=
  match l.head?, l.getLast? with
  | some str, some last =>
    if elem.startVa ≤ str.startVa then some (elem :: l)
    else if elem.startVa ≥ last.startVa then some (l ++ [elem])
    else
      let le : BlockInfo → Bool := fun cur => cur.startVa ≤ elem.startVa
      some (l.takeWhile le ++ elem :: l.dropWhile le)
  | _, _ => none

/-- A block after `start_va += size; size -= size`. -/
def BlockInfo.carved (b : BlockInfo) (size : Nat) : BlockInfo :=
  { b with startVa := u32 (b.startVa + size), size := b.size - size }

/-- The list after the block found gave up its first `size` bytes: an empty block leaves it. -/
@[irreducible] def Place.carved (found : Place BlockInfo) (size : Nat) : List BlockInfo :=
  if (found.elem.carved size).size = 0 then found.removed
  else found.updated (found.elem.carved size)

/-- The last block of `lo`, when it ends where `take` starts. -/
def adjoiningPre (lo : List BlockInfo) (take : BlockInfo) : Option BlockInfo :=
  lo.getLast?.filter fun pre => u32 (pre.startVa + pre.size) = take.startVa

/-- The first block of `hi`, when `take` ends where it starts. -/
def adjoiningNex (hi : List BlockInfo) (take : BlockInfo) : Option BlockInfo :=
  hi.head?.filter fun nex => u32 (take.startVa + take.size) = nex.startVa

/-- `take` between the blocks of `lo` and those of `hi` joins the last of `lo` and the first of
`hi`, the first of `hi` only, the last of `lo` only, or none: the new list and the descriptors that
go to the free ones. -/
def joinBetween (lo hi : List BlockInfo) (take : BlockInfo) :
    Option (List BlockInfo × List Nat) :=
  match adjoiningPre lo take, adjoiningNex hi take with
  | some pre, some nex =>
    some (lo.dropLast ++ { pre with size := u32 (pre.size + u32 (take.size + nex.size)) } :: hi.tail,
      [nex.id, take.id])
  | none, some nex =>
    some (lo ++ { nex with startVa := take.startVa, size := u32 (nex.size + take.size) } :: hi.tail,
      [take.id])
  | some pre, none =>
    some (lo.dropLast ++ { pre with size := u32 (pre.size + take.size) } :: hi, [take.id])
  | none, none => none

/-! ## Finding and inserting -/

theorem firstWhere_some {α : Type} {p : α → Bool} {l : List α} {q : Place α}
    (h : firstWhere p l = some q) : l = q.list ∧ p q.elem = true ∧ ∀ x ∈ q.before, p x = false := by
  induction l generalizing q with
  | nil => cases h
  | cons x xs ih =>
    unfold firstWhere at h
    by_cases hx : p x = true
    · rw [if_pos hx] at h
      cases h
      exact ⟨rfl, hx, by simp⟩
    · rw [if_neg hx] at h
      obtain ⟨q', hq', rfl⟩ := Option.map_eq_some_iff.1 h
      obtain ⟨h1, h2, h3⟩ := ih hq'
      refine ⟨by rw [h1]; rfl, h2, ?_⟩
      intro y hy
      rcases List.mem_cons.1 hy with rfl | hy
      · simpa using hx
      · exact h3 y hy

theorem firstWhere_none {α : Type} {p : α → Bool} {l : List α} :
    firstWhere p l = none ↔ ∀ x ∈ l, p x = false := by
  induction l with
  | nil => simp [firstWhere]
  | cons x xs ih => by_cases hx : p x = true <;> simp [firstWhere, hx, ih]

/-- `insert_sorted` puts the block somewhere into the list. -/
theorem insertSorted_perm {l l' : List BlockInfo} {e : BlockInfo} (h : insertSorted l e = some l') :
    l'.Perm (e :: l) := by
  unfold insertSorted at h
  split at h
  · split at h
    · cases h; exact .refl _
    · split at h
      · cases h; exact List.perm_append_singleton _ _
      · cases h
        refine List.perm_middle.trans (.cons _ ?_)
        rw [List.takeWhile_append_dropWhile]
  · cases h

/-! ## Descriptor lists -/

theorem insertHeads_succ (lo n : Nat) (l : List Nat) :
    insertHeads lo (n + 1) l = (lo + n) :: insertHeads lo n l := rfl

theorem length_insertHeads (lo n : Nat) (l : List Nat) :
    (insertHeads lo n l).length = n + l.length := by
  induction n with
  | zero => exact (Nat.zero_add _).symm
  | succ n ih =>
    rw [insertHeads_succ, List.length_cons, ih]
    omega

theorem mem_insertHeads {lo n x : Nat} {l : List Nat} :
    x ∈ insertHeads lo n l ↔ (lo ≤ x ∧ x < lo + n) ∨ x ∈ l := by
  induction n with
  | zero => simp [insertHeads]
  | succ n ih =>
    rw [insertHeads, List.mem_cons, ih]
    by_cases hx : x ∈ l
    · simp only [hx, or_true]
    · simp only [hx, or_false]
      omega

theorem nodup_insertHeads {lo n : Nat} {l : List Nat} (hl : l.Nodup)
    (hd : ∀ x ∈ l, ¬ (lo ≤ x ∧ x < lo + n)) : (insertHeads lo n l).Nodup := by
  induction n with
  | zero => exact hl
  | succ n ih =>
    refine List.nodup_cons.2 ⟨?_, ih fun x hx h => hd x hx ⟨h.1, by omega⟩⟩
    rw [mem_insertHeads]
    rintro (h | h)
    · omega
    · exact hd _ h ⟨by omega, by omega⟩

/-! ## Carving -/

/-- The addresses of a block. -/
def BlockInfo.addrs (b : BlockInfo) : Set Nat := range b.startVa b.size

/-- A block is a run of whole pages between `lo` and `hi`. -/
structure BlockInfo.Within (lo hi : Nat) (b : BlockInfo) : Prop where
  start_aligned : b.startVa % 4096 = 0
  size_aligned : b.size % 4096 = 0
  start_le : lo ≤ b.startVa
  end_le : b.startVa + b.size ≤ hi

section

variable {lo hi : Nat}

theorem BlockInfo.Within.carved (hhi : hi < 4294967296) {b : BlockInfo} (hb : b.Within lo hi)
    {size : Nat} (hs : size % 4096 = 0) (hle : size ≤ b.size) :
    (b.carved size).Within lo hi ∧ (b.carved size).startVa = b.startVa + size := by
  obtain ⟨h1, h2, h3, h4⟩ := hb
  have hu : u32 (b.startVa + size) = b.startVa + size := u32_of_lt (by omega)
  refine ⟨⟨?_, ?_, ?_, ?_⟩, hu⟩ <;> simp only [BlockInfo.carved, hu] <;> omega

/-- The front of a block and what carving leaves of it are the block. -/
theorem weight_carved (hhi : hi < 4294967296) {b : BlockInfo} (hb : b.Within lo hi) {size : Nat}
    (hs : size % 4096 = 0) (hle : size ≤ b.size) (id a : Nat) :
    weight BlockInfo.addrs b a =
      weight BlockInfo.addrs ⟨id, b.startVa, size⟩ a +
        weight BlockInfo.addrs (b.carved size) a := by
  have hsplit : b.addrs = range b.startVa size ∪ range (b.startVa + size) (b.size - size) := by
    unfold BlockInfo.addrs
    rw [← Cover.range_add, Nat.add_sub_cancel' hle]
  have hc : (b.carved size).addrs = range (b.startVa + size) (b.size - size) := by
    unfold BlockInfo.addrs
    rw [(hb.carved hhi hs hle).2]
    rfl
  refine Cover.weight_union ?_ ?_ a
  · rw [hc]; exact hsplit
  · rw [hc]; exact Cover.disjoint_range_adjacent _ _ _

/-- Carving moves the front of the block out of the list and touches no other address. -/
theorem mult_carved (hhi : hi < 4294967296) {found : Place BlockInfo} (hb : found.elem.Within lo hi)
    {size : Nat} (hs : size % 4096 = 0) (hle : size ≤ found.elem.size) (id a : Nat) :
    mult BlockInfo.addrs found.list a =
      weight BlockInfo.addrs ⟨id, found.elem.startVa, size⟩ a +
        mult BlockInfo.addrs (found.carved size) a := by
  have hw := weight_carved hhi hb hs hle id a
  unfold Place.carved
  by_cases h0 : (found.elem.carved size).size = 0
  · have hz : weight BlockInfo.addrs (found.elem.carved size) a = 0 := by
      apply Cover.weight_eq_zero_of_empty
      unfold BlockInfo.addrs
      rw [h0, Cover.range_zero]
    rw [if_pos h0]
    simp only [Place.list, Place.removed, Cover.mult_append, Cover.mult_cons]
    omega
  · rw [if_neg h0]
    simp only [Place.list, Place.updated, Cover.mult_append, Cover.mult_cons]
    omega

/-- A block of the carved list is what is left of the block found, or was there before. -/
theorem mem_carved {found : Place BlockInfo} {size : Nat} {b : BlockInfo}
    (hb : b ∈ found.carved size) : b = found.elem.carved size ∨ b ∈ found.list := by
  unfold Place.carved at hb
  split at hb
  · simp only [Place.removed, Place.list, List.mem_append, List.mem_cons] at hb ⊢
    tauto
  · simp only [Place.updated, Place.list, List.mem_append, List.mem_cons] at hb ⊢
    tauto

theorem carved_within (hhi : hi < 4294967296) {found : Place BlockInfo}
    (hwf : ∀ b ∈ found.list, b.Within lo hi) {size : Nat} (hs : size % 4096 = 0)
    (hle : size ≤ found.elem.size) : ∀ b ∈ found.carved size, b.Within lo hi := by
  intro b hmem
  rcases mem_carved hmem with rfl | hmem
  · exact ((hwf _ (by simp [Place.list])).carved hhi hs hle).1
  · exact hwf b hmem

end

/-! ## Joining -/

theorem adjoiningPre_some {lo : List BlockInfo} {take pre : BlockInfo}
    (h : adjoiningPre lo take = some pre) :
    lo = lo.dropLast ++ [pre] ∧ u32 (pre.startVa + pre.size) = take.startVa := by
  unfold adjoiningPre at h
  rw [Option.filter_eq_some_iff] at h
  obtain ⟨hlast, hadj⟩ := h
  obtain ⟨ys, rfl⟩ := List.getLast?_eq_some_iff.1 hlast
  exact ⟨by rw [List.dropLast_concat], by simpa using hadj⟩

theorem adjoiningNex_some {hi : List BlockInfo} {take nex : BlockInfo}
    (h : adjoiningNex hi take = some nex) :
    hi = nex :: hi.tail ∧ u32 (take.startVa + take.size) = nex.startVa := by
  unfold adjoiningNex at h
  rw [Option.filter_eq_some_iff] at h
  obtain ⟨hhead, hadj⟩ := h
  obtain ⟨ys, rfl⟩ := List.head?_eq_some_iff.1 hhead
  exact ⟨by rw [List.tail_cons], by simpa using hadj⟩

/-- How the block `m` is made of `take` and the free blocks `X` that it joins. -/
inductive Merge (take : BlockInfo) : List BlockInfo → BlockInfo → Prop
  | alone : Merge take [] take
  | nex {nex : BlockInfo} (h : u32 (take.startVa + take.size) = nex.startVa) :
      Merge take [nex] ⟨nex.id, take.startVa, u32 (nex.size + take.size)⟩
  | pre {pre : BlockInfo} (h : u32 (pre.startVa + pre.size) = take.startVa) :
      Merge take [pre] ⟨pre.id, pre.startVa, u32 (pre.size + take.size)⟩
  | both {pre nex : BlockInfo} (h : u32 (pre.startVa + pre.size) = take.startVa)
      (h' : u32 (take.startVa + take.size) = nex.startVa) :
      Merge take [pre, nex] ⟨pre.id, pre.startVa, u32 (pre.size + u32 (take.size + nex.size))⟩

/-- What a join does: the merged block `m` stands for `take` and the blocks `X` it joined. -/
structure Joined (free free' : List BlockInfo) (take : BlockInfo) (X Y : List BlockInfo)
    (m : BlockInfo) : Prop where
  free : free.Perm (X ++ Y)
  merge : Merge take X m
  free' : free'.Perm (m :: Y)

theorem Joined.of_insertSorted {l l' : List BlockInfo} {take : BlockInfo}
    (h : insertSorted l take = some l') : Joined l l' take [] l take :=
  ⟨.refl _, .alone, insertSorted_perm h⟩

theorem joinBetween_some {lo hi free' : List BlockInfo} {take : BlockInfo} {ids : List Nat}
    (h : joinBetween lo hi take = some (free', ids)) :
    ∃ X Y m, Joined (lo ++ hi) free' take X Y m := by
  unfold joinBetween at h
  cases hpre : adjoiningPre lo take with
  | some pre =>
    obtain ⟨hlo, hadj⟩ := adjoiningPre_some hpre
    cases hnex : adjoiningNex hi take with
    | some nex =>
      obtain ⟨hhi, hadj'⟩ := adjoiningNex_some hnex
      rw [hpre, hnex] at h
      cases h
      -- both neighbours are merged into one block
      refine ⟨[pre, nex], lo.dropLast ++ hi.tail, _, ?_, .both hadj hadj', List.perm_middle⟩
      rw [hlo, hhi, List.dropLast_concat, List.tail_cons, List.append_assoc]
      exact List.perm_middle.trans (.cons _ List.perm_middle)
    | none =>
      rw [hpre, hnex] at h
      cases h
      refine ⟨[pre], lo.dropLast ++ hi, _, ?_, .pre hadj, List.perm_middle⟩
      rw [hlo, List.dropLast_concat, List.append_assoc]
      exact List.perm_middle
  | none =>
    cases hnex : adjoiningNex hi take with
    | some nex =>
      obtain ⟨hhi, hadj'⟩ := adjoiningNex_some hnex
      rw [hpre, hnex] at h
      cases h
      refine ⟨[nex], lo ++ hi.tail, _, ?_, .nex hadj', List.perm_middle⟩
      rw [hhi, List.tail_cons]
      exact List.perm_middle
    | none =>
      rw [hpre, hnex] at h
      cases h

section

variable {lo hi : Nat}

/-- Two blocks that meet make one, whatever descriptor it keeps. -/
theorem merge_blocks (hhi : hi < 4294967296) {b c : BlockInfo} (hb : b.Within lo hi)
    (hc : c.Within lo hi) (hadj : u32 (b.startVa + b.size) = c.startVa) (id : Nat) :
    (⟨id, b.startVa, u32 (b.size + c.size)⟩ : BlockInfo).Within lo hi ∧
      ∀ a, weight BlockInfo.addrs ⟨id, b.startVa, u32 (b.size + c.size)⟩ a =
        weight BlockInfo.addrs b a + weight BlockInfo.addrs c a := by
  obtain ⟨h1, h2, h3, h4⟩ := hb
  obtain ⟨h5, h6, h7, h8⟩ := hc
  rw [u32_of_lt (by omega)] at hadj
  have hu : u32 (b.size + c.size) = b.size + c.size := u32_of_lt (by omega)
  rw [hu]
  refine ⟨⟨h1, ?_, h3, ?_⟩, fun a => Cover.weight_union ?_ ?_ a⟩
  · change (b.size + c.size) % 4096 = 0
    omega
  · change b.startVa + (b.size + c.size) ≤ hi
    omega
  · unfold BlockInfo.addrs
    rw [← hadj]
    exact Cover.range_add _ _ _
  · unfold BlockInfo.addrs
    rw [← hadj]
    exact Cover.disjoint_range_adjacent _ _ _

/-- The merged block is well formed and has exactly the addresses of what it is made of. -/
theorem Merge.spec (hhi : hi < 4294967296) {take m : BlockInfo} {X : List BlockInfo}
    (h : Merge take X m) (htake : take.Within lo hi) (hX : ∀ b ∈ X, b.Within lo hi) :
    m.Within lo hi ∧ ∀ a, weight BlockInfo.addrs m a =
      weight BlockInfo.addrs take a + mult BlockInfo.addrs X a := by
  cases h with
  | alone => exact ⟨htake, fun a => rfl⟩
  | @nex nex h =>
    obtain ⟨hm, hw⟩ := merge_blocks hhi htake (hX nex (by simp)) h nex.id
    rw [Nat.add_comm take.size nex.size] at hm hw
    refine ⟨hm, fun a => ?_⟩
    rw [hw a, Cover.mult_cons, Cover.mult_nil]
    rfl
  | @pre pre h =>
    obtain ⟨hm, hw⟩ := merge_blocks hhi (hX pre (by simp)) htake h pre.id
    refine ⟨hm, fun a => ?_⟩
    rw [hw a, Cover.mult_cons, Cover.mult_nil]
    omega
  | @both pre nex h h' =>
    -- first `take` and `nex` meet, then `pre` and the two
    obtain ⟨hm₁, hw₁⟩ := merge_blocks hhi htake (hX nex (by simp)) h' take.id
    obtain ⟨hm, hw⟩ := merge_blocks hhi (hX pre (by simp)) hm₁ h pre.id
    refine ⟨hm, fun a => ?_⟩
    rw [hw a, hw₁ a]
    simp only [Cover.mult_cons, Cover.mult_nil]
    omega

/-- A join adds every address of `take` once to the list. -/
theorem Joined.spec (hhi : hi < 4294967296) {free free' X Y : List BlockInfo} {take m : BlockInfo}
    (hj : Joined free free' take X Y m) (hwf : ∀ b ∈ free, b.Within lo hi)
    (htake : take.Within lo hi) :
    (∀ b ∈ free', b.Within lo hi) ∧
      ∀ a, mult BlockInfo.addrs free' a =
        weight BlockInfo.addrs take a + mult BlockInfo.addrs free a := by
  obtain ⟨hm, hw⟩ := hj.merge.spec hhi htake fun b hb => hwf b (by simp [hj.free.mem_iff, hb])
  refine ⟨fun b hb => ?_, fun a => ?_⟩
  · rcases List.mem_cons.1 (hj.free'.mem_iff.1 hb) with rfl | hb
    · exact hm
    · exact hwf b (by simp [hj.free.mem_iff, hb])
  · rw [Cover.mult_perm hj.free', Cover.mult_perm hj.free, Cover.mult_cons, Cover.mult_append,
      hw a]
    omega

end

/-! ## Allocations -/

/-- An address range handed out to a caller. -/
structure Allocation where
  start : Nat
  size : Nat
  deriving DecidableEq, Repr

def BlockInfo.allocation (b : BlockInfo) : Allocation := ⟨b.startVa, b.size⟩

/-! ## Free and taken blocks -/

/-- The addresses from `lo` up to `hi`. -/
def addrsBetween (lo hi : Nat) : Set Nat := {a | lo ≤ a ∧ a < hi}

/-- The free and the taken blocks are runs of pages that together tile `[lo, hi)`. -/
structure BlockPartition (lo hi : Nat) (free taken : List BlockInfo) : Prop where
  wf : ∀ b ∈ free ++ taken, b.Within lo hi
  tiles : Tiles BlockInfo.addrs (free ++ taken) (addrsBetween lo hi)

namespace BlockPartition

variable {lo hi : Nat} {free taken free' taken' : List BlockInfo}

theorem found_within (hp : BlockPartition lo hi free taken) {found : Place BlockInfo}
    (hf : free = found.list) : found.elem.Within lo hi :=
  hp.wf _ (by rw [hf]; simp [Place.list])

/-- The front of a free block shares no address with a taken block. -/
theorem front_apart (hp : BlockPartition lo hi free taken) {found : Place BlockInfo}
    (hf : free = found.list) {b : BlockInfo} (hfit : b.size ≤ found.elem.size)
    (hst : b.startVa = found.elem.startVa) : ∀ a ∈ b.addrs, ∀ c ∈ taken, a ∉ c.addrs := by
  intro a hab c hc hac
  have hle := hp.tiles.mult_le_one a
  have hmem : a ∈ found.elem.addrs := by
    have h1 : b.startVa ≤ a ∧ a < b.startVa + b.size := hab
    rw [hst] at h1
    exact ⟨h1.1, by omega⟩
  have h1 : 0 < mult BlockInfo.addrs free a :=
    Cover.mult_pos_iff.2 ⟨found.elem, by rw [hf]; simp [Place.list], hmem⟩
  have h2 : 0 < mult BlockInfo.addrs taken a := Cover.mult_pos_iff.2 ⟨c, hc, hac⟩
  rw [Cover.mult_append] at hle
  omega

/-- The front of a free block, carved off and entered among the taken blocks. -/
theorem allocate (hhi : hi < 4294967296) (hp : BlockPartition lo hi free taken)
    {found : Place BlockInfo} (hf : free = found.list) {b : BlockInfo}
    (hst : b.startVa = found.elem.startVa) (hal : b.size % 4096 = 0)
    (hfit : b.size ≤ found.elem.size) (htaken : taken'.Perm (b :: taken)) :
    BlockPartition lo hi (found.carved b.size) taken' := by
  have hfw := hp.found_within hf
  refine ⟨?_, hp.tiles.congr fun a => ?_⟩
  · intro c hc
    rw [List.mem_append, htaken.mem_iff, List.mem_cons] at hc
    rcases hc with hc | rfl | hc
    · exact carved_within hhi (fun d hd => hp.wf d (by simp [hf, hd])) hal hfit c hc
    · have := hfw.end_le
      exact ⟨by rw [hst]; exact hfw.start_aligned, hal, by rw [hst]; exact hfw.start_le, by omega⟩
    · exact hp.wf c (by simp [hc])
  · have hcount := mult_carved hhi hfw hal hfit b.id a
    have hbe : (⟨b.id, found.elem.startVa, b.size⟩ : BlockInfo) = b := by rw [← hst]
    rw [hbe] at hcount
    rw [Cover.mult_append, Cover.mult_append, Cover.mult_perm htaken, Cover.mult_cons, hf]
    omega

/-- A taken block, joined with the free ones. -/
theorem release (hhi : hi < 4294967296) (hp : BlockPartition lo hi free taken) {b m : BlockInfo}
    {X Y : List BlockInfo} (htaken : taken.Perm (b :: taken'))
    (hj : Joined free free' b X Y m) : BlockPartition lo hi free' taken' := by
  have hb : b.Within lo hi := hp.wf b (by simp [htaken.mem_iff])
  obtain ⟨hwf, hcount⟩ := hj.spec hhi (fun c hc => hp.wf c (List.mem_append_left _ hc)) hb
  refine ⟨fun c hc => ?_, hp.tiles.congr fun a => ?_⟩
  · rcases List.mem_append.1 hc with hc | hc
    · exact hwf c hc
    · exact hp.wf c (by simp [htaken.mem_iff, hc])
  · rw [Cover.mult_append, Cover.mult_append, hcount a, Cover.mult_perm htaken, Cover.mult_cons]
    omega

end BlockPartition

end Fos
