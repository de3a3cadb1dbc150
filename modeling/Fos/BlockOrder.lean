import Mathlib.Data.List.Pairwise
import Fos.BlockList
import Fos.Lib.Gaps

/-!
# Free lists in address order

A free list in address order whose blocks are not empty and do not meet lists exactly the maximal
gaps of the heap. Carving keeps it so, and so do the two coalescing functions.
-/

namespace Fos

open Gaps (Ordered MaxRun)
open Cover (mult range mem_range)

/-- The free list is strictly increasing in address, without an empty block and without two blocks
that meet. -/
abbrev FreeOrder (free : List BlockInfo) : Prop :=
  Ordered BlockInfo.startVa BlockInfo.size free

/-- `take` shares no address with the blocks of `l` and is not empty. -/
structure Fits (take : BlockInfo) (l : List BlockInfo) : Prop where
  pos : 0 < take.size
  apart : ∀ b ∈ l, b.startVa + b.size ≤ take.startVa ∨ take.startVa + take.size ≤ b.startVa

/-- The blocks `lo` below `take` and the blocks `hi` above it. -/
structure Cut (take : BlockInfo) (lo hi : List BlockInfo) : Prop where
  order : FreeOrder (lo ++ hi)
  pos : 0 < take.size
  below : ∀ b ∈ lo, b.startVa + b.size ≤ take.startVa
  above : ∀ c ∈ hi, take.startVa + take.size ≤ c.startVa

theorem Fits.cut {take : BlockInfo} {l : List BlockInfo} (h : Fits take l) (ho : FreeOrder l) :
    ∃ lo hi, l = lo ++ hi ∧ Cut take lo hi := by
  obtain ⟨lo, hi, rfl, hlo, hhi⟩ := ho.split h.apart
  exact ⟨lo, hi, rfl, ho, h.pos, hlo, hhi⟩

section

variable {take : BlockInfo} {lo hi : List BlockInfo}

theorem Cut.start_lt (h : Cut take lo hi) {b : BlockInfo} (hb : b ∈ lo) :
    b.startVa < take.startVa := by
  have h1 := h.below b hb
  have h2 := h.order.pos b (List.mem_append_left _ hb)
  omega

theorem Cut.lt_start (h : Cut take lo hi) {c : BlockInfo} (hc : c ∈ hi) :
    take.startVa < c.startVa := by
  have h1 := h.above c hc
  have h2 := h.pos
  omega

/-- A test that holds below `take` and fails above it cuts the list there. -/
theorem Cut.takeWhile (h : Cut take lo hi) {p : BlockInfo → Bool}
    (hp : ∀ b, b.startVa < take.startVa → p b = true)
    (hn : ∀ b, take.startVa < b.startVa → p b = false) :
    (lo ++ hi).takeWhile p = lo ∧ (lo ++ hi).dropWhile p = hi := by
  have hlo : ∀ b ∈ lo, p b = true := fun b hb => hp b (h.start_lt hb)
  have hnil : hi.takeWhile p = [] ∧ hi.dropWhile p = hi := by
    cases hi with
    | nil => exact ⟨rfl, rfl⟩
    | cons c cs =>
      have hc := hn c (h.lt_start List.mem_cons_self)
      simp [hc]
  rw [List.takeWhile_append_of_pos hlo, List.dropWhile_append_of_pos hlo, hnil.1, hnil.2]
  simp

/-- `insert_sorted` inserts at the cut. -/
theorem Cut.insertSorted (h : Cut take lo hi) (hne : lo ++ hi ≠ []) :
    insertSorted (lo ++ hi) take = some (lo ++ take :: hi) := by
  obtain ⟨str, hstr⟩ := Option.ne_none_iff_exists'.1 (mt List.head?_eq_none_iff.1 hne)
  obtain ⟨last, hlast⟩ := Option.ne_none_iff_exists'.1 (mt List.getLast?_eq_none_iff.1 hne)
  unfold Fos.insertSorted
  rw [hstr, hlast]
  dsimp only
  by_cases h1 : take.startVa ≤ str.startVa
  · -- nothing lies below
    have hnil : lo = [] := by
      cases lo with
      | nil => rfl
      | cons b bs =>
        have hb : b = str := by simpa using hstr
        have := h.start_lt (b := b) List.mem_cons_self
        rw [hb] at this
        omega
    rw [if_pos h1, hnil]
    rfl
  · rw [if_neg h1]
    by_cases h2 : take.startVa ≥ last.startVa
    · -- nothing lies above
      have hnil : hi = [] := by
        rcases List.eq_nil_or_concat hi with rfl | ⟨cs, c, rfl⟩
        · rfl
        · have hc : c = last := by
            rw [List.concat_eq_append, ← List.append_assoc, List.getLast?_concat] at hlast
            exact Option.some.inj hlast
          have := h.lt_start (c := c) (by simp)
          rw [hc] at this
          omega
      rw [if_pos h2, hnil, List.append_nil]
    · obtain ⟨ht, hd⟩ := h.takeWhile (p := fun cur => decide (cur.startVa ≤ take.startVa))
        (fun b hb => by simpa using Nat.le_of_lt hb) (fun b hb => by simpa using hb)
      rw [if_neg h2, ht, hd]

/-! ## Joining -/

/-- Sizes and ends of the blocks do not wrap. -/
def NoWrap (l : List BlockInfo) : Prop := ∀ b ∈ l, b.startVa + b.size < 4294967296

theorem adjoiningPre_of_last {last : BlockInfo} (h : lo.getLast? = some last) :
    adjoiningPre lo take = if u32 (last.startVa + last.size) = take.startVa then some last
      else none := by
  unfold adjoiningPre
  rw [h, Option.filter_some]
  simp

theorem adjoiningNex_of_head {str : BlockInfo} (h : hi.head? = some str) :
    adjoiningNex hi take = if u32 (take.startVa + take.size) = str.startVa then some str
      else none := by
  unfold adjoiningNex
  rw [h, Option.filter_some]
  simp

/-- The last block below `take`, when it meets `take`. -/
theorem adjoiningPre_end (hw : NoWrap (lo ++ take :: hi)) {pre : BlockInfo}
    (hp : adjoiningPre lo take = some pre) :
    ∃ lo', lo = lo' ++ [pre] ∧ pre.startVa + pre.size = take.startVa := by
  obtain ⟨hlo, hadj⟩ := adjoiningPre_some hp
  have hmem : pre ∈ lo ++ take :: hi := by rw [hlo]; simp
  rw [u32_of_lt (hw pre hmem)] at hadj
  exact ⟨_, hlo, hadj⟩

/-- Without such a block there is room below `take`. -/
theorem Cut.pre_none (h : Cut take lo hi) (hw : NoWrap (lo ++ take :: hi))
    (hp : adjoiningPre lo take = none) : ∀ b ∈ lo, b.startVa + b.size < take.startVa := by
  rcases List.eq_nil_or_concat lo with rfl | ⟨lo', pre, rfl⟩
  · simp
  · rw [List.concat_eq_append] at h hw hp ⊢
    have hne : pre.startVa + pre.size ≠ take.startVa := by
      intro he
      unfold adjoiningPre at hp
      rw [List.getLast?_concat, Option.filter_eq_none_iff] at hp
      have hmem : pre ∈ lo' ++ [pre] ++ take :: hi := by simp
      exact hp pre rfl (by simpa [u32_of_lt (hw pre hmem)] using he)
    have hle := h.below pre (by simp)
    intro b hb
    rcases List.mem_append.1 hb with hb | hb
    · have ho := h.order
      rw [List.append_assoc] at ho
      have h1 := ho.sides.2.1 b hb
      omega
    · rw [List.mem_singleton.1 hb]
      omega

/-- The first block above `take`, when `take` meets it. -/
theorem Cut.nex (hw : NoWrap (lo ++ take :: hi)) {nex : BlockInfo}
    (hp : adjoiningNex hi take = some nex) :
    ∃ hi', hi = nex :: hi' ∧ take.startVa + take.size = nex.startVa := by
  obtain ⟨hhi, hadj⟩ := adjoiningNex_some hp
  rw [u32_of_lt (hw take (by simp))] at hadj
  exact ⟨_, hhi, hadj⟩

/-- Without such a block there is room above `take`. -/
theorem Cut.nex_none (h : Cut take lo hi) (hw : NoWrap (lo ++ take :: hi))
    (hp : adjoiningNex hi take = none) : ∀ c ∈ hi, take.startVa + take.size < c.startVa := by
  cases hi with
  | nil => simp
  | cons nex hi' =>
    have hne : take.startVa + take.size ≠ nex.startVa := by
      intro he
      unfold adjoiningNex at hp
      rw [List.head?_cons, Option.filter_eq_none_iff] at hp
      exact hp nex rfl (by simpa [u32_of_lt (hw take (by simp))] using he)
    have hle := h.above nex List.mem_cons_self
    intro c hc
    rcases List.mem_cons.1 hc with rfl | hc
    · omega
    · have hord : FreeOrder ([] ++ nex :: hi') := Gaps.Ordered.append_right h.order
      have h2 := hord.sides.2.2 c hc
      omega

/-- Joining `take` with its neighbours keeps the order. -/
theorem Cut.joinBetween_some (h : Cut take lo hi) (hw : NoWrap (lo ++ take :: hi))
    {free : List BlockInfo} {ids : List Nat} (hj : joinBetween lo hi take = some (free, ids)) :
    FreeOrder free := by
  have hpos := h.pos
  unfold joinBetween at hj
  cases hpre : adjoiningPre lo take with
  | some pre =>
    obtain ⟨lo', rfl, hadj⟩ := adjoiningPre_end hw hpre
    have hwp := hw pre (by simp)
    cases hnex : adjoiningNex hi take with
    | some nex =>
      -- three blocks become one: it starts where the lower did and ends where the upper did
      obtain ⟨hi', rfl, hadj'⟩ := Cut.nex hw hnex
      have hwn := hw nex (by simp)
      rw [hpre, hnex] at hj
      cases hj
      have ho := h.order
      rw [List.append_assoc, List.singleton_append] at ho
      obtain ⟨ho₁, hl, hr⟩ := ho.sides
      rw [List.append_cons] at ho
      obtain ⟨ho₂, hl₂, hr₂⟩ := ho.sides
      have hu : u32 (pre.size + u32 (take.size + nex.size)) = pre.size + (take.size + nex.size) := by
        rw [u32_of_lt (n := take.size + nex.size) (by omega), u32_of_lt (by omega)]
      rw [List.dropLast_concat, List.tail_cons]
      refine Ordered.between ?_ ?_ ?_ ?_
      · exact (ho₁.sides).1
      · show 0 < u32 _
        omega
      · exact hl
      · intro c hc
        show pre.startVa + u32 _ < _
        have := hr₂ c hc
        omega
    | none =>
      -- joined from below only: what is free above starts beyond the end of `take`
      have hroom := h.nex_none hw hnex
      rw [hpre, hnex] at hj
      cases hj
      have ho := h.order
      rw [List.append_assoc, List.singleton_append] at ho
      obtain ⟨ho₁, hl, hr⟩ := ho.sides
      have hwt := hw take (by simp)
      have hu : u32 (pre.size + take.size) = pre.size + take.size := u32_of_lt (by omega)
      rw [List.dropLast_concat]
      refine ho₁.between ?_ hl ?_
      · show 0 < u32 _
        omega
      · intro c hc
        show pre.startVa + u32 _ < _
        have := hroom c hc
        omega
  | none =>
    have hroom := h.pre_none hw hpre
    cases hnex : adjoiningNex hi take with
    | some nex =>
      -- joined from above only
      obtain ⟨hi', rfl, hadj'⟩ := Cut.nex hw hnex
      have hwn := hw nex (by simp)
      rw [hpre, hnex] at hj
      cases hj
      obtain ⟨ho₁, hl, hr⟩ := h.order.sides
      have hu : u32 (nex.size + take.size) = nex.size + take.size := u32_of_lt (by omega)
      rw [List.tail_cons]
      refine ho₁.between ?_ hroom ?_
      · show 0 < u32 _
        omega
      · intro c hc
        show take.startVa + u32 _ < _
        have := hr c hc
        omega
    | none =>
      -- nothing adjoins `take`, and nothing is joined
      rw [hpre, hnex] at hj
      cases hj

/-- When nothing joins, there is room for `take` between its neighbours. -/
theorem Cut.joinBetween_none (h : Cut take lo hi) (hw : NoWrap (lo ++ take :: hi))
    (hj : joinBetween lo hi take = none) : FreeOrder (lo ++ take :: hi) := by
  have hnone : adjoiningPre lo take = none ∧ adjoiningNex hi take = none := by
    unfold joinBetween at hj
    cases hpre : adjoiningPre lo take <;> cases hnex : adjoiningNex hi take <;>
      rw [hpre, hnex] at hj <;> simp_all
  exact h.order.between h.pos (h.pre_none hw hnone.1) (h.nex_none hw hnone.2)

end

/-! ## Carving -/

/-- A free list whose block gave up its front keeps the order. -/
theorem carved_order {found : Place BlockInfo} {size : Nat} (ho : FreeOrder found.list)
    (hw : NoWrap found.list) (hle : size ≤ found.elem.size) : FreeOrder (found.carved size) := by
  obtain ⟨ho', hl, hr⟩ := Ordered.sides ho
  have hu : u32 (found.elem.startVa + size) = found.elem.startVa + size := by
    have := hw found.elem (by simp [Place.list])
    exact u32_of_lt (by omega)
  unfold Place.carved
  split
  case isTrue => exact ho'
  case isFalse hne =>
    refine ho'.between (Nat.pos_of_ne_zero hne) ?_ ?_
    · intro b hb
      show _ < u32 _
      have := hl b hb
      omega
    · intro c hc
      show u32 _ + (found.elem.size - size) < _
      have := hr c hc
      omega

/-! ## The lowest gap that fits -/

/-- The addresses from `lo` up to `hi` that no taken block holds. -/
def unallocated (lo hi : Nat) (taken : List BlockInfo) : Set Nat :=
  {a | (lo ≤ a ∧ a < hi) ∧ ∀ b ∈ taken, a ∉ b.addrs}

/-- `va` answers a request for `n` bytes with the start of the lowest maximal run of `U` that is
long enough, and with 0 exactly when no run of pages is. -/
structure LowestFit (U : Set Nat) (n va : Nat) : Prop where
  lowest : va ≠ 0 → ∃ m, MaxRun U va m ∧ n ≤ m ∧ ∀ g k, MaxRun U g k → n ≤ k → va ≤ g
  null : va = 0 ↔ ¬ ∃ p, range (p * pageSize) n ⊆ U
  null' : va = 0 ↔ ¬ ∃ g k, MaxRun U g k ∧ n ≤ k

section

variable {lo hi n : Nat} {free taken taken' : List BlockInfo} {b : BlockInfo}

theorem BlockPartition.covered_free (hp : BlockPartition lo hi free taken) :
    Gaps.covered BlockInfo.startVa BlockInfo.size free = unallocated lo hi taken := by
  ext a
  have hle := hp.tiles.mult_le_one a
  rw [Cover.mult_append] at hle
  constructor
  · rintro ⟨b, hb, ha⟩
    refine ⟨(hp.tiles.2 a).2 ⟨b, List.mem_append_left _ hb, ha⟩, fun c hc hac => ?_⟩
    have h1 : 0 < mult BlockInfo.addrs free a := Cover.mult_pos_iff.2 ⟨b, hb, ha⟩
    have h2 : 0 < mult BlockInfo.addrs taken a := Cover.mult_pos_iff.2 ⟨c, hc, hac⟩
    omega
  · rintro ⟨hin, hnot⟩
    obtain ⟨b, hb, ha⟩ := (hp.tiles.2 a).1 hin
    rcases List.mem_append.1 hb with hb | hb
    · exact ⟨b, hb, ha⟩
    · exact absurd ha (hnot b hb)

theorem BlockPartition.noWrap (hhi : hi < 4294967296) (hp : BlockPartition lo hi free taken)
    {l : List BlockInfo} (hl : ∀ b ∈ l, b ∈ free ++ taken) : NoWrap l := by
  intro b hb
  have := (hp.wf b (hl b hb)).end_le
  omega

/-- Two taken blocks are one or share no address. -/
theorem BlockPartition.taken_apart (hp : BlockPartition lo hi free taken)
    (hpos : ∀ b ∈ taken, 0 < b.size) {c : BlockInfo} (hb : b ∈ taken) (hc : c ∈ taken)
    (hne : b ≠ c) : b.startVa + b.size ≤ c.startVa ∨ c.startVa + c.size ≤ b.startVa := by
  have hd := (List.pairwise_append.1 hp.tiles.1).2.1
  have : Std.Symm fun x y : BlockInfo => Disjoint x.addrs y.addrs := ⟨fun _ _ h => h.symm⟩
  have h1 := hpos b hb
  have h2 := hpos c hc
  rcases Cover.disjoint_range_iff.1 (hd.forall hb hc hne) with h | h | h | h
  · omega
  · omega
  · exact .inl h
  · exact .inr h

/-- Two taken blocks that start together are one. -/
theorem BlockPartition.start_inj (hp : BlockPartition lo hi free taken)
    (hpos : ∀ b ∈ taken, 0 < b.size) {c : BlockInfo} (hb : b ∈ taken) (hc : c ∈ taken)
    (he : b.startVa = c.startVa) : b = c := by
  by_contra hne
  have h1 := hpos b hb
  have h2 := hpos c hc
  rcases hp.taken_apart hpos hb hc hne with h | h <;> omega

/-- A taken block that is not empty shares no address with the free ones. -/
theorem BlockPartition.fits (hp : BlockPartition lo hi free taken) (ho : FreeOrder free)
    (htaken : taken.Perm (b :: taken')) (hb : 0 < b.size) : Fits b free := by
  refine ⟨hb, fun c hc => ?_⟩
  have hd : Disjoint c.addrs b.addrs := by
    rw [Set.disjoint_left]
    intro a hac hab
    have hle := hp.tiles.mult_le_one a
    have h1 : 0 < mult BlockInfo.addrs free a := Cover.mult_pos_iff.2 ⟨c, hc, hac⟩
    have h2 : 0 < mult BlockInfo.addrs taken a :=
      Cover.mult_pos_iff.2 ⟨b, by simp [htaken.mem_iff], hab⟩
    rw [Cover.mult_append] at hle
    omega
  have hpos := ho.pos c hc
  rcases Cover.disjoint_range_iff.1 hd with h | h | h | h
  · omega
  · omega
  · exact .inl h
  · exact .inr h

/-- The first free block that is large enough is the lowest gap that is. -/
theorem BlockPartition.lowestFit (hp : BlockPartition lo hi free taken) (ho : FreeOrder free)
    (hlo : 0 < lo) (hn : 0 < n) {va : Nat}
    (hva : (firstWhere (fun b => decide (b.size ≥ n)) free = none ∧ va = 0) ∨
      ∃ found, firstWhere (fun b => decide (b.size ≥ n)) free = some found ∧
        va = found.elem.startVa) :
    LowestFit (unallocated lo hi taken) n va := by
  rw [← hp.covered_free]
  rcases hva with ⟨hnone, rfl⟩ | ⟨found, hsome, rfl⟩
  · have hsmall : ∀ b ∈ free, b.size < n := by simpa using firstWhere_none.1 hnone
    refine ⟨fun h0 => absurd rfl h0, ⟨fun _ => ?_, fun _ => rfl⟩, ⟨fun _ => ?_, fun _ => rfl⟩⟩
    · -- a run of `n` addresses that are not allocated lies in one free block
      rintro ⟨p, hsub⟩
      obtain ⟨b, hb, h1, h2⟩ := ho.run_within hn hsub
      have := hsmall b hb
      omega
    · rintro ⟨g, k, hm, hk⟩
      obtain ⟨b, hb, -, rfl⟩ := ho.maxRun_iff.1 hm
      have := hsmall b hb
      omega
  · obtain ⟨hlist, hfit, hbefore⟩ := firstWhere_some hsome
    have hmem : found.elem ∈ free := by rw [hlist]; simp [Place.list]
    have hwf := hp.wf _ (List.mem_append_left _ hmem)
    have hle : n ≤ found.elem.size := by simpa using hfit
    have hrun := ho.maxRun_iff.2 ⟨found.elem, hmem, rfl, rfl⟩
    have hne : found.elem.startVa ≠ 0 := by
      have := hwf.start_le
      omega
    refine ⟨fun _ => ⟨_, hrun, hle, ?_⟩, ?_, ?_⟩
    · intro g k hm hk
      obtain ⟨b, hb, rfl, rfl⟩ := ho.maxRun_iff.1 hm
      rw [hlist] at hb ho
      obtain ⟨-, -, hr⟩ := Ordered.sides ho
      rcases List.mem_append.1 hb with hb | hb
      · -- the search passed it, so it is too small
        have : b.size < n := by simpa using hbefore b hb
        omega
      · rcases List.mem_cons.1 hb with rfl | hb
        · exact Nat.le_refl _
        · have := hr b hb
          omega
    · refine ⟨fun h0 => absurd h0 hne, fun h => absurd ?_ h⟩
      refine ⟨found.elem.startVa / pageSize, fun a ha => hrun.sub ?_⟩
      have hal := hwf.start_aligned
      rw [mem_range] at ha ⊢
      unfold pageSize at ha
      omega
    · exact ⟨fun h0 => absurd h0 hne, fun h => absurd ⟨_, _, hrun, hle⟩ h⟩

end

end Fos
