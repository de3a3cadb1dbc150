import Mathlib.Order.Interval.Finset.Nat
import Fos.Boot
import Fos.Descriptors
import Fos.KernelHeap.Sizes
import Fos.KernelHeap.EmptyList
import Fos.KernelHeap.Tabled
import Fos.PageTables.Memory

/-!
# The block descriptors of the kernel

The three lists of the kernel heap partition the array of descriptors in every state of a run,
whatever strategies it goes through. Under `FIRST_FIT` and `NEXT_FIT` there are fewer blocks than
pages, and the array has more descriptors than that.
-/

namespace Fos

open Prog (bind_eq_ok ok_inj)
open Relation (ReflTransGen)

/-- `free_blocks`, the free list and the taken list partition `blocks_info`. -/
def Heap.SharesOut (h : Heap) : Prop :=
  ShareOut maxNumberOfBlocks h.blockInfoFreeList h.blockInfoTakenList h.freeBlocks

/-- One call, or a change of the strategy to any of the five. -/
inductive KheapStep : Kern → Kern → Prop
  | kmalloc {s t : Kern} {size va : Nat} (h : kmalloc size s = .ok va t) : KheapStep s t
  | kfree {s t : Kern} {va : Nat} (h : kfree va s = .ok () t) : KheapStep s t
  | setStrategy (st : KHeapPlacementStrategy) (s : Kern) : KheapStep s (setStrategy st s)

/-- What a run under any strategies carries on. -/
structure DescriptorInv (s : Kern) : Prop where
  shares : s.heap.SharesOut
  placed : ∀ b ∈ s.heap.blockInfoFreeList ++ s.heap.blockInfoTakenList, s.Placed b
  cursor_aligned : s.heap.lastVaInKheap % 4096 = 0
  cursor_lt : s.heap.lastVaInKheap < 4294967296
  tables : KernelTables s

section

variable {s t u : Kern} {b : BlockInfo} {h : Heap} {f id n p perm size va : Nat} {tbl : TablePtr}
  {found : Place BlockInfo}

theorem KernelTables.congr (h : KernelTables s) (hd : t.kernelDirectory = s.kernelDirectory) :
    KernelTables t :=
  ⟨by rw [hd]; exact h.user, by rw [hd]; exact h.kernel⟩

/-- The invariant is about the lists, the cursor and the tables of the boot directory. -/
theorem DescriptorInv.grow (hi : DescriptorInv s) (hh : t.heap = s.heap)
    (hmono : ∀ i, present (s.kernelDirectory i) → present (t.kernelDirectory i))
    (ht : KernelTables t) : DescriptorInv t := by
  refine ⟨by rw [hh]; exact hi.shares, fun b hb => ?_, by rw [hh]; exact hi.cursor_aligned,
    by rw [hh]; exact hi.cursor_lt, ht⟩
  rw [hh] at hb
  exact (hi.placed b hb).mono hmono

theorem DescriptorInv.congr (hi : DescriptorInv s) (hb : t.bookkeeping = s.bookkeeping) :
    DescriptorInv t := by
  obtain ⟨hh, hd⟩ := bookkeeping_eq hb
  exact hi.grow hh (fun i hp => by rwa [hd]) (hi.tables.congr hd)

/-- The state after a change of the lists. -/
theorem DescriptorInv.setHeap (hi : DescriptorInv s) (hs : h.SharesOut)
    (hblocks : ∀ c ∈ h.blockInfoFreeList ++ h.blockInfoTakenList,
      c ∈ s.heap.blockInfoFreeList ++ s.heap.blockInfoTakenList ∨ s.Placed c)
    (hal : h.lastVaInKheap % 4096 = 0) (hlt : h.lastVaInKheap < 4294967296) :
    DescriptorInv (s.setHeap h) := by
  refine ⟨hs, fun c hc => ?_, hal, hlt, hi.tables.congr rfl⟩
  have hc' : s.Placed c := by
    rcases hblocks c hc with hold | hnew
    · exact hi.placed c hold
    · exact hnew
  exact hc'.mono fun i hp => hp

/-! ## `CONT_ALLOC` -/

/-- The lists after `cont_allocation` places a block at the cursor. -/
def Heap.contTaken (h : Heap) (id size : Nat) (rest : List Nat) : Heap :=
  { (h.advance size).insertTaken ⟨id, h.lastVaInKheap, size⟩ with freeBlocks := rest }

/-- What `cont_allocation` did after it mapped the pages. -/
theorem contAllocation_cases {mapFrame : Nat → Nat → Nat → K Unit}
    (hk : contAllocation mapFrame size s = .ok va t) :
    (va = 0 ∧ t = s) ∨ ∃ u id rest,
      roundup size pageSize ≤ u32Sub kernelHeapMax s.heap.lastVaInKheap ∧
      mapPages mapFrame (roundup size pageSize / pageSize) s.heap.lastVaInKheap s = .ok () u ∧
      u.heap.freeBlocks = id :: rest ∧ va = u.heap.lastVaInKheap ∧
      t = u.setHeap (u.heap.contTaken id (roundup size pageSize) rest) := by
  rw [contAllocation, Prog.get_bind_apply, Prog.ite_run] at hk
  split at hk
  case isFalse =>
    obtain ⟨rfl, rfl⟩ := ok_inj.1 hk
    exact .inl ⟨rfl, rfl⟩
  case isTrue hle =>
    obtain ⟨_, u, hmap, hk⟩ := bind_eq_ok.1 hk
    rw [Prog.get_bind_apply, Prog.modify_bind_apply] at hk
    obtain ⟨id, v, halloc, hk⟩ := bind_eq_ok.1 hk
    obtain ⟨rest, hfree, rfl⟩ := kAllocateBlock_ok halloc
    obtain ⟨rfl, rfl⟩ := ok_inj.1 hk
    exact .inr ⟨u, id, rest, hle, hmap, hfree, rfl, rfl⟩

/-- What a cursor on a page boundary leaves of the space. -/
theorem cursor_room (hal : s.heap.lastVaInKheap % 4096 = 0)
    (hlt : s.heap.lastVaInKheap < 4294967296)
    (hle : size ≤ u32Sub kernelHeapMax s.heap.lastVaInKheap) :
    s.heap.lastVaInKheap + size ≤ 4294963200 := by
  have hmax : kernelHeapMax = 4294963200 := rfl
  rw [hmax] at hle
  unfold u32Sub u32 at hle
  omega

/-- The boot directory has the table, or it is made. -/
theorem pageTableWith_boot {create : DirPtr → Nat → K TablePtr}
    (hk : pageTableWith create .boot va s = .ok tbl t) :
    present (s.kernelDirectory (pdx va)) ∨
      (¬ present (s.kernelDirectory (pdx va)) ∧ create .boot va s = .ok tbl t) := by
  by_cases hp : present (s.kernelDirectory (pdx va))
  · exact .inl hp
  · refine .inr ⟨hp, ?_⟩
    obtain ⟨r, u, hget, hk⟩ := bind_eq_ok.1 hk
    by_cases hz : s.kernelDirectory (pdx va) = 0
    · rw [getPageTable_of_zero (by rw [readPde_boot, hz])] at hget
      obtain ⟨rfl, rfl⟩ := ok_inj.1 hget
      exact hk
    · rw [getPageTable, Prog.bind_of_ok (readPde_boot _ s), Prog.get_bind_apply, Prog.ite_run,
        if_neg hz, Prog.ite_run, if_neg hp] at hget
      split at hget <;> cases hget

theorem KernelTables.tabled (h : KernelTables s) (hp : p < 1048576)
    (hpr : present (s.kernelDirectory (p / 1024))) : s.Tabled p := by
  refine ⟨?_, hpr⟩
  by_contra hlt
  exact h.user (p / 1024) (by omega) hpr

/-- **A page table made while `cont_allocation` maps pages** takes a page at the cursor, which has a
table itself. -/
theorem kmallocNested_cont (hi : DescriptorInv s) (hst : s.heap.strategy = .contAlloc)
    (hk : kmallocNested pageSize s = .ok va t) :
    (va = 0 ∧ t = s) ∨ ∃ (u : Kern) (id : Nat) (rest : List Nat),
    s.Tabled (s.heap.lastVaInKheap / 4096) ∧
      u.bookkeeping = s.bookkeeping ∧ s.heap.freeBlocks = id :: rest ∧
      t = u.setHeap (s.heap.contTaken id 4096 rest) := by
  rw [kmallocNested, kmallocWith, Prog.get_bind_apply, hst] at hk
  rcases contAllocation_cases hk with hnull | ⟨u, id, rest, hle, hmap, hfree, -, rfl⟩
  · exact .inl hnull
  right
  rw [roundup_pageSize] at hle hmap ⊢
  have hal := hi.cursor_aligned
  have hlt := hi.cursor_lt
  have hpage : s.heap.lastVaInKheap = s.heap.lastVaInKheap / 4096 * 4096 := by omega
  have hpdx : pdx s.heap.lastVaInKheap = s.heap.lastVaInKheap / 4096 / 1024 := by unfold pdx; omega
  -- the one page of the table
  have htab : s.Tabled (s.heap.lastVaInKheap / 4096) := by
    rw [show 4096 / pageSize = 0 + 1 from rfl, mapPages_succ] at hmap
    obtain ⟨fi, s₁, halloc, hmap⟩ := bind_eq_ok.1 hmap
    obtain ⟨_, s₂, hframe, -⟩ := bind_eq_ok.1 hmap
    obtain ⟨tbl, s₃, htbl, -⟩ := bind_eq_ok.1 hframe
    have hd := (bookkeeping_eq (allocateFrame_keeps _ _ _ halloc)).2
    rcases pageTableWith_boot htbl with hp | ⟨-, hcreate⟩
    · rw [hd, hpdx] at hp
      exact hi.tables.tabled (by omega) hp
    · cases hcreate
  have hkeep : u.bookkeeping = s.bookkeeping := by
    rw [hpage] at hmap
    refine mapPages_tabled (n := 4096 / pageSize) (fun i hi => ?_) ?_ hmap
    · have : 4096 / pageSize = 1 := rfl
      obtain rfl : i = 0 := by omega
      exact htab
    · have : 4096 / pageSize = 1 := rfl
      omega
  have hh := (bookkeeping_eq hkeep).1
  rw [hh] at hfree ⊢
  exact ⟨u, id, rest, htab, hkeep, hfree, rfl⟩

/-- `create_page_table` links the table it makes. -/
theorem createPageTableWith_boot {kmalloc : Nat → K Nat}
    (hk : createPageTableWith kmalloc .boot va s = .ok tbl t) :
    ∃ add u w, kmalloc pageSize s = .ok add u ∧ add ≠ 0 ∧ present w ∧ t.heap = u.heap ∧
      t.kernelDirectory = Function.update u.kernelDirectory (pdx va) w := by
  obtain ⟨add, u, hkm, hk⟩ := bind_eq_ok.1 hk
  rw [Prog.ite_run] at hk
  split at hk
  case isTrue => cases hk
  case isFalse hne =>
    obtain ⟨pa, u₁, hpa, hk⟩ := bind_eq_ok.1 hk
    obtain ⟨hh₁, hd₁⟩ := bookkeeping_eq (kheapPhysicalAddress_keeps add _ _ _ hpa)
    obtain ⟨_, u₂, hpde, hk⟩ := bind_eq_ok.1 hk
    obtain ⟨_, u₃, hzero, hk⟩ := bind_eq_ok.1 hk
    obtain ⟨hh₃, hd₃⟩ := bookkeeping_eq (zeroWords_keeps 1024 add _ _ _ hzero)
    obtain ⟨-, rfl⟩ := ok_inj.1 hk
    obtain ⟨-, rfl⟩ := ok_inj.1 hpde
    refine ⟨add, u, constructEntry pa (permUser ||| permWriteable ||| permPresent), hkm, hne, ?_,
      hh₃.trans hh₁, ?_⟩
    · exact present_constructEntry_or pa (permUser ||| permWriteable)
    · rw [hd₃, ← hd₁]
      rfl

/-- A block placed at the cursor. -/
theorem DescriptorInv.contTaken (hi : DescriptorInv s) {rest : List Nat}
    (hfree : s.heap.freeBlocks = id :: rest) (hsize : size % 4096 = 0)
    (hb : s.Placed ⟨id, s.heap.lastVaInKheap, size⟩) :
    DescriptorInv (s.setHeap (s.heap.contTaken id size rest)) := by
  have hs := hi.shares
  unfold Heap.SharesOut at hs
  rw [hfree] at hs
  refine hi.setHeap (ShareOut.enter (b := ⟨id, s.heap.lastVaInKheap, size⟩) hs) ?_ ?_ ?_
  · intro c hc
    rcases List.mem_append.1 hc with hc | hc
    · exact .inl (List.mem_append_left _ hc)
    · rcases List.mem_cons.1 hc with rfl | hc
      · exact .inr hb
      · exact .inl (List.mem_append_right _ hc)
  · have hal := hi.cursor_aligned
    show u32 (s.heap.lastVaInKheap + size) % 4096 = 0
    unfold u32
    omega
  · exact u32_lt (s.heap.lastVaInKheap + size)

/-- The table of entry 956, the only one that is ever made. -/
theorem createPageTable_cont (hi : DescriptorInv s) (hst : s.heap.strategy = .contAlloc)
    (hle : s.heap.lastVaInKheap ≤ p * 4096) (hp : p < 1048576)
    (hnp : ¬ present (s.kernelDirectory (p / 1024)))
    (hk : createPageTableWith kmallocNested .boot (p * 4096) s = .ok tbl t) :
    DescriptorInv t ∧ (∀ i, present (s.kernelDirectory i) → present (t.kernelDirectory i)) ∧
      (∀ i, 955 ≤ i → i < 1024 → present (t.kernelDirectory i)) ∧
      977920 * 4096 ≤ s.heap.lastVaInKheap ∧
      t.heap.lastVaInKheap = s.heap.lastVaInKheap + 4096 := by
  obtain ⟨add, v, w, hkm, hne, hw, hheap, hdir⟩ := createPageTableWith_boot hk
  rcases kmallocNested_cont hi hst hkm with ⟨rfl, -⟩ | ⟨u, id, rest, htab, hkeep, hfree, rfl⟩
  · exact absurd rfl hne
  obtain ⟨hh, hd⟩ := bookkeeping_eq hkeep
  have hal := hi.cursor_aligned
  have hge := htab.1
  -- of the kernel's tables only that of entry 956 can be missing
  have hpage : p / 1024 = 956 := by
    by_contra h956
    exact hnp (hi.tables.kernel _ (by omega) (by omega) h956)
  have hdiff : s.heap.lastVaInKheap / 4096 ≠ p := by
    rintro rfl
    exact hnp htab.2
  have hpdx : pdx (p * 4096) = 956 := by unfold pdx; omega
  have hdir' : ∀ i, t.kernelDirectory i = if i = 956 then w else s.kernelDirectory i := by
    intro i
    rw [hdir, hpdx]
    change Function.update u.kernelDirectory 956 w i = _
    rw [hd, Function.update_apply]
  have hmono : ∀ i, present (s.kernelDirectory i) → present (t.kernelDirectory i) := by
    intro i hpr
    rw [hdir']
    split
    · exact hw
    · exact hpr
  have hall : ∀ i, 955 ≤ i → i < 1024 → present (t.kernelDirectory i) := by
    intro i h1 h2
    by_cases h956 : i = 956
    · rw [hdir', if_pos h956]
      exact hw
    · exact hmono i (hi.tables.kernel i h1 h2 h956)
  have htables : KernelTables t := by
    refine ⟨fun i hlt => ?_, fun i h1 h2 _ => hall i h1 h2⟩
    rw [hdir', if_neg (by omega)]
    exact hi.tables.user i hlt
  -- the table is the page at the cursor, and that page has its table
  have hplaced : s.Placed ⟨id, s.heap.lastVaInKheap, 4096⟩ := by
    refine ⟨hal, (by decide : 4096 % 4096 = 0), hi.cursor_lt, ?_, fun q h1 h2 => ?_⟩
    · show s.heap.lastVaInKheap + 4096 ≤ 4294967296
      omega
    · change s.heap.lastVaInKheap ≤ q * 4096 at h1
      change q * 4096 < s.heap.lastVaInKheap + 4096 at h2
      obtain rfl : q = s.heap.lastVaInKheap / 4096 := by omega
      exact htab
  refine ⟨(hi.contTaken hfree rfl hplaced).grow hheap hmono htables, hmono, hall, by omega, ?_⟩
  rw [hheap]
  show u32 (s.heap.lastVaInKheap + 4096) = _
  exact u32_of_lt (by omega)

/-- **Mapping the pages of `cont_allocation`** at or above the cursor. -/
theorem mapPages_cont (hi : DescriptorInv s) (hst : s.heap.strategy = .contAlloc)
    (hle : s.heap.lastVaInKheap ≤ p * 4096) (hend : p + n ≤ 1048575)
    (hk : mapPages (mapFrameWith (createPageTableWith kmallocNested) .boot) n (p * 4096) s = .ok () t) :
    DescriptorInv t ∧ ((t.bookkeeping = s.bookkeeping ∧ ∀ i < n, s.Tabled (p + i)) ∨
      (∀ i, 955 ≤ i → i < 1024 → present (t.kernelDirectory i)) ∧
      977920 * 4096 ≤ s.heap.lastVaInKheap ∧
      t.heap.lastVaInKheap = s.heap.lastVaInKheap + 4096) := by
  induction n generalizing p s with
  | zero =>
    obtain ⟨-, rfl⟩ := ok_inj.1 hk
    exact ⟨hi, .inl ⟨rfl, fun i hlt => absurd hlt (Nat.not_lt_zero i)⟩⟩
  | succ n ih =>
    rw [mapPages_succ, u32_page_succ (by omega)] at hk
    obtain ⟨fi, s₁, halloc, hk⟩ := bind_eq_ok.1 hk
    obtain ⟨_, s₂, hframe, hk⟩ := bind_eq_ok.1 hk
    obtain ⟨tbl, s₃, htbl, hin⟩ := bind_eq_ok.1 hframe
    have hk₁ := allocateFrame_keeps _ _ _ halloc
    have hi₁ := hi.congr hk₁
    obtain ⟨hh₁, hd₁⟩ := bookkeeping_eq hk₁
    have hpdx : pdx (p * 4096) = p / 1024 := by unfold pdx; omega
    rcases pageTableWith_boot htbl with hpr | ⟨hnp, hcreate⟩
    · -- the table exists
      rw [hpdx] at hpr
      have htab := hi₁.tables.tabled (by omega) hpr
      have hk₂ := (mapFrame_tabled htab (by omega) hframe).trans hk₁
      obtain ⟨hh₂, hd₂⟩ := bookkeeping_eq hk₂
      have hle' : s₂.heap.lastVaInKheap ≤ (p + 1) * 4096 := by
        rw [hh₂]
        exact Nat.le_trans hle (Nat.mul_le_mul_right 4096 (Nat.le_succ p))
      obtain ⟨hit, hcases⟩ := ih (hi.congr hk₂) (by rw [hh₂, hst]) hle' (by omega) hk
      rw [hh₂] at hcases
      refine ⟨hit, ?_⟩
      rcases hcases with ⟨hsame, hpages⟩ | hmade
      · refine .inl ⟨hsame.trans hk₂, fun i hlt => ?_⟩
        cases i with
        | zero => exact htab.mono fun j hj => by rwa [← hd₁]
        | succ i =>
          rw [show p + (i + 1) = p + 1 + i by omega]
          exact (hpages i (by omega)).mono fun j hj => by rwa [← hd₂]
      · exact .inr hmade
    · -- it is made, and the pages that follow have theirs
      rw [hpdx] at hnp
      obtain ⟨hi₃, -, hall, hge, hcur⟩ :=
        createPageTable_cont hi₁ (by rw [hh₁, hst]) (by rw [hh₁]; exact hle)
        (by omega) hnp hcreate
      rw [hh₁] at hge hcur
      have hk₂ := mapFrameIn_keeps _ _ _ _ _ _ _ _ hin
      obtain ⟨hh₂, hd₂⟩ := bookkeeping_eq hk₂
      have htabs : ∀ i < n, s₂.Tabled (p + 1 + i) := by
        intro i hi'
        refine ⟨by omega, ?_⟩
        rw [hd₂]
        exact hall _ (by omega) (by omega)
      have hkt := (mapPages_tabled htabs (by omega) hk).trans hk₂
      obtain ⟨hht, hdt⟩ := bookkeeping_eq hkt
      refine ⟨hi₃.congr hkt, .inr ⟨by rw [hdt]; exact hall, hge, by rw [hht]; exact hcur⟩⟩

theorem DescriptorInv.contAllocation (hi : DescriptorInv s) (hst : s.heap.strategy = .contAlloc)
    (hk : Fos.contAllocation (mapFrameWith (createPageTableWith kmallocNested) .boot) size s =
      .ok va t) : DescriptorInv t := by
  rcases contAllocation_cases hk with ⟨-, rfl⟩ | ⟨u, id, rest, hle, hmap, hfree, -, rfl⟩
  · exact hi
  have hal := hi.cursor_aligned
  have hmod : roundup size pageSize % 4096 = 0 := roundup_mod size
  have hroom := cursor_room hal hi.cursor_lt hle
  set n := roundup size pageSize / pageSize with hn
  have hsize : roundup size pageSize = n * 4096 :=
    (Nat.div_mul_cancel (Nat.dvd_of_mod_eq_zero hmod)).symm
  have hcursor : s.heap.lastVaInKheap = s.heap.lastVaInKheap / 4096 * 4096 := by omega
  set p := s.heap.lastVaInKheap / 4096 with hp
  rw [hcursor] at hmap
  -- a page table that is made on the way moves the cursor by one page
  obtain ⟨hu, hcases⟩ := mapPages_cont hi hst (Nat.le_of_eq hcursor) (by omega) hmap
  refine hu.contTaken hfree hmod ⟨hu.cursor_aligned, hmod, hu.cursor_lt, ?_, fun q h1 h2 => ?_⟩
  · show u.heap.lastVaInKheap + roundup size pageSize ≤ 4294967296
    rcases hcases with ⟨hsame, -⟩ | ⟨-, -, hcur⟩
    · rw [(bookkeeping_eq hsame).1]
      exact Nat.le_trans hroom (by decide)
    · rw [hcur, Nat.add_right_comm]
      exact Nat.add_le_add_right hroom 4096
  · change u.heap.lastVaInKheap ≤ q * 4096 at h1
    change q * 4096 < u.heap.lastVaInKheap + roundup size pageSize at h2
    rcases hcases with ⟨hsame, htabs⟩ | ⟨hall, hge, hcur⟩
    · obtain ⟨hh, hd⟩ := bookkeeping_eq hsame
      rw [hh] at h1 h2
      have htab := htabs (q - p) (by omega)
      rw [show p + (q - p) = q by omega] at htab
      exact htab.mono fun j hj => by rwa [hd]
    · rw [hcur] at h1 h2
      exact ⟨by omega, hall _ (by omega) (by omega)⟩

/-! ## `FIRST_FIT` and `NEXT_FIT` -/

/-- A block carved off the free list. -/
theorem DescriptorInv.carved (hi : DescriptorInv s) (hlist : s.heap.blockInfoFreeList = found.list)
    (hsize : size % 4096 = 0) (hle : size ≤ found.elem.size) {rest : List Nat}
    (hspare : (if (found.elem.carved size).size = 0 then found.elem.id :: s.heap.freeBlocks
      else s.heap.freeBlocks) = id :: rest)
    (hfree : h.blockInfoFreeList = found.carved size)
    (htaken : h.blockInfoTakenList.Perm (⟨id, found.elem.startVa, size⟩ :: s.heap.blockInfoTakenList))
    (hrest : h.freeBlocks = rest) (hal : h.lastVaInKheap % 4096 = 0)
    (hlt : h.lastVaInKheap < 4294967296) : DescriptorInv (s.setHeap h) := by
  have hmem : found.elem ∈ s.heap.blockInfoFreeList := by
    rw [hlist]
    simp [Place.list]
  have hplaced := hi.placed _ (List.mem_append_left _ hmem)
  have hs := hi.shares
  unfold Heap.SharesOut at hs
  rw [hlist] at hs
  -- the descriptor of a block that is used up is the first spare one
  have hnew := hs.allocate (b := ⟨id, found.elem.startVa, size⟩) hspare htaken
  refine hi.setHeap ?_ (fun c hc => ?_) hal hlt
  · unfold Heap.SharesOut
    rw [hfree, hrest]
    exact hnew
  · rcases List.mem_append.1 hc with hc | hc
    · rw [hfree] at hc
      rcases mem_carved hc with rfl | hc
      · exact .inr (hplaced.carved hsize hle)
      · exact .inl (List.mem_append_left _ (hlist ▸ hc))
    · rcases List.mem_cons.1 (htaken.mem_iff.1 hc) with rfl | hc
      · refine .inr ⟨hplaced.start_aligned, hsize, hplaced.start_lt, ?_, fun q h1 h2 => ?_⟩
        · exact Nat.le_trans (Nat.add_le_add_left hle _) hplaced.end_le
        · exact hplaced.tabled q h1 (Nat.lt_of_lt_of_le h2 (Nat.add_le_add_left hle _))
      · exact .inl (List.mem_append_right _ hc)

/-- The front of a placed block is mapped without making a table. -/
theorem Kern.Placed.mapPages {create : DirPtr → Nat → K TablePtr} (hb : s.Placed b)
    (hsize : size % 4096 = 0) (hle : size ≤ b.size)
    (hk : Fos.mapPages (mapFrameWith create .boot) (size / pageSize) b.startVa s = .ok () t) :
    t.bookkeeping = s.bookkeeping := by
  have hal := hb.start_aligned
  have hend := hb.end_le
  have hpages : pageSize = 4096 := rfl
  rw [show b.startVa = b.startVa / 4096 * 4096 by omega, hpages] at hk
  refine mapPages_tabled (fun i hlt => ?_) (by omega) hk
  exact hb.tabled _ (by omega) (by omega)

theorem DescriptorInv.firstFitAllocation (hi : DescriptorInv s) {create : DirPtr → Nat → K TablePtr}
    (hk : Fos.firstFitAllocation (mapFrameWith create .boot) size s = .ok va t) :
    DescriptorInv t := by
  have hmod := roundup_mod size
  rw [Fos.firstFitAllocation, Prog.get_bind_apply] at hk
  cases hfound : firstWhere (fun bi => decide (bi.size ≥ roundup size pageSize))
      s.heap.blockInfoFreeList with
  | none =>
    rw [hfound] at hk
    obtain ⟨-, rfl⟩ := ok_inj.1 hk
    exact hi
  | some found =>
    obtain ⟨hlist, hfit, -⟩ := firstWhere_some hfound
    have hle : roundup size pageSize ≤ found.elem.size := by simpa using hfit
    have hmem : found.elem ∈ s.heap.blockInfoFreeList := by
      rw [hlist]
      simp [Place.list]
    rw [hfound] at hk
    dsimp only at hk
    obtain ⟨_, u, hmap, hk⟩ := bind_eq_ok.1 hk
    -- a block lies where the page tables exist, so mapping it takes no further block
    have hkeep := (hi.placed _ (List.mem_append_left _ hmem)).mapPages hmod hle hmap
    have hu := hi.congr hkeep
    obtain ⟨hh, -⟩ := bookkeeping_eq hkeep
    rw [Prog.modify_bind_apply] at hk
    obtain ⟨id, v, halloc, hk⟩ := bind_eq_ok.1 hk
    obtain ⟨rest, hfree, rfl⟩ := kAllocateBlock_ok halloc
    rw [Prog.get_bind_apply] at hk
    simp only [Kern.setHeap] at hk
    cases hins : insertSorted ((u.heap.carve found (roundup size pageSize)).advance
        (roundup size pageSize)).blockInfoTakenList ⟨id, found.elem.startVa,
        roundup size pageSize⟩ with
    | none =>
      rw [hins] at hk
      cases hk
    | some taken =>
      rw [hins] at hk
      obtain ⟨-, rfl⟩ := ok_inj.1 hk
      have hlist' : u.heap.blockInfoFreeList = found.list := by rw [hh]; exact hlist
      refine hu.carved hlist' hmod hle hfree rfl
        (insertSorted_perm hins) rfl ?_ ?_
      · have hal := hu.cursor_aligned
        show u32 (u.heap.lastVaInKheap + roundup size pageSize) % 4096 = 0
        change roundup size pageSize % 4096 = 0 at hmod
        unfold u32
        omega
      · exact u32_lt _

theorem DescriptorInv.nextFitAllocation (hi : DescriptorInv s) {create : DirPtr → Nat → K TablePtr}
    (hk : Fos.nextFitAllocation (mapFrameWith create .boot) size s = .ok va t) :
    DescriptorInv t := by
  have hmod := roundup_mod size
  rw [Fos.nextFitAllocation, Prog.get_bind_apply] at hk
  cases hfound : nextFitSearch (roundup size pageSize) s.heap.lastVaInKheap []
      s.heap.blockInfoFreeList none with
  | none =>
    rw [hfound] at hk
    obtain ⟨-, rfl⟩ := ok_inj.1 hk
    exact hi
  | some found =>
    obtain ⟨hlist, hle⟩ := nextFitSearch_some (l := s.heap.blockInfoFreeList) rfl (by simp) hfound
    have hmem : found.elem ∈ s.heap.blockInfoFreeList := by
      rw [hlist]
      simp [Place.list]
    have hplaced := hi.placed _ (List.mem_append_left _ hmem)
    rw [hfound] at hk
    dsimp only at hk
    replace hk : (set _ >>= _ : K Nat) s = _ := hk
    rw [Prog.set_bind_apply] at hk
    obtain ⟨_, u, hmap, hk⟩ := bind_eq_ok.1 hk
    have hplaced' : (s.setHeap { s.heap.carve found (roundup size pageSize) with
        lastVaInKheap := found.elem.startVa }).Placed found.elem := hplaced.mono fun i hp => hp
    -- a block lies where the page tables exist, so mapping it takes no further block
    have hkeep := hplaced'.mapPages hmod hle hmap
    obtain ⟨hh, hd⟩ := bookkeeping_eq hkeep
    obtain ⟨id, v, halloc, hk⟩ := bind_eq_ok.1 hk
    obtain ⟨rest, hfree, rfl⟩ := kAllocateBlock_ok halloc
    obtain ⟨-, rfl⟩ := ok_inj.1 hk
    rw [hh] at hfree
    have hnew := hi.carved (h := { s.heap.carve found (roundup size pageSize) with
        lastVaInKheap := found.elem.startVa
        freeBlocks := rest
        blockInfoTakenList :=
          ⟨id, found.elem.startVa, roundup size pageSize⟩ :: s.heap.blockInfoTakenList })
      hlist hmod hle hfree rfl (.refl _) rfl hplaced.start_aligned hplaced.start_lt
    refine hnew.congr (Prod.ext ?_ hd)
    show Heap.insertTaken { u.heap with freeBlocks := rest } _ = _
    rw [hh]
    rfl

/-! ## Runs -/

theorem DescriptorInv.kmalloc (hi : DescriptorInv s) (hk : Fos.kmalloc size s = .ok va t) :
    DescriptorInv t := by
  rw [Fos.kmalloc, kmallocWith, Prog.get_bind_apply] at hk
  cases hst : s.heap.strategy with
  | contAlloc =>
    rw [hst] at hk
    exact hi.contAllocation hst hk
  | firstFit =>
    rw [hst] at hk
    exact hi.firstFitAllocation hk
  | nextFit =>
    rw [hst] at hk
    exact hi.nextFitAllocation hk
  | bestFit =>
    rw [hst] at hk
    obtain ⟨-, rfl⟩ := ok_inj.1 hk
    exact hi
  | worstFit =>
    rw [hst] at hk
    obtain ⟨-, rfl⟩ := ok_inj.1 hk
    exact hi

/-- Coalescing gives back the descriptors of the blocks that are no more. -/
theorem ShareOut.coalescing {n : Nat} {taken : List BlockInfo} {h' : Heap}
    (hs : ShareOut n h.blockInfoFreeList taken h.freeBlocks)
    (htaken : taken.Perm (b :: h.blockInfoTakenList)) (hc : h.coalescing b = some h') :
    ShareOut n h'.blockInfoFreeList h'.blockInfoTakenList h'.freeBlocks := by
  unfold Heap.coalescing at hc
  dsimp only at hc
  split at hc
  case h_1 free out hjoin =>
    cases hc
    rw [← List.takeWhile_append_dropWhile (p := fun curr : BlockInfo =>
      decide (curr.startVa ≤ b.startVa)) (l := h.blockInfoFreeList)] at hs
    exact hs.join htaken hjoin
  case h_2 =>
    obtain ⟨free, hfree, rfl⟩ := Option.map_eq_some_iff.1 hc
    exact hs.insert htaken hfree

theorem DescriptorInv.kfree (hi : DescriptorInv s) (hk : Fos.kfree va s = .ok () t) :
    DescriptorInv t := by
  rcases kfree_ok hk with ⟨-, rfl⟩ | ⟨bi, u, h', -, hlist, -, hun, hc, rfl⟩
  · exact hi
  -- unmapping leaves the descriptors alone, so only the two lists change
  have hkeep := unmapPages_keeps _ _ _ _ _ hun
  have hu := hi.congr hkeep
  obtain ⟨hh, -⟩ := bookkeeping_eq hkeep
  have hperm : u.heap.blockInfoTakenList.Perm (bi.elem :: bi.removed) := by
    rw [hh, hlist]
    exact List.perm_middle
  have hplaced : ∀ c ∈ bi.elem :: bi.removed, u.Placed c := fun c hc =>
    hu.placed c (List.mem_append_right _ (hperm.mem_iff.2 hc))
  obtain ⟨X, Y, m, hco⟩ := coalescing_cases hc
  have hfree : ∀ c ∈ X ++ Y, u.Placed c := fun c hc =>
    hu.placed c (List.mem_append_left _ (hco.free.mem_iff.2 hc))
  have hb := hplaced _ List.mem_cons_self
  refine hu.setHeap (ShareOut.coalescing (h := { u.heap with blockInfoTakenList := bi.removed })
    hu.shares hperm hc) (fun c hc => .inr ?_) ?_ ?_
  · rcases List.mem_append.1 hc with hc | hc
    · rcases List.mem_cons.1 (hco.free'.mem_iff.1 hc) with rfl | hc
      · exact hco.merge.placed hb fun c hc => hfree c (List.mem_append_left _ hc)
      · exact hfree c (List.mem_append_right _ hc)
    · rw [hco.taken] at hc
      exact hplaced c (List.mem_cons_of_mem _ hc)
  · rcases hco.cursor with hcur | ⟨-, hcur⟩
    · rw [hcur]
      exact hu.cursor_aligned
    · rw [hcur]
      exact hb.start_aligned
  · rcases hco.cursor with hcur | ⟨-, hcur⟩
    · rw [hcur]
      exact hu.cursor_lt
    · rw [hcur]
      exact hb.start_lt

theorem KheapStep.inv (hi : DescriptorInv s) (hstep : KheapStep s t) : DescriptorInv t := by
  cases hstep with
  | kmalloc hk => exact hi.kmalloc hk
  | kfree hk => exact hi.kfree hk
  | setStrategy st =>
    refine hi.setHeap hi.shares (fun c hc => .inl hc) hi.cursor_aligned hi.cursor_lt

/-! ## Boot -/

theorem bootHeap_sharesOut : bootHeap.SharesOut := by
  have hall : insertHeads 0 maxNumberOfBlocks [] =
      999999 :: 999998 :: 999997 :: insertHeads 0 999997 [] := rfl
  have hperm := insertHeads_perm maxNumberOfBlocks
  rw [hall] at hperm
  refine List.Perm.trans ?_ hperm
  exact .cons _ (.swap _ _ _)

theorem bootHeap_placed {c : BootConfig}
    (hd : ∀ i, s.kernelDirectory i = initializeKernelDirectory c i)
    (hb : b ∈ bootHeap.blockInfoFreeList ++ bootHeap.blockInfoTakenList) : s.Placed b := by
  have hwf := bootHeap_partition.wf b hb
  have hmax : kernelHeapMax = 4294963200 := rfl
  have hstart : kernelHeapStart = 4127195136 := rfl
  have hle := hwf.end_le
  have hge := hwf.start_le
  rw [hmax] at hle
  rw [hstart] at hge
  refine ⟨hwf.start_aligned, hwf.size_aligned, by omega, by omega, fun p h1 h2 => ?_⟩
  refine ⟨by omega, ?_⟩
  rw [hd]
  exact initializeKernelDirectory_present (.inr ⟨by omega, by omega⟩)

theorem descriptorInv_boot {c : BootConfig}
    (hboot : fosInitialize (initializePaging c) = .ok () s) : DescriptorInv s := by
  have hheap := (fosInitialize_heapInv hboot).1
  have hd := (fosInitialize_boot hboot).2.kernelDirectory
  refine ⟨?_, fun b hb => bootHeap_placed hd (by rwa [hheap] at hb), ?_, ?_, ?_, ?_⟩
  · rw [hheap]
    exact bootHeap_sharesOut
  · rw [hheap]
    rfl
  · rw [hheap]
    exact (by decide : (0xF6004000 : Nat) < 4294967296)
  · intro i hi
    rw [hd, initializeKernelDirectory_user hi]
    exact not_present_zero
  · intro i h1 h2 hne
    rw [hd]
    exact initializeKernelDirectory_present (by omega)

/-! ## Counting -/

/-- The pages of the kernel heap. -/
def kernelHeapPages : Nat := (kernelHeapMax - kernelHeapStart) / pageSize

/-- The descriptors that are not in `free_blocks`. -/
def Heap.inUse (h : Heap) : Nat := h.blockInfoFreeList.length + h.blockInfoTakenList.length

/-- No block is empty, so each has a page of its own. -/
theorem OrderInv.inUse_le (hi : OrderInv s) : s.heap.inUse ≤ kernelHeapPages := by
  have hpos : ∀ b ∈ s.heap.blockInfoFreeList ++ s.heap.blockInfoTakenList, 0 < b.size := by
    intro b hb
    rcases List.mem_append.1 hb with hb | hb
    · exact hi.order.pos b hb
    · exact hi.taken b hb
  have hwf : ∀ b ∈ s.heap.blockInfoFreeList ++ s.heap.blockInfoTakenList, b.WF := hi.heap.part.wf
  have hdisj := hi.heap.part.tiles.1
  unfold Heap.inUse
  rw [← List.length_append]
  -- blocks that are not empty begin at different pages of the heap
  have hcard := Cover.length_le_card BlockInfo.pages
    (S := Finset.Ico (kernelHeapStart / 4096) (kernelHeapMax / 4096)) (fun b => b.startVa / 4096)
    (hdisj.imp fun {b c} hbc => ?_) (fun b hb => ?_) (fun b hb => ?_)
  · rwa [Nat.card_Ico] at hcard
  · exact Set.disjoint_left.2 fun p hp hp' => Set.disjoint_left.1 hbc hp hp'
  · have hal := (hwf b hb).size_aligned
    have := hpos b hb
    rw [(hwf b hb).mem_pages]
    exact ⟨Nat.le_refl _, by omega⟩
  · have hal := (hwf b hb).size_aligned
    have := hpos b hb
    have hpage : b.startVa / 4096 ∈ b.pages := by
      rw [(hwf b hb).mem_pages]
      exact ⟨Nat.le_refl _, by omega⟩
    have hheap := (hwf b hb).heapPage hpage
    rw [Finset.mem_Ico]
    exact ⟨hheap.1, hheap.2⟩

/-! ## The panic -/

theorem kAllocateBlock_total (hfree : s.heap.freeBlocks ≠ []) :
    ∃ id t, kAllocateBlock s = .ok id t := by
  obtain ⟨id, rest, hcons⟩ := List.exists_cons_of_ne_nil hfree
  refine ⟨id, s.setHeap { s.heap with freeBlocks := rest }, ?_⟩
  rw [kAllocateBlock, Prog.get_bind_apply, hcons]
  rfl

theorem Heap.carve_ne_nil (hfree : h.freeBlocks ≠ []) : (h.carve found size).freeBlocks ≠ [] := by
  unfold Heap.carve
  dsimp only
  split
  · exact List.cons_ne_nil _ _
  · exact hfree

/-- `k_allocate_block` finds its list empty. -/
def NoFreeBlocks (size : Nat) (s : Kern) : Prop :=
  ∃ t, kmalloc size s = .error (.panic "Error no free blocks !!!!") t

/-- A `kmalloc` that finds a descriptor in `free_blocks` does not panic for want of one. -/
theorem HeapInv.not_noFreeBlocks (hi : HeapInv s) (hfit : s.heap.Fits)
    (hfree : s.heap.freeBlocks ≠ []) : ¬ NoFreeBlocks size s := by
  rintro ⟨t, hk⟩
  have hmod := roundup_mod size
  rw [Fos.kmalloc, kmallocWith, Prog.get_bind_apply] at hk
  rcases hfit with hst | hst <;> rw [hst] at hk <;> dsimp only at hk
  · -- first fit
    rw [Fos.firstFitAllocation, Prog.get_bind_apply] at hk
    cases hfound : firstWhere (fun bi => decide (bi.size ≥ roundup size pageSize))
        s.heap.blockInfoFreeList with
    | none =>
      rw [hfound] at hk
      cases hk
    | some found =>
      obtain ⟨hlist, hle, -⟩ := firstWhere_some hfound
      have hle' : roundup size pageSize ≤ found.elem.size := by simpa using hle
      obtain ⟨hb, hdisj⟩ := Heap.Partition.front hi.part
        (b := ⟨0, found.elem.startVa, roundup size pageSize⟩) hlist hle' rfl hmod
      rw [hfound] at hk
      dsimp only at hk
      -- either the pages are mapped, or the call faulted before it took a descriptor
      obtain ⟨u, hmap | hmap⟩ :=
        hi.map.mapPages_or_fault (createPageTableWith kmallocNested) hb hdisj
      · have hheap := (hi.map.mapPages hb hdisj hmap).2
        rw [Prog.bind_of_ok hmap, Prog.modify_bind_apply] at hk
        obtain ⟨id, v, halloc⟩ := kAllocateBlock_total
          (s := u.setHeap ((u.heap.carve found (roundup size pageSize)).advance (roundup size pageSize)))
          (Heap.carve_ne_nil (by rwa [hheap]))
        rw [Prog.bind_of_ok halloc, Prog.get_bind_apply] at hk
        cases hins : insertSorted v.heap.blockInfoTakenList
            ⟨id, found.elem.startVa, roundup size pageSize⟩ with
        | none =>
          rw [hins] at hk
          cases hk
        | some taken =>
          rw [hins] at hk
          cases hk
      · rw [Prog.bind_run, hmap] at hk
        cases hk
  · -- next fit carves before it maps
    rw [Fos.nextFitAllocation, Prog.get_bind_apply] at hk
    cases hfound : nextFitSearch (roundup size pageSize) s.heap.lastVaInKheap []
        s.heap.blockInfoFreeList none with
    | none =>
      rw [hfound] at hk
      cases hk
    | some found =>
      obtain ⟨hlist, hle⟩ := nextFitSearch_some (l := s.heap.blockInfoFreeList) rfl (by simp) hfound
      obtain ⟨hb, hdisj⟩ := Heap.Partition.front hi.part
        (b := ⟨0, found.elem.startVa, roundup size pageSize⟩) hlist hle rfl hmod
      rw [hfound] at hk
      dsimp only at hk
      replace hk : (set _ >>= _ : K Nat) s = _ := hk
      rw [Prog.set_bind_apply] at hk
      -- the lists that `mapPages` starts from
      set h' : Heap := { s.heap.carve found (roundup size pageSize) with
        lastVaInKheap := found.elem.startVa } with hh'
      obtain ⟨u, hmap | hmap⟩ := (hi.map.setHeap h').mapPages_or_fault
        (createPageTableWith kmallocNested) hb hdisj
      · have hheap := ((hi.map.setHeap h').mapPages hb hdisj hmap).2
        rw [Prog.bind_of_ok hmap] at hk
        obtain ⟨id, v, halloc⟩ := kAllocateBlock_total (s := u) (by
          rw [hheap]
          exact Heap.carve_ne_nil hfree)
        rw [Prog.bind_of_ok halloc] at hk
        cases hk
      · rw [Prog.bind_run, hmap] at hk
        cases hk

/-! ## The results -/

theorem SizedStep.kheapStep {ok : Nat → Prop} {x y : Kern × List Allocation}
    (hstep : SizedStep ok x y) : KheapStep x.1 y.1 := by
  cases hstep with
  | kmalloc _ _ hk => exact .kmalloc hk
  | kfree hk => exact .kfree hk
  | setFirstFit => exact .setStrategy .firstFit _
  | setNextFit => exact .setStrategy .nextFit _

theorem sharesOut_run {c : BootConfig} (hboot : fosInitialize (initializePaging c) = .ok () s)
    (hrun : ReflTransGen KheapStep s t) : DescriptorInv t :=
  Prog.invariant (descriptorInv_boot hboot) (fun _ _ hi hstep => hstep.inv hi) hrun

/-- With fewer blocks than descriptors one is in `free_blocks`. -/
theorem DescriptorInv.freeBlocks_ne_nil (hi : DescriptorInv s) (ho : OrderInv s) :
    s.heap.freeBlocks ≠ [] := by
  have hlen := ShareOut.length hi.shares
  have hle := ho.inUse_le
  have hpages : kernelHeapPages = 40959 := rfl
  have hmax : maxNumberOfBlocks = 1000000 := rfl
  unfold Heap.inUse at hle
  rw [← List.length_pos_iff]
  omega

end

/-- **The block descriptors of the kernel are conserved** in every run from boot, under any
strategies. Under first fit and next fit, with sizes from `1` to `2^32 - 4096`, no more are in use
than the heap has pages and one, and `k_allocate_block` does not panic. -/
theorem kernelDescriptors {c : BootConfig} {s₀ : Kern}
    (hboot : fosInitialize (initializePaging c) = .ok () s₀) :
    (∀ s, ReflTransGen KheapStep s₀ s → s.heap.SharesOut) ∧
      ∀ s live, ReflTransGen (SizedStep KernelRequestable) (s₀, []) (s, live) →
        s.heap.inUse ≤ kernelHeapPages + 1 ∧
          (s.heap.Fits → ∀ size, KernelRequestable size → ¬ NoFreeBlocks size s) := by
  refine ⟨fun s hrun => (sharesOut_run hboot hrun).shares, fun s live hrun => ?_⟩
  have hsized := sizedInv_run hboot hrun
  have hi : DescriptorInv s :=
    sharesOut_run hboot (hrun.lift Prod.fst fun _ _ hstep => hstep.kheapStep)
  refine ⟨Nat.le_succ_of_le hsized.order.inUse_le, fun hfit size _ => ?_⟩
  exact hsized.order.heap.not_noFreeBlocks hfit (hi.freeBlocks_ne_nil hsized.order)

theorem kernelDescriptors_small :
    (Prog.final (kmalloc 5000 (setStrategy .firstFit smallBoot))).heap.SharesOut ∧
      ¬ NoFreeBlocks 5000 (setStrategy .nextFit smallBoot) := by
  have hrun : kmalloc 5000 (setStrategy .firstFit smallBoot) = .ok 0xF6004000
      (Prog.final (kmalloc 5000 (setStrategy .firstFit smallBoot))) :=
    Prog.ok_of_value (by decide +kernel)
  obtain ⟨hshare, hsized⟩ := kernelDescriptors smallBoot_ok
  refine ⟨hshare _ (.tail (.tail .refl (.setStrategy .firstFit _)) (.kmalloc hrun)), ?_⟩
  exact (hsized _ _ (.tail .refl (.setNextFit _ _))).2 (.inr rfl) 5000 ⟨by decide, by decide⟩

end Fos
