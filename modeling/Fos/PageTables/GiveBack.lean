import Fos.KernelHeap.EmptyList
import Fos.PageTables.Empty
import Fos.PageTables.HeapBlocks

/-!
# Tables that are given back

`kfree` of an empty page table returns: the table is a block of the kernel heap, and its frame has
no other reference. `free_frame_list` grows by one frame for each table.
-/

namespace Fos

open Prog (bind_eq_ok bind_of_ok ok_inj)

/-- The block that `kfree` finds at `va`. -/
def Heap.BlockAt (h : Heap) (va size : Nat) : Prop :=
  ∃ b, h.blockInfoTakenList.find? (fun b => b.startVa = va) = some b ∧ b.size = size

/-- What is left when the page `p` was given back. -/
structure ReturnsPage (p : Nat) (s t : Kern) : Prop where
  free : t.frames.freeFrameList = s.kframe p :: s.frames.freeFrameList
  kernelTable : t.kernelTable p = 0
  freeBlocks : t.heap.blockInfoFreeList ≠ []
  blocks : ∀ va size, va ≠ p * 4096 → s.heap.BlockAt va size → t.heap.BlockAt va size

section

variable {c : BootConfig} {lay : Layout} {G D : Set Nat} {dirs : Roots} {held I J : Set Nat}
  {s t u : Kern} {dir d₀ : DirPtr} {i i₀ k n p va : Nat}

/-! ## The block of a table -/

theorem firstWhere_find? {α : Type} (p : α → Bool) (l : List α) :
    (firstWhere p l).map Place.elem = l.find? p := by
  induction l with
  | nil => rfl
  | cons x xs ih =>
    rw [firstWhere, List.find?_cons]
    cases hx : p x with
    | true => simp
    | false => simp [← ih, Function.comp_def]

/-- A block found at `va` is found there after another block left the list. -/
theorem find?_removed {bi : Place BlockInfo} (hne : bi.elem.startVa ≠ va) :
    bi.removed.find? (fun b => b.startVa = va) = bi.list.find? (fun b => b.startVa = va) := by
  simp [Place.removed, Place.list, List.find?_append, hne]

/-- One entry only maps the frame of an owned page. -/
theorem MemOk.references_owned (h : MemOk c.layout G D dirs held s) (hp : p ∈ G) :
    s.references (s.kframe p) = 1 := by
  have hm := h.accounted.mapping_owned hp
  have hone : RefPool.pointing (s.mapping (liveSlots c.layout dirs s)) (s.kframe p) = {bootSlot p} := by
    ext x
    constructor
    · exact fun hx => h.accounted.unshared p hp x hx
    · rintro rfl
      exact hm
  rw [h.counted.count _ (h.counted.inPool _ _ hm), hone, Set.ncard_singleton]
  rfl

/-- `kfree` of the block that is found, when its pages are unmapped and the free list takes it. -/
theorem kfree_found {bi : Place BlockInfo} {h' : Heap}
    (hbi : firstWhere (fun bi => decide (bi.startVa = va)) s.heap.blockInfoTakenList = some bi)
    (hun : unmapPages (bi.elem.size / pageSize) va s = .ok () t)
    (hc : { t.heap with blockInfoTakenList := bi.removed }.coalescing bi.elem = some h') :
    Fos.kfree va s = .ok () (t.setHeap h') := by
  rw [Fos.kfree, Prog.get_bind_apply, hbi]
  refine (bind_of_ok hun).trans ?_
  rw [Prog.get_bind_apply, hc]
  rfl

/-- `kfree` of the page of a table. -/
theorem MemOk.kfree_page (h : MemOk c.layout G D dirs held s) (hp : p ∈ G)
    (hb : s.heap.BlockAt (p * 4096) 4096) (hfree : s.heap.blockInfoFreeList ≠ []) :
    ∃ h', Fos.kfree (p * 4096) s = .ok () ((s.unmapPage p).setHeap h') ∧
      ReturnsPage p s ((s.unmapPage p).setHeap h') := by
  have hpage := h.owned.heapPage p hp
  have hm := h.accounted.mapping_owned hp
  have hpr := h.owned.mapped p hp
  have hlt : ppn (s.kernelTable p) < s.frames.numberOfFrames :=
    h.accounted.inRange _ (h.counted.inPool _ _ hm)
  obtain ⟨b, hfind, hsize⟩ := hb
  rw [← firstWhere_find?] at hfind
  obtain ⟨bi, hbi, rfl⟩ := Option.map_eq_some_iff.1 hfind
  obtain ⟨hlist, hstart, -⟩ := firstWhere_some hbi
  have hstart' : bi.elem.startVa = p * 4096 := by simpa using hstart
  -- the block is one page, so a single frame is unmapped
  have hun : unmapPages (bi.elem.size / pageSize) (p * 4096) s = .ok () (s.unmapPage p) := by
    have hrun := unmapFrame_kernel hpage.kernelPage (h.heap.tables.pde hpage)
    rw [if_neg (present_ne_zero hpr), if_neg (Nat.not_le_of_lt hlt)] at hrun
    rw [hsize, show 4096 / pageSize = 0 + 1 from rfl, unmapPages_succ, bind_of_ok hrun]
    rfl
  cases hc : { (s.unmapPage p).heap with blockInfoTakenList := bi.removed }.coalescing bi.elem with
  | none => exact absurd (coalescing_none.1 hc) hfree
  | some h' =>
    obtain ⟨X, Y, m, hco⟩ := coalescing_cases hc
    refine ⟨h', kfree_found hbi hun hc, ?_, ?_, ?_, ?_⟩
    · exact (decrementReferences_last (h.references_owned hp)).2
    · exact Function.update_self ..
    · intro hnil
      have hperm := hco.free'
      change h'.blockInfoFreeList = [] at hnil
      rw [hnil] at hperm
      exact absurd hperm.symm.eq_nil (List.cons_ne_nil _ _)
    · rintro va size hne ⟨b, hbf, hbs⟩
      refine ⟨b, ?_, hbs⟩
      show h'.blockInfoTakenList.find? _ = some b
      rw [hco.taken]
      show bi.removed.find? _ = some b
      rw [find?_removed (by omega), ← hlist]
      exact hbf

/-- **A table that maps nothing** is given back. -/
theorem MemOk.freeTable_total (h : MemOk c.layout G D dirs held s) (he : EmptyTable dirs s d₀ i₀ p)
    (hb : s.heap.BlockAt (p * 4096) 4096) (hfree : s.heap.blockInfoFreeList ≠ []) :
    ∃ t, (do Fos.kfree (p * 4096); writePde d₀ i₀ 0) s = .ok () t ∧ ReturnsPage p s t := by
  obtain ⟨hp, -, -⟩ := he.names h.directories
  obtain ⟨h', hk, hgive⟩ := h.kfree_page hp hb hfree
  set s₁ := (s.unmapPage p).setHeap h' with hs₁
  -- the page of the directory itself is not the one given back
  have hreach : s₁.ReachDir d₀ := by
    cases d₀ with
    | boot => trivial
    | heap d =>
      obtain ⟨r, hr, rfl, hrp⟩ := he.root_ne h.directories rfl
      refine ⟨by omega, (mapped_page _ _).2 ?_⟩
      show present (Function.update s.kernelTable p 0 r)
      rw [Function.update_of_ne hrp]
      exact h.owned.mapped r hr
  refine ⟨s₁.setPde d₀ i₀ 0, ?_, ?_, ?_, ?_, ?_⟩
  · rw [bind_of_ok hk]
    exact writePde_reach hreach (by have := he.index; omega)
  · rw [setPde_frames]
    exact hgive.free
  · rw [setPde_kernelTable]
    exact hgive.kernelTable
  · rw [setPde_heap]
    exact hgive.freeBlocks
  · rw [setPde_heap]
    exact hgive.blocks

/-- The tables of a directory are blocks of a page in the kernel heap. -/
def TableBlocks (dir : DirPtr) (s : Kern) : Prop :=
  ∀ i < 955, ∀ a, s.table dir i = some a → s.heap.BlockAt a 4096

/-- Where no block is empty, `kfree` finds the block of each table. -/
theorem MemOk.tableBlocks (h : MemOk lay G D dirs held s) (hdir : dir ∈ dirs)
    (hpos : ∀ b ∈ s.heap.blockInfoTakenList, 0 < b.size) : TableBlocks dir s := by
  intro i hi a ha
  obtain ⟨p, hp, rfl, -⟩ := h.directories.table_some hdir hi ha
  obtain ⟨b, hb, hstart, hsize⟩ := h.blocks p hp
  cases hf : s.heap.blockInfoTakenList.find? (fun b => b.startVa = p * 4096) with
  | none => exact absurd hstart (by simpa using List.find?_eq_none.1 hf b hb)
  | some b' =>
    have hstart' : b'.startVa = p * 4096 := by simpa using List.find?_some hf
    have hsame :=
      h.heap.start_inj hpos (List.mem_of_find?_eq_some hf) hb (hstart'.trans hstart.symm)
    exact ⟨b', hf, by rw [hsame, hsize]⟩

/-- The other tables stay blocks. -/
theorem ReturnsPage.tableBlocks (h : ReturnsPage p s t) (hb : TableBlocks dir s)
    (hd : Directories G dirs s) (he : EmptyTable dirs s dir i₀ p)
    (htab : ∀ i < 955, t.table dir i = if i = i₀ then none else s.table dir i) :
    TableBlocks dir t := by
  intro i hi a ha
  rw [htab i hi] at ha
  split at ha
  case isTrue => cases ha
  case isFalse hne =>
    apply h.blocks a 4096 _ (hb i hi a ha)
    obtain ⟨q, -, rfl, hpr, hn⟩ := hd.table_some he.dir hi ha
    intro hqp
    obtain rfl : q = p := by omega
    exact he.other hd he.dir hi (fun hc => hne hc.2) hpr hn

/-- **`freeMem` at the table of one page** returns. -/
theorem MemOk.freeEmptyTable_total (h : MemOk c.layout G D dirs held s) (hdir : dir ∈ dirs.page)
    (hva : va < userTop) (hb : TableBlocks dir s) (hfree : s.heap.blockInfoFreeList ≠ []) :
    ∃ t, Fos.freeEmptyTable dir va s = .ok () t ∧
      ∀ p, EmptyTable dirs s dir (pdx va) p → ReturnsPage p s t := by
  have hd := h.directories
  obtain ⟨hpdx, hlt⟩ := pdx_user hva
  have hi : pdx va < 955 := by omega
  have hget := getPageTable_user (hd.reachDir (.inl hdir)) hva (hd.pde_zero dir (.inl hdir) _ hi)
  cases ha : s.table dir (pdx va) with
  | none =>
    rw [ha] at hget
    refine ⟨s, freeEmptyTable_none hget, fun p he => ?_⟩
    rw [he.table] at ha
    cases ha
  | some a =>
    obtain ⟨p, hp, rfl, -⟩ := hd.table_some (.inl hdir) hi ha
    rw [ha] at hget
    have hne : TablePtr.heap (p * 4096) ≠ .null :=
      fun hn => (hd.owned.heapPage p hp).ne_zero (TablePtr.heap.inj hn)
    -- the directory names one table, so it is the one that is empty
    have hsame : ∀ q, EmptyTable dirs s dir (pdx va) q → q = p := by
      intro q he
      have hq := he.table
      rw [ha] at hq
      have := Option.some.inj hq
      omega
    by_cases hzero : ∀ j < 1024, s.entry (.heap (p * 4096), j) = 0
    · have he : EmptyTable dirs s dir (pdx va) p := ⟨.inl hdir, hi, ha, hzero⟩
      obtain ⟨t, hrun, hret⟩ := h.freeTable_total he (hb _ hi _ ha) hfree
      refine ⟨t, (freeEmptyTable_zero hget hne (hd.owned.reach hp) hzero).trans hrun,
        fun q hq => ?_⟩
      rw [hsame q hq]
      exact hret
    · refine ⟨s, freeEmptyTable_used hget (hd.owned.reach hp) hzero, fun q hq => absurd hq ?_⟩
      intro he
      rw [hsame q he] at he
      exact hzero he.zero

/-- What the loop over a range leaves of the tables `I` that it gives back. -/
structure ReturnsTables (dir : DirPtr) (I : Set Nat) (s t : Kern) : Prop where
  count : t.frames.freeFrameList.length = s.frames.freeFrameList.length + I.ncard
  kernelTable : ∀ p ∈ tableFrames s dir I, t.kernelTable p = 0

theorem emptyTables_finite (dirs : Roots) (s : Kern) (dir : DirPtr) (p n : Nat) :
    (emptyTables dirs s dir p n).Finite := by
  apply (Set.finite_lt_nat 955).subset
  rintro i ⟨-, q, he⟩
  exact he.index

/-- **The loop over the range** returns, and each table it gives back is one more free frame. -/
theorem MemOk.freeEmptyTables_total (h : MemOk c.layout G D dirs held s) (hdir : dir ∈ dirs.page)
    (hva : va + 4096 * n ≤ userTop) (hb : TableBlocks dir s) (hfree : s.heap.blockInfoFreeList ≠ []) :
    ∃ t, Fos.freeEmptyTables dir va n s = .ok () t ∧
      ReturnsTables dir (emptyTables dirs s dir (ppn va) n) s t := by
  induction n generalizing G s va with
  | zero =>
    have hnone : emptyTables dirs s dir (ppn va) 0 = ∅ := by
      ext i
      simp [emptyTables, rangeTables]
    refine ⟨s, rfl, ?_, ?_⟩
    · rw [hnone, Set.ncard_empty, Nat.add_zero]
    · rw [hnone]
      rintro p ⟨i, hi, -⟩
      exact hi.elim
  | succ n ih =>
    have hlt : va < userTop := by unfold userTop at hva ⊢; omega
    have hnext : u32 (va + 4096) = va + 4096 := u32_of_lt (by unfold userTop at hva; omega)
    have hppn : ppn (va + 4096) = ppn va + 1 := by unfold ppn; omega
    have hrest : va + 4096 + 4096 * n ≤ userTop := by omega
    obtain ⟨s₁, h₁, hret⟩ := h.freeEmptyTable_total hdir hlt hb hfree
    have hrun : ∀ t, Fos.freeEmptyTables dir (va + 4096) n s₁ = .ok () t →
        Fos.freeEmptyTables dir va (n + 1) s = .ok () t := by
      intro t ht
      rw [Fos.freeEmptyTables, bind_of_ok h₁, show u32 (va + pageSize) = va + 4096 from hnext]
      exact ht
    rcases h.freeEmptyTable hdir hlt h₁ with ⟨rfl, hnone⟩ | ⟨p, he, hok, hfrees, htab⟩
    · obtain ⟨t, h₂, hrets⟩ := ih h hrest hb hfree
      refine ⟨t, hrun t h₂, ?_⟩
      rw [emptyTables_skip hlt hnone, ← hppn]
      exact hrets
    · have hp := hret p he
      -- the table is given back, and the rest of the range counts on from there
      have hone := hfrees.freesTables he htab
      have hb₁ : TableBlocks dir s₁ := by
        apply hp.tableBlocks hb h.directories he
        intro i hi
        rw [htab dir (.inl hdir) i hi]
        simp
      obtain ⟨t, h₂, hrets⟩ := ih hok hrest hb₁ hp.freeBlocks
      obtain ⟨G', -, -, hft⟩ := hok.freeEmptyTables hdir hrest h₂
      have hgone : ∀ i ∈ emptyTables dirs s₁ dir (ppn (va + 4096)) n, i ≠ pdx va := by
        rintro i ⟨-, q, heq⟩ rfl
        have := heq.table
        rw [hone.gone _ rfl] at this
        cases this
      have htable : ∀ i < 955, i ≠ pdx va → s₁.table dir i = s.table dir i := by
        intro i hi hne
        rw [htab dir (.inl hdir) i hi, if_neg fun hc => hne hc.2]
      refine ⟨t, hrun t h₂, ?_⟩
      rw [hone.emptyTables_free hdir hlt (by unfold ppn userTop at *; omega) he, ← hppn]
      refine ⟨?_, ?_⟩
      · have hdisj : Disjoint {pdx va} (emptyTables dirs s₁ dir (ppn (va + 4096)) n) := by
          apply Set.disjoint_singleton_left.2
          exact fun hi => hgone _ hi rfl
        rw [hrets.count, hp.free, List.length_cons,
          Set.ncard_union_eq hdisj (Set.finite_singleton _) (emptyTables_finite ..),
          Set.ncard_singleton]
        omega
      · rintro q ⟨i, rfl | hi, hq⟩
        · -- the page of the first table is not mapped any more, so no other table is there
          have hqp := he.table
          rw [hq] at hqp
          obtain rfl : q = p := by have := Option.some.inj hqp; omega
          rw [hft.kernelTable, hp.kernelTable]
          rintro ⟨k, hk, hkq⟩
          obtain ⟨r, hr⟩ := hk.2
          obtain ⟨r', hr'G, hrr', -⟩ := hok.directories.table_some (.inl hdir) hr.index hkq
          obtain rfl : r' = q := by omega
          exact hr'G.2 rfl
        · apply hrets.kernelTable
          obtain ⟨r, hr⟩ := hi.2
          refine ⟨i, hi, ?_⟩
          rw [htable i hr.index (hgone i hi)]
          exact hq

end

end Fos
