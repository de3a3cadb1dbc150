import Fos.KernelHeap.Calls

/-!
# The kernel heap partition

Under first fit and next fit `kmalloc` and `kfree` keep the two block lists a tiling of the kernel
heap, the page tables map exactly the pages of the taken blocks, and no two of them map one frame.
-/

namespace Fos

open Function (update)
open Prog (bind_eq_ok ok_inj)
open Cover (mult weight Tiles range mem_range)

/-! ## Pages of blocks -/

/-- The pages of a block. -/
def BlockInfo.pages (b : BlockInfo) : Set Nat := {p | p * 4096 ∈ b.addrs}

/-- The pages of the taken blocks. -/
def takenPages (taken : List BlockInfo) : Set Nat := {p | ∃ b ∈ taken, p ∈ b.pages}

theorem BlockInfo.WF.mem_pages {b : BlockInfo} (hb : b.WF) {p : Nat} :
    p ∈ b.pages ↔ b.startVa / 4096 ≤ p ∧ p < b.startVa / 4096 + b.size / 4096 := by
  obtain ⟨h1, h2, -, -⟩ := hb
  change b.startVa ≤ p * 4096 ∧ p * 4096 < b.startVa + b.size ↔ _
  omega

theorem BlockInfo.WF.pages_eq {b : BlockInfo} (hb : b.WF) :
    b.pages = range (b.startVa / 4096) (b.size / 4096) :=
  Set.ext fun _ => hb.mem_pages

/-- A block ends below the last page of the address space. -/
theorem BlockInfo.WF.end_page {b : BlockInfo} (hb : b.WF) :
    b.startVa / 4096 + b.size / 4096 < 1048576 := by
  have := hb.end_le
  unfold kernelHeapMax at this
  omega

theorem BlockInfo.WF.heapPage {b : BlockInfo} (hb : b.WF) {p : Nat} (hp : p ∈ b.pages) :
    HeapPage p := by
  obtain ⟨-, -, h3, h4⟩ := hb
  change b.startVa ≤ p * 4096 ∧ p * 4096 < b.startVa + b.size at hp
  rw [heapPage_iff]
  omega

theorem BlockInfo.WF.start_eq {b : BlockInfo} (hb : b.WF) :
    b.startVa = b.startVa / 4096 * 4096 := by
  have := hb.start_aligned
  omega

/-! ## The page tables of the heap -/

/-- The page tables map exactly the heap pages `M`, to distinct frames that are not free. -/
structure HeapMap (M : Set Nat) (s : Kern) : Prop where
  tables : HeapTables s
  present_iff : ∀ p, HeapPage p → (present (s.kernelTable p) ↔ p ∈ M)
  zero : ∀ p, HeapPage p → p ∉ M → s.kernelTable p = 0
  inj : ∀ p ∈ M, ∀ q ∈ M, ppn (s.kernelTable p) = ppn (s.kernelTable q) → p = q
  nodup : s.frames.freeFrameList.Nodup
  notFree : ∀ p ∈ M, ppn (s.kernelTable p) ∉ s.frames.freeFrameList

/-- The claims are about the boot tables and the free frames only. -/
theorem HeapMap.congr {M : Set Nat} {s s' : Kern} (hm : HeapMap M s)
    (hd : s'.kernelDirectory = s.kernelDirectory) (ht : s'.kernelTable = s.kernelTable)
    (hf : s'.frames.freeFrameList = s.frames.freeFrameList) : HeapMap M s' := by
  obtain ⟨h1, h2, h3, h4, h5, h6⟩ := hm
  refine ⟨?_, ?_, ?_, ?_, ?_, ?_⟩
  · unfold HeapTables
    rwa [hd]
  · rwa [ht]
  · rwa [ht]
  · rwa [ht]
  · rwa [hf]
  · rwa [ht, hf]

theorem HeapMap.setHeap {M : Set Nat} {s : Kern} (hm : HeapMap M s) (h : Heap) :
    HeapMap M (s.setHeap h) :=
  ⟨hm.tables, hm.present_iff, hm.zero, hm.inj, hm.nodup, hm.notFree⟩

/-- Mapping a fresh frame at an unmapped heap page adds the page. -/
theorem HeapMap.mapPage {M : Set Nat} {s : Kern} (hm : HeapMap M s) {f p : Nat} {rest : List Nat}
    (hf : s.frames.freeFrameList = f :: rest) (hp : p ∉ M) :
    HeapMap (insert p M) ((s.setFrames (s.frames.take f rest)).mapPage f p permWriteable) := by
  have hnd := hm.nodup
  rw [hf, List.nodup_cons] at hnd
  have hperm : permWriteable < 4096 := by decide
  have hfresh : ∀ q ∈ M, ppn (s.kernelTable q) ≠ f := by
    intro q hq he
    apply hm.notFree q hq
    rw [hf, he]
    exact List.mem_cons_self
  -- the table after the step, at `p` and elsewhere
  set s' := (s.setFrames (s.frames.take f rest)).mapPage f p permWriteable with hs'
  have hat : s'.kernelTable p = entryOf f permWriteable := by simp [hs']
  have hne : ∀ q, q ≠ p → s'.kernelTable q = s.kernelTable q := by
    intro q hq
    simp [hs', hq, Kern.setFrames]
  have hold : ∀ q ∈ M, s'.kernelTable q = s.kernelTable q := by
    rintro q hq
    exact hne q (by rintro rfl; exact hp hq)
  have hlist : s'.frames.freeFrameList = rest := rfl
  refine ⟨hm.tables, ?_, ?_, ?_, ?_, ?_⟩
  · intro q hq
    by_cases hqp : q = p
    · subst hqp
      rw [hat]
      simp [present_entryOf hperm]
    · rw [hne q hqp, hm.present_iff q hq]
      simp [hqp]
  · intro q hq hqM
    rw [Set.mem_insert_iff, not_or] at hqM
    rw [hne q hqM.1]
    exact hm.zero q hq hqM.2
  · rintro q (rfl | hq) r (rfl | hr) he
    · rfl
    · rw [hat, hold r hr, ppn_entryOf hperm] at he
      exact absurd he.symm (hfresh r hr)
    · rw [hat, hold q hq, ppn_entryOf hperm] at he
      exact absurd he (hfresh q hq)
    · rw [hold q hq, hold r hr] at he
      exact hm.inj q hq r hr he
  · rw [hlist]
    exact hnd.2
  · rintro q (rfl | hq)
    · rw [hat, ppn_entryOf hperm]
      exact hnd.1
    · rw [hold q hq, hlist]
      intro hmem
      apply hm.notFree q hq
      rw [hf]
      exact List.mem_cons_of_mem _ hmem

/-- What `decrement_references` may do to the free list: the frame is put in front. -/
theorem decrementReferences_list (fr : Frames) (f : Nat) :
    (fr.decrementReferences f).freeFrameList = fr.freeFrameList ∨
      (fr.decrementReferences f).freeFrameList = f :: fr.freeFrameList := by
  unfold Frames.decrementReferences
  dsimp only
  split
  · exact .inr rfl
  · exact .inl rfl

/-- Unmapping a mapped heap page removes the page. -/
theorem HeapMap.unmapPage {M : Set Nat} {s : Kern} (hm : HeapMap M s) {p : Nat} (hp : p ∈ M) :
    HeapMap (M \ {p}) (s.unmapPage p) := by
  have hnot := hm.notFree p hp
  set f := ppn (s.kernelTable p) with hf
  set s' := s.unmapPage p with hs'
  have hat : s'.kernelTable p = 0 := by simp [hs']
  have hne : ∀ q, q ≠ p → s'.kernelTable q = s.kernelTable q := by
    intro q hq
    simp [hs', hq]
  -- its frame joins the free list, or has other users
  have hlist : s'.frames.freeFrameList = s.frames.freeFrameList ∨
      s'.frames.freeFrameList = f :: s.frames.freeFrameList := by
    rw [hs', unmapPage_frames]
    exact decrementReferences_list _ _
  refine ⟨hm.tables, ?_, ?_, ?_, ?_, ?_⟩
  · intro q hq
    by_cases hqp : q = p
    · subst hqp
      rw [hat]
      simp [not_present_zero]
    · rw [hne q hqp, hm.present_iff q hq]
      simp [hqp]
  · intro q hq hqM
    by_cases hqp : q = p
    · rw [hqp, hat]
    · rw [hne q hqp]
      exact hm.zero q hq fun h => hqM ⟨h, hqp⟩
  · rintro q ⟨hq, hqp⟩ r ⟨hr, hrp⟩ he
    rw [hne q hqp, hne r hrp] at he
    exact hm.inj q hq r hr he
  · rcases hlist with h | h <;> rw [h]
    · exact hm.nodup
    · exact List.nodup_cons.2 ⟨hnot, hm.nodup⟩
  · rintro q ⟨hq, hqp⟩ hmem
    rw [hne q hqp] at hmem
    rcases hlist with h | h <;> rw [h] at hmem
    · exact hm.notFree q hq hmem
    · rcases List.mem_cons.1 hmem with he | hmem
      · exact hqp (hm.inj q hq p hp he)
      · exact hm.notFree q hq hmem

/-- The loop of `kmalloc` at a block none of whose pages was mapped, with what each turn that maps a
page to a free frame carries on. -/
theorem HeapMap.mapPages_keeps {M : Set Nat} {I : Nat → Kern → Prop} {s s' : Kern}
    {create : DirPtr → Nat → K TablePtr} {b : BlockInfo} (hm : HeapMap M s) (hb : b.WF)
    (hdisj : ∀ p ∈ b.pages, p ∉ M) (h0 : I 0 s)
    (hI : ∀ i t f rest p, t.frames.freeFrameList = f :: rest → I i t →
      I (i + 1) ((t.setFrames (t.frames.take f rest)).mapPage f p permWriteable))
    (h : mapPages (mapFrameWith create .boot) (b.size / pageSize) b.startVa s = .ok () s') :
    HeapMap (M ∪ b.pages) s' ∧ I (b.size / 4096) s' := by
  have hend := hb.end_page
  have hpages := hb.pages_eq
  rw [hb.start_eq] at h
  set p := b.startVa / 4096
  set n := b.size / 4096
  rw [hpages]
  refine mapPages_induct (P := fun i t => HeapMap (M ∪ range p i) t ∧ I i t) hend ?_ ?_ h
  · rw [Cover.range_zero, Set.union_empty]
    exact ⟨hm, h0⟩
  · rintro i hi t ⟨ht, hit⟩
    have hmem : p + i ∈ b.pages := by rw [hpages]; exact ⟨by omega, by omega⟩
    have hheap : HeapPage (p + i) := hb.heapPage hmem
    -- the page is neither taken nor one of those mapped before it
    have hnew : p + i ∉ M ∪ range p i := by
      rintro (hM | hr)
      · exact hdisj _ hmem hM
      · rw [mem_range] at hr
        omega
    refine ⟨hheap.kernelPage, ht.tables.pde hheap, ?_, fun f rest hf => ⟨?_, hI _ _ _ _ _ hf hit⟩⟩
    · rwa [ht.present_iff _ hheap]
    · rw [Cover.range_succ, Set.union_insert]
      exact ht.mapPage hf hnew

/-- The loop of `kmalloc` maps the pages of a block none of which was mapped. -/
theorem HeapMap.mapPages {M : Set Nat} {s s' : Kern} {create : DirPtr → Nat → K TablePtr}
    {b : BlockInfo} (hm : HeapMap M s) (hb : b.WF) (hdisj : ∀ p ∈ b.pages, p ∉ M)
    (h : mapPages (mapFrameWith create .boot) (b.size / pageSize) b.startVa s = .ok () s') :
    HeapMap (M ∪ b.pages) s' ∧ s'.heap = s.heap :=
  hm.mapPages_keeps (I := fun _ t => t.heap = s.heap) hb hdisj rfl (fun _ _ _ _ _ _ ht => ht) h

/-- It takes one free frame for each page. -/
theorem HeapMap.mapPages_length {M : Set Nat} {s s' : Kern} {create : DirPtr → Nat → K TablePtr}
    {b : BlockInfo} (hm : HeapMap M s) (hb : b.WF) (hdisj : ∀ p ∈ b.pages, p ∉ M)
    (h : Fos.mapPages (mapFrameWith create .boot) (b.size / pageSize) b.startVa s = .ok () s') :
    s'.frames.freeFrameList.length + b.size / 4096 = s.frames.freeFrameList.length := by
  refine (hm.mapPages_keeps (I := fun i t => t.frames.freeFrameList.length + i =
    s.frames.freeFrameList.length) hb hdisj rfl ?_ h).2
  intro i t f rest p hf hlen
  rw [hf, List.length_cons] at hlen
  show rest.length + (i + 1) = _
  omega

/-- The loop of `kfree` unmaps the pages of a block all of which were mapped. -/
theorem HeapMap.unmapPages {M : Set Nat} {s s' : Kern} {b : BlockInfo} (hm : HeapMap M s)
    (hb : b.WF) (hsub : b.pages ⊆ M)
    (h : unmapPages (b.size / pageSize) b.startVa s = .ok () s') :
    HeapMap (M \ b.pages) s' ∧ s'.heap = s.heap := by
  have hend := hb.end_page
  have hpages := hb.pages_eq
  rw [hb.start_eq] at h
  set p := b.startVa / 4096
  set n := b.size / 4096
  rw [hpages]
  -- after `i` turns the first `i` pages of the block are gone
  refine unmapPages_induct (P := fun i t => HeapMap (M \ range p i) t ∧ t.heap = s.heap) hend ?_ ?_ h
  · rw [Cover.range_zero, Set.sdiff_empty]
    exact ⟨hm, rfl⟩
  · rintro i hi t ⟨ht, htheap⟩
    have hmem : p + i ∈ b.pages := by rw [hpages]; exact ⟨by omega, by omega⟩
    have hheap : HeapPage (p + i) := hb.heapPage hmem
    have hold : p + i ∈ M \ range p i := by
      refine ⟨hsub hmem, fun hr => ?_⟩
      rw [mem_range] at hr
      omega
    refine ⟨hheap.kernelPage, ht.tables.pde hheap, ?_, fun _ _ => ⟨?_, htheap⟩⟩
    · intro hz
      have := (ht.present_iff _ hheap).2 hold
      rw [hz] at this
      exact absurd this not_present_zero
    · rw [Cover.range_succ, Set.insert_eq, Set.union_comm, ← Set.sdiff_sdiff]
      exact ht.unmapPage hold

/-! ## Allocation -/

/-- The front of a free block is a run of pages of the heap that no taken block meets. -/
theorem Heap.Partition.front {h : Heap} (hp : h.Partition) {found : Place BlockInfo}
    (hf : h.blockInfoFreeList = found.list) {b : BlockInfo} (hfit : b.size ≤ found.elem.size)
    (hst : b.startVa = found.elem.startVa) (hal : b.size % 4096 = 0) :
    b.WF ∧ ∀ p ∈ b.pages, p ∉ takenPages h.blockInfoTakenList := by
  have hb : BlockPartition _ _ _ (b :: h.blockInfoTakenList) :=
    BlockPartition.allocate kernelHeapMax_lt hp hf hst hal hfit (.refl _)
  refine ⟨hb.wf b (by simp), ?_⟩
  rintro p hpb ⟨c, hc, hpc⟩
  exact BlockPartition.front_apart hp hf hfit hst (p * 4096) hpb c hc hpc

/-- An allocation keeps the partition. -/
theorem Heap.Allocated.partition {h h' : Heap} {found : Place BlockInfo} {b : BlockInfo}
    (ha : h.Allocated h' found b) (hp : h.Partition) : h'.Partition := by
  unfold Heap.Partition
  rw [ha.free']
  exact BlockPartition.allocate kernelHeapMax_lt hp ha.free ha.start ha.aligned ha.fits ha.taken

theorem takenPages_perm {l l' : List BlockInfo} {b : BlockInfo} (h : l'.Perm (b :: l)) :
    takenPages l' = takenPages l ∪ b.pages := by
  ext p
  simp only [takenPages, Set.mem_union]
  constructor
  · rintro ⟨c, hc, hpc⟩
    rcases List.mem_cons.1 (h.mem_iff.1 hc) with rfl | hc
    · exact .inr hpc
    · exact .inl ⟨c, hc, hpc⟩
  · rintro (⟨c, hc, hpc⟩ | hpb)
    · exact ⟨c, h.mem_iff.2 (List.mem_cons_of_mem _ hc), hpc⟩
    · exact ⟨b, h.mem_iff.2 List.mem_cons_self, hpb⟩

/-- The kernel heap invariant: the lists tile the heap and the page tables map the taken blocks. -/
structure HeapInv (s : Kern) : Prop where
  part : s.heap.Partition
  map : HeapMap (takenPages s.heap.blockInfoTakenList) s

theorem HeapInv.allocated {s s₁ : Kern} {h' : Heap} {found : Place BlockInfo} {b : BlockInfo}
    (hi : HeapInv s) (ha : s.heap.Allocated h' found b)
    (hm : HeapMap (takenPages s.heap.blockInfoTakenList ∪ b.pages) s₁) :
    HeapInv (s₁.setHeap h') := by
  refine ⟨ha.partition hi.part, ?_⟩
  change HeapMap (takenPages h'.blockInfoTakenList) _
  rw [takenPages_perm ha.taken]
  exact hm.setHeap h'

/-- Mapping the pages that a search of the free list found leaves the block lists alone. -/
theorem HeapInv.mapPages_heap {create : DirPtr → Nat → K TablePtr} {s t : Kern} {size start : Nat}
    {h₁ : Heap} (hi : HeapInv s) (hfit : s.heap.Fits)
    (hsrc : s.heap.Source start (roundup size pageSize))
    (h : Fos.mapPages (mapFrameWith create .boot) (roundup size pageSize / pageSize) start
      (s.setHeap h₁) = .ok () t) : t.heap = h₁ := by
  have hsrc' : ∃ found : Place BlockInfo, s.heap.blockInfoFreeList = found.list ∧
      roundup size pageSize ≤ found.elem.size ∧ start = found.elem.startVa := by
    rcases hfit with hf | hf <;> rw [Heap.Source, hf] at hsrc <;> exact hsrc
  obtain ⟨found, hlist, hle, hstart⟩ := hsrc'
  obtain ⟨hb, hdisj⟩ := Heap.Partition.front hi.part (b := ⟨0, start, roundup size pageSize⟩) hlist
    hle hstart (roundup_mod size)
  exact ((hi.map.setHeap h₁).mapPages hb hdisj h).2

/-- Under first fit and next fit `kmalloc` keeps the kernel heap invariant and the strategy. -/
theorem kmalloc_heapInv {size va : Nat} {s s' : Kern} (hi : HeapInv s) (hfit : s.heap.Fits)
    (h : kmalloc size s = .ok va s') : HeapInv s' ∧ s'.heap.strategy = s.heap.strategy := by
  rcases kmallocWith_ok (fun _ _ _ => hi.mapPages_heap hfit) h with
    ⟨-, rfl⟩ | ⟨b, h', ha, -, -, h₁, s₁, hmap, rfl⟩
  · exact ⟨hi, rfl⟩
  · cases ha with
    | cont rest hst =>
      rcases hfit with hf | hf <;> rw [hst] at hf <;> cases hf
    | fit found _ ha =>
      obtain ⟨hb, hdisj⟩ := Heap.Partition.front hi.part ha.free ha.fits ha.start ha.aligned
      exact ⟨hi.allocated ha ((hi.map.setHeap h₁).mapPages hb hdisj hmap).1, ha.strategy⟩

/-! ## Release -/

/-- The pages left when a block leaves the taken list. -/
theorem takenPages_removed {l : List BlockInfo} {bi : Place BlockInfo} (hl : l = bi.list)
    (hd : ∀ a, mult BlockInfo.addrs l a ≤ 1) :
    takenPages bi.removed = takenPages l \ bi.elem.pages := by
  have hperm : l.Perm (bi.elem :: bi.removed) := by
    rw [hl]
    exact List.perm_middle
  rw [takenPages_perm hperm, Set.union_sdiff_right]
  symm
  rw [sdiff_eq_left, Set.disjoint_left]
  rintro p ⟨c, hc, hpc⟩ hp
  have h1 := hd (p * 4096)
  have h2 : 0 < mult BlockInfo.addrs bi.removed (p * 4096) := Cover.mult_pos_iff.2 ⟨c, hc, hpc⟩
  rw [Cover.mult_perm hperm, Cover.mult_cons,
    Cover.weight_of_mem (show p * 4096 ∈ bi.elem.addrs from hp)] at h1
  omega

/-- `kfree` keeps the kernel heap invariant and the strategy. -/
theorem kfree_heapInv {s s' : Kern} {va : Nat} (hi : HeapInv s) (h : kfree va s = .ok () s') :
    HeapInv s' ∧ s'.heap.strategy = s.heap.strategy := by
  rcases kfree_ok h with ⟨-, rfl⟩ | ⟨bi, s₁, h', -, hlist, -, hun, hc, rfl⟩
  · exact ⟨hi, rfl⟩
  have hperm : s.heap.blockInfoTakenList.Perm (bi.elem :: bi.removed) := by
    rw [hlist]
    exact List.perm_middle
  have hbwf : bi.elem.WF := hi.part.wf _ (by simp [hperm.mem_iff])
  -- no other taken block shares a page with the freed one
  have htiles : ∀ a, mult BlockInfo.addrs s.heap.blockInfoTakenList a ≤ 1 := by
    intro a
    have := hi.part.tiles.mult_le_one a
    rw [Cover.mult_append] at this
    omega
  have hsub : bi.elem.pages ⊆ takenPages s.heap.blockInfoTakenList := by
    rw [takenPages_perm hperm]
    exact Set.subset_union_right
  obtain ⟨hmap, hheap⟩ := hi.map.unmapPages hbwf hsub hun
  rw [hheap] at hc
  obtain ⟨X, Y, m, hco⟩ := coalescing_cases hc
  have htaken : h'.blockInfoTakenList = bi.removed := hco.taken
  refine ⟨⟨?_, ?_⟩, hco.strategy⟩
  · change BlockPartition _ _ h'.blockInfoFreeList h'.blockInfoTakenList
    rw [htaken]
    exact BlockPartition.release kernelHeapMax_lt hi.part hperm hco.toJoined
  · change HeapMap (takenPages h'.blockInfoTakenList) _
    rw [htaken, takenPages_removed hlist htiles]
    exact hmap.setHeap h'

end Fos
