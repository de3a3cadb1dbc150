import Fos.PageTables.User

/-!
# What kfree takes back

`kfree` of a block none of whose pages is owned unmaps its pages; the directories and whatever they
lead to stay.
-/

namespace Fos

open Function (update)
open Prog (bind_eq_ok ok_inj)
open Cover (range mem_range)

/-- Between `s` and `t` the pages `R` of the kernel space were unmapped, and nothing else changed
but the counts of their frames. -/
structure UnmapsOnly (R : Set Nat) (s t : Kern) : Prop where
  kernelTable : ∀ q, q ∉ R → t.kernelTable q = s.kernelTable q
  cleared : ∀ q ∈ R, t.kernelTable q = 0
  info : ∀ f, (∀ q ∈ R, f ≠ s.kframe q) → t.frames.info f = s.frames.info f
  free : s.frames.freeFrameList <:+ t.frames.freeFrameList
  freed : ∀ f ∈ t.frames.freeFrameList, f ∈ s.frames.freeFrameList ∨ ∃ q ∈ R, f = s.kframe q
  reset : ∀ f ∈ t.frames.freeFrameList, f ∈ s.frames.freeFrameList ∨ (t.frames.info f).va = 0
  numberOfFrames : t.frames.numberOfFrames = s.frames.numberOfFrames
  kernelDirectory : t.kernelDirectory = s.kernelDirectory
  ram : t.ram = s.ram
  disk : t.disk = s.disk
  envs : t.envs = s.envs
  shares : t.shares = s.shares

section

variable {lay : Layout} {G G' D : Set Nat} {dirs : Roots} {held : Set Nat} {s s' t : Kern}
  {dir : DirPtr} {f p n va : Nat} {b : BlockInfo}

theorem UnmapsOnly.refl (s : Kern) : UnmapsOnly ∅ s s :=
  ⟨fun _ _ => rfl, fun _ h => h.elim, fun _ _ => rfl, List.suffix_refl _, fun _ h => .inl h,
    fun _ h => .inl h, rfl, rfl, rfl, rfl, rfl, rfl⟩

theorem UnmapsOnly.setHeap {R : Set Nat} (h : UnmapsOnly R s t) (hp : Heap) :
    UnmapsOnly R s (t.setHeap hp) :=
  ⟨h.kernelTable, h.cleared, h.info, h.free, h.freed, h.reset, h.numberOfFrames, h.kernelDirectory,
    h.ram, h.disk, h.envs, h.shares⟩

/-- A frame that goes back to the free list loses the address kept for it. -/
theorem decrementReferences_va (fr : Frames) (f : Nat) :
    ((fr.decrementReferences f).freeFrameList = fr.freeFrameList ∧
      ∀ g, ((fr.decrementReferences f).info g).va = (fr.info g).va) ∨
    ((fr.decrementReferences f).freeFrameList = f :: fr.freeFrameList ∧
      ((fr.decrementReferences f).info f).va = 0) := by
  unfold Frames.decrementReferences
  dsimp only
  split
  case isTrue =>
    refine .inr ⟨rfl, ?_⟩
    simp [Frames.freeFrame, Frames.setInfo, initializeFrameInfo]
  case isFalse =>
    refine .inl ⟨rfl, fun g => ?_⟩
    by_cases hg : g = f
    · simp [Frames.setInfo, hg]
    · simp [Frames.setInfo, hg]

/-- One page more. -/
theorem UnmapsOnly.unmapPage {R : Set Nat} (h : UnmapsOnly R s t) (hp : p ∉ R) :
    UnmapsOnly (insert p R) s (t.unmapPage p) := by
  have hkt : t.kernelTable p = s.kernelTable p := h.kernelTable p hp
  refine ⟨fun q hq => ?_, fun q hq => ?_, fun g hg => ?_, ?_, fun g hg => ?_, fun g hg => ?_, ?_,
    h.kernelDirectory, h.ram, h.disk, h.envs, h.shares⟩
  · rw [Set.mem_insert_iff, not_or] at hq
    rw [unmapPage_kernelTable, Function.update_of_ne hq.1]
    exact h.kernelTable q hq.2
  · rw [unmapPage_kernelTable]
    by_cases hqp : q = p
    · rw [hqp, Function.update_self]
    · rw [Function.update_of_ne hqp]
      exact h.cleared q (hq.resolve_left hqp)
  · have hgp : g ≠ ppn (t.kernelTable p) := by
      rw [hkt]
      exact hg p (Set.mem_insert p R)
    rw [unmapPage_frames, decrementReferences_info_of_ne _ hgp]
    exact h.info g fun q hq => hg q (.inr hq)
  · rw [unmapPage_frames]
    rcases decrementReferences_list t.frames (ppn (t.kernelTable p)) with he | he <;> rw [he]
    · exact h.free
    · exact h.free.trans (List.suffix_cons _ _)
  · rw [unmapPage_frames] at hg
    -- what was free before the round stays among what is accounted for
    have hold : g ∈ t.frames.freeFrameList →
        g ∈ s.frames.freeFrameList ∨ ∃ q ∈ insert p R, g = s.kframe q := by
      intro hg
      exact (h.freed g hg).imp_right fun ⟨q, hq, he⟩ => ⟨q, .inr hq, he⟩
    rcases decrementReferences_list t.frames (ppn (t.kernelTable p)) with he | he <;> rw [he] at hg
    · exact hold hg
    · rcases List.mem_cons.1 hg with rfl | hg
      · refine .inr ⟨p, Set.mem_insert p R, ?_⟩
        rw [hkt]
        rfl
      · exact hold hg
  · rw [unmapPage_frames] at hg ⊢
    rcases decrementReferences_va t.frames (ppn (t.kernelTable p)) with ⟨hlist, hva⟩ | ⟨hlist, hva⟩
    · rw [hlist] at hg
      rw [hva]
      exact h.reset g hg
    · by_cases hgf : g = ppn (t.kernelTable p)
      · rw [hgf]
        exact .inr hva
      · rw [hlist] at hg
        rw [decrementReferences_info_of_ne _ hgf]
        exact h.reset g ((List.mem_cons.1 hg).resolve_left hgf)
  · rw [unmapPage_frames, decrementReferences_numberOfFrames]
    exact h.numberOfFrames

theorem unmapSlot_bootSlot (s : Kern) (p : Nat) : s.unmapSlot (bootSlot p) = s.unmapPage p := by
  unfold Kern.unmapSlot
  rw [setEntry_bootSlot, entry_bootSlot]
  rfl

/-- The loop of `kfree` over the mapped pages of a block none of which is owned. -/
theorem Accounted.unmapPages (h : Accounted lay G dirs held s) (hb : b.WF)
    (hnot : ∀ p ∈ b.pages, p ∉ G) (hmapped : ∀ p ∈ b.pages, present (s.kernelTable p))
    (hm : unmapPages (b.size / pageSize) b.startVa s = .ok () s') :
    Accounted lay G dirs held s' ∧ UnmapsOnly b.pages s s' ∧ s'.heap = s.heap := by
  have hend := hb.end_page
  have hpages := hb.pages_eq
  rw [hb.start_eq] at hm
  rw [hpages]
  set p := b.startVa / 4096
  set n := b.size / 4096
  -- after `i` turns the first `i` pages are clear
  refine unmapPages_induct (P := fun i t => Accounted lay G dirs held t ∧
    UnmapsOnly (range p i) s t ∧ t.heap = s.heap) hend ?_ ?_ hm
  · rw [Cover.range_zero]
    exact ⟨h, .refl s, rfl⟩
  · rintro i hi t ⟨hacc, honly, hheap⟩
    have hmem : p + i ∈ b.pages := by rw [hpages]; exact ⟨by omega, by omega⟩
    have hpage : HeapPage (p + i) := hb.heapPage hmem
    have hnotR : p + i ∉ range p i := by
      rw [mem_range]
      omega
    have hpr : present (t.kernelTable (p + i)) := by
      rw [honly.kernelTable _ hnotR]
      exact hmapped _ hmem
    refine ⟨hpage.kernelPage, hacc.directories.heapTables.pde hpage,
      fun h0 => absurd h0 (present_ne_zero hpr), fun _ _ => ⟨?_, ?_, hheap⟩⟩
    · rw [← unmapSlot_bootSlot]
      refine hacc.unmapSlot ⟨bootSlot_live (lay.heap_dynamic _ hpage), fun q hq he => ?_⟩ ?_
      · exact hnot _ hmem (bootSlot_inj he ▸ hq)
      · rwa [entry_bootSlot]
    · rw [Cover.range_succ]
      exact honly.unmapPage hnotR

/-- The lists of the kernel heap without the block. -/
theorem HeapOk.release (hs : HeapOk s) {bi : Place BlockInfo} {h' : Heap}
    (hlist : s.heap.blockInfoTakenList = bi.list)
    (hc : { s.heap with blockInfoTakenList := bi.removed }.coalescing bi.elem = some h')
    (hm : UnmapsOnly bi.elem.pages s s') :
    HeapOk (s'.setHeap h') ∧ s.heap.blockInfoTakenList.Perm (bi.elem :: h'.blockInfoTakenList) ∧
      h'.strategy = s.heap.strategy := by
  obtain ⟨X, Y, m, hco⟩ := coalescing_cases hc
  have htaken : h'.blockInfoTakenList = bi.removed := hco.taken
  have hperm : s.heap.blockInfoTakenList.Perm (bi.elem :: h'.blockInfoTakenList) := by
    rw [hlist, htaken]
    exact List.perm_middle
  -- the block that goes overlapped none of those that stay
  have happ := (hperm.pairwise_iff fun hab => hab.symm).1 hs.apart
  rw [List.pairwise_cons] at happ
  have hmem : ∀ c ∈ h'.blockInfoTakenList, c ∈ s.heap.blockInfoTakenList :=
    fun c hc => hperm.mem_iff.2 (.tail _ hc)
  have hpages : takenPages s.heap.blockInfoTakenList =
      takenPages h'.blockInfoTakenList ∪ bi.elem.pages := takenPages_perm hperm
  have hnot : ∀ p ∈ bi.elem.pages, p ∉ takenPages h'.blockInfoTakenList := by
    rintro p hp ⟨c, hc, hpc⟩
    exact Set.disjoint_left.1 (happ.1 c hc) hp hpc
  refine ⟨⟨?_, fun c hc => hs.wf c (hmem c hc), happ.2, ?_, ?_, ?_⟩, hperm, hco.strategy⟩
  · show HeapTables s'
    unfold HeapTables
    rw [hm.kernelDirectory]
    exact hs.tables
  · intro p hp
    show present (s'.kernelTable p) ↔ p ∈ takenPages h'.blockInfoTakenList
    by_cases hpb : p ∈ bi.elem.pages
    · rw [hm.cleared p hpb]
      exact iff_of_false not_present_zero (hnot p hpb)
    · rw [hm.kernelTable p hpb, hs.present_iff p hp, hpages]
      exact ⟨fun h => h.resolve_right hpb, .inl⟩
  · intro p hp hnotp
    show s'.kernelTable p = 0
    by_cases hpb : p ∈ bi.elem.pages
    · exact hm.cleared p hpb
    · rw [hm.kernelTable p hpb]
      refine hs.zero p hp ?_
      rw [hpages]
      rintro (h | h)
      · exact hnotp h
      · exact hpb h
  · have hok := hs.source
    show h'.SourceOk
    unfold Heap.SourceOk at hok ⊢
    have hst : h'.strategy = s.heap.strategy := hco.strategy
    have hpart : s.heap.Partition → h'.Partition := by
      intro hp
      show BlockPartition _ _ h'.blockInfoFreeList h'.blockInfoTakenList
      rw [htaken]
      refine BlockPartition.release kernelHeapMax_lt hp ?_ hco.toJoined
      rw [← htaken]
      exact hperm
    rw [hst]
    cases hstr : s.heap.strategy <;> rw [hstr] at hok
    case contAlloc =>
      -- only next fit moves the cursor
      have hcur : h'.lastVaInKheap = s.heap.lastVaInKheap := by
        rcases hco.cursor with he | ⟨he, -⟩
        · exact he
        · rw [show s.heap.strategy = .nextFit from he] at hstr
          cases hstr
      rw [hcur]
      exact ⟨hok.1, hok.2.1, hok.2.2.1, fun c hc => hok.2.2.2 c (hmem c hc)⟩
    case firstFit => exact hpart hok
    case nextFit => exact hpart hok
    case bestFit | worstFit => trivial

/-- **What `kfree` does** to a block none of whose pages is owned. -/
theorem MemOk.kfree (h : MemOk lay G D dirs held s) (hk : Fos.kfree va s = .ok () s')
    (hnot : ∀ b ∈ s.heap.blockInfoTakenList, b.startVa = va → ∀ p ∈ b.pages, p ∉ G) :
    ((∀ b ∈ s.heap.blockInfoTakenList, b.startVa ≠ va) ∧ s' = s) ∨
    ∃ b ∈ s.heap.blockInfoTakenList, b.WF ∧ b.startVa = va ∧ UnmapsOnly b.pages s s' ∧
      s.heap.blockInfoTakenList.Perm (b :: s'.heap.blockInfoTakenList) ∧
      s'.heap.strategy = s.heap.strategy ∧ MemOk lay G D dirs held s' := by
  rcases kfree_ok hk with hnone | ⟨bi, s₁, h', -, hlist, hstart, hun, hc, rfl⟩
  · exact .inl hnone
  have hmem : bi.elem ∈ s.heap.blockInfoTakenList := by
    rw [hlist]
    exact List.mem_append_right _ List.mem_cons_self
  have hb := h.heap.wf _ hmem
  have hnotG := hnot _ hmem hstart
  -- every page of the block is mapped, so the loop clears them all
  have hmapped : ∀ p ∈ bi.elem.pages, present (s.kernelTable p) := fun p hp =>
    (h.heap.present_iff p (hb.heapPage hp)).2 ⟨bi.elem, hmem, hp⟩
  obtain ⟨hacc, honly, hheap⟩ := h.accounted.unmapPages hb hnotG hmapped hun
  rw [hheap] at hc
  obtain ⟨hok, hperm, hst⟩ := h.heap.release hlist hc honly
  refine .inr ⟨bi.elem, hmem, hb, hstart, honly.setHeap h', hperm, hst, hacc.setHeap h', hok, ?_,
    fun p hp => h.data_congr (fun q hq => honly.kernelTable q fun hqb => hnotG q hqb hq) ?_ hp⟩
  case refine_2 =>
    intro dir hdir i hi
    refine h.directories.pde_congr (fun q hq => honly.kernelTable q fun hqb => hnotG q hqb hq)
      (fun _ _ => ?_) ?_ hdir
    · show s₁.ram _ = _
      rw [honly.ram]
    · show s₁.kernelDirectory i = _
      rw [honly.kernelDirectory]
  intro p hp
  obtain ⟨c, hcm, hcs, hcz⟩ := h.blocks p hp
  refine ⟨c, ?_, hcs, hcz⟩
  rcases List.mem_cons.1 (hperm.mem_iff.1 hcm) with rfl | hc'
  · -- the block of an owned page is not the one given back
    have hpp : p ∈ bi.elem.pages := by
      rw [hb.pages_one hcs hcz]
      exact rfl
    exact absurd hp (hnotG p hpp)
  · exact hc'

end

end Fos
