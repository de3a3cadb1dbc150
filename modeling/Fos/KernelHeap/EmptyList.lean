import Fos.KernelHeap.Runs
import Fos.KernelHeap.Tabled
import Fos.PageTables.Boot

/-!
# `kfree` on an empty free list

`insert_sorted` compares with the first free block before it asks whether there is one. Once the
whole kernel heap is taken, a `kfree` unmaps its pages and then follows a null pointer.
-/

namespace Fos

open Function (update)
open Relation (ReflTransGen)
open Prog (bind_eq_ok bind_of_ok ok_inj)

/-- `kfree` follows no null pointer. -/
def KfreeSafe (va : Nat) (s : Kern) : Prop := ∀ t, kfree va s ≠ .error .fault t

/-! ## Coalescing -/

theorem insertSorted_none {l : List BlockInfo} {elem : BlockInfo} :
    insertSorted l elem = none ↔ l = [] := by
  constructor
  · intro hnone
    by_contra hl
    unfold insertSorted at hnone
    rw [List.head?_eq_some_head hl, List.getLast?_eq_some_getLast hl] at hnone
    dsimp only at hnone
    split at hnone
    · cases hnone
    · split at hnone <;> cases hnone
  · rintro rfl
    rfl

/-- Coalescing fails on the empty list only. -/
theorem coalescing_none {h : Heap} {take : BlockInfo} :
    h.coalescing take = none ↔ h.blockInfoFreeList = [] := by
  unfold Heap.coalescing
  dsimp only
  constructor
  · intro hnone
    cases hj : joinBetween (h.blockInfoFreeList.takeWhile fun curr => curr.startVa ≤ take.startVa)
        (h.blockInfoFreeList.dropWhile fun curr => curr.startVa ≤ take.startVa) take with
    | some r =>
      rw [hj] at hnone
      cases hnone
    | none =>
      rw [hj] at hnone
      exact insertSorted_none.1 (Option.map_eq_none_iff.1 hnone)
  · intro hl
    rw [hl]
    rfl

/-! ## The loops return -/

/-- The frames behind the heap pages and the free frames are frames of the machine. -/
structure FramesExist (s : Kern) : Prop where
  mapped : ∀ p, HeapPage p → s.kernelTable p ≠ 0 → ppn (s.kernelTable p) < s.frames.numberOfFrames
  free : ∀ f ∈ s.frames.freeFrameList, f < s.frames.numberOfFrames

section

variable {s s' : Kern} {p n size va : Nat}

theorem FramesExist.mapPage (he : FramesExist s) {f : Nat} {rest : List Nat}
    (hf : s.frames.freeFrameList = f :: rest) :
    FramesExist ((s.setFrames (s.frames.take f rest)).mapPage f p permWriteable) := by
  refine ⟨fun q hq hne => ?_, fun g hg => ?_⟩
  · rw [mapPage_kernelTable] at hne ⊢
    by_cases hqp : q = p
    · subst hqp
      rw [Function.update_self, ppn_entryOf (by decide)]
      apply he.free
      rw [hf]
      exact List.mem_cons_self
    · rw [Function.update_of_ne hqp] at hne ⊢
      exact he.mapped q hq hne
  · apply he.free
    rw [hf]
    exact List.mem_cons_of_mem _ hg

theorem FramesExist.unmapPage (he : FramesExist s)
    (hlt : ppn (s.kernelTable p) < s.frames.numberOfFrames) : FramesExist (s.unmapPage p) := by
  have hn : (s.unmapPage p).frames.numberOfFrames = s.frames.numberOfFrames :=
    decrementReferences_numberOfFrames _ _
  refine ⟨fun q hq hne => ?_, fun g hg => ?_⟩
  · rw [hn]
    rw [unmapPage_kernelTable] at hne ⊢
    by_cases hqp : q = p
    · subst hqp
      rw [Function.update_self] at hne
      exact absurd rfl hne
    · rw [Function.update_of_ne hqp] at hne ⊢
      exact he.mapped q hq hne
  · rw [hn]
    rw [unmapPage_frames] at hg
    rcases decrementReferences_list s.frames (ppn (s.kernelTable p)) with hl | hl
    · rw [hl] at hg
      exact he.free g hg
    · rw [hl] at hg
      rcases List.mem_cons.1 hg with rfl | hg
      · exact hlt
      · exact he.free g hg

/-- The loop of `kfree` returns. -/
theorem unmapPages_total (he : FramesExist s) (ht : HeapTables s) (hp : ∀ i < n, HeapPage (p + i)) :
    ∃ s', unmapPages n (p * 4096) s = .ok () s' ∧ FramesExist s' := by
  induction n generalizing p s with
  | zero => exact ⟨s, rfl, he⟩
  | succ n ih =>
    have hp0 : HeapPage p := hp 0 (by omega)
    have hstep : ∃ s₁, unmapFrame .boot (p * 4096) s = .ok () s₁ ∧ FramesExist s₁ ∧
        HeapTables s₁ := by
      rw [unmapFrame_kernel hp0.kernelPage (ht.pde hp0)]
      by_cases h0 : s.kernelTable p = 0
      · rw [if_pos h0]
        exact ⟨s, rfl, he, ht⟩
      · have hlt := he.mapped p hp0 h0
        rw [if_neg h0, if_neg (Nat.not_le_of_lt hlt)]
        exact ⟨_, rfl, he.unmapPage hlt, ht⟩
    obtain ⟨s₁, h1, he₁, ht₁⟩ := hstep
    obtain ⟨s', h2, he'⟩ := ih (p := p + 1) he₁ ht₁ fun i hi => by
      have := hp (i + 1) (by omega)
      rwa [show p + (i + 1) = p + 1 + i by omega] at this
    refine ⟨s', ?_, he'⟩
    rw [unmapPages_succ, bind_of_ok h1, u32_page_succ (by unfold HeapPage at hp0; omega)]
    exact h2

/-- The loop of `kmalloc` after one page. -/
theorem mapPages_step {create : DirPtr → Nat → K TablePtr} {f : Nat} {rest : List Nat}
    (ht : HeapTables s) (hp : ∀ i < n + 1, HeapPage (p + i))
    (hnew : ∀ i < n + 1, ¬ present (s.kernelTable (p + i)))
    (hl : s.frames.freeFrameList = f :: rest) :
    ∃ t, mapPages (mapFrameWith create .boot) (n + 1) (p * 4096) s =
        mapPages (mapFrameWith create .boot) n ((p + 1) * 4096) t ∧ HeapTables t ∧
      (∀ i < n, HeapPage (p + 1 + i)) ∧ (∀ i < n, ¬ present (t.kernelTable (p + 1 + i))) ∧
      t.frames.freeFrameList = rest := by
  have hp0 : HeapPage p := hp 0 (Nat.succ_pos n)
  have hstep := @allocate_mapFrame_kernel create s p permWriteable
    hp0.kernelPage (ht.pde hp0) (hnew 0 (Nat.succ_pos n))
  rw [hl] at hstep
  refine ⟨(s.setFrames (s.frames.take f rest)).mapPage f p permWriteable, ?_, ht, ?_, ?_, rfl⟩
  · rw [mapPages_succ, ← bind_assoc, bind_of_ok hstep,
      u32_page_succ (by unfold HeapPage at hp0; omega)]
  · intro i hi
    rw [Nat.add_assoc, Nat.add_comm 1 i]
    exact hp (i + 1) (Nat.succ_lt_succ hi)
  · intro i hi
    have hne : p + 1 + i ≠ p := by omega
    rw [show ((s.setFrames (s.frames.take f rest)).mapPage f p permWriteable).kernelTable (p + 1 + i) =
      s.kernelTable (p + 1 + i) by simp [hne, Kern.setFrames]]
    rw [Nat.add_assoc, Nat.add_comm 1 i]
    exact hnew (i + 1) (Nat.succ_lt_succ hi)

/-- The loop of `kmalloc` returns when there are enough free frames and no page is mapped. -/
theorem mapPages_total {create : DirPtr → Nat → K TablePtr} (ht : HeapTables s)
    (hp : ∀ i < n, HeapPage (p + i)) (hnew : ∀ i < n, ¬ present (s.kernelTable (p + i)))
    (hlen : n ≤ s.frames.freeFrameList.length) :
    ∃ s', mapPages (mapFrameWith create .boot) n (p * 4096) s = .ok () s' := by
  induction n generalizing p s with
  | zero => exact ⟨s, rfl⟩
  | succ n ih =>
    cases hl : s.frames.freeFrameList with
    | nil =>
      rw [hl] at hlen
      cases hlen
    | cons f rest =>
      obtain ⟨t, heq, htt, hpt, hnewt, hlt⟩ := mapPages_step ht hp hnew hl
      rw [heq]
      apply ih htt hpt hnewt
      rw [hl] at hlen
      rw [hlt]
      exact Nat.le_of_succ_le_succ hlen

/-- When there are not, it takes a frame off the empty list. -/
theorem mapPages_exhausts {create : DirPtr → Nat → K TablePtr} (ht : HeapTables s)
    (hp : ∀ i < n, HeapPage (p + i)) (hnew : ∀ i < n, ¬ present (s.kernelTable (p + i)))
    (hlen : s.frames.freeFrameList.length < n) :
    ∃ s', mapPages (mapFrameWith create .boot) n (p * 4096) s = .error .fault s' := by
  induction n generalizing p s with
  | zero => cases hlen
  | succ n ih =>
    cases hl : s.frames.freeFrameList with
    | nil =>
      refine ⟨s, ?_⟩
      rw [mapPages_succ, Prog.bind_run, allocateFrame, Prog.get_bind_apply, hl]
      rfl
    | cons f rest =>
      obtain ⟨t, heq, htt, hpt, hnewt, hlt⟩ := mapPages_step ht hp hnew hl
      rw [heq]
      apply ih htt hpt hnewt
      rw [hl] at hlen
      rw [hlt]
      exact Nat.lt_of_succ_lt_succ hlen

/-- The pages of a block none of which is mapped. -/
theorem HeapMap.block_pages {M : Set Nat} {b : BlockInfo} (hm : HeapMap M s) (hb : b.WF)
    (hdisj : ∀ p ∈ b.pages, p ∉ M) :
    (∀ i < b.size / pageSize, HeapPage (b.startVa / 4096 + i)) ∧
      ∀ i < b.size / pageSize, ¬ present (s.kernelTable (b.startVa / 4096 + i)) := by
  have hpage : ∀ i < b.size / pageSize, b.startVa / 4096 + i ∈ b.pages := by
    intro i hi
    rw [hb.mem_pages]
    exact ⟨by omega, Nat.add_lt_add_left hi _⟩
  refine ⟨fun i hi => hb.heapPage (hpage i hi), fun i hi => ?_⟩
  rw [hm.present_iff _ (hb.heapPage (hpage i hi))]
  exact hdisj _ (hpage i hi)

/-- The loop of `kmalloc` returns at a block none of whose pages is mapped. -/
theorem HeapMap.mapPages_total {M : Set Nat} {create : DirPtr → Nat → K TablePtr} {b : BlockInfo}
    (hm : HeapMap M s) (hb : b.WF) (hdisj : ∀ p ∈ b.pages, p ∉ M)
    (hlen : b.size / pageSize ≤ s.frames.freeFrameList.length) :
    ∃ s', Fos.mapPages (mapFrameWith create .boot) (b.size / pageSize) b.startVa s = .ok () s' := by
  obtain ⟨hpages, hnew⟩ := hm.block_pages hb hdisj
  rw [hb.start_eq]
  exact Fos.mapPages_total hm.tables hpages hnew hlen

/-- It returns or runs out of frames. -/
theorem HeapMap.mapPages_or_fault {M : Set Nat} {b : BlockInfo} (hm : HeapMap M s)
    (create : DirPtr → Nat → K TablePtr) (hb : b.WF) (hdisj : ∀ p ∈ b.pages, p ∉ M) :
    ∃ s', Fos.mapPages (mapFrameWith create .boot) (b.size / pageSize) b.startVa s = .ok () s' ∨
      Fos.mapPages (mapFrameWith create .boot) (b.size / pageSize) b.startVa s = .error .fault s' := by
  rcases Nat.lt_or_ge s.frames.freeFrameList.length (b.size / pageSize) with hlt | hge
  · obtain ⟨hpages, hnew⟩ := hm.block_pages hb hdisj
    rw [hb.start_eq]
    exact (mapPages_exhausts hm.tables hpages hnew hlt).imp fun _ => .inr
  · exact (hm.mapPages_total hb hdisj hge).imp fun _ => .inl

/-! ## Runs -/

/-- The kernel heap invariant with frames that exist. -/
structure FreeableInv (s : Kern) : Prop where
  heap : HeapInv s
  frames : FramesExist s

/-- The loop of `kfree` returns at every block. -/
theorem unmapBlock_total (he : FramesExist s) (ht : HeapTables s) {b : BlockInfo} (hb : b.WF) :
    ∃ s', Fos.unmapPages (b.size / pageSize) b.startVa s = .ok () s' ∧ FramesExist s' ∧
      s'.heap = s.heap := by
  have hpage : ∀ i < b.size / pageSize, HeapPage (b.startVa / 4096 + i) := by
    intro i hi
    apply hb.heapPage
    rw [hb.mem_pages]
    exact ⟨by omega, Nat.add_lt_add_left hi _⟩
  obtain ⟨s', hun, he'⟩ := unmapPages_total he ht hpage
  rw [← hb.start_eq] at hun
  exact ⟨s', hun, he', (bookkeeping_eq (unmapPages_keeps _ _ _ _ _ hun)).1⟩

theorem FreeableInv.unmapPages (hi : FreeableInv s) {b : BlockInfo}
    (hb : b ∈ s.heap.blockInfoTakenList) :
    ∃ s', Fos.unmapPages (b.size / pageSize) b.startVa s = .ok () s' ∧ FramesExist s' ∧
      s'.heap = s.heap :=
  unmapBlock_total hi.frames hi.heap.map.tables (hi.heap.part.wf _ (List.mem_append_right _ hb))

theorem FreeableInv.kmalloc (hi : FreeableInv s) (hfit : s.heap.Fits)
    (h : Fos.kmalloc size s = .ok va s') : FreeableInv s' := by
  refine ⟨(kmalloc_heapInv hi.heap hfit h).1, ?_⟩
  rcases kmallocWith_ok (fun _ _ _ => hi.heap.mapPages_heap hfit) h with
    ⟨-, rfl⟩ | ⟨b, h', ha, -, -, h₁, s₁, hmap, rfl⟩
  · exact hi.frames
  · cases ha with
    | cont rest hst => rcases hfit with hf | hf <;> rw [hst] at hf <;> cases hf
    | fit found _ ha =>
      obtain ⟨hb, hdisj⟩ := Heap.Partition.front hi.heap.part ha.free ha.fits ha.start ha.aligned
      have hkeep := ((hi.heap.map.setHeap h₁).mapPages_keeps (I := fun _ => FramesExist) hb hdisj
        ⟨hi.frames.mapped, hi.frames.free⟩ (fun _ _ _ _ _ hf he => he.mapPage hf) hmap).2
      exact ⟨hkeep.mapped, hkeep.free⟩

theorem FreeableInv.kfree (hi : FreeableInv s) (h : Fos.kfree va s = .ok () s') :
    FreeableInv s' := by
  refine ⟨(kfree_heapInv hi.heap h).1, ?_⟩
  rcases kfree_ok h with ⟨-, rfl⟩ | ⟨bi, s₁, h', -, hlist, -, hun, -, rfl⟩
  · exact hi.frames
  · have hmem : bi.elem ∈ s.heap.blockInfoTakenList := by
      rw [hlist]
      simp [Place.list]
    obtain ⟨s₂, hun₂, he, -⟩ := hi.unmapPages hmem
    obtain ⟨-, rfl⟩ := ok_inj.1 (hun.symm.trans hun₂)
    exact ⟨he.mapped, he.free⟩

theorem FitStep.freeableInv (hi : FreeableInv s) (h : FitStep s s') : FreeableInv s' := by
  cases h with
  | kmalloc hfit h => exact hi.kmalloc hfit h
  | kfree h => exact hi.kfree h
  | setFirstFit => exact ⟨hi.heap.setStrategy .firstFit, hi.frames.mapped, hi.frames.free⟩
  | setNextFit => exact ⟨hi.heap.setStrategy .nextFit, hi.frames.mapped, hi.frames.free⟩

/-- `kfree` of a block follows a null pointer exactly when no block is free. -/
theorem FreeableInv.safe_iff (hi : FreeableInv s) : KfreeSafe va s ↔
    s.heap.blockInfoFreeList ≠ [] ∨ ∀ b ∈ s.heap.blockInfoTakenList, b.startVa ≠ va := by
  unfold KfreeSafe
  cases hfirst : firstWhere (fun bi => decide (bi.startVa = va)) s.heap.blockInfoTakenList with
  | none =>
    have hnone : ∀ b ∈ s.heap.blockInfoTakenList, b.startVa ≠ va := by
      simpa using firstWhere_none.1 hfirst
    refine iff_of_true (fun t ht => ?_) (.inr hnone)
    rw [kfree_of_notStart hnone] at ht
    cases ht
  | some bi =>
    obtain ⟨hlist, hstart, -⟩ := firstWhere_some hfirst
    have hva : bi.elem.startVa = va := of_decide_eq_true hstart
    have hmem : bi.elem ∈ s.heap.blockInfoTakenList := by
      rw [hlist]
      simp [Place.list]
    have hdead : ¬ ∀ b ∈ s.heap.blockInfoTakenList, b.startVa ≠ va := fun hall => hall _ hmem hva
    rw [or_iff_left hdead]
    obtain ⟨s₁, hun, -, hheap⟩ := hi.unmapPages hmem
    rw [hva] at hun
    -- what `Coalescing_heap` is given: the block has left the taken list
    set g : Heap := { s₁.heap with blockInfoTakenList := bi.removed } with hg
    have hlists : g.coalescing bi.elem = none ↔ s.heap.blockInfoFreeList = [] := by
      rw [← hheap]
      exact coalescing_none
    -- it reads through the null pointer when there is no free block
    rw [← not_iff_not, not_not, ← hlists]
    cases hco : g.coalescing bi.elem with
    | none =>
      refine iff_of_true (fun hsafe => hsafe s₁ ?_) rfl
      rw [Fos.kfree, Prog.get_bind_apply, hfirst]
      dsimp only
      rw [bind_of_ok hun, Prog.get_bind_apply, ← hg, hco]
      rfl
    | some h' =>
      refine iff_of_false (fun hbad => hbad fun t ht => ?_) (by simp)
      rw [Fos.kfree, Prog.get_bind_apply, hfirst] at ht
      dsimp only at ht
      rw [bind_of_ok hun, Prog.get_bind_apply, ← hg, hco] at ht
      cases ht

/-- What the accounts say about the frames. -/
theorem MemOk.framesExist {lay : Layout} {G D : Set Nat} {dirs : Roots} {held : Set Nat}
    (h : MemOk lay G D dirs held s) : FramesExist s := by
  have hacc := h.accounted
  refine ⟨fun p hp hne => ?_, fun f hf => hacc.inRange f (hacc.counted.freePool f hf)⟩
  have hpr : present (s.kernelTable p) := by
    rw [h.heap.present_iff p hp]
    by_contra hnot
    exact hne (h.heap.zero p hp hnot)
  rw [← entry_bootSlot] at hpr
  have hlive : bootSlot p ∈ liveSlots lay dirs s := bootSlot_live (lay.heap_dynamic p hp)
  have hmap := mapping_of_present hlive hpr
  rw [entry_bootSlot] at hmap
  exact hacc.inRange _ (hacc.counted.inPool _ _ hmap)

theorem freeableInv_boot {c : BootConfig} (h : fosInitialize (initializePaging c) = .ok () s) :
    FreeableInv s :=
  ⟨(fosInitialize_heapInv h).2, (fosInitialize_boot h).1.framesExist⟩

/-- **`kfree` returns** while a block is free, and one is free afterwards. -/
theorem MemOk.kfree_total {lay : Layout} {G D : Set Nat} {dirs : Roots} {held : Set Nat}
    (h : MemOk lay G D dirs held s) (hfree : s.heap.blockInfoFreeList ≠ []) (va : Nat) :
    ∃ t, Fos.kfree va s = .ok () t ∧ t.heap.blockInfoFreeList ≠ [] := by
  cases hfirst : firstWhere (fun bi => decide (bi.startVa = va)) s.heap.blockInfoTakenList with
  | none => exact ⟨s, kfree_of_notStart (by simpa using firstWhere_none.1 hfirst), hfree⟩
  | some bi =>
    obtain ⟨hlist, hstart, -⟩ := firstWhere_some hfirst
    have hva : bi.elem.startVa = va := of_decide_eq_true hstart
    have hmem : bi.elem ∈ s.heap.blockInfoTakenList := by
      rw [hlist]
      simp [Place.list]
    obtain ⟨s₁, hun, -, hheap⟩ := unmapBlock_total h.framesExist h.heap.tables (h.heap.wf _ hmem)
    rw [hva] at hun
    set g : Heap := { s₁.heap with blockInfoTakenList := bi.removed } with hg
    cases hco : g.coalescing bi.elem with
    | none =>
      -- coalescing fails on an empty free list only
      refine absurd (coalescing_none.1 hco) ?_
      show s₁.heap.blockInfoFreeList ≠ []
      rwa [hheap]
    | some h' =>
      obtain ⟨X, Y, m, hc⟩ := coalescing_cases hco
      refine ⟨s₁.setHeap h', ?_, ?_⟩
      · rw [Fos.kfree, Prog.get_bind_apply, hfirst]
        dsimp only
        rw [bind_of_ok hun, Prog.get_bind_apply, ← hg, hco]
        rfl
      · show h'.blockInfoFreeList ≠ []
        intro hnil
        have hperm := hc.free'
        rw [hnil] at hperm
        exact absurd hperm.symm.eq_nil (by simp)

end

/-! ## An exact fill -/

/-- After boot under first fit, with enough free frames, a request for all that is left empties the
free list. -/
theorem kmalloc_exactFill {s : Kern} (hi : HeapInv s)
    (hheap : s.heap = { bootHeap with strategy := .firstFit })
    (hlen : 40955 ≤ s.frames.freeFrameList.length) :
    ∃ s', kmalloc 0x9FFB000 s = .ok 0xF6004000 s' ∧ s'.heap.blockInfoFreeList = [] ∧
      ∃ b ∈ s'.heap.blockInfoTakenList, b.startVa = 0xF6004000 := by
  have hround : roundup 0x9FFB000 pageSize = 0x9FFB000 := by decide +kernel
  have hlist : s.heap.blockInfoFreeList = [⟨999999, 0xF6004000, 0x9FFB000⟩] := by rw [hheap]; rfl
  -- the one free block is what is asked for
  have hsearch : firstWhere (fun bi => decide (bi.size ≥ 0x9FFB000)) s.heap.blockInfoFreeList =
      some ⟨[], ⟨999999, 0xF6004000, 0x9FFB000⟩, []⟩ := by
    rw [hlist]
    rfl
  have hplace : s.heap.blockInfoFreeList =
      (⟨[], ⟨999999, 0xF6004000, 0x9FFB000⟩, []⟩ : Place BlockInfo).list := hlist
  obtain ⟨hwf, hdisj⟩ := Heap.Partition.front hi.part (b := ⟨999999, 0xF6004000, 0x9FFB000⟩)
    hplace (Nat.le_refl _) rfl (by decide)
  obtain ⟨s₁, hmap⟩ := hi.map.mapPages_total hwf hdisj
    hlen
  have hheap₁ : s₁.heap = { bootHeap with strategy := .firstFit } :=
    ((hi.map.mapPages hwf hdisj hmap).2).trans hheap
  have hk : kmalloc 0x9FFB000 s =
      firstFitAllocation (mapFrameWith (createPageTableWith kmallocNested) .boot) 0x9FFB000 s := by
    rw [kmalloc, kmallocWith, Prog.get_bind_apply, hheap]
  rw [hk, firstFitAllocation, Prog.get_bind_apply, hround, hsearch]
  dsimp only
  rw [bind_of_ok hmap, Prog.modify_bind_apply, hheap₁]
  refine ⟨_, rfl, ?_, ⟨999999, 0xF6004000, 0x9FFB000⟩, ?_, rfl⟩
  · show Place.carved _ _ = []
    unfold Place.carved
    rfl
  · exact List.mem_append_right _ List.mem_cons_self

/-- A machine with 256 MiB of memory. -/
def wideMachine : BootConfig :=
  { smallMachine with
    numberOfFrames := 65536
    image_fits := by decide
    frames_le := by decide }

def wideBoot : Kern := Prog.final (fosInitialize (initializePaging wideMachine))

theorem wideBoot_ok : fosInitialize (initializePaging wideMachine) = .ok () wideBoot :=
  Prog.ok_of_value (by decide +kernel)

/-- The rest of the heap is taken in one block. -/
theorem wideBoot_exactFill : ∃ s, ReflTransGen FitStep wideBoot s ∧ s.heap.blockInfoFreeList = [] ∧
    ∃ b ∈ s.heap.blockInfoTakenList, b.startVa = 0xF6004000 := by
  obtain ⟨hheap, hi, hcount⟩ := fosInitialize_counted wideBoot_ok
  have hlen : 40955 ≤ (setStrategy .firstFit wideBoot).frames.freeFrameList.length := by
    show 40955 ≤ wideBoot.frames.freeFrameList.length
    have htotal : (initialFrames wideMachine).freeFrameList.length = 65437 := by
      simp only [initialFrames, length_insertHeads]
      rfl
    omega
  obtain ⟨s, hk, hfull⟩ := kmalloc_exactFill (hi.setStrategy .firstFit) (by rw [← hheap]; rfl) hlen
  exact ⟨s, .tail (.tail .refl (.setFirstFit _)) (.kmalloc (.inl rfl) hk), hfull⟩

/-! ## When the call is safe -/

/-- **`kfree` follows no null pointer**, in the states that `kmalloc` and `kfree` reach from boot
under first fit and next fit, exactly where a block is free or no taken block starts at the
address. -/
theorem kfree_safe_iff {c : BootConfig} {s₀ s : Kern}
    (hboot : fosInitialize (initializePaging c) = .ok () s₀) (hrun : ReflTransGen FitStep s₀ s)
    (va : Nat) : KfreeSafe va s ↔
      s.heap.blockInfoFreeList ≠ [] ∨ ∀ b ∈ s.heap.blockInfoTakenList, b.startVa ≠ va :=
  (Prog.invariant (I := FreeableInv) (freeableInv_boot hboot) (fun _ _ hi hst => hst.freeableInv hi)
    hrun).safe_iff

/-- With no block free, the block that fills the heap cannot be freed. -/
theorem kfree_safe_iff_small : ∃ s, ReflTransGen FitStep wideBoot s ∧
    s.heap.blockInfoFreeList = [] ∧ ¬ KfreeSafe 0xF6004000 s := by
  obtain ⟨s, hrun, hfree, b, hb, hstart⟩ := wideBoot_exactFill
  refine ⟨s, hrun, hfree, fun hsafe => ?_⟩
  rcases (kfree_safe_iff wideBoot_ok hrun 0xF6004000).1 hsafe with h | h
  · exact h hfree
  · exact h b hb hstart

/-- `kmalloc` of the rest of the heap, and `kfree` of that block. -/
theorem kfree_null : ¬ ∀ (c : BootConfig) (s₀ s : Kern),
    fosInitialize (initializePaging c) = .ok () s₀ → ReflTransGen FitStep s₀ s →
    ∀ va, KfreeSafe va s := by
  intro hall
  obtain ⟨s, hrun, hfree, b, hb, hstart⟩ := wideBoot_exactFill
  rcases (kfree_safe_iff wideBoot_ok hrun 0xF6004000).1 (hall wideMachine wideBoot s wideBoot_ok hrun _)
    with h | h
  · exact h hfree
  · exact h b hb hstart

end Fos
