import Fos.PageTables.Tables

/-!
# What kmalloc gives

Under every placement strategy a `kmalloc` that returns a block has mapped its pages, none of which
was mapped before, to frames taken from the free list, and has touched nothing else. The new pages
are owned.
-/

namespace Fos

open Function (update)
open Prog (bind_eq_ok ok_inj)
open Cover (range mem_range)

/-! ## Blocks that do not meet -/

/-- The record that the placement strategy allocates from holds no page of a taken block. -/
def Heap.SourceOk (h : Heap) : Prop :=
  match h.strategy with
  | .contAlloc => h.lastVaInKheap % 4096 = 0 ∧ kernelHeapStart ≤ h.lastVaInKheap ∧
      h.lastVaInKheap ≤ kernelHeapMax ∧
      ∀ b ∈ h.blockInfoTakenList, b.startVa + b.size ≤ h.lastVaInKheap
  | .firstFit | .nextFit => h.Partition
  | .bestFit | .worstFit => True

/-- The taken blocks are disjoint runs of pages, and the page tables map exactly these pages. -/
structure HeapOk (s : Kern) : Prop where
  tables : HeapTables s
  wf : ∀ b ∈ s.heap.blockInfoTakenList, b.WF
  apart : s.heap.blockInfoTakenList.Pairwise fun b c => Disjoint b.addrs c.addrs
  present_iff : ∀ p, HeapPage p →
    (present (s.kernelTable p) ↔ p ∈ takenPages s.heap.blockInfoTakenList)
  zero : ∀ p, HeapPage p → p ∉ takenPages s.heap.blockInfoTakenList → s.kernelTable p = 0
  source : s.heap.SourceOk

section

variable {s s' : Kern} {start size : Nat} {b : BlockInfo} {h : Heap}

/-- What the strategy is about to hand out is a run of heap pages apart from the taken blocks. -/
theorem HeapOk.source_block (hs : HeapOk s) (hsrc : s.heap.Source start size)
    (hal : size % 4096 = 0) (id : Nat) :
    (⟨id, start, size⟩ : BlockInfo).WF ∧
      ∀ c ∈ s.heap.blockInfoTakenList, Disjoint (⟨id, start, size⟩ : BlockInfo).addrs c.addrs := by
  have hok := hs.source
  -- both searching strategies cut the block from a free one
  have hfit : s.heap.Partition → (∃ found : Place BlockInfo, s.heap.blockInfoFreeList = found.list ∧
      size ≤ found.elem.size ∧ start = found.elem.startVa) →
      (⟨id, start, size⟩ : BlockInfo).WF ∧
      ∀ c ∈ s.heap.blockInfoTakenList, Disjoint (⟨id, start, size⟩ : BlockInfo).addrs c.addrs := by
    rintro hpart ⟨found, hlist, hle, rfl⟩
    have hst : (⟨id, found.elem.startVa, size⟩ : BlockInfo).startVa = found.elem.startVa := rfl
    have hb : BlockPartition _ _ _ (⟨id, found.elem.startVa, size⟩ :: s.heap.blockInfoTakenList) :=
      BlockPartition.allocate kernelHeapMax_lt hpart hlist hst hal hle (.refl _)
    refine ⟨hb.wf _ (by simp), fun c hc => Set.disjoint_left.2 fun a ha hca => ?_⟩
    exact BlockPartition.front_apart hpart hlist hle hst a ha c hc hca
  unfold Heap.Source at hsrc
  unfold Heap.SourceOk at hok
  cases hst : s.heap.strategy <;> rw [hst] at hsrc hok
  case contAlloc =>
    obtain ⟨h1, h2, h3, h4⟩ := hok
    obtain ⟨rfl, hle⟩ := hsrc
    rw [u32Sub_of_le h3 (by decide)] at hle
    refine ⟨⟨h1, hal, h2, ?_⟩, fun c hc => Cover.disjoint_range_iff.2 ?_⟩
    · show s.heap.lastVaInKheap + size ≤ kernelHeapMax
      omega
    · exact .inr (.inr (.inr (h4 c hc)))
  case firstFit => exact hfit hok hsrc
  case nextFit => exact hfit hok hsrc
  case bestFit | worstFit => exact hsrc.elim

/-- The record stays accurate when a block leaves it for the taken list. -/
theorem HeapOk.source_alloc (hs : HeapOk s) (ha : s.heap.Alloc h b) : h.SourceOk := by
  have hok := hs.source
  unfold Heap.SourceOk at hok ⊢
  rw [ha.strategy]
  cases ha with
  | fit found hfit ha =>
    rcases hfit with hst | hst <;> rw [hst] at hok ⊢ <;> exact ha.partition hok
  | cont rest hst hstart hsize haligned hfree h' =>
    rw [hst] at hok ⊢
    obtain ⟨h1, h2, h3, h4⟩ := hok
    rw [u32Sub_of_le h3 (by decide)] at hsize
    -- the cursor moves past the block, so it stays above every taken one
    have hcur : h.lastVaInKheap = s.heap.lastVaInKheap + b.size := by
      rw [h']
      unfold kernelHeapMax at hsize h3
      exact u32_of_lt (by omega)
    dsimp only
    rw [hcur]
    refine ⟨by omega, by omega, by omega, fun c hc => ?_⟩
    rw [h'] at hc
    rcases List.mem_cons.1 hc with rfl | hc
    · omega
    · have := h4 c hc
      omega

end

/-! ## The loop over pages -/

/-- Between `s` and `t` the pages `R` of the kernel space got frames of the free list, and nothing
else changed but the descriptors of these frames. -/
structure MapsOnly (R : Set Nat) (s t : Kern) : Prop where
  kernelTable : ∀ q, q ∉ R → t.kernelTable q = s.kernelTable q
  fresh : ∀ q ∈ R, ∃ f ∈ s.frames.freeFrameList, t.kernelTable q = entryOf f permWriteable
  info : ∀ f, f ∉ s.frames.freeFrameList → t.frames.info f = s.frames.info f
  free : t.frames.freeFrameList <:+ s.frames.freeFrameList
  taken : ∀ f ∈ s.frames.freeFrameList, f ∉ t.frames.freeFrameList →
    ∃ q ∈ R, t.kernelTable q = entryOf f permWriteable
  infoFree : ∀ f ∈ t.frames.freeFrameList, t.frames.info f = s.frames.info f
  numberOfFrames : t.frames.numberOfFrames = s.frames.numberOfFrames
  kernelDirectory : t.kernelDirectory = s.kernelDirectory
  ram : t.ram = s.ram
  disk : t.disk = s.disk
  envs : t.envs = s.envs
  shares : t.shares = s.shares

section

variable {lay : Layout} {G : Set Nat} {dirs : Roots} {held : Set Nat} {s s' : Kern}
  {f p n size va : Nat} {rest : List Nat} {b : BlockInfo}

theorem MapsOnly.refl (s : Kern) : MapsOnly ∅ s s :=
  ⟨fun _ _ => rfl, fun _ h => h.elim, fun _ _ => rfl, List.suffix_refl _, fun _ h h' => absurd h h',
    fun _ _ => rfl, rfl, rfl, rfl, rfl, rfl, rfl⟩

/-- Mapping one more page. -/
theorem MapsOnly.mapPage {R : Set Nat} {t : Kern} (h : MapsOnly R s t) (hp : p ∉ R)
    (hnd : t.frames.freeFrameList.Nodup) (hf : t.frames.freeFrameList = f :: rest) :
    MapsOnly (insert p R) s ((t.setFrames (t.frames.take f rest)).mapPage f p permWriteable) := by
  have hmem : f ∈ s.frames.freeFrameList := h.free.subset (by rw [hf]; exact List.mem_cons_self)
  rw [hf, List.nodup_cons] at hnd
  -- only the record of the frame that is taken changes
  have hinfo : ∀ g, g ≠ f → ((t.setFrames (t.frames.take f rest)).mapPage f p
      permWriteable).frames.info g = t.frames.info g := by
    intro g hgf
    rw [mapPage_frames, addReference_info_of_ne _ _ hgf]
    exact Function.update_of_ne hgf _ _
  refine ⟨fun q hq => ?_, fun q hq => ?_, fun g hg => ?_, ?_, fun g hg hnot => ?_, fun g hg => ?_,
    h.numberOfFrames, h.kernelDirectory, h.ram, h.disk, h.envs, h.shares⟩
  · rw [Set.mem_insert_iff, not_or] at hq
    rw [mapPage_kernelTable, Function.update_of_ne hq.1]
    exact h.kernelTable q hq.2
  · rw [mapPage_kernelTable]
    by_cases hqp : q = p
    · subst hqp
      exact ⟨f, hmem, Function.update_self _ _ _⟩
    · rw [Function.update_of_ne hqp]
      exact h.fresh q (hq.resolve_left hqp)
  · rw [hinfo g fun he => hg (he ▸ hmem)]
    exact h.info g hg
  · have hsuf := h.free
    rw [hf] at hsuf
    exact (List.suffix_cons f rest).trans hsuf
  · change g ∉ rest at hnot
    rw [mapPage_kernelTable]
    by_cases hgf : g = f
    · subst hgf
      exact ⟨p, Set.mem_insert p R, Function.update_self _ _ _⟩
    · have hnot' : g ∉ t.frames.freeFrameList := by
        rw [hf]
        simp [hgf, hnot]
      obtain ⟨q, hq, he⟩ := h.taken g hg hnot'
      have hqp : q ≠ p := fun hqp => hp (hqp ▸ hq)
      exact ⟨q, .inr hq, by rwa [Function.update_of_ne hqp]⟩
  · change g ∈ rest at hg
    rw [hinfo g fun he => hnd.1 (he ▸ hg)]
    exact h.infoFree g (by rw [hf]; exact List.mem_cons_of_mem f hg)

/-- One page gets the head of the free list. -/
theorem MapsOnly.kframe_head {t : Kern} (h : MapsOnly {p} s t) (hnd : s.frames.freeFrameList.Nodup)
    (hnot : t.kframe p ∉ t.frames.freeFrameList) :
    s.frames.freeFrameList.head? = some (t.kframe p) := by
  have hframe : ∀ g, t.kernelTable p = entryOf g permWriteable → t.kframe p = g := by
    intro g he
    rw [Kern.kframe, he, ppn_entryOf (by decide)]
  obtain ⟨f, hf, he⟩ := h.fresh p rfl
  rw [hframe f he] at hnot ⊢
  obtain ⟨g, rest, hcons⟩ := List.exists_cons_of_ne_nil (List.ne_nil_of_mem hf)
  have hg : g ∉ t.frames.freeFrameList := by
    intro hm
    -- a suffix with the head in it is the whole list
    obtain ⟨l, hl⟩ := h.free
    cases l with
    | nil =>
      rw [List.nil_append] at hl
      exact hnot (hl ▸ hf)
    | cons a l =>
      rw [hcons] at hl hnd
      obtain ⟨-, rfl⟩ := List.cons.inj hl
      exact (List.nodup_cons.1 hnd).1 (List.mem_append_right l hm)
  obtain ⟨q, hq, he'⟩ := h.taken g (by rw [hcons]; exact List.mem_cons_self) hg
  obtain rfl : q = p := hq
  rw [hcons, List.head?_cons, ← hframe g he', hframe f he]

theorem mapSlot_bootSlot (s : Kern) (f p perm : Nat) :
    s.mapSlot (bootSlot p) f (p * 4096) perm = s.mapPage f p perm := by
  rw [Kern.mapSlot, setEntry_bootSlot]
  rfl

/-- One turn of the loop: the page gets the head of the free list and is owned from then on. -/
theorem Accounted.allocatePage (h : Accounted lay G dirs held s)
    (hf : s.frames.freeFrameList = f :: rest) (hp : HeapPage p)
    (hnp : ¬ present (s.kernelTable p)) :
    Accounted lay (insert p G) dirs held
      ((s.setFrames (s.frames.take f rest)).mapPage f p permWriteable) := by
  have hmem : f ∈ s.frames.freeFrameList := by rw [hf]; exact List.mem_cons_self
  have hnot : f ∉ held := ((h.counted.free_iff f (h.counted.freePool f hmem)).1 hmem).2.2
  have htake := (h.take hf).mapSlot_own (Set.mem_insert f held) hp hnp
    (show permWriteable < 4096 by decide)
  rwa [mapSlot_bootSlot, Set.insert_sdiff_self_of_notMem hnot] at htake

/-- The loop of `kmalloc` over pages that are not mapped. -/
theorem Accounted.mapPages {create : DirPtr → Nat → K TablePtr} (h : Accounted lay G dirs held s)
    (hb : b.WF) (hnew : ∀ p ∈ b.pages, ¬ present (s.kernelTable p))
    (hm : mapPages (mapFrameWith create .boot) (b.size / pageSize) b.startVa s = .ok () s') :
    Accounted lay (G ∪ b.pages) dirs held s' ∧ MapsOnly b.pages s s' ∧ s'.heap = s.heap := by
  have hend := hb.end_page
  have hpages := hb.pages_eq
  rw [hb.start_eq] at hm
  rw [hpages]
  set p := b.startVa / 4096
  set n := b.size / 4096
  -- after `i` turns the first `i` pages hold a frame each
  refine mapPages_induct (P := fun i t => Accounted lay (G ∪ range p i) dirs held t ∧
    MapsOnly (range p i) s t ∧ t.heap = s.heap) hend ?_ ?_ hm
  · rw [Cover.range_zero, Set.union_empty]
    exact ⟨h, .refl s, rfl⟩
  · rintro i hi t ⟨hacc, honly, hheap⟩
    have hmem : p + i ∈ b.pages := by rw [hpages]; exact ⟨by omega, by omega⟩
    have hpage : HeapPage (p + i) := hb.heapPage hmem
    have hnot : p + i ∉ range p i := by
      rw [mem_range]
      omega
    have hnp : ¬ present (t.kernelTable (p + i)) := by
      rw [honly.kernelTable _ hnot]
      exact hnew _ hmem
    refine ⟨hpage.kernelPage, hacc.directories.heapTables.pde hpage, hnp,
      fun f rest hf => ⟨?_, ?_, hheap⟩⟩
    · rw [Cover.range_succ, Set.union_insert]
      exact hacc.allocatePage hf hpage hnp
    · rw [Cover.range_succ]
      exact honly.mapPage hnot hacc.counted.nodup hf

/-! ## kmalloc -/

/-- The accounts do not read the block lists. -/
theorem Accounted.setHeap (h : Accounted lay G dirs held s) (hp : Heap) :
    Accounted lay G dirs held (s.setHeap hp) := by
  -- the lists of the heap are no part of the page tables
  have hpde : ∀ dir i, (s.setHeap hp).pde dir i = s.pde dir i := by
    intro dir i
    cases dir <;> rfl
  have hdirs : Directories G dirs (s.setHeap hp) :=
    h.directories.congr (fun _ _ => rfl) (fun _ _ => rfl) (fun dir _ i _ => hpde dir i) rfl
  have hlive : liveSlots lay dirs (s.setHeap hp) = liveSlots lay dirs s :=
    liveSlots_congr fun dir hd i hi =>
      h.directories.table_congr hdirs (fun _ _ => rfl) (.inl hd) hi (hpde dir i)
  have hentry : ∀ x, (s.setHeap hp).entry x = s.entry x := by
    rintro ⟨_ | _ | _, _⟩ <;> rfl
  have hmap : (s.setHeap hp).mapping (liveSlots lay dirs (s.setHeap hp)) =
      s.mapping (liveSlots lay dirs s) := by
    rw [hlive]
    exact mapping_congr fun y _ => hentry y
  refine ⟨hdirs, ?_, ?_, ?_, h.inRange, h.outside⟩
  · rw [hmap]
    exact h.counted
  · rw [hmap]
    exact h.unshared
  · intro x hx
    rw [hlive] at hx
    rw [hentry]
    exact h.entry_zero x hx

theorem MapsOnly.setHeap {R : Set Nat} {t : Kern} (h : MapsOnly R s t) (h₁ h₂ : Heap) :
    MapsOnly R (s.setHeap h₁) (t.setHeap h₂) :=
  ⟨h.kernelTable, h.fresh, h.info, h.free, h.taken, h.infoFree, h.numberOfFrames,
    h.kernelDirectory, h.ram, h.disk, h.envs, h.shares⟩

/-- A block whose pages were mapped and that was entered among the taken ones. -/
theorem HeapOk.alloc {h : Heap} (hs : HeapOk s) (ha : s.heap.Alloc h b) (hb : b.WF)
    (hd : ∀ c ∈ s.heap.blockInfoTakenList, Disjoint b.addrs c.addrs) (hm : MapsOnly b.pages s s') :
    HeapOk (s'.setHeap h) := by
  have htaken : takenPages h.blockInfoTakenList =
      takenPages s.heap.blockInfoTakenList ∪ b.pages := takenPages_perm ha.taken
  refine ⟨?_, ?_, ?_, ?_, ?_, hs.source_alloc ha⟩
  · show HeapTables s'
    unfold HeapTables
    rw [hm.kernelDirectory]
    exact hs.tables
  · intro c hc
    rcases List.mem_cons.1 (ha.taken.mem_iff.1 hc) with rfl | hc
    · exact hb
    · exact hs.wf c hc
  · show h.blockInfoTakenList.Pairwise _
    rw [ha.taken.pairwise_iff fun hab => hab.symm]
    exact List.pairwise_cons.2 ⟨hd, hs.apart⟩
  · intro p hp
    show present (s'.kernelTable p) ↔ p ∈ takenPages h.blockInfoTakenList
    rw [htaken]
    -- a page of the new block has just been mapped, the others are as before
    by_cases hpb : p ∈ b.pages
    · obtain ⟨f, -, hf⟩ := hm.fresh p hpb
      rw [hf]
      exact iff_of_true (present_entryOf (by decide)) (.inr hpb)
    · rw [hm.kernelTable p hpb, hs.present_iff p hp]
      exact ⟨.inl, fun h => h.resolve_right hpb⟩
  · intro p hp hnot
    rw [show (s'.setHeap h).heap.blockInfoTakenList = h.blockInfoTakenList from rfl, htaken] at hnot
    have hnot' : p ∉ takenPages s.heap.blockInfoTakenList ∧ p ∉ b.pages := by
      exact ⟨fun h => hnot (.inl h), fun h => hnot (.inr h)⟩
    show s'.kernelTable p = 0
    rw [hm.kernelTable p hnot'.2]
    exact hs.zero p hp hnot'.1

/-- **What `kmalloc` gives.** It found no room and changed nothing, or the pages of the block it
returns are owned from now on. -/
theorem kmalloc_accounted (h : Accounted lay G dirs held s) (hs : HeapOk s)
    (hk : kmalloc size s = .ok va s') :
    (va = 0 ∧ s' = s) ∨ ∃ b : BlockInfo, b.WF ∧ b.startVa = va ∧ b.size = roundup size pageSize ∧
      s.heap.Alloc s'.heap b ∧ (∀ c ∈ s.heap.blockInfoTakenList, Disjoint b.addrs c.addrs) ∧
      MapsOnly b.pages s s' ∧ HeapOk s' ∧ Accounted lay (G ∪ b.pages) dirs held s' := by
  have hcall := kmallocWith_ok (fun start h₁ t hsrc hmap => ?_) hk
  · rcases hcall with hnull | ⟨b, h', ha, hsize, rfl, h₁, s₁, hmap, rfl⟩
    · exact .inl hnull
    · obtain ⟨hb, hd⟩ := hs.source_block ha.source (by rw [hsize]; exact roundup_mod size) b.id
      have hnew : ∀ p ∈ b.pages, ¬ present (s.kernelTable p) := by
        intro p hp hpr
        obtain ⟨c, hc, hpc⟩ := (hs.present_iff p (hb.heapPage hp)).1 hpr
        exact Set.disjoint_left.1 (hd c hc) hp hpc
      obtain ⟨hacc, honly, -⟩ := (h.setHeap h₁).mapPages hb hnew hmap
      exact .inr ⟨b, hb, rfl, hsize, ha, hd, honly.setHeap s.heap h', hs.alloc ha hb hd
        (honly.setHeap s.heap s₁.heap), hacc.setHeap h'⟩
  · obtain ⟨hb, -⟩ := hs.source_block hsrc (roundup_mod size) 0
    rw [show start = start / 4096 * 4096 from hb.start_eq] at hmap
    have htables : HeapTables (s.setHeap h₁) := hs.tables
    refine (mapPages_sameLists htables (fun i hi => hb.heapPage ?_) hmap).1
    rw [hb.mem_pages]
    exact ⟨Nat.le_add_right _ _, Nat.add_lt_add_left hi _⟩

end

end Fos
