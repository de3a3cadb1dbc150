import Fos.PageTables.Create

/-!
# The memory of the kernel

`MemOk` joins the kernel heap and the accounts of the frames. Allocating in the kernel heap and
creating a table are `Quiet`: nothing that was in use changes, whatever the pages and the tables are
used for.
-/

namespace Fos

open Function (update)
open Prog (bind_eq_ok ok_inj)
open Cover (range mem_range)

/-! ## Nothing in use changes -/

/-- Between `s` and `t` frames were taken for the pages that are owned in `G'` and not in `G`, or
taken by a caller; what was in use is what it was. The owned pages `D` hold data. -/
structure Quiet (dirs : Roots) (D G G' : Set Nat) (s t : Kern) : Prop where
  sub : G ⊆ G'
  fresh : ∀ p ∈ G', p ∉ G → t.kframe p ∈ s.frames.freeFrameList
  leaf : ∀ dir ∈ dirs, ∀ p < 977920, t.leaf dir p = s.leaf dir p
  kernelTable : ∀ p, present (s.kernelTable p) ∨ ¬ HeapPage p → t.kernelTable p = s.kernelTable p
  ram : ∀ f, f ∉ s.frames.freeFrameList → (∀ p ∈ G, p ∉ D → f ≠ s.kframe p) → t.ram f = s.ram f
  info : ∀ f, f ∉ s.frames.freeFrameList → t.frames.info f = s.frames.info f
  free : t.frames.freeFrameList <:+ s.frames.freeFrameList
  numberOfFrames : t.frames.numberOfFrames = s.frames.numberOfFrames
  kernelDirectory : ∀ i, 955 ≤ i → t.kernelDirectory i = s.kernelDirectory i
  taken : ∀ b ∈ s.heap.blockInfoTakenList, b ∈ t.heap.blockInfoTakenList
  strategy : t.heap.strategy = s.heap.strategy
  disk : t.disk = s.disk
  envs : t.envs = s.envs
  shares : t.shares = s.shares

section

variable {lay : Layout} {G G' G'' D : Set Nat} {dirs : Roots} {held : Set Nat} {s s' t u : Kern}
  {dir : DirPtr} {f p n size va : Nat} {b : BlockInfo}

theorem Quiet.refl (dirs : Roots) (D G : Set Nat) (s : Kern) : Quiet dirs D G G s s :=
  ⟨subset_rfl, fun _ h h' => absurd h h', fun _ _ _ _ => rfl, fun _ _ => rfl, fun _ _ _ => rfl,
    fun _ _ => rfl, List.suffix_refl _, rfl, fun _ _ => rfl, fun _ h => h, rfl, rfl, rfl, rfl⟩

/-- The owned pages keep their frames. -/
theorem Quiet.kframe (h : Quiet dirs D G G' s t) (ho : Owned G s) (hp : p ∈ G) :
    t.kframe p = s.kframe p := by
  unfold Kern.kframe
  rw [h.kernelTable p (.inl (ho.mapped p hp))]

theorem Quiet.trans (h : Quiet dirs D G G' s t) (h' : Quiet dirs D G' G'' t u) (ho : Owned G s)
    (ho' : Owned G' t) : Quiet dirs D G G'' s u := by
  have hnot : ∀ g, g ∉ s.frames.freeFrameList → g ∉ t.frames.freeFrameList :=
    fun g hg hm => hg (h.free.subset hm)
  refine ⟨h.sub.trans h'.sub, ?_, ?_, ?_, ?_, ?_, h'.free.trans h.free, ?_, ?_, ?_, ?_, ?_, ?_, ?_⟩
  · -- what the second step added was free after the first, hence before it
    intro q hq hqG
    by_cases hq' : q ∈ G'
    · rw [h'.kframe ho' hq']
      exact h.fresh q hq' hqG
    · exact h.free.subset (h'.fresh q hq hq')
  · intro dir hdir q hq
    rw [h'.leaf dir hdir q hq, h.leaf dir hdir q hq]
  · intro q hq
    have hst := h.kernelTable q hq
    rw [h'.kernelTable q (hq.imp (fun hp => by rwa [hst]) id), hst]
  · intro g hg hgG
    rw [h'.ram g (hnot g hg), h.ram g hg hgG]
    intro q hq hqD
    by_cases hqG : q ∈ G
    · rw [h.kframe ho hqG]
      exact hgG q hqG hqD
    · -- a page owned since has a frame that was free
      intro he
      exact hg (he ▸ h.fresh q hq hqG)
  · intro g hg
    rw [h'.info g (hnot g hg), h.info g hg]
  · rw [h'.numberOfFrames, h.numberOfFrames]
  · intro i hi
    rw [h'.kernelDirectory i hi, h.kernelDirectory i hi]
  · exact fun b hb => h'.taken b (h.taken b hb)
  · rw [h'.strategy, h.strategy]
  · rw [h'.disk, h.disk]
  · rw [h'.envs, h.envs]
  · rw [h'.shares, h.shares]

/-! ## The invariant -/

/-- The kernel heap is intact, the frames are accounted for, and every owned page is a block of the
kernel heap by itself. No directory leads to the owned pages `D`, which hold data. -/
structure MemOk (lay : Layout) (G D : Set Nat) (dirs : Roots) (held : Set Nat) (s : Kern) :
    Prop where
  accounted : Accounted lay G dirs held s
  heap : HeapOk s
  blocks : ∀ p ∈ G, ∃ b ∈ s.heap.blockInfoTakenList, b.startVa = p * 4096 ∧ b.size = 4096
  data : ∀ p ∈ D, p ∈ G ∧ Unlinked dirs s p

theorem MemOk.directories (h : MemOk lay G D dirs held s) : Directories G dirs s :=
  h.accounted.directories

theorem MemOk.owned (h : MemOk lay G D dirs held s) : Owned G s := h.directories.owned

theorem MemOk.counted (h : MemOk lay G D dirs held s) :
    RefPool.Counted lay.pool lay.lost (s.mapping (liveSlots lay dirs s)) s.references
      s.frames.freeFrameList held := h.accounted.counted

/-- Tables named alike with the same words give the same leaves. -/
theorem leaf_congr (htab : ∀ i < 955, t.table dir i = s.table dir i)
    (hentry : ∀ i < 955, ∀ a, s.table dir i = some a → ∀ j,
      t.entry (.heap a, j) = s.entry (.heap a, j)) (hp : p < 977920) :
    t.leaf dir p = s.leaf dir p := by
  have hi : p / 1024 < 955 := by omega
  cases hold : s.table dir (p / 1024) with
  | none => rw [leaf_of_none hold, leaf_of_none ((htab _ hi).trans hold)]
  | some a =>
    rw [leaf_of_some hold, leaf_of_some ((htab _ hi).trans hold)]
    exact hentry _ hi a hold _

/-- The leaves read the owned pages, their frames' descriptors and the boot directory. -/
theorem Directories.leaf_congr (h : Directories G dirs s) (h' : Directories G dirs t)
    (hk : ∀ p ∈ G, t.kernelTable p = s.kernelTable p)
    (hpde : ∀ i < 955, t.pde dir i = s.pde dir i)
    (hram : ∀ p ∈ G, t.ram (s.kframe p) = s.ram (s.kframe p)) (hdir : dir ∈ dirs)
    (hp : p < 977920) : t.leaf dir p = s.leaf dir p := by
  refine Fos.leaf_congr (fun i hi => h.table_congr h' hk hdir hi (hpde i hi)) ?_ hp
  intro i hi a ha j
  obtain ⟨q, hq, rfl, -⟩ := h.table_some hdir hi ha
  show t.ram (t.frameAt (q * 4096)) j = s.ram (s.frameAt (q * 4096)) j
  have hkf : t.kframe q = s.kframe q := by
    unfold Kern.kframe
    rw [hk q hq]
  rw [kframe_page, kframe_page, hkf, hram q hq]

/-- A directory on the heap keeps its words when its page keeps frame and contents. -/
theorem Directories.pde_congr (h : Directories G dirs s)
    (hk : ∀ p ∈ G, t.kernelTable p = s.kernelTable p)
    (hram : ∀ p ∈ G, t.ram (s.kframe p) = s.ram (s.kframe p)) {i : Nat}
    (hd : t.kernelDirectory i = s.kernelDirectory i) (hdir : dir ∈ dirs) :
    t.pde dir i = s.pde dir i := by
  cases dir with
  | boot => exact hd
  | heap d =>
    obtain ⟨q, hq, rfl⟩ := h.dir d hdir
    show t.ram (t.frameAt (q * 4096)) i = s.ram (s.frameAt (q * 4096)) i
    have hkf : t.kframe q = s.kframe q := by
      unfold Kern.kframe
      rw [hk q hq]
    rw [kframe_page, kframe_page, hkf, hram q hq]

theorem Unlinked.congr (hu : Unlinked dirs s p) (h : Directories G dirs s) (hp : p ∈ G)
    (hk : ∀ q ∈ G, t.kernelTable q = s.kernelTable q)
    (hpde : ∀ dir ∈ dirs, ∀ i < 955, t.pde dir i = s.pde dir i) : Unlinked dirs t p := by
  have hkf : ∀ q ∈ G, t.kframe q = s.kframe q := by
    intro q hq
    unfold Kern.kframe
    rw [hk q hq]
  refine ⟨fun dir hdir i hi hpr => ?_, fun d hd => ?_⟩
  · rw [hpde dir hdir i hi] at hpr ⊢
    rw [hkf p hp]
    exact hu.table dir hdir i hi hpr
  · obtain ⟨q, hq, rfl⟩ := h.dir d hd
    have hne := hu.dir _ hd
    rw [kframe_page] at hne ⊢
    rwa [hkf q hq, hkf p hp]

theorem MemOk.data_congr (h : MemOk lay G D dirs held s)
    (hk : ∀ q ∈ G, t.kernelTable q = s.kernelTable q)
    (hpde : ∀ dir ∈ dirs, ∀ i < 955, t.pde dir i = s.pde dir i) (hp : p ∈ D) :
    p ∈ G ∧ Unlinked dirs t p :=
  ⟨(h.data p hp).1, (h.data p hp).2.congr h.directories (h.data p hp).1 hk hpde⟩

/-! ## kmalloc -/

/-- The page of a block of one page. -/
theorem BlockInfo.WF.pages_one (hb : b.WF) (hstart : b.startVa = p * 4096) (hsize : b.size = 4096) :
    b.pages = {p} := by
  ext q
  rw [hb.mem_pages, hstart, hsize, Set.mem_singleton_iff]
  omega

/-- What is left of `kmalloc_accounted` when the pages are not to be owned. -/
theorem MemOk.kmalloc (h : MemOk lay G D dirs held s) (hk : Fos.kmalloc size s = .ok va s') :
    (va = 0 ∧ s' = s) ∨ ∃ b : BlockInfo, b.WF ∧ b.startVa = va ∧ b.size = roundup size pageSize ∧
      s'.heap.blockInfoTakenList.Perm (b :: s.heap.blockInfoTakenList) ∧
      (∀ c ∈ s.heap.blockInfoTakenList, Disjoint b.addrs c.addrs) ∧
      (∀ p ∈ b.pages, p ∉ G) ∧ MapsOnly b.pages s s' ∧
      (∀ dir ∈ dirs, ∀ i, s'.pde dir i = s.pde dir i) ∧
      Accounted lay (G ∪ b.pages) dirs held s' ∧ Quiet dirs D G G s s' ∧
      MemOk lay G D dirs held s' := by
  rcases kmalloc_accounted h.accounted h.heap hk with hnull | hcall
  · exact .inl hnull
  obtain ⟨b, hb, hva, hsize, ha, hd, honly, hheap, hacc⟩ := hcall
  -- the block overlaps none that is taken, and every page of the kernel lies in one
  have hnotG : ∀ p ∈ b.pages, p ∉ G := by
    intro p hp hpG
    obtain ⟨c, hc, hstart, hcs⟩ := h.blocks p hpG
    have hpc : p ∈ c.pages := by
      rw [(h.heap.wf c hc).pages_one hstart hcs]
      exact rfl
    exact Set.disjoint_left.1 (hd c hc) hp hpc
  -- what was mapped before stays mapped
  have htab : ∀ p, present (s.kernelTable p) ∨ ¬ HeapPage p →
      s'.kernelTable p = s.kernelTable p := by
    intro p hp
    apply honly.kernelTable
    intro hpb
    rcases hp with hp | hp
    · obtain ⟨c, hc, hpc⟩ := (h.heap.present_iff p (hb.heapPage hpb)).1 hp
      exact Set.disjoint_left.1 (hd c hc) hpb hpc
    · exact hp (hb.heapPage hpb)
  have hkt : ∀ p ∈ G, s'.kernelTable p = s.kernelTable p :=
    fun p hp => htab p (.inl (h.owned.mapped p hp))
  have hram : ∀ f, s'.ram f = s.ram f := fun f => by rw [honly.ram]
  have hpde : ∀ dir ∈ dirs, ∀ i, s'.pde dir i = s.pde dir i := fun dir hdir i =>
    h.directories.pde_congr hkt (fun p _ => hram _) (by rw [honly.kernelDirectory]) hdir
  have hkf : ∀ p ∈ G, s'.kframe p = s.kframe p := by
    intro p hp
    unfold Kern.kframe
    rw [hkt p hp]
  -- the pages of the block are not yet the kernel's: nothing names them
  have hacc' : Accounted lay G dirs held s' := by
    refine hacc.disown Set.subset_union_left h.directories.dir ?_
    intro dir hdir i hi hpr
    rw [hpde dir hdir i] at hpr ⊢
    obtain ⟨p, hp, he⟩ := h.directories.pde_owned dir hdir i hi hpr
    exact ⟨p, hp, he.trans (hkf p hp).symm⟩
  have hperm : s'.heap.blockInfoTakenList.Perm (b :: s.heap.blockInfoTakenList) := ha.taken
  have hmem : ∀ c ∈ s.heap.blockInfoTakenList, c ∈ s'.heap.blockInfoTakenList :=
    fun c hc => hperm.mem_iff.2 (.tail _ hc)
  refine .inr ⟨b, hb, hva, hsize, hperm, hd, hnotG, honly, hpde, hacc, ?_, hacc', hheap, ?_,
    fun p hp => h.data_congr hkt (fun dir hdir i _ => hpde dir hdir i) hp⟩
  · refine ⟨subset_rfl, fun _ h h' => absurd h h', fun dir hdir p hp => ?_, htab,
      fun f _ _ => hram f, honly.info, honly.free, honly.numberOfFrames, fun i _ => ?_, hmem,
      ha.strategy, honly.disk, honly.envs, honly.shares⟩
    · exact h.directories.leaf_congr hacc'.directories hkt (fun i _ => hpde dir hdir i)
        (fun q _ => hram _) hdir hp
    · rw [honly.kernelDirectory]
  · intro p hp
    obtain ⟨c, hc, hstart, hcs⟩ := h.blocks p hp
    exact ⟨c, hmem c hc, hstart, hcs⟩

/-! ## A page of its own -/

theorem roundup_pageSize : roundup pageSize pageSize = 4096 := by
  unfold roundup rounddown u32 pageSize
  rfl

/-- A page from `kmalloc` can be owned, and no directory leads to it. -/
theorem MemOk.kmallocPage (h : MemOk lay G D dirs held s)
    (hk : Fos.kmalloc pageSize s = .ok va s') (hva : va ≠ 0) :
    ∃ p, va = p * 4096 ∧ p ∉ G ∧ HeapPage p ∧ Unlinked dirs s' p ∧
      (∀ dir ∈ dirs, ∀ i, s'.pde dir i = s.pde dir i) ∧
      Quiet dirs D G (insert p G) s s' ∧ MemOk lay (insert p G) D dirs held s' := by
  rcases h.kmalloc hk with ⟨h0, -⟩ | hcall
  · exact absurd h0 hva
  obtain ⟨b, hb, hstart, hsize, hperm, hd, hnotG, honly, hpde, hacc, hq, hok⟩ := hcall
  rw [roundup_pageSize] at hsize
  obtain ⟨p, hva'⟩ : ∃ p, b.startVa = p * 4096 := ⟨_, hb.start_eq⟩
  have hpages : b.pages = {p} := hb.pages_one hva' hsize
  have hpb : p ∈ b.pages := by rw [hpages]; rfl
  have hpG : p ∉ G := hnotG p hpb
  rw [hpages, Set.union_singleton] at hacc
  -- the page has a frame that was free, so no page owned before has it
  have hne : ∀ q ∈ G, s'.kframe q ≠ s'.kframe p := by
    intro q hqG he
    have := hacc.directories.owned.kframe_inj (.inr hqG) (.inl rfl) he
    exact hpG (this ▸ hqG)
  have hfresh : s'.kframe p ∈ s.frames.freeFrameList := by
    obtain ⟨f, hf, he⟩ := honly.fresh p hpb
    unfold Kern.kframe
    rw [he, ppn_entryOf (by decide)]
    exact hf
  refine ⟨p, hstart ▸ hva', hpG, hb.heapPage hpb, ⟨?_, ?_⟩, hpde, ?_, hacc, hok.heap, ?_,
    fun q hq => ⟨.inr (hok.data q hq).1, (hok.data q hq).2⟩⟩
  · intro dir hdir i hi hpr
    obtain ⟨q, hqG, he⟩ := hok.directories.pde_owned dir hdir i hi hpr
    rw [he]
    exact hne q hqG
  · intro d hdir
    obtain ⟨q, hqG, rfl⟩ := hok.directories.dir d hdir
    rw [kframe_page]
    exact hne q hqG
  · refine { hq with sub := Set.subset_insert _ _, fresh := ?_ }
    rintro q (rfl | hqG) hnot
    · exact hfresh
    · exact absurd hqG hnot
  · rintro q (rfl | hqG)
    · exact ⟨b, hperm.mem_iff.2 List.mem_cons_self, hva', hsize⟩
    · exact hok.blocks q hqG

/-! ## Creating a table -/

/-- `kheap_physical_address` of an owned page. -/
theorem kheapPhysicalAddress_page (ht : HeapTables s) (hp : HeapPage p)
    (hlt : s.kframe p < 1048576) :
    kheapPhysicalAddress (p * 4096) s = .ok (s.kframe p * 4096) s := by
  have hpe := pdx_ptx_page hp.kernelPage.2
  have hu : u32 (s.kframe p * 4096 + 0) = s.kframe p * 4096 := by
    rw [Nat.add_zero]
    exact u32_of_lt (by omega)
  rw [kheapPhysicalAddress, Prog.bind_of_ok (getPageTable_kernel hp.kernelPage (ht.pde hp))]
  dsimp only
  rw [Prog.bind_of_ok (readPte_boot _ _ s), hpe, Nat.mul_mod_left]
  show EStateM.Result.ok (u32 (s.kframe p * 4096 + 0)) s = _
  rw [hu]

theorem MemOk.kframe_lt (h : MemOk lay G D dirs held s) (hp : p ∈ G) : s.kframe p < 1048576 :=
  lay.pool_lt _ (h.counted.inPool _ _ (h.accounted.mapping_owned hp))

theorem setPde_kernelTable {d₀ : DirPtr} {i w : Nat} :
    (s.setPde d₀ i w).kernelTable = s.kernelTable := by
  cases d₀ <;> rfl

/-- Clearing an owned page and entering it in a directory is quiet. -/
theorem MemOk.linkTable {d₀ : DirPtr} {i₀ w : Nat} (h : MemOk lay G D dirs held s)
    (hu : Unlinked dirs s p) (hp : p ∈ G) (hpD : p ∉ D) (hd₀ : d₀ ∈ dirs) (hi₀ : i₀ < 955)
    (hw : present w) (hwp : ppn w = s.kframe p) (hnp : ¬ present (s.pde d₀ i₀)) :
    MemOk lay G D dirs held (s.linkTable d₀ i₀ p w) ∧
      Quiet dirs D G G s (s.linkTable d₀ i₀ p w) := by
  refine ⟨⟨h.accounted.linkTable hu hp hd₀ hi₀ hw hwp hnp, h.heap.linkTable hi₀, ?_, ?_⟩, ?_⟩
  · rw [linkTable_heap]
    exact h.blocks
  · intro q hq
    obtain ⟨hqG, hqu⟩ := h.data q hq
    refine ⟨hqG, fun dir hdir i hi hpr => ?_, fun d hd => ?_⟩
    · rw [linkTable_pde h.directories hu hd₀ hdir] at hpr ⊢
      rw [linkTable_kframe]
      split at hpr
      case isTrue hc =>
        -- the new entry names `p`, which holds no data
        rw [if_pos hc, hwp]
        intro he
        exact hpD (h.owned.kframe_inj hp hqG he ▸ hq)
      case isFalse hc =>
        rw [if_neg hc]
        exact hqu.table dir hdir i hi hpr
    · have hne := hqu.dir d hd
      unfold Kern.frameAt at hne ⊢
      rw [linkTable_kframe]
      rwa [linkTable_kernelTable]
  · refine ⟨subset_rfl, fun _ h h' => absurd h h', fun dir hdir q hq => ?_, fun q _ => ?_,
      fun g _ hg => ?_, fun g _ => ?_, ?_, ?_, fun i hi => linkTable_kernelDirectory hi₀ hi, ?_, ?_,
      linkTable_disk, linkTable_envs, linkTable_shares⟩
    · exact linkTable_leaf h.directories hu hp hd₀ hi₀ hw hwp hnp hdir hq
    · rw [linkTable_kernelTable]
    · refine linkTable_ram_of_ne (hg p hp hpD) ?_
      rintro d rfl
      obtain ⟨q, hq, rfl⟩ := h.directories.dir d hd₀
      rw [kframe_page]
      refine hg q hq fun hqD => ?_
      -- a directory holds no data
      have hne := (h.data q hqD).2.dir _ hd₀
      rw [kframe_page] at hne
      exact hne rfl
    · rw [linkTable_frames]
    · rw [linkTable_frames]
    · rw [linkTable_frames]
    · rw [linkTable_heap]
      exact fun _ h => h
    · rw [linkTable_heap]

/-- `create_page_table` where a page is left for the table. -/
theorem createPageTable_new (hkm : Fos.kmalloc pageSize s = .ok (p * 4096) t)
    (hd : t.ReachDir dir) (ht : HeapTables t) (hp : HeapPage p) (hpr : present (t.kernelTable p))
    (hlt : t.kframe p < 1048576) : Fos.createPageTable dir va s = .ok (.heap (p * 4096))
      (t.linkTable dir (pdx va) p (entryOf (t.kframe p) (permUser ||| permWriteable))) := by
  have hpr' : present ((t.setPde dir (pdx va)
      (entryOf (t.kframe p) (permUser ||| permWriteable))).kernelTable p) := by
    rwa [setPde_kernelTable]
  have hz := zeroWords_page (k := 0) (n := 1024) hpr' (by omega)
  have hkf : (t.setPde dir (pdx va) (entryOf (t.kframe p) (permUser ||| permWriteable))).kframe p =
      t.kframe p := by
    unfold Kern.kframe
    rw [setPde_kernelTable]
  rw [Nat.mul_zero, Nat.add_zero, hkf] at hz
  have hw : writePde dir (pdx va)
      (constructEntry (t.kframe p * 4096) (permUser ||| permWriteable ||| permPresent)) t =
      .ok () (t.setPde dir (pdx va) (entryOf (t.kframe p) (permUser ||| permWriteable))) :=
    writePde_reach hd (pdx_lt va)
  rw [Fos.createPageTable, createPageTableWith, Prog.bind_of_ok hkm, Prog.ite_run,
    if_neg hp.ne_zero, Prog.bind_of_ok (kheapPhysicalAddress_page ht hp hlt), Prog.bind_of_ok hw,
    Prog.bind_of_ok hz]
  rfl

/-- Where there is no page table yet, one is made. -/
theorem pageTable_create {tbl : TablePtr} (hd : s.ReachDir dir) (hz : s.pde dir (pdx va) = 0)
    (hk : Fos.createPageTable dir va s = .ok tbl t) :
    pageTableWith Fos.createPageTable dir va s = .ok tbl t := by
  rw [pageTableWith, Prog.bind_of_ok (getPageTable_zero hd hz)]
  exact hk

theorem mapFrame_create {f perm : Nat} {tbl : TablePtr} (hd : s.ReachDir dir)
    (hz : s.pde dir (pdx va) = 0) (hk : Fos.createPageTable dir va s = .ok tbl t) :
    Fos.mapFrame dir f va perm s = mapFrameIn dir tbl f va perm t := by
  rw [Fos.mapFrame, mapFrameWith, Prog.bind_of_ok (pageTable_create hd hz hk)]

/-- In this state `kmalloc` has page `p` left for a table or a directory. -/
def RoomForPage (s : Kern) (p : Nat) : Prop :=
  let t := Prog.final (Fos.kmalloc pageSize s)
  Prog.value (Fos.kmalloc pageSize s) = some (p * 4096) ∧ HeapPage p ∧
    (∀ i < 40, present (t.kernelDirectory (984 + i))) ∧ present (t.kernelTable p) ∧
    t.kframe p < 1048576

instance (s : Kern) (p : Nat) : Decidable (RoomForPage s p) := by
  unfold RoomForPage HeapPage
  infer_instance

/-- The page is for a table of the directory at `d`, which has none for `va`. -/
def RoomForTable (s : Kern) (d va p : Nat) : Prop :=
  (d % 4096 = 0 ∧ s.Mapped d ∧ (Prog.final (Fos.kmalloc pageSize s)).Mapped d) ∧
    s.pde (.heap d) (pdx va) = 0 ∧ RoomForPage s p

instance (s : Kern) (d va p : Nat) : Decidable (RoomForTable s d va p) := by
  unfold RoomForTable
  infer_instance

/-- The state with the table. -/
def Kern.withTable (s : Kern) (d va p perm : Nat) : Kern :=
  let t := Prog.final (Fos.kmalloc pageSize s)
  t.linkTable (.heap d) (pdx va) p (entryOf (t.kframe p) perm)

theorem RoomForTable.create {d va : Nat} (h : RoomForTable s d va p) :
    Fos.createPageTable (.heap d) va s =
      .ok (.heap (p * 4096)) (s.withTable d va p (permUser ||| permWriteable)) := by
  obtain ⟨⟨hd, -, hmapped⟩, -, hkm, hp, htables, hpr, hlt⟩ := h
  exact createPageTable_new (Prog.ok_of_value hkm) ⟨hd, hmapped⟩ (.of_forall htables) hp hpr hlt

theorem RoomForTable.pageTable {d va : Nat} (h : RoomForTable s d va p) :
    pageTableWith Fos.createPageTable (.heap d) va s =
      .ok (.heap (p * 4096)) (s.withTable d va p (permUser ||| permWriteable)) := by
  have hreach : s.ReachDir (.heap d) := ⟨h.1.1, h.1.2.1⟩
  exact pageTable_create hreach h.2.1 h.create

theorem RoomForTable.mapFrame {d va f perm : Nat} (h : RoomForTable s d va p) :
    Fos.mapFrame (.heap d) f va perm s =
      mapFrameIn (.heap d) (.heap (p * 4096)) f va perm
        (s.withTable d va p (permUser ||| permWriteable)) := by
  have hreach : s.ReachDir (.heap d) := ⟨h.1.1, h.1.2.1⟩
  exact mapFrame_create hreach h.2.1 h.create

/-- **`create_page_table`.** The directory gets a clear table on an owned page, and nothing that was
in use changes. -/
theorem MemOk.createPageTable_link {tbl : TablePtr} (h : MemOk lay G D dirs held s)
    (hdir : dir ∈ dirs) (hva : va < userTop) (hnp : ¬ present (s.pde dir (pdx va)))
    (hk : Fos.createPageTable dir va s = .ok tbl s') :
    ∃ p u, Fos.kmalloc pageSize s = .ok (p * 4096) u ∧ p * 4096 ≠ 0 ∧ p ∉ G ∧
      tbl = .heap (p * 4096) ∧ s'.heap = u.heap ∧
      (∀ dir' ∈ dirs, ∀ i < 955, s'.table dir' i =
        if dir' = dir ∧ i = pdx va then some (p * 4096) else s.table dir' i) ∧
      Quiet dirs D G (insert p G) s s' ∧ MemOk lay (insert p G) D dirs held s' := by
  have hi : pdx va < 955 := by
    unfold pdx
    unfold userTop at hva
    omega
  obtain ⟨add, s₁, hkm, hrest⟩ := bind_eq_ok.1 hk
  rw [Prog.ite_run] at hrest
  split at hrest
  case isTrue => cases hrest
  case isFalse hadd =>
    obtain ⟨p, rfl, hpG, hpage, hu, hpde, hq, hok⟩ := h.kmallocPage hkm hadd
    have hpG' : p ∈ insert p G := Set.mem_insert p G
    rw [createPageTable_new hkm (hok.directories.reachDir hdir) hok.heap.tables hpage
      (hok.owned.mapped p hpG') (hok.kframe_lt hpG')] at hk
    obtain ⟨rfl, rfl⟩ := ok_inj.1 hk
    have hperm : permUser ||| permWriteable < 4096 := by decide
    have hw := present_entryOf (f := s₁.kframe p) hperm
    have hwp := ppn_entryOf (f := s₁.kframe p) hperm
    have hnp₁ : ¬ present (s₁.pde dir (pdx va)) := by
      rwa [hpde dir hdir]
    -- the page is new, so it is none of the data pages
    have hpD : p ∉ D := fun hp => hpG (h.data p hp).1
    obtain ⟨hok', hq'⟩ := hok.linkTable hu hpG' hpD hdir hi hw hwp hnp₁
    refine ⟨p, s₁, hkm, hadd, hpG, rfl, linkTable_heap, fun dir' hdir' j hj => ?_,
      hq.trans hq' h.owned hok.owned, hok'⟩
    obtain ⟨-, -, -, -, -, -, -, -, -, -, -, hokG⟩ :=
      (h.kmalloc hkm).resolve_left fun h0 => hadd h0.1
    rw [linkTable_table hok.directories hu hpG' hdir hi hw hwp hdir' hj]
    have hkept : ∀ q ∈ G, s₁.kernelTable q = s.kernelTable q :=
      fun q hq' => hq.kernelTable q (.inl (h.owned.mapped q hq'))
    rw [h.directories.table_congr hokG.directories hkept hdir' hj (hpde dir' hdir' j)]

/-- `kmalloc` of one page takes the head of the free list. -/
theorem MemOk.kmalloc_head (h : MemOk lay G D dirs held s)
    (hk : Fos.kmalloc pageSize s = .ok (p * 4096) t) (hp : p * 4096 ≠ 0) :
    s.frames.freeFrameList.head? = some (t.kframe p) := by
  rcases h.kmalloc hk with ⟨h0, -⟩ | ⟨b, hb, hstart, hsize, -, -, -, honly, -, hacc, -, -⟩
  · exact absurd h0 hp
  rw [roundup_pageSize] at hsize
  have hpages : b.pages = {p} := hb.pages_one hstart hsize
  rw [hpages] at honly hacc
  exact honly.kframe_head h.counted.nodup (hacc.counted.notFree (hacc.mapping_owned (.inr rfl)))

/-- So the frame of a new table is the one that was the head of the list. -/
theorem MemOk.createPageTable_head (h : MemOk lay G D dirs held s) (hdir : dir ∈ dirs)
    (hk : Fos.createPageTable dir va s = .ok (.heap (p * 4096)) s') :
    s.frames.freeFrameList.head? = some (s'.kframe p) := by
  obtain ⟨add, s₁, hkm, hrest⟩ := bind_eq_ok.1 hk
  rw [Prog.ite_run] at hrest
  split at hrest
  case isTrue => cases hrest
  case isFalse hadd =>
    obtain ⟨q, rfl, -, hpage, -, -, -, hok⟩ := h.kmallocPage hkm hadd
    have hq : q ∈ insert q G := Set.mem_insert q G
    rw [createPageTable_new hkm (hok.directories.reachDir hdir) hok.heap.tables hpage
      (hok.owned.mapped q hq) (hok.kframe_lt hq)] at hk
    obtain ⟨hptr, rfl⟩ := ok_inj.1 hk
    obtain rfl : q = p := Nat.eq_of_mul_eq_mul_right (by decide) (TablePtr.heap.inj hptr)
    rw [linkTable_kframe]
    exact h.kmalloc_head hkm hadd

theorem MemOk.createPageTable {tbl : TablePtr} (h : MemOk lay G D dirs held s) (hdir : dir ∈ dirs)
    (hva : va < userTop) (hnp : ¬ present (s.pde dir (pdx va)))
    (hk : Fos.createPageTable dir va s = .ok tbl s') :
    ∃ p, p ∉ G ∧ tbl = .heap (p * 4096) ∧ s'.table dir (pdx va) = some (p * 4096) ∧
      Quiet dirs D G (insert p G) s s' ∧ MemOk lay (insert p G) D dirs held s' := by
  have hi : pdx va < 955 := by
    unfold pdx
    unfold userTop at hva
    omega
  obtain ⟨p, -, -, -, hpG, htbl, -, htab, hq, hok⟩ := h.createPageTable_link hdir hva hnp hk
  have hnew := htab dir hdir _ hi
  rw [if_pos ⟨rfl, rfl⟩] at hnew
  exact ⟨p, hpG, htbl, hnew, hq, hok⟩

end

end Fos
