import Fos.SharedMemory.Calls

/-!
# Calls that return

With memory left, the calls on shared objects return. Room is counted under continuous allocation,
where each page of the kernel heap that a call needs is the next one.
-/

namespace Fos

open Function (update)
open Prog (bind_eq_ok bind_of_ok ok_inj)

/-- The next `n` pages of the kernel heap can be allocated. -/
structure Room (n : Nat) (s : Kern) : Prop where
  strategy : s.heap.strategy = .contAlloc
  space : s.heap.lastVaInKheap + 4096 * n ≤ kernelHeapMax
  blocks : n ≤ s.heap.freeBlocks.length
  frames : n ≤ s.frames.freeFrameList.length

section

variable {lay : Layout} {G D : Set Nat} {dirs : Roots} {held : Set Nat} {s t : Kern} {dir : DirPtr}
  {tbl : TablePtr} {d f i k m n p perm va : Nat}

theorem Room.congr (h : Room n s) (hheap : t.heap = s.heap)
    (hfree : t.frames.freeFrameList = s.frames.freeFrameList) : Room n t := by
  obtain ⟨h1, h2, h3, h4⟩ := h
  exact ⟨by rw [hheap, h1], by rw [hheap]; exact h2, by rw [hheap]; exact h3, by rw [hfree]; exact h4⟩

theorem Room.mono (h : Room n s) (hle : m ≤ n) : Room m s := by
  obtain ⟨h1, h2, h3, h4⟩ := h
  exact ⟨h1, by omega, by omega, by omega⟩

/-! ## Frames and pages of the kernel heap -/

theorem Room.allocateFrame (h : Room (n + 1) s) :
    ∃ f t, Fos.allocateFrame s = .ok f t ∧ Room n t := by
  obtain ⟨h1, h2, h3, h4⟩ := h
  cases hl : s.frames.freeFrameList with
  | nil =>
    rw [hl] at h4
    cases h4
  | cons f rest =>
    rw [hl] at h4
    exact ⟨f, _, allocateFrame_cons hl, h1, by show s.heap.lastVaInKheap + _ ≤ _; omega,
      by show n ≤ s.heap.freeBlocks.length; omega, Nat.le_of_succ_le_succ h4⟩

/-- The next page of the kernel heap is not mapped. -/
theorem MemOk.next_page (h : MemOk lay G D dirs held s) (hr : Room (n + 1) s) :
    ∃ p, s.heap.lastVaInKheap = p * 4096 ∧ HeapPage p ∧ ¬ present (s.kernelTable p) := by
  have hsrc := h.heap.source
  rw [Heap.SourceOk, hr.strategy] at hsrc
  obtain ⟨hal, hlo, -, hend⟩ := hsrc
  have hspace := hr.space
  obtain ⟨p, hp⟩ : ∃ p, s.heap.lastVaInKheap = p * 4096 := ⟨s.heap.lastVaInKheap / 4096, by omega⟩
  have hpage : HeapPage p := by
    unfold kernelHeapStart at hlo
    unfold kernelHeapMax at hspace
    unfold HeapPage
    omega
  refine ⟨p, hp, hpage, ?_⟩
  rw [h.heap.present_iff p hpage]
  rintro ⟨b, hb, hpb⟩
  have := hend b hb
  obtain ⟨-, hlt⟩ : b.startVa ≤ p * 4096 ∧ p * 4096 < b.startVa + b.size := hpb
  omega

/-- **`kmalloc` of a page** with room for it. -/
theorem MemOk.kmalloc_room (h : MemOk lay G D dirs held s) (hr : Room (n + 1) s) :
    ∃ p t, Fos.kmalloc pageSize s = .ok (p * 4096) t ∧ HeapPage p ∧ Room n t := by
  obtain ⟨p, hlast, hp, hnp⟩ := h.next_page hr
  have hspace := hr.space
  rw [hlast] at hspace
  have hroom : p * 4096 + 4096 + 4096 * n ≤ kernelHeapMax := by
    rw [Nat.add_assoc, Nat.add_comm 4096]
    exact hspace
  have hfits : 4096 ≤ u32Sub kernelHeapMax (p * 4096) := by
    rw [u32Sub_of_le (Nat.le_trans (Nat.le_add_right ..) hspace) (by decide)]
    exact Nat.le_sub_of_add_le (Nat.le_trans (by omega) hspace)
  have hnext : u32 (p * 4096 + 4096) = p * 4096 + 4096 := by
    unfold kernelHeapMax at hroom
    exact u32_of_lt (by omega)
  obtain ⟨hst, -, hblocks, hframes⟩ := hr
  cases hl : s.frames.freeFrameList with
  | nil =>
    rw [hl] at hframes
    cases hframes
  | cons f rest =>
    cases hb : s.heap.freeBlocks with
    | nil =>
      rw [hb] at hblocks
      cases hblocks
    | cons b blocks =>
      -- one frame, one page and one descriptor: the room lost is that of the round
      have hone := @allocate_mapFrame_kernel (createPageTableWith kmallocNested) s p permWriteable
        hp.kernelPage (h.heap.tables.pde hp) hnp
      rw [hl] at hone
      have hmap : mapPages (mapFrameWith (createPageTableWith kmallocNested) .boot) 1 (p * 4096) s =
          .ok () ((s.setFrames (s.frames.take f rest)).mapPage f p permWriteable) := by
        rw [mapPages_succ, ← bind_assoc, bind_of_ok hone]
        rfl
      set t₁ := (s.setFrames (s.frames.take f rest)).mapPage f p permWriteable with ht₁
      have hheap : t₁.heap = s.heap := rfl
      have halloc : kAllocateBlock (t₁.setHeap (t₁.heap.advance 4096)) = .ok b
          ((t₁.setHeap (t₁.heap.advance 4096)).setHeap
            { t₁.heap.advance 4096 with freeBlocks := blocks }) := by
        simp only [kAllocateBlock, Prog.get_bind_apply, Kern.setHeap, Heap.advance, hheap, hb]
        rfl
      refine ⟨p, (t₁.setHeap { t₁.heap.advance 4096 with freeBlocks := blocks }).setHeap
        (({ t₁.heap.advance 4096 with freeBlocks := blocks } : Heap).insertTaken ⟨b, p * 4096, 4096⟩),
        ?_, hp, hst, ?_, ?_, ?_⟩
      · rw [Fos.kmalloc, kmallocWith, Prog.get_bind_apply, hst]
        show contAllocation _ _ s = _
        rw [contAllocation, Prog.get_bind_apply, roundup_pageSize, hlast, Prog.ite_run,
          if_pos hfits, show 4096 / pageSize = 1 from rfl, bind_of_ok hmap, Prog.get_bind_apply,
          Prog.modify_bind_apply, bind_of_ok halloc, hheap, hlast]
        rfl
      · show u32 (s.heap.lastVaInKheap + 4096) + 4096 * n ≤ kernelHeapMax
        rw [hlast, hnext]
        exact hroom
      · rw [hb] at hblocks
        exact Nat.le_of_succ_le_succ hblocks
      · rw [hl] at hframes
        exact Nat.le_of_succ_le_succ hframes

/-! ## Tables and mappings -/

/-- **`create_page_table`** with room for it. -/
theorem MemOk.createPageTable_room (h : MemOk lay G D dirs held s) (va : Nat)
    (hr : Room (n + 1) s) (hdir : dir ∈ dirs) :
    ∃ tbl t, Fos.createPageTable dir va s = .ok tbl t ∧ Room n t := by
  obtain ⟨p, t, hkm, hp, hr'⟩ := h.kmalloc_room hr
  obtain ⟨q, hpq, -, -, -, -, -, hok⟩ := h.kmallocPage hkm hp.ne_zero
  obtain rfl : p = q := by omega
  have hpG : p ∈ insert p G := Set.mem_insert p G
  refine ⟨_, _, createPageTable_new hkm (hok.directories.reachDir hdir) hok.heap.tables hp
    (hok.owned.mapped p hpG) (hok.kframe_lt hpG), ?_⟩
  exact hr'.congr linkTable_heap (by rw [linkTable_frames])

/-- `map_frame` in a table where the page is not mapped. -/
theorem mapFrameIn_room (dir : DirPtr) (f perm : Nat) (hr : Room n s) (ht : s.Reach tbl)
    (hnp : ¬ present (s.entry (tbl, ptx va))) :
    ∃ t, mapFrameIn dir tbl f va perm s = .ok () t ∧ Room n t := by
  have ht' : (s.setFrames (s.frames.addReference f va)).Reach tbl := by cases tbl <;> exact ht
  refine ⟨(s.setFrames (s.frames.addReference f va)).setEntry (tbl, ptx va)
    (constructEntry (f * 4096) (perm ||| permPresent)), ?_, hr.congr ?_ ?_⟩
  · rw [mapFrameIn, bind_of_ok (readPte_reach ht (ptx_lt va)), Prog.ite_run,
      if_neg fun hc => hnp hc.1, if_neg hnp]
    show writePte tbl (ptx va) _ (s.setFrames (s.frames.addReference f va)) = _
    exact writePte_reach ht' (ptx_lt va)
  · cases tbl <;> rfl
  · rw [setEntry_frames]
    rfl

/-- The table of a user page: it is there, or it is made. -/
theorem MemOk.pageTable_room (h : MemOk lay G D dirs held s) (hr : Room (n + 1) s)
    (hdir : dir ∈ dirs) (hva : va < userTop) (hz : ¬ present (s.leaf dir (ppn va))) :
    ∃ tbl t, pageTableWith Fos.createPageTable dir va s = .ok tbl t ∧ t.Reach tbl ∧
      ¬ present (t.entry (tbl, ptx va)) ∧ Room n t ∧
      (s.table dir (ppn va / 1024) ≠ none → Room (n + 1) t) := by
  have hd := h.directories
  obtain ⟨hpdx, hlt⟩ := pdx_user hva
  have hi : pdx va < 955 := by omega
  have hget := getPageTable_user (hd.reachDir hdir) hva (hd.pde_zero dir hdir _ hi)
  -- only a missing table takes one page of the heap
  cases ha : s.table dir (pdx va) with
  | some a =>
    obtain ⟨p, hp, rfl, -⟩ := hd.table_some hdir hi ha
    rw [ha] at hget
    refine ⟨_, s, by rw [pageTableWith, bind_of_ok hget]; rfl, hd.owned.reach hp, ?_,
      hr.mono (Nat.le_succ n), fun _ => hr⟩
    rw [leaf_of_some (by rw [← hpdx]; exact ha)] at hz
    rw [ptx_eq]
    exact hz
  | none =>
    rw [ha] at hget
    obtain ⟨tbl, t, hcreate, hr'⟩ := h.createPageTable_room va hr hdir
    have hnp : ¬ present (s.pde dir (pdx va)) := by
      intro hpr
      unfold Kern.table at ha
      rw [if_pos hpr] at ha
      cases ha
    obtain ⟨p, -, rfl, htab, hq, hok⟩ := h.createPageTable hdir hva hnp hcreate
    refine ⟨_, t, by rw [pageTableWith, bind_of_ok hget]; exact hcreate,
      hok.owned.reach (Set.mem_insert p G), ?_, hr', fun hc => absurd (hpdx ▸ ha) hc⟩
    rw [ptx_eq, ← leaf_of_some (by rw [← hpdx]; exact htab), hq.leaf dir hdir _ hlt]
    exact hz

/-- **`map_frame`** of a user page that is not mapped. -/
theorem MemOk.mapFrame_room (h : MemOk lay G D dirs held s) (f perm : Nat) (hr : Room (n + 1) s)
    (hdir : dir ∈ dirs) (hva : va < userTop) (hz : s.leaf dir (ppn va) = 0) :
    ∃ t, Fos.mapFrame dir f va perm s = .ok () t ∧ Room n t ∧
      (s.table dir (ppn va / 1024) ≠ none → Room (n + 1) t) := by
  have hnp : ¬ present (s.leaf dir (ppn va)) := by
    rw [hz]
    exact not_present_zero
  obtain ⟨tbl, t, htbl, hreach, hentry, hr', hr''⟩ := h.pageTable_room hr hdir hva hnp
  obtain ⟨u, hmap, hru⟩ := mapFrameIn_room dir f perm hr' hreach hentry
  refine ⟨u, ?_, hru, fun htab => ?_⟩
  · rw [Fos.mapFrame, mapFrameWith]
    rw [bind_of_ok htbl]
    exact hmap
  · obtain ⟨v, hmap', hrv⟩ := mapFrameIn_room dir f perm (hr'' htab) hreach
      hentry
    obtain ⟨-, rfl⟩ := ok_inj.1 (hmap.symm.trans hmap')
    exact hrv

/-- `map_frame` of a user page that is not mapped, without a bound on the count of the frame. -/
theorem MemOk.mapFrame_unmapped (h : MemOk lay G D dirs held s) (hdir : dir ∈ dirs.page)
    (hva : va < userTop) (hz : s.leaf dir (ppn va) = 0) (hf : Usable lay G s f)
    (hk : Fos.mapFrame dir f va perm s = .ok () t) :
    (∀ dir' ∈ dirs, ∀ q < 977920, t.leaf dir' q =
      if dir' = dir ∧ q = ppn va then entryOf f perm else s.leaf dir' q) ∧
    t.references f = u16Succ (s.references f) ∧ t.envs = s.envs ∧ t.shares = s.shares := by
  obtain ⟨G', u, x, hq, hok, -, huser, hr⟩ := h.mapFrame hdir (.inl hva) hk
  have hx := huser hva
  have hf' := hf.quiet hq h.owned
  have hnp : ¬ present (u.entry x) := by
    rw [hx.entry, hq.leaf dir (.inl hdir) _ (pdx_user hva).2, hz]
    exact not_present_zero
  have hback : ∀ q ∈ G', ((u.frames.addReference f va).info (u.kframe q)).va =
      (u.frames.info (u.kframe q)).va := by
    intro q hqG
    rw [addReference_info_of_ne _ _ (hf'.notOwned q hqG).symm]
  -- nothing was mapped, so neither of the other outcomes applies
  cases hr with
  | same hpr => exact absurd hpr hnp
  | other hpr => exact absurd hpr hnp
  | new _ =>
    refine ⟨fun dir' hdir' q hlt => ?_, ?_, ?_, ?_⟩
    · rw [Kern.mapSlot, hx.leaf_update hok.directories _ hback hdir' hlt, hq.leaf dir' hdir' q hlt]
    · have hframes : (u.mapSlot x f va perm).frames = u.frames.addReference f va :=
        setEntry_frames _ _ _
      unfold Kern.references
      rw [hframes, addReference_info_self, hq.info f hf.notFree]
    · rw [Kern.mapSlot, setEntry_envs]
      exact hq.envs
    · rw [Kern.mapSlot, setEntry_shares]
      exact hq.shares

/-- `add_frame_to_storage` with room for a table. -/
theorem MemOk.addFrameToStorage_room (h : MemOk lay G D dirs held s) (hr : Room (n + 1) s)
    (hd : .heap d ∈ dirs) (hk : k < 977920) (hz : s.leaf (.heap d) k = 0) :
    ∃ t, Fos.addFrameToStorage d f k s = .ok () t ∧ Room n t := by
  obtain ⟨-, hlt, hppn⟩ := storage_addr hk
  have hnp : ¬ present (s.leaf (.heap d) (ppn (u32 (k * pageSize)))) := by
    rw [hppn, hz]
    exact not_present_zero
  obtain ⟨tbl, t, htbl, hreach, -, hr', -⟩ := h.pageTable_room hr hd hlt hnp
  have hwrite := writePte_reach (w := constructEntry (f * 4096) permPresent) hreach
    (ptx_lt (u32 (k * pageSize)))
  refine ⟨_, by rw [Fos.addFrameToStorage, bind_of_ok htbl]; exact hwrite, hr'.congr ?_ ?_⟩
  · cases tbl <;> rfl
  · rw [setEntry_frames]

/-! ## The calls on objects of one page -/

/-- **`createSharedObject`** of one page, with room for the storage, its table, the frame and a
table of the environment. -/
theorem SharesOk.createSharedObject_room {atts : List Attachment}
    {ownerID size isWritable curenv : Nat}
    {name : List UInt8} (h : SharesOk lay G dirs atts s) (hr : Room (n + 4) s)
    (hvacant : (List.range s.shares.maxShares).find? (fun i => (s.shares.shares i).empty) = some i)
    (hfind : s.shares.find ownerID name = none) (hun : Unmapped s curenv va 1)
    (hsize : roundup size pageSize = 4096) :
    ∃ t p, Fos.createSharedObject curenv ownerID name size isWritable va s = .ok i t ∧ Room n t ∧
      (∀ dir ∈ dirs.page, ∀ q < 977920, ¬ (dir = s.pageDirectory curenv ∧ q = ppn va) →
        t.leaf dir q = s.leaf dir q) ∧ t.envs = s.envs ∧
      t.shares = s.shares.setShare i ⟨ownerID, name, 4096, 1, isWritable, false, p * 4096⟩ := by
  have hmem := List.mem_of_find?_eq_some hvacant
  have hempty := List.find?_some hvacant
  obtain ⟨p, s₁, hkm, hp, hr₁⟩ := h.mem.kmalloc_room hr
  obtain ⟨p', hp', -, -, -, -, -, hok₁⟩ := h.mem.kmallocPage hkm hp.ne_zero
  obtain rfl : p = p' := by omega
  have hzero := zeroWords_page (k := 0) (n := 1024)
    (hok₁.owned.mapped p (Set.mem_insert p G)) (by omega)
  rw [Nat.mul_zero, Nat.add_zero] at hzero
  have hnew : newFramesStorage s = .ok (p * 4096) (s₁.clearWords (s₁.kframe p) 0 1024) := by
    rw [newFramesStorage, bind_of_ok hkm, Prog.ite_run, if_neg hp.ne_zero, bind_of_ok hzero]
    rfl
  set s₂ := (s₁.clearWords (s₁.kframe p) 0 1024).setShares
    (s.shares.setShare i ((s.shares.shares i).taken (p * 4096))) with hs₂
  have halloc : Fos.allocateShareObject s = .ok i s₂ := by
    rw [Fos.allocateShareObject, Prog.get_bind_apply, Prog.ite_run,
      if_neg (by simp [h.table]), hvacant]
    exact (takeShareEntry_iff h.table).2 ⟨_, _, hnew, rfl, rfl⟩
  have hr₂ : Room (n + 3) s₂ := hr₁.congr rfl rfl
  obtain ⟨j, q, G₂, dirs', hij, hi, -, hpage, hok₂, hatt₂, hsh₂, henv₂, hleaf₂⟩ :=
    h.allocateShareObject ⟨i, List.mem_range.1 hmem, hempty⟩ halloc
  obtain rfl : i = j := by omega
  have hdir : s.pageDirectory curenv ∈ dirs'.page := by
    rw [hpage]
    exact h.envs curenv hun.dir
  have hva : va < userTop := Nat.lt_of_lt_of_le (by omega) hun.range
  have hentry : s₂.shares.shares i = (s.shares.shares i).taken (p * 4096) := Function.update_self ..
  have hroot : .heap (p * 4096) ∈ dirs'.disk ∧ s₂.leaf (.heap (p * 4096)) 0 = 0 := by
    have hpq : q = p := by
      have he := congrArg (fun sh => (sh.shares i).framesStorage) hsh₂
      dsimp only [Shares.setShare] at he
      rw [hentry, Function.update_self] at he
      change p * 4096 = q * 4096 at he
      omega
    have hobj : update s.shares.object i (some ⟨q, 0⟩) i = some ⟨q, 0⟩ := Function.update_self ..
    rw [← hpq]
    exact ⟨hatt₂.storage i ⟨q, 0⟩ hobj, hatt₂.rest i ⟨q, 0⟩ hobj 0 (Nat.le_refl 0) (by decide)⟩
  -- the frame of the page
  obtain ⟨f, s₃, hframe, hr₃⟩ := hr₂.allocateFrame
  obtain ⟨hok₃, hq₃, husable, hinfo, -, -, -⟩ := hok₂.allocateFrame hframe
  have hz₃ : s₃.leaf (s.pageDirectory curenv) (ppn va) = 0 := by
    rw [hq₃.leaf _ (.inl hdir) _ (pdx_user hva).2, hleaf₂ _ (hpage ▸ hdir) _ (pdx_user hva).2]
    exact hun.zero 0 Nat.zero_lt_one
  obtain ⟨s₄, hmap, hr₄, -⟩ := hok₃.mapFrame_room f (permWriteable ||| permUser) hr₃
    (.inl hdir) hva hz₃
  have href : s₃.references f < 65535 := by
    unfold Kern.references
    rw [hinfo]
    decide
  obtain ⟨G₄, -, hok₄, hm, -⟩ := hok₃.mapUser hdir hva hz₃ husable href (by decide) hmap
  obtain ⟨hleaf₄, -, -, -⟩ := hok₃.mapFrame_unmapped hdir hva hz₃ husable hmap
  -- its entry in the storage
  have hz₄ : s₄.leaf (.heap (p * 4096)) 0 = 0 := by
    rw [hm.diskLeaf _ hroot.1 _ (by omega), hq₃.leaf _ (.inr hroot.1) _ (by omega)]
    exact hroot.2
  obtain ⟨s₅, hadd, hr₅⟩ := hok₄.addFrameToStorage_room (f := f) (k := 0) hr₄ (.inr hroot.1)
    (by omega) hz₄
  obtain ⟨-, -, -, hstores, -⟩ := hok₄.addFrameToStorage hroot.1 (by omega) hadd
  have hnull₅ : s₅.shares.null = false := by
    rw [hstores.shares, hm.shares, hq₃.shares]
    exact h.table
  set made : Share := ⟨ownerID, name, 4096, 1, isWritable, (s₅.shares.shares i).empty,
    (s₅.shares.shares i).framesStorage⟩ with hmade
  have hroom : Room n (s₅.setShares (s₅.shares.setShare i made)) := hr₅.congr rfl rfl
  have hmade' : made = ⟨ownerID, name, 4096, 1, isWritable, false, p * 4096⟩ := by
    rw [hmade, hstores.shares, hm.shares, hq₃.shares, hentry]
    rfl
  have hleaf : ∀ dir ∈ dirs.page, ∀ q < 977920, ¬ (dir = s.pageDirectory curenv ∧ q = ppn va) →
      s₅.leaf dir q = s.leaf dir q := by
    intro dir hd q hq hne
    have hd' : dir ∈ dirs'.page := by
      rw [hpage]
      exact hd
    rw [hstores.leaf dir hd' q hq, hleaf₄ dir (.inl hd') q hq, if_neg hne,
      hq₃.leaf _ (.inl hd') _ hq, hleaf₂ _ hd _ hq]
  have henvs : s₅.envs = s.envs := by
    rw [hstores.envs, hm.envs, hq₃.envs, henv₂]
  have hshares : s₅.shares.setShare i made =
      s.shares.setShare i ⟨ownerID, name, 4096, 1, isWritable, false, p * 4096⟩ := by
    rw [hmade', hstores.shares, hm.shares, hq₃.shares, hs₂]
    exact setShare_setShare ..
  refine ⟨_, p, ?_, hroom, hleaf, henvs, hshares⟩
  have hlook : getShareObjectID ownerID name s = _ := getShareObjectID_run h.table
  rw [hfind] at hlook
  have hnull₂ : s₂.shares.null = false := h.table
  have hpages : Fos.createSharedPages (s.pageDirectory curenv) (p * 4096) 0 va 1 s₂ = .ok () s₅ := by
    rw [Fos.createSharedPages, bind_of_ok hframe, bind_of_ok hmap, bind_of_ok hadd]
    rfl
  have hcall : Fos.createSharedPages (.heap (s₂.envs curenv).envPageDirectory)
      ((s.shares.shares i).taken (p * 4096)).framesStorage 0 va (4096 / pageSize) s₂ = .ok () s₅ := by
    rw [henv₂]
    exact hpages
  rw [Fos.createSharedObject, bind_of_ok hlook, Prog.ite_run, if_neg (by decide), bind_of_ok halloc,
    Prog.ite_run, if_neg (by unfold eNoShare; omega), Int.toNat_natCast,
    bind_of_ok (readShare_ok hnull₂), Prog.get_bind_apply, hentry, hsize, bind_of_ok hcall,
    bind_of_ok (writeShare_ok hnull₅ _)]
  rfl

/-- **`getSharedObject`** of an object of one page, with room for a table of the environment. The
entry of the page and the two counts are as after any call; the counts of 16 and 32 bits may
wrap. -/
theorem SharesOk.getSharedObject_room {atts : List Attachment} {ownerID curenv : Nat}
    {name : List UInt8} {o : ObjectAt} (h : SharesOk lay G dirs atts s) (hr : Room (n + 1) s)
    (hfind : s.shares.find ownerID name = some i) (ho : s.shares.object i = some o)
    (hone : o.pages = 1) (hun : Unmapped s curenv va 1) :
    ∃ t, Fos.getSharedObject curenv ownerID name va s = .ok i t ∧ Room n t ∧
      (s.table (s.pageDirectory curenv) (ppn va / 1024) ≠ none → Room (n + 1) t) ∧
      (∀ dir ∈ dirs, ∀ q < 977920, t.leaf dir q =
        if dir = s.pageDirectory curenv ∧ q = ppn va then
          entryOf (s.storedFrame o 0) (s.shares.shares i).perm
        else s.leaf dir q) ∧
      t.references (s.storedFrame o 0) = u16Succ (s.references (s.storedFrame o 0)) ∧
      t.envs = s.envs ∧ t.shares = s.shares.setShare i { s.shares.shares i with
        references := u32 ((s.shares.shares i).references + 1) } := by
  have hdir : s.pageDirectory curenv ∈ dirs.page := h.envs curenv hun.dir
  have hva : va < userTop := Nat.lt_of_lt_of_le (by omega) hun.range
  have hz : s.leaf (s.pageDirectory curenv) (ppn va) = 0 := hun.zero 0 Nat.zero_lt_one
  -- the frame that the storage lists
  have hget := h.getFrameFromStorage ho
  have hpresent : present (s.leaf o.root 0) := h.attached.stored i o ho 0 (by omega)
  rw [frameIn_present hpresent] at hget
  change Fos.getFrameFromStorage _ 0 s = .ok (some (s.storedFrame o 0)) s at hget
  obtain ⟨a, ha, hcov⟩ := h.covered i o ho 0 (by omega)
  have huser := h.attached.userFrame ho ha hcov
  have husable : Usable lay G s (s.storedFrame o 0) := by
    obtain ⟨dir, hd, q, hq, hpr, he⟩ := huser
    rw [← he]
    exact h.mem.usable_leaf hd hq hpr
  obtain ⟨s₁, hmap, hr₁, hr₁'⟩ := h.mem.mapFrame_room (s.storedFrame o 0)
    (s.shares.shares i).perm hr (.inl hdir) hva hz
  obtain ⟨hleaf, hrefs, henvs, hshares⟩ := h.mem.mapFrame_unmapped hdir hva hz husable hmap
  have hnull₁ : s₁.shares.null = false := by
    rw [hshares]
    exact h.table
  have hsize : (s.shares.shares i).size / pageSize = 1 := by
    rw [(object_eq_some.1 ho).2.2, hone]
  have hpages : getSharedPages (s.pageDirectory curenv) (s.shares.shares i) 0 va 1 s = .ok () s₁ := by
    rw [Fos.getSharedPages, bind_of_ok hget]
    dsimp only
    rw [show (if (s.shares.shares i).isWritable ≠ 0 then permWriteable ||| permUser else permUser) =
      (s.shares.shares i).perm from rfl]
    rw [bind_of_ok hmap]
    rfl
  set got : Share := { s.shares.shares i with
    references := u32 ((s.shares.shares i).references + 1) } with hgot
  refine ⟨s₁.setShares (s.shares.setShare i got), ?_, hr₁.congr rfl rfl,
    fun hc => (hr₁' hc).congr rfl rfl, hleaf, hrefs, henvs, rfl⟩
  have hlook : getShareObjectID ownerID name s = _ := getShareObjectID_run h.table
  rw [hfind] at hlook
  dsimp only at hlook
  have hne : (i : Int) ≠ eSharedMemNotExists := by
    unfold eSharedMemNotExists
    omega
  rw [Fos.getSharedObject, bind_of_ok hlook, Prog.ite_run, if_neg hne, Int.toNat_natCast,
    bind_of_ok (readShare_ok h.table), Prog.get_bind_apply, hsize, bind_of_ok hpages,
    bind_of_ok (writeShare_ok hnull₁ _), hshares]
  rfl

end

end Fos
