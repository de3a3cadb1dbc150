import Fos.PageFile.Slots
import Fos.PageTables.Access
import Fos.PageTables.Empty
import Fos.SharedMemory

/-!
# The frames storages

A frames storage is a directory that no environment runs in: its leaves are read for their frame
numbers, and no frame is counted for them. It is entered, read and cleared like the directories of
the page file.
-/

namespace Fos

open Prog (bind_eq_ok ok_inj)

/-- What writing one leaf of a storage does, and what it leaves alone. -/
structure StoresLeaf (dirs : Roots) (D held : Set Nat) (dir : DirPtr) (p w : Nat) (s t : Kern) :
    Prop extends Still dirs.page D held s t where
  disk : t.disk = s.disk
  envs : t.envs = s.envs
  shares : t.shares = s.shares
  diskLeaf : ∀ dir' ∈ dirs.disk, ∀ q < 977920,
    t.leaf dir' q = if dir' = dir ∧ q = p then w else s.leaf dir' q

/-- The frame that a directory names at a page, where its leaves are entered with frames. -/
def Kern.frameIn (s : Kern) (dir : DirPtr) (p : Nat) : Option Nat :=
  if s.leaf dir p = 0 then none else some (ppn (s.leaf dir p))

section

variable {lay : Layout} {G G' D R : Set Nat} {dirs : Roots} {held : Set Nat} {s s' t u : Kern}
  {dir : DirPtr} {d f i k n p q va : Nat}

theorem frameIn_some (h : s.frameIn dir p = some f) :
    s.leaf dir p ≠ 0 ∧ ppn (s.leaf dir p) = f := by
  unfold Kern.frameIn at h
  split at h
  · cases h
  · exact ⟨‹_›, Option.some.inj h⟩

theorem frameIn_none : s.frameIn dir p = none ↔ s.leaf dir p = 0 := by
  unfold Kern.frameIn
  split
  · exact iff_of_true rfl ‹_›
  · exact iff_of_false (by simp) ‹_›

theorem frameIn_present (h : present (s.leaf dir p)) :
    s.frameIn dir p = some (ppn (s.leaf dir p)) := if_neg (present_ne_zero h)

/-! ## Reading -/

/-- **`get_frame_info`** below `USER_TOP`. -/
theorem MemOk.getFrameInfo_frameIn (h : MemOk lay G D dirs held s) (hdir : dir ∈ dirs)
    (hva : va < userTop)
    (hin : s.leaf dir (ppn va) ≠ 0 → ppn (s.leaf dir (ppn va)) < s.frames.numberOfFrames) :
    ∃ o, Fos.getFrameInfo dir va s = .ok o s ∧ o.map Prod.fst = s.frameIn dir (ppn va) := by
  have hd := h.directories
  obtain ⟨hpdx, hlt⟩ := pdx_user hva
  have hi : pdx va < 955 := by omega
  have hget := getPageTable_user (hd.reachDir hdir) hva (hd.pde_zero dir hdir _ hi)
  cases ha : s.table dir (pdx va) with
  | none =>
    have h0 : s.leaf dir (ppn va) = 0 := leaf_of_none (by rw [← hpdx, ha])
    refine ⟨none, ?_, (frameIn_none.2 h0).symm⟩
    rw [Fos.getFrameInfo, Prog.bind_of_ok hget, ha]
    rfl
  | some a =>
    obtain ⟨r, hr, rfl, -⟩ := hd.table_some hdir hi ha
    have hne : TablePtr.heap (r * 4096) ≠ .null :=
      fun hn => (hd.owned.heapPage r hr).ne_zero (TablePtr.heap.inj hn)
    have hread := readPte_reach (hd.owned.reach hr) (ptx_lt va)
    have hleaf : s.entry (.heap (r * 4096), ptx va) = s.leaf dir (ppn va) := by
      rw [leaf_of_some (t := r * 4096) (by rw [← hpdx, ha])]
      rfl
    rw [hleaf] at hread
    by_cases h0 : s.leaf dir (ppn va) = 0
    · refine ⟨none, ?_, (frameIn_none.2 h0).symm⟩
      rw [Fos.getFrameInfo, Prog.bind_of_ok hget, ha]
      show (if TablePtr.heap (r * 4096) = .null then pure none else _ : K _) s = _
      rw [Prog.ite_run, if_neg hne, Prog.bind_of_ok hread, Prog.ite_run, if_neg (not_not.2 h0)]
      rfl
    · refine ⟨some (ppn (s.leaf dir (ppn va)), .heap (r * 4096)), ?_, (if_neg h0).symm⟩
      have hframe : toFrameInfo (extractAddress (s.leaf dir (ppn va))) s =
          .ok (ppn (s.leaf dir (ppn va))) s := by
        rw [toFrameInfo, Prog.get_bind_apply, Prog.ite_run, ppn_extractAddress,
          if_neg (Nat.not_le.2 (hin h0))]
        rfl
      rw [Fos.getFrameInfo, Prog.bind_of_ok hget, ha]
      show (if TablePtr.heap (r * 4096) = .null then pure none else _ : K _) s = _
      rw [Prog.ite_run, if_neg hne, Prog.bind_of_ok hread, Prog.ite_run, if_pos h0,
        Prog.bind_of_ok hframe]
      rfl

theorem storage_addr (hk : k < 977920) :
    u32 (k * pageSize) = k * 4096 ∧ u32 (k * pageSize) < userTop ∧
    ppn (u32 (k * pageSize)) = k := by
  have hu : u32 (k * 4096) = k * 4096 := u32_of_lt (by omega)
  change u32 (k * 4096) = k * 4096 ∧ u32 (k * 4096) < userTop ∧ ppn (u32 (k * 4096)) = k
  rw [hu]
  exact ⟨rfl, by unfold userTop; omega, by unfold ppn; omega⟩

/-- **`get_frame_from_storage`.** -/
theorem MemOk.getFrameFromStorage (h : MemOk lay G D dirs held s) (hd : .heap d ∈ dirs.disk)
    (hk : k < 977920) (hin : s.leaf (.heap d) k ≠ 0 →
      ppn (s.leaf (.heap d) k) < s.frames.numberOfFrames) :
    Fos.getFrameFromStorage d k s = .ok (s.frameIn (.heap d) k) s := by
  obtain ⟨-, hlt, hppn⟩ := storage_addr hk
  obtain ⟨o, ho, hmap⟩ := h.getFrameInfo_frameIn (.inr hd) hlt (by rw [hppn]; exact hin)
  rw [hppn] at hmap
  rw [Fos.getFrameFromStorage, Prog.bind_of_ok ho, ← hmap]
  rfl

/-! ## Writing -/

theorem entryOf_zero (f : Nat) : constructEntry (f * 4096) permPresent = entryOf f 0 := by
  unfold entryOf
  rw [Nat.zero_or]

/-- The table that `add_frame_to_storage` writes to: it is there, or a new one is linked. -/
inductive StorageTable (dirs : Roots) (d k : Nat) (s u : Kern) (a : Nat) : Prop
  | old (ha : s.table (.heap d) (k / 1024) = some a) (hu : u = s)
  | new (v : Kern) (hnone : s.table (.heap d) (k / 1024) = none)
      (hkm : Fos.kmalloc pageSize s = .ok a v) (ha : a ≠ 0) (hheap : u.heap = v.heap)
      (htab : ∀ dir ∈ dirs, ∀ i < 955, u.table dir i =
        if dir = .heap d ∧ i = k / 1024 then some a else s.table dir i)

/-- `add_frame_to_storage`, up to the entry. -/
theorem MemOk.addFrameToStorage_table (h : MemOk lay G D dirs held s) (hd : .heap d ∈ dirs.disk)
    (hk : k < 977920) (hrun : Fos.addFrameToStorage d f k s = .ok () t) :
    ∃ G' u a, StorageTable dirs d k s u a ∧ Quiet dirs D G G' s u ∧ MemOk lay G' D dirs held u ∧
      DiskEntry dirs u (.heap d) k a ∧ t = u.setEntry (.heap a, k % 1024) (entryOf f 0) := by
  obtain ⟨-, hlt, hppn⟩ := storage_addr hk
  obtain ⟨hpdx, -⟩ := pdx_user hlt
  have hi : pdx (u32 (k * pageSize)) < 955 := by
    rw [hpdx, hppn]
    omega
  rw [Fos.addFrameToStorage] at hrun
  obtain ⟨tbl, u, h₁, h₂⟩ := bind_eq_ok.1 hrun
  obtain ⟨G', a, hst, hq, hok, hta, rfl⟩ : ∃ G' a, StorageTable dirs d k s u a ∧
    Quiet dirs D G G' s u ∧
      MemOk lay G' D dirs held u ∧ u.table (.heap d) (k / 1024) = some a ∧ tbl = .heap a := by
    -- `addFrameToStorage` makes the table where there is none
    have hget := getPageTable_user (h.directories.reachDir (.inr hd)) hlt
      (h.directories.pde_zero _ (.inr hd) _ hi)
    rw [pageTableWith, Prog.bind_of_ok hget] at h₁
    rw [hpdx, hppn] at h₁
    cases ha : s.table (.heap d) (k / 1024) with
    | some a =>
      rw [ha] at h₁
      obtain ⟨rfl, rfl⟩ := ok_inj.1 h₁
      exact ⟨G, a, .old ha rfl, .refl _ _ _ _, h, ha, rfl⟩
    | none =>
      rw [ha] at h₁
      have hnp : ¬ present (s.pde (.heap d) (pdx (u32 (k * pageSize)))) := by
        intro hpr
        rw [hpdx, hppn] at hpr
        unfold Kern.table at ha
        rw [if_pos hpr] at ha
        cases ha
      obtain ⟨p, v, hkm, hne, -, rfl, hheap, htab, hq, hok⟩ :=
        h.createPageTable_link (.inr hd) hlt hnp h₁
      rw [hpdx, hppn] at htab
      have hnew := htab _ (.inr hd) (k / 1024) (by omega)
      rw [if_pos ⟨rfl, rfl⟩] at hnew
      exact ⟨_, p * 4096, .new v ha hkm hne hheap htab, hq, hok, hnew, rfl⟩
  have he : DiskEntry dirs u (.heap d) k a := ⟨hd, hk, hta⟩
  have hw := he.write hok.directories (entryOf f 0)
  rw [entryOf_zero, show ptx (u32 (k * pageSize)) = k % 1024 by rw [ptx_eq, hppn]] at h₂
  change writeWord (a + 4 * (k % 1024)) (entryOf f 0) u = .ok () t at h₂
  rw [hw] at h₂
  obtain ⟨-, rfl⟩ := ok_inj.1 h₂
  exact ⟨G', u, a, hst, hq, hok, he, rfl⟩

/-- **`add_frame_to_storage`.** -/
theorem MemOk.addFrameToStorage (h : MemOk lay G D dirs held s) (hd : .heap d ∈ dirs.disk)
    (hk : k < 977920) (hrun : Fos.addFrameToStorage d f k s = .ok () t) :
    ∃ G', G ⊆ G' ∧ MemOk lay G' D dirs held t ∧
      StoresLeaf dirs D held (.heap d) k (entryOf f 0) s t ∧
      t.frames.freeFrameList <:+ s.frames.freeFrameList := by
  obtain ⟨G', u, a, -, hq, hok, he, rfl⟩ := h.addFrameToStorage_table hd hk hrun
  refine ⟨G', hq.sub, hok.setDiskEntry he _,
    ⟨(hq.still h).trans (hok.setDiskEntry_still he _), ?_, ?_, ?_, fun dir' hdir' q hq' => ?_⟩, ?_⟩
  · rw [setEntry_disk, hq.disk]
  · rw [setEntry_envs, hq.envs]
  · rw [setEntry_shares, hq.shares]
  · rw [hok.directories.setTable_leaf (.inr hd) hk he.table _ (.inr hdir') hq',
      hq.leaf dir' (.inr hdir') q hq']
  · rw [setEntry_frames]
    exact hq.free

/-! ## A new storage -/

/-- **The storage of a new object**: a page of the heap, cleared. -/
theorem MemOk.newStorage (h : MemOk lay G D dirs held s) (hk : Fos.kmalloc pageSize s = .ok va t)
    (hva : va ≠ 0) (hz : zeroWords va 1024 t = .ok () u) :
    ∃ p, ∃ hd : .heap (p * 4096) ∉ dirs, va = p * 4096 ∧
      MemOk lay (insert p G) D (dirs.addDisk (.heap (p * 4096)) hd) held u ∧
      Quiet dirs D G (insert p G) s u ∧ ∀ i < 955, u.table (.heap (p * 4096)) i = none := by
  obtain ⟨p, rfl, hpG, -, hu, -, hq, hok⟩ := h.kmallocPage hk hva
  have hpG' : p ∈ insert p G := Set.mem_insert p G
  have hpD : p ∉ D := fun hp => hpG (h.data p hp).1
  have hzero := zeroWords_page (k := 0) (n := 1024) (hok.owned.mapped p hpG') (by omega)
  rw [Nat.mul_zero, Nat.add_zero, hz] at hzero
  obtain ⟨-, rfl⟩ := ok_inj.1 hzero
  have hn : NewRoot (insert p G) dirs (dirs.addDisk (.heap (p * 4096)) hu.notMem) t p
      (clearedWords t (t.kframe p)) :=
    newRoot_disk hpG' hu fun i hi => if_pos ⟨by omega, by omega⟩
  obtain ⟨hok', hq'⟩ := hok.addRoot hn hpD
  exact ⟨p, hu.notMem, rfl, hok', hq.trans hq' h.owned hok.owned, fun i hi => hn.table_new hi⟩

/-! ## A storage given back -/

/-- A page of the heap that is not owned and holds nothing in use. -/
structure LoosePage (pages : List DirPtr) (D held G : Set Nat) (s : Kern) (p : Nat) : Prop where
  heapPage : HeapPage p
  mapped : present (s.kernelTable p)
  back : (s.frames.info (s.kframe p)).va = p * 4096
  notOwned : p ∉ G
  notInUse : ¬ InUse pages D held s (s.kframe p)
  block : ∀ b ∈ s.heap.blockInfoTakenList, b.startVa = p * 4096 → ∀ q ∈ b.pages, q = p

theorem LoosePage.kframe_inj (hp : LoosePage dirs.page D held G s p)
    (hq : LoosePage dirs.page D held G s q) (he : s.kframe p = s.kframe q) : p = q := by
  have h1 := hp.back
  have h2 := hq.back
  rw [he, h2] at h1
  omega

theorem LoosePage.kframe_owned (hp : LoosePage dirs.page D held G s p)
    (ho : Owned G s) (hq : q ∈ G) : s.kframe p ≠ s.kframe q := by
  intro he
  have h1 := hp.back
  rw [he, ho.back q hq] at h1
  have : q = p := by omega
  exact hp.notOwned (this ▸ hq)

theorem LoosePage.static (hp : LoosePage dirs.page D held G s p) (h : MemOk lay G D dirs held s) :
    3 ≤ s.kframe p := by
  have hm : s.mapping (liveSlots lay dirs s) (bootSlot p) = some (s.kframe p) := by
    rw [mapping_of_present (bootSlot_live (lay.heap_dynamic p hp.heapPage)) (by
      rw [entry_bootSlot]; exact hp.mapped), entry_bootSlot]
    rfl
  exact lay.pool_ge _ (h.counted.inPool _ _ hm)

/-- A loose page stays loose while others are given back. -/
theorem LoosePage.frees (hp : LoosePage dirs.page D held G s p) (h : FreesPages dirs D held R s t)
    (hR : ∀ q ∈ R, LoosePage dirs.page D held G s q) (hpR : p ∉ R) :
    LoosePage dirs.page D held G t p := by
  have hkf : t.kframe p = s.kframe p := h.kframe hpR
  refine ⟨hp.heapPage, ?_, ?_, hp.notOwned, ?_, fun b hb => hp.block b (h.sub b hb)⟩
  · rw [h.kernelTable p hpR]
    exact hp.mapped
  · rw [hkf, h.others _ fun q hq he => hpR (hp.kframe_inj (hR q hq) he ▸ hq)]
    exact hp.back
  · rw [hkf, h.inUse_iff]
    exact hp.notInUse

/-- Writing to a loose page. -/
theorem LoosePage.fill (hp : LoosePage dirs.page D held G s p) (h : MemOk lay G D dirs held s)
    (words : Nat → Nat) : MemOk lay G D dirs held (s.fill (s.kframe p) words) ∧
      FreesPages dirs D held ∅ s (s.fill (s.kframe p) words) := by
  obtain ⟨hok, hleaf⟩ := h.fillUser (fun q hq => hp.kframe_owned h.owned hq) words
  refine ⟨hok, ⟨⟨⟨fun _ _ => rfl, fun _ _ => rfl, fun _ _ => rfl, rfl, rfl, fun f hf => ?_⟩,
    fun dir hdir => hleaf dir (.inl hdir), fun f hf => ?_, fun _ _ => rfl⟩,
    ⟨rfl, rfl, rfl, fun dir hdir => hleaf dir (.inr hdir)⟩, fun _ _ => rfl, fun _ _ => rfl,
    fun _ hf => .inl hf, List.suffix_refl _, fun _ hb _ => hb, fun _ hb => hb,
    fun _ _ hq => hq.elim⟩⟩
  · have := hp.static h
    exact fill_ram_of_ne (by omega)
  · refine fill_ram_of_ne ?_
    rintro rfl
    exact hp.notInUse hf

/-- The pages of a storage: its directory and its tables. -/
def storagePages (s : Kern) (p : Nat) : Set Nat :=
  insert p (tableFrames s (.heap (p * 4096)) {i | i < 955})

theorem MemOk.loose (h : MemOk lay G D dirs held s) (hpG : p ∈ G) (hp : p ∉ G')
    (hpD : p ∉ D) : LoosePage dirs.page D held G' s p :=
  ⟨h.owned.heapPage p hpG, h.owned.mapped p hpG, h.owned.back p hpG, hp,
    fun hu => (h.inUse hu).2 p hpG hpD rfl, fun _ hb hstart => h.block_page hpG hb hstart⟩

/-- A directory other than that of the storage names none of its pages. -/
theorem Directories.storage_pde (h : Directories G dirs s) (hd : .heap (p * 4096) ∈ dirs.disk)
    (hdir : dir ∈ dirs) (hne : dir ≠ .heap (p * 4096)) (hi : i < 955) (hpr : present (s.pde dir i))
    (hq : q ∈ storagePages s p) : ppn (s.pde dir i) ≠ s.kframe q := by
  intro he
  rcases hq with rfl | ⟨k, hk, hq⟩
  · have := h.pde_ne_dir dir hdir i hi hpr _ (.inr hd)
    rw [kframe_page] at this
    exact this he
  · obtain ⟨r, -, hqr, hprk, hn⟩ := h.table_some (.inr hd) hk hq
    obtain rfl : q = r := by omega
    exact hne (h.pde_inj dir hdir i hi _ (.inr hd) k hk hpr hprk (he.trans hn.symm)).1

theorem Directories.storage_owned (h : Directories G dirs s) (hd : .heap (p * 4096) ∈ dirs.disk)
    (hq : q ∈ storagePages s p) : q ∈ G := by
  rcases hq with rfl | ⟨k, hk, hq⟩
  · obtain ⟨r, hr, hqr⟩ := h.dir _ (.inr hd)
    obtain rfl : q = r := by omega
    exact hr
  · obtain ⟨r, hr, hqr, -⟩ := h.table_some (.inr hd) hk hq
    obtain rfl : q = r := by omega
    exact hr

/-- **A storage that is forgotten** leaves its pages loose. -/
theorem MemOk.dropStorage (h : MemOk lay G D dirs held s) (hd : .heap (p * 4096) ∈ dirs.disk) :
    MemOk lay (G \ storagePages s p) D (dirs.dropDisk (.heap (p * 4096))) held s ∧
      ∀ q ∈ storagePages s p, LoosePage dirs.page D held (G \ storagePages s p) s q := by
  have hdirs := h.directories
  have hmem : ∀ dir, dir ∈ dirs.dropDisk (.heap (p * 4096)) → dir ∈ dirs ∧ dir ≠ .heap (p * 4096) :=
    fun dir hdir => (Roots.mem_dropDisk hd).1 hdir
  -- the directories that stay lie outside of the storage
  have hdirOf : ∀ d, .heap d ∈ dirs.dropDisk (.heap (p * 4096)) →
      ∃ q ∈ G \ storagePages s p, d = q * 4096 := by
    intro d hdir
    obtain ⟨hold, hne⟩ := hmem _ hdir
    obtain ⟨q, hq, rfl⟩ := hdirs.dir d hold
    refine ⟨q, ⟨hq, ?_⟩, rfl⟩
    rintro (rfl | ⟨k, hk, hqk⟩)
    · exact hne rfl
    · obtain ⟨r, -, hqr, hprk, hn⟩ := hdirs.table_some (.inr hd) hk hqk
      obtain rfl : q = r := by omega
      have := hdirs.pde_ne_dir _ (.inr hd) k hk hprk _ hold
      rw [kframe_page] at this
      exact this hn
  -- nor is a page of the storage a data page
  have hnotD : ∀ q ∈ storagePages s p, q ∉ D := by
    rintro q (rfl | ⟨k, hk, hqk⟩) hD
    · have := (h.data _ hD).2.dir _ (.inr hd)
      rw [kframe_page] at this
      exact this rfl
    · obtain ⟨r, hr, hqr, hprk, hn⟩ := hdirs.table_some (.inr hd) hk hqk
      obtain rfl : q = r := by omega
      exact (h.data _ hD).2.table _ (.inr hd) k hk hprk hn
  have hdrop := h.dropDisk hd
  refine ⟨⟨hdrop.accounted.disown ?_ hdirOf ?_, h.heap, fun q hq => h.blocks q hq.1, ?_⟩, ?_⟩
  · intro q hq
    exact ⟨hq.1, fun hqp => hq.2 (.inl hqp)⟩
  · intro dir hdir i hi hpr
    obtain ⟨q, hq, he⟩ := hdirs.pde_owned dir (hmem dir hdir).1 i hi hpr
    obtain ⟨hold, hne⟩ := hmem dir hdir
    exact ⟨q, ⟨hq, fun hst => hdirs.storage_pde hd hold hne hi hpr hst he⟩, he⟩
  · intro q hq
    obtain ⟨hqG, hqu⟩ := h.data q hq
    exact ⟨⟨hqG, fun hst => hnotD q hst hq⟩, fun dir hdir => hqu.table dir (hmem dir hdir).1,
      fun d hdir => hqu.dir d (hmem _ hdir).1⟩
  · intro q hq
    exact h.loose (hdirs.storage_owned hd hq) (fun hc => hc.2 hq) (hnotD q hq)

/-- The entries `i` to `i + n - 1` of the directory at page `p` name the loose pages `T`. -/
def NamesLoose (pages : List DirPtr) (D held G : Set Nat) (s : Kern) (p : Nat)
    (T : Nat → Option Nat) (i n : Nat) : Prop :=
  ∀ j, i ≤ j → j < i + n → (T j = none ∧ s.ram (s.kframe p) j = 0) ∨
    ∃ q, T j = some q ∧ q ≠ p ∧ s.ram (s.kframe p) j ≠ 0 ∧ ppn (s.ram (s.kframe p) j) = s.kframe q ∧
      LoosePage pages D held G s q

/-- An entry that is zero is passed over. -/
theorem LoosePage.clear_none (hp : LoosePage dirs.page D held G s p) (hi : i < 1024)
    (h0 : s.ram (s.kframe p) i = 0) : Fos.clearFramesStorage (p * 4096) i (n + 1) s =
      Fos.clearFramesStorage (p * 4096) (i + 1) n s := by
  have hreach : s.ReachDir (.heap (p * 4096)) := ⟨by omega, (mapped_page _ _).2 hp.mapped⟩
  have hread := readPde_reach (i := i) hreach hi
  have hpde : s.pde (.heap (p * 4096)) i = s.ram (s.kframe p) i := by
    show s.ram (s.frameAt (p * 4096)) i = _
    rw [kframe_page]
  rw [hpde] at hread
  rw [Fos.clearFramesStorage, Prog.bind_of_ok hread, if_neg (not_not.2 h0)]
  rfl

/-- The page that an entry names is freed, and the entry cleared. -/
theorem LoosePage.clear_some (hp : LoosePage dirs.page D held G s p)
    (hq : LoosePage dirs.page D held G s q) (hi : i < 1024) (hne : s.ram (s.kframe p) i ≠ 0)
    (hn : ppn (s.ram (s.kframe p) i) = s.kframe q) :
    Fos.clearFramesStorage (p * 4096) i (n + 1) s = (do
      Fos.kfree (q * 4096)
      writePde (.heap (p * 4096)) i 0
      Fos.clearFramesStorage (p * 4096) (i + 1) n : K Unit) s := by
  have hreach : s.ReachDir (.heap (p * 4096)) := ⟨by omega, (mapped_page _ _).2 hp.mapped⟩
  have hread := readPde_reach (i := i) hreach hi
  have hpde : s.pde (.heap (p * 4096)) i = s.ram (s.kframe p) i := by
    show s.ram (s.frameAt (p * 4096)) i = _
    rw [kframe_page]
  rw [hpde] at hread
  have hva : kheapVirtualAddress s (extractAddress (s.ram (s.kframe p) i)) = q * 4096 := by
    have hmod : extractAddress (s.ram (s.kframe p) i) % 4096 = 0 := by
      unfold extractAddress
      omega
    unfold kheapVirtualAddress
    rw [ppn_extractAddress, hn, hq.back, hmod, Nat.add_zero, u32_of_lt hq.heapPage.addr_lt]
  rw [Fos.clearFramesStorage, Prog.bind_of_ok hread, if_pos hne, bind_assoc,
    Prog.get_bind_apply, hva, bind_assoc]

/-- **One entry of `clear_frames_storage`**, once the block of its table is freed. -/
theorem MemOk.clearEntry {T : Nat → Option Nat} {s₁ : Kern} (h : MemOk lay G D dirs held s)
    (hp : LoosePage dirs.page D held G s p) (hin : i + (n + 1) ≤ 1024)
    (hT : NamesLoose dirs.page D held G s p T i (n + 1))
    (hinj : ∀ j k q, i ≤ j → j < i + (n + 1) → i ≤ k → k < i + (n + 1) → T j = some q →
      T k = some q → j = k)
    (hsome : T i = some q) (hqp : q ≠ p) (hq : LoosePage dirs.page D held G s q)
    (hk : Fos.kfree (q * 4096) s = .ok () s₁) :
    ∃ s₂, writePde (.heap (p * 4096)) i 0 s₁ = .ok () s₂ ∧ s₂.heap = s₁.heap ∧
      MemOk lay G D dirs held s₂ ∧ FreesPages dirs D held {q} s s₂ ∧
      LoosePage dirs.page D held G s₂ p ∧ NamesLoose dirs.page D held G s₂ p T (i + 1) n := by
  obtain ⟨hok₁, hf₁, -, hram₁⟩ := h.kfreePage hq.notOwned hq.block hq.notInUse hk
  have hone : ∀ r ∈ ({q} : Set Nat), LoosePage dirs.page D held G s r := by
    rintro r rfl
    exact hq
  have hp₁ := hp.frees hf₁ hone fun hc => hqp hc.symm
  have hreach₁ : s₁.ReachDir (.heap (p * 4096)) := ⟨by omega, (mapped_page _ _).2 hp₁.mapped⟩
  set words := Function.update (s₁.ram (s₁.kframe p)) i 0 with hwords
  have hfill : s₁.setPde (.heap (p * 4096)) i 0 = s₁.fill (s₁.kframe p) words := by
    show s₁.store (s₁.frameAt (p * 4096)) i 0 = _
    rw [kframe_page]
    rfl
  have hwrite := writePde_reach (w := 0) hreach₁ (show i < 1024 by omega)
  rw [hfill] at hwrite
  obtain ⟨hok₂, hf₂⟩ := hp₁.fill hok₁ words
  have hboth := hf₁.trans hf₂ fun r hr => hr.elim
  rw [Set.union_empty] at hboth
  have hkf : (s₁.fill (s₁.kframe p) words).kframe p = s.kframe p :=
    hboth.kframe fun hc => hqp hc.symm
  have hkf₁ : s₁.kframe p = s.kframe p := hf₁.kframe fun hc => hqp hc.symm
  -- the entries behind `i` are read as they were
  have hram : ∀ j, i + 1 ≤ j →
      (s₁.fill (s₁.kframe p) words).ram (s.kframe p) j = s.ram (s.kframe p) j := by
    intro j hj
    rw [← hkf₁, fill_ram_self, hwords, Function.update_of_ne (by omega), hram₁]
  have hp₂ := hp.frees hboth hone fun hc => hqp hc.symm
  refine ⟨_, hwrite, rfl, hok₂, hboth, hp₂, fun j h1 h2 => ?_⟩
  rw [hkf, hram j h1]
  apply (hT j (by omega) (by omega)).imp_right
  rintro ⟨r, hr, hrp, hne', hn', hlr⟩
  have hrq : r ∉ ({q} : Set Nat) := by
    rintro rfl
    have := hinj i j r (le_refl i) (by omega) (by omega) (by omega) hsome hr
    omega
  refine ⟨r, hr, hrp, hne', ?_, hlr.frees hboth hone hrq⟩
  rw [hn', hboth.kframe hrq]

/-- **The loop of `clear_frames_storage`**: the entries name loose pages, each by itself. -/
theorem MemOk.clearFramesStorage {T : Nat → Option Nat} (h : MemOk lay G D dirs held s)
    (hp : LoosePage dirs.page D held G s p) (hin : i + n ≤ 1024)
    (hT : NamesLoose dirs.page D held G s p T i n)
    (hinj : ∀ j k q, i ≤ j → j < i + n → i ≤ k → k < i + n → T j = some q → T k = some q → j = k)
    (hk : Fos.clearFramesStorage (p * 4096) i n s = .ok () t) :
    MemOk lay G D dirs held t ∧
      FreesPages dirs D held {q | ∃ j, i ≤ j ∧ j < i + n ∧ T j = some q} s t ∧
      LoosePage dirs.page D held G t p := by
  induction n generalizing i s with
  | zero =>
    obtain ⟨-, rfl⟩ := ok_inj.1 hk
    have : {q | ∃ j, i ≤ j ∧ j < i + 0 ∧ T j = some q} = ∅ := by
      ext q
      refine iff_of_false ?_ id
      rintro ⟨j, h1, h2, -⟩
      omega
    rw [this]
    exact ⟨h, .refl _ _ _ _, hp⟩
  | succ n ih =>
    rcases hT i (le_refl i) (by omega) with ⟨hnone, h0⟩ | ⟨q, hsome, hqp, hne, hn, hq⟩
    · rw [hp.clear_none (by omega) h0] at hk
      obtain ⟨hok, hf, hloose⟩ := ih h hp (by omega) (fun j h1 h2 => hT j (by omega) (by omega))
        (fun j k q h1 h2 h3 h4 => hinj j k q (by omega) (by omega) (by omega) (by omega)) hk
      have hset : {q | ∃ j, i ≤ j ∧ j < i + (n + 1) ∧ T j = some q} =
          {q | ∃ j, i + 1 ≤ j ∧ j < i + 1 + n ∧ T j = some q} := by
        ext q
        constructor
        · rintro ⟨j, h1, h2, hj⟩
          refine ⟨j, ?_, by omega, hj⟩
          rcases Nat.eq_or_lt_of_le h1 with rfl | hlt
          · rw [hnone] at hj
            cases hj
          · exact hlt
        · rintro ⟨j, h1, h2, hj⟩
          exact ⟨j, by omega, by omega, hj⟩
      rw [hset]
      exact ⟨hok, hf, hloose⟩
    · rw [hp.clear_some hq (by omega) hne hn] at hk
      -- the block of the table, then the entry of the directory
      obtain ⟨_, s₁, h₁, hk⟩ := bind_eq_ok.1 hk
      obtain ⟨s₂, hwrite, -, hok₂, hboth, hp₂, hT'⟩ := h.clearEntry hp hin hT hinj hsome hqp hq h₁
      rw [Prog.bind_of_ok hwrite] at hk
      obtain ⟨hok, hf, hloose⟩ := ih hok₂ hp₂ (by omega) hT'
        (fun j k q h1 h2 h3 h4 => hinj j k q (by omega) (by omega) (by omega) (by omega)) hk
      refine ⟨hok, ?_, hloose⟩
      have hset : {r | ∃ j, i ≤ j ∧ j < i + (n + 1) ∧ T j = some r} =
          {q} ∪ {r | ∃ j, i + 1 ≤ j ∧ j < i + 1 + n ∧ T j = some r} := by
        ext r
        constructor
        · rintro ⟨j, h1, h2, hj⟩
          rcases Nat.eq_or_lt_of_le h1 with rfl | hlt
          · rw [hsome] at hj
            exact .inl (Option.some.inj hj).symm
          · exact .inr ⟨j, hlt, by omega, hj⟩
        · rintro (rfl | ⟨j, h1, h2, hj⟩)
          · exact ⟨i, le_refl i, by omega, hsome⟩
          · exact ⟨j, by omega, by omega, hj⟩
      rw [hset]
      apply hboth.trans hf
      rintro r ⟨j, h1, h2, hj⟩ hrq
      have hrq' : r = q := hrq
      subst hrq'
      have := hinj i j r (le_refl i) (by omega) (by omega) (by omega) hsome hj
      omega

/-- The page of table `j` of the storage at page `p`. -/
def storageTables (s : Kern) (p j : Nat) : Option Nat :=
  if j < 955 then (s.table (.heap (p * 4096)) j).map (· / 4096) else none

theorem Directories.storageTables (h : Directories G dirs s) (hd : .heap (p * 4096) ∈ dirs.disk) :
    Fos.storageTables s p i = some q ↔ i < 955 ∧
    s.table (.heap (p * 4096)) i = some (q * 4096) := by
  unfold Fos.storageTables
  constructor
  · intro hi
    by_cases hlt : i < 955
    · rw [if_pos hlt] at hi
      obtain ⟨a, ha, rfl⟩ := Option.map_eq_some_iff.1 hi
      obtain ⟨r, -, rfl, -⟩ := h.table_some (.inr hd) hlt ha
      refine ⟨hlt, ?_⟩
      rw [ha, Nat.mul_div_cancel _ (by omega)]
    · rw [if_neg hlt] at hi
      cases hi
  · rintro ⟨hlt, hq⟩
    rw [if_pos hlt, hq]
    simp

theorem Directories.storageTables_inj (h : Directories G dirs s) (hd : .heap (p * 4096) ∈ dirs.disk)
    (hi : Fos.storageTables s p i = some q) (hk : Fos.storageTables s p k = some q) : i = k := by
  obtain ⟨hj1, hjt⟩ := (h.storageTables hd).1 hi
  obtain ⟨hk1, hkt⟩ := (h.storageTables hd).1 hk
  obtain ⟨r, -, hr, hpr, hn⟩ := h.table_some (.inr hd) hj1 hjt
  obtain ⟨r', -, hr', hpr', hn'⟩ := h.table_some (.inr hd) hk1 hkt
  obtain rfl : r = r' := by omega
  exact (h.pde_inj _ (.inr hd) i hj1 _ (.inr hd) k hk1 hpr hpr' (hn.trans hn'.symm)).2

theorem Directories.storageTables_ne (h : Directories G dirs s)
    (hd : .heap (p * 4096) ∈ dirs.disk) : Fos.storageTables s p i ≠ some p := by
  intro hi
  obtain ⟨hlt, hq⟩ := (h.storageTables hd).1 hi
  obtain ⟨r, -, hqr, hpr, hn⟩ := h.table_some (.inr hd) hlt hq
  obtain rfl : p = r := by omega
  have := h.pde_ne_dir _ (.inr hd) i hlt hpr _ (.inr hd)
  rw [kframe_page] at this
  exact this hn

/-- Once the storage is forgotten its directory names the pages of its tables. -/
theorem MemOk.storageNames (h : MemOk lay G D dirs held s) (hd : .heap (p * 4096) ∈ dirs.disk) :
    NamesLoose dirs.page D held (G \ storagePages s p) s p (Fos.storageTables s p) 0 1024 := by
  have hdirs := h.directories
  have hpde : ∀ j, s.pde (.heap (p * 4096)) j = s.ram (s.kframe p) j := by
    intro j
    show s.ram (s.frameAt (p * 4096)) j = _
    rw [kframe_page]
  intro j _ hj
  rw [← hpde j]
  by_cases hlt : j < 955
  · by_cases hpr : present (s.pde (.heap (p * 4096)) j)
    · obtain ⟨q, hq, hn⟩ := hdirs.pde_owned _ (.inr hd) j hlt hpr
      have htab := hdirs.table_eq hpr hq hn
      have hsome := (hdirs.storageTables hd).2 ⟨hlt, htab⟩
      refine .inr ⟨q, hsome, ?_, present_ne_zero hpr, hn,
        (h.dropStorage hd).2 q (.inr ⟨j, hlt, htab⟩)⟩
      rintro rfl
      exact hdirs.storageTables_ne hd hsome
    · refine .inl ⟨?_, hdirs.pde_zero _ (.inr hd) j hlt hpr⟩
      unfold Fos.storageTables Kern.table
      rw [if_pos hlt, if_neg hpr]
      rfl
  · -- the entries of the kernel part were cleared and never written
    exact .inl ⟨if_neg hlt, hdirs.diskPart _ hd j (by omega) (by omega)⟩

/-- **`clear_frames_storage`** frees the pages of the tables. -/
theorem MemOk.clearStorage (h : MemOk lay G D dirs held s) (hd : .heap (p * 4096) ∈ dirs.disk)
    (hk : Fos.clearFramesStorage (p * 4096) 0 1024 s = .ok () t) :
    MemOk lay (G \ storagePages s p) D (dirs.dropDisk (.heap (p * 4096))) held t ∧
      FreesPages (dirs.dropDisk (.heap (p * 4096))) D held
        (tableFrames s (.heap (p * 4096)) {i | i < 955}) s t ∧
      LoosePage dirs.page D held (G \ storagePages s p) t p := by
  obtain ⟨hdrop, hloose⟩ := h.dropStorage hd
  obtain ⟨hok, hf, hp⟩ := hdrop.clearFramesStorage (hloose p (Set.mem_insert _ _)) (by omega)
    (h.storageNames hd) (fun j k q _ _ _ _ => h.directories.storageTables_inj hd) hk
  have hset : tableFrames s (.heap (p * 4096)) {i | i < 955} =
      {q | ∃ j, 0 ≤ j ∧ j < 0 + 1024 ∧ Fos.storageTables s p j = some q} := by
    ext q
    constructor
    · rintro ⟨j, hj, hq⟩
      exact ⟨j,
        Nat.zero_le j, by change j < 955 at hj; omega, (h.directories.storageTables hd).2 ⟨hj, hq⟩⟩
    · rintro ⟨j, -, -, hj⟩
      exact ⟨j, (h.directories.storageTables hd).1 hj⟩
  rw [hset]
  exact ⟨hok, hf, hp⟩

/-- **A storage given back**: the blocks of its tables and of its directory. -/
theorem MemOk.freeStorage (h : MemOk lay G D dirs held s) (hd : .heap (p * 4096) ∈ dirs.disk)
    (hk : (do
      Fos.clearFramesStorage (p * 4096) 0 1024
      Fos.kfree (p * 4096) : K Unit) s = .ok () t) :
    ∃ G', MemOk lay G' D (dirs.dropDisk (.heap (p * 4096))) held t ∧
      FreesPages (dirs.dropDisk (.heap (p * 4096))) D held (storagePages s p) s t := by
  obtain ⟨_, s₁, h₁, h₂⟩ := bind_eq_ok.1 hk
  obtain ⟨hok₁, hf₁, hp₁⟩ := h.clearStorage hd h₁
  obtain ⟨hok₂, hf₂, -⟩ := hok₁.kfreePage hp₁.notOwned hp₁.block hp₁.notInUse h₂
  refine ⟨_, hok₂, ?_⟩
  have hset : storagePages s p = tableFrames s (.heap (p * 4096)) {i | i < 955} ∪ {p} := by
    rw [Set.union_singleton]
    rfl
  rw [hset]
  apply hf₁.trans hf₂
  rintro q rfl ⟨j, hj, hq⟩
  exact h.directories.storageTables_ne hd ((h.directories.storageTables hd).2 ⟨hj, hq⟩)

end

end Fos
